import Sideload.Document.Format

/-! # Checks of a document

A document is sound if its format is right, each identity stands in it once, and every pointer
leads to a resource of it. `Document.linkageFindings` lists what is wrong with identities and
pointers, `Document.findings` what is wrong at all. -/

namespace Sideload.Document

/-- The resources of one member of a document with their places. -/
def placedIn (member : String) (resources : List Resource) : List (String × Resource) :=
  resources.zipIdx.map fun e => (Json.Place.item (Json.Place.member "" member) e.2, e.1)

/-- All resources with their places, in order. -/
def placed (d : Document) : List (String × Resource) :=
  placedIn "data" d.data ++ placedIn "included" d.included

/-- The resources whose identity has stood before, and where each identity stands first; `seen`
tells where it has been seen so far. -/
def repeated (seen : Pointer → Option String) :
    List (String × Resource) → List Finding × (Pointer → Option String)
  | [] => ([], seen)
  | (place, r) :: rs =>
    match seen r.pointer with
    | some first =>
      let (findings, places) := repeated seen rs
      let message := "duplicate resource " ++ r.pointer.text ++ ", first at " ++ first
      (⟨place, message⟩ :: findings, places)
    | none => repeated (fun p => if p = r.pointer then some place else seen p) rs

/-- The pointers of a resource to identities that have not been seen anywhere. -/
def danglingFrom (seen : Pointer → Option String) (place : String) (r : Resource) : List Finding :=
  r.relationships.flatMap fun relationship =>
    (relationship.2.pointers.filter fun p => (seen p).isNone).map fun p =>
      ⟨place ++ "/relationships/" ++ relationship.1, "pointer " ++ p.text ++ " does not resolve"⟩

/-- What is wrong with the identities and the pointers of a document: identities first, then
pointers. -/
def linkageFindings (d : Document) : List Finding :=
  let identities := repeated (fun _ => none) d.placed
  identities.1 ++ d.placed.flatMap fun e => danglingFrom identities.2 e.1 e.2

/-- What is wrong with a document. Identities and pointers are looked at if the format is right. -/
def findings (d : Document) : List Finding :=
  match formatFindings d.toJson with
  | [] => d.linkageFindings
  | wrong => wrong

end Sideload.Document
