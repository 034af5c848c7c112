import Sideload.Document.Check
import Sideload.Proofs.Document.Format
import Sideload.Proofs.Document.Identities

/-! # What the check finds wrong with documents

In the JSON form of a document nothing can be wrong but attributes that are named like a part of the
identity; there is one finding for each resource that has some (`formatFindings_toJson`). Identities
and pointers are right if no identity repeats and every pointer leads to one
(`linkageFindings_eq_nil_iff`).

Assembled documents have the second property whatever they are assembled from, so the check finds
the first kind of fault in them and no other (`findings_assemble`). -/

namespace Sideload

open Document Schema

/-- What is found wrong with a resource at a place whose attributes repeat the identity. -/
def Resource.identityFinding (place : String) (r : Resource) : Finding :=
  ⟨Json.Place.member place "attributes",
    (anyOf [.required ["id"], .required ["type"]]).toJson.compact ++ " is not allowed for " ++
      (Json.object r.attributes).compact⟩

namespace Document

/-! ### The format -/

/-- An object that has just the required members has the faults of its members. -/
theorem findings_closedObject {named : Fields Schema} {members : Fields Json}
    (hkeys : Fields.keys members = Fields.keys named) (place : String) :
    (closedObject named).findings place (.object members) = members.flatMap fun member =>
      ((Fields.get? named member.1).map fun s =>
        s.findings (Json.Place.member place member.1) member.2).getD [] := by
  have hrequired : (named.map Prod.fst).filter (fun name => (Fields.get? members name).isNone) =
      [] := by
    refine List.filter_eq_nil_iff.mpr fun name hname => ?_
    rw [Option.isNone_iff_eq_none, Fields.get?_eq_none_iff, not_not, hkeys]
    exact hname
  have hunnamed : unnamed named members = [] :=
    unnamed_eq_nil_iff.mpr fun member hm => hkeys ▸ Fields.mem_keys_of_mem hm
  simp only [closedObject, Schema.findings, findingsAll, Json.kind, if_true, hrequired, hunnamed,
    unexpected, findingsNamed_eq, findingsOther, Option.isNone_none, List.map_nil, List.nil_append,
    List.append_nil]

theorem findings_attributesFormat (place : String) (r : Resource) :
    attributesFormat.findings (Json.Place.member place "attributes") (.object r.attributes) =
      if r.RepeatsIdentity then [r.identityFinding place] else [] := by
  have hvalid : (anyOf [.required ["id"], .required ["type"]]).isValid (.object r.attributes) =
      true ↔ r.RepeatsIdentity := by
    unfold Resource.RepeatsIdentity
    rw [← Fields.isSome_get?_iff, ← Fields.isSome_get?_iff]
    simp [isValid, countValid, Nat.pos_iff_ne_zero, Option.isSome_iff_ne_none]
  simp only [attributesFormat, Schema.findings, findingsAll, Json.kind, if_true, hvalid,
    List.nil_append, List.append_nil]
  rfl

theorem findings_resourceFormat (place : String) (r : Resource) :
    resourceFormat.findings place r.toJson =
      if r.RepeatsIdentity then [r.identityFinding place] else [] := by
  have hrelationships : ∀ place : String, relationshipsFormat.findings place (.object
      (Fields.mapValues (fun l => .object [("data", l.toJson)]) r.relationships)) = [] :=
    fun _ => (findings_eq_nil_iff _ _ _).mpr
      (describes_relationships.valid ⟨r.relationships, .refl _⟩)
  rw [resourceFormat, Resource.toJson, findings_closedObject rfl]
  simp [Fields.get?, hrelationships, findings_attributesFormat, Schema.findings, Json.kind]

theorem findings_resourcesFormat (part : String) (rs : List Resource) :
    resourcesFormat.findings (Json.Place.member "" part) (.array (rs.map Resource.toJson)) =
      ((placedIn part rs).filter fun e => e.2.RepeatsIdentity).map fun e =>
        e.2.identityFinding e.1 := by
  unfold resourcesFormat placedIn
  simp only [Schema.findings, findingsAll, Json.kind, if_true, List.nil_append, List.append_nil]
  rw [List.zipIdx_map, List.flatMap_map, List.filter_map, List.map_map]
  simp only [Prod.map_fst, Prod.map_snd, findings_resourceFormat]
  exact flatMap_ite_singleton _ _ _

/-- **Documents have the right format**, but for attributes that repeat the identity. -/
theorem formatFindings_toJson (d : Document) : formatFindings d.toJson =
    (d.placed.filter fun e => e.2.RepeatsIdentity).map fun e => e.2.identityFinding e.1 := by
  unfold formatFindings placed
  rw [List.filter_append, List.map_append, ← findings_resourcesFormat, ← findings_resourcesFormat,
    format, toJson, findings_closedObject rfl]
  simp [Fields.get?]

/-! ### Identities and pointers -/

theorem repeated_eq_nil_iff : ∀ {rs : List (String × Resource)} {seen : Pointer → Option String},
    (repeated seen rs).1 = [] ↔ (∀ e ∈ rs, seen e.2.pointer = none) ∧
      (rs.map fun e => e.2.pointer).Nodup
  | [], _ => by simp [repeated]
  | (place, r) :: rs, seen => by
    rw [repeated]
    cases hseen : seen r.pointer with
    | some first => simp [hseen]
    | none =>
      have hfresh : ∀ e : String × Resource,
          (if e.2.pointer = r.pointer then some place else seen e.2.pointer) = none ↔
            e.2.pointer ≠ r.pointer ∧ seen e.2.pointer = none := by
        intro e
        split
        · next he => simp [he]
        · next he => simp [he]
      simp only [repeated_eq_nil_iff, hfresh, List.map_cons, List.nodup_cons, List.forall_mem_cons,
        hseen, true_and, forall₂_and, List.mem_map, not_exists, not_and]
      tauto

/-- An identity has not been seen in the end if it was not seen before, and no resource has it. -/
theorem isNone_repeated_iff {p : Pointer} : ∀ {rs : List (String × Resource)}
    {seen : Pointer → Option String}, ((repeated seen rs).2 p).isNone = true ↔
      (seen p).isNone = true ∧ p ∉ rs.map fun e => e.2.pointer
  | [], _ => by simp [repeated]
  | (place, r) :: rs, seen => by
    rw [repeated, List.map_cons, List.mem_cons, not_or]
    cases hseen : seen r.pointer with
    | some first =>
      have hne : (seen p).isNone = true → p ≠ r.pointer := by
        rintro hp rfl
        rw [hseen] at hp
        cases hp
      rw [isNone_repeated_iff]
      exact ⟨fun h => ⟨h.1, hne h.1, h.2⟩, fun h => ⟨h.1, h.2.2⟩⟩
    | none =>
      rw [isNone_repeated_iff]
      by_cases hp : p = r.pointer
      · simp [hp]
      · simp [hp]

theorem map_snd_placed (d : Document) : d.placed.map Prod.snd = d.resources := by
  have hpart : ∀ part rs, (placedIn part rs).map Prod.snd = rs := by
    intro part rs
    unfold placedIn
    rw [List.map_map]
    exact List.zipIdx_map_fst 0 rs
  rw [placed, List.map_append, hpart, hpart, resources]

theorem map_pointer_placed (d : Document) :
    (d.placed.map fun e => e.2.pointer) = d.resources.map Resource.pointer := by
  rw [← map_snd_placed, List.map_map]
  rfl

/-- The identities that have been seen are those of the resources. -/
theorem isNone_repeated_placed_iff {d : Document} {p : Pointer} :
    ((repeated (fun _ => none) d.placed).2 p).isNone = true ↔
      p ∉ d.resources.map Resource.pointer := by
  rw [isNone_repeated_iff, map_pointer_placed, Option.isNone_none]
  exact and_iff_right rfl

theorem isNone_find?_iff {d : Document} {p : Pointer} :
    (d.find? p).isNone = true ↔ p ∉ d.resources.map Resource.pointer := by
  rw [find?, Option.isNone_iff_eq_none, List.find?_eq_none]
  simp

/-- Nothing is wrong with identities and pointers if no identity stands twice in a document, and
all that is linked stands in it. -/
theorem linkageFindings_eq_nil_iff (d : Document) : d.linkageFindings = [] ↔
    (d.resources.map Resource.pointer).Nodup ∧
      ∀ r ∈ d.resources, ∀ p ∈ r.linked, p ∈ d.resources.map Resource.pointer := by
  have hdangling : ∀ place r, danglingFrom (repeated (fun _ => none) d.placed).2 place r = [] ↔
      ∀ p ∈ r.linked, p ∈ d.resources.map Resource.pointer := by
    intro place r
    simp only [danglingFrom, Resource.linked, List.flatMap_eq_nil_iff, List.map_eq_nil_iff,
      List.filter_eq_nil_iff, isNone_repeated_placed_iff, not_not, List.forall_mem_flatMap]
  rw [linkageFindings, List.append_eq_nil_iff, repeated_eq_nil_iff, map_pointer_placed,
    List.flatMap_eq_nil_iff, ← map_snd_placed d, List.forall_mem_map]
  simp only [hdangling, map_snd_placed, implies_true, true_and]

end Document

/-! ### Assembled documents -/

theorem linkageFindings_assemble (empties : EmptyRelations) (roots : List Resolved) :
    (assemble empties roots).linkageFindings = [] :=
  (linkageFindings_eq_nil_iff _).mpr ⟨nodup_map_pointer_resources empties roots,
    fun _ hr _ hp => mem_map_pointer_of_mem_linked hr hp⟩

/-- The places of the findings, resource by resource of a part of a document. -/
theorem map_path_identityFinding {part front : String}
    (h : Json.Place.member "" part ++ "/" = front) (rs : List Resource) :
    (((placedIn part rs).filter fun e => e.2.RepeatsIdentity).map fun e =>
        (e.2.identityFinding e.1).path) =
      (rs.zipIdx.filter fun e => e.1.RepeatsIdentity).map fun e =>
        front ++ Decimal.integerText e.2 ++ "/attributes" := by
  have hattributes : "/" ++ Json.Place.escape "attributes" = "/attributes" := by decide
  have hplace : ∀ i : Nat, Json.Place.member (Json.Place.item (Json.Place.member "" part) i)
      "attributes" = front ++ Decimal.integerText i ++ "/attributes" := by
    intro i
    rw [← h, ← hattributes, ← String.append_assoc]
    rfl
  rw [placedIn, List.filter_map, List.map_map]
  exact List.map_congr_left fun e _ => hplace e.2

/-- **What is assembled passes the check, with one exception**: attributes that are named like a
part of the identity. There is one finding for each resource that has some, at its attributes. -/
theorem findings_assemble (empties : EmptyRelations) (roots : List Resolved) :
    let d := assemble empties roots
    (d.findings = [] ↔ ∀ r ∈ d.resources, ¬ r.RepeatsIdentity) ∧
      d.findings.map Finding.path =
        ((d.data.zipIdx.filter fun e => e.1.RepeatsIdentity).map fun e =>
          "/data/" ++ Decimal.integerText e.2 ++ "/attributes") ++
        (d.included.zipIdx.filter fun e => e.1.RepeatsIdentity).map fun e =>
          "/included/" ++ Decimal.integerText e.2 ++ "/attributes" := by
  intro d
  have hfindings : Document.findings d = formatFindings d.toJson := by
    unfold Document.findings
    rw [linkageFindings_assemble]
    split
    · next h => exact h.symm
    · rfl
  rw [hfindings, formatFindings_toJson]
  constructor
  · rw [List.map_eq_nil_iff, List.filter_eq_nil_iff, ← map_snd_placed d, List.forall_mem_map]
    simp only [decide_eq_true_iff]
  · rw [List.map_map]
    show (d.placed.filter _).map (fun e => (e.2.identityFinding e.1).path) = _
    have hdata : Json.Place.member "" "data" ++ "/" = "/data/" := by decide
    have hincluded : Json.Place.member "" "included" ++ "/" = "/included/" := by decide
    rw [placed, List.filter_append, List.map_append, map_path_identityFinding hdata,
      map_path_identityFinding hincluded]

end Sideload
