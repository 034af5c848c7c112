import Sideload.Proofs.Document.Linkage
import Sideload.Proofs.Fields.FirstWins
import Sideload.Proofs.Json.Places

/-! # Where findings on identities and pointers lead

The place of a resource leads to it (`at?_placeOf`), and the place of a relationship, written as
places are written, leads to the relationship object (`at?_linkPlace`). A finding on an identity is
at the place of its resource. A finding on a pointer has the name of the relationship as it stands,
so that it is at the place of the relationship only if the name is plain
(`tokens?_danglingFinding_eq_iff`); another name can lead to nothing. -/

namespace Sideload.Document

open Json

/-- The place of the relationship that holds a pointer. -/
def linkPlace (d : Document) (l : Link) : String :=
  Place.member (Place.member (d.placeOf l.owner) "relationships") l.relationship

/-- The relationship object with a linkage. -/
def relationshipJson (linkage : Linkage) : Json := .object [("data", linkage.toJson)]

/-! ### Places of resources and relationships -/

theorem at?_placeOf (d : Document) (i : Nat) :
    d.toJson.at? (d.placeOf i) = d.resources[i]?.map Resource.toJson := by
  have hdata : Place.child? d.toJson "data" = some (.array (d.data.map Resource.toJson)) := rfl
  have hincluded : Place.child? d.toJson "included" =
      some (.array (d.included.map Resource.toJson)) := rfl
  rw [placeOf, resources]
  split
  · next hlt =>
    rw [at?_item, at?_member, at?_empty, Option.bind_some, hdata, Option.bind_some,
      Place.child?_item, List.getElem?_map, List.getElem?_append_left hlt]
  · next hge =>
    rw [at?_item, at?_member, at?_empty, Option.bind_some, hincluded, Option.bind_some,
      Place.child?_item, List.getElem?_map, List.getElem?_append_right (Nat.not_lt.mp hge)]

theorem isSome_tokens?_placeOf (d : Document) (i : Nat) :
    (Place.tokens? (d.placeOf i)).isSome = true := by
  have hempty : Place.tokens? "" = some [] := rfl
  rw [placeOf]
  split <;> rw [Place.item_eq_member, Place.tokens?_member, Place.tokens?_member, hempty] <;> rfl

theorem at?_linkPlace (d : Document) (l : Link) : d.toJson.at? (d.linkPlace l) =
    d.resources[l.owner]?.bind fun r =>
      (Fields.get? r.relationships l.relationship).map relationshipJson := by
  have hrelationships (r : Resource) : Place.child? r.toJson "relationships" =
      some (.object (Fields.mapValues relationshipJson r.relationships)) := rfl
  rw [linkPlace, at?_member, at?_member, at?_placeOf]
  cases d.resources[l.owner]? with
  | none => rfl
  | some r =>
    rw [Option.map_some, Option.bind_some, hrelationships, Option.bind_some, Option.bind_some,
      Place.child?, Fields.get?_mapValues]

theorem danglingFinding_path (d : Document) (l : Link) : (d.danglingFinding l).path =
    Place.member (d.placeOf l.owner) "relationships" ++ "/" ++ l.relationship := by
  have hplain : Place.escape "relationships" = "relationships" := rfl
  have hslash : "/relationships/" = "/" ++ "relationships" ++ "/" := rfl
  rw [Place.member, hplain, danglingFinding, hslash]
  simp only [String.append_assoc]

/-- The name of a relationship stands in a finding as it is. -/
theorem tokens?_danglingFinding_eq_iff (d : Document) (l : Link) :
    Place.tokens? (d.danglingFinding l).path = Place.tokens? (d.linkPlace l) ↔
      Place.Plain l.relationship := by
  rw [danglingFinding_path, linkPlace]
  refine Place.tokens?_append_eq_iff ?_ l.relationship
  rw [Place.tokens?_member, Option.isSome_map]
  exact isSome_tokens?_placeOf d l.owner

/-! ### Places of findings -/

/-- What a finding on identities and pointers is about, and what stands at its place. -/
inductive Located (d : Document) (f : Finding) : Prop
  /-- A resource that is not the first with its identity stands at the place. -/
  | repeated (e : Resource × Nat) (mem : e ∈ d.resources.zipIdx)
      (first : d.firstWith e.1.pointer < e.2) (eq : f = d.repeatedFinding e)
      (place : d.toJson.at? f.path = some e.1.toJson)
  /-- A relationship holds a pointer that leads nowhere. It stands at its own place in the document,
  and the place of the finding reads as this one if its name is plain, and only then. -/
  | dangling (l : Link) (linkage : Linkage) (mem : l ∈ d.links) (missing : d.find? l.target = none)
      (eq : f = d.danglingFinding l) (target : l.target ∈ linkage.pointers)
      (holder : d.toJson.at? (d.linkPlace l) = some (relationshipJson linkage))
      (place : Place.Plain l.relationship → d.toJson.at? f.path = some (relationshipJson linkage))
      (plain : Place.tokens? f.path = Place.tokens? (d.linkPlace l) ↔ Place.Plain l.relationship)

theorem located_repeatedFinding {d : Document} {e : Resource × Nat} (he : e ∈ d.resources.zipIdx)
    (hfirst : d.firstWith e.1.pointer < e.2) : d.Located (d.repeatedFinding e) := by
  refine .repeated e he hfirst rfl ?_
  rw [repeatedFinding, at?_placeOf, List.mem_zipIdx_iff_getElem?.mp he, Option.map_some]

theorem located_danglingFinding {d : Document}
    (h : ∀ r ∈ d.resources, Fields.Distinct r.relationships) {l : Link} (hl : l ∈ d.links)
    (hmissing : l.target ∉ d.resources.map Resource.pointer) : d.Located (d.danglingFinding l) := by
  obtain ⟨r, hr, linkage, hlinkage, htarget⟩ := mem_links_iff.mp hl
  have hget := (h r (List.mem_of_getElem? hr)).get?_of_mem hlinkage
  have hholder : d.toJson.at? (d.linkPlace l) = some (relationshipJson linkage) := by
    rw [at?_linkPlace, hr, Option.bind_some, hget, Option.map_some]
  have htokens := tokens?_danglingFinding_eq_iff d l
  refine .dangling l linkage hl ?_ rfl htarget hholder (fun hplain => ?_) htokens
  · exact Option.isNone_iff_eq_none.mp (isNone_find?_iff.mpr hmissing)
  · rw [at?, htokens.mpr hplain, ← at?, hholder]

/-- **Where the findings on identities and pointers lead.** At the place of a finding on an identity
stands the resource that repeats it. A finding on a pointer is about a relationship that holds the
pointer; what it gives as the place reads as the place of this relationship if the name of the
relationship is plain, and only then. -/
theorem linkageFindings_located (d : Document)
    (h : ∀ r ∈ d.resources, Fields.Distinct r.relationships) :
    ∀ f ∈ d.linkageFindings, d.Located f := by
  intro f hf
  rw [linkageFindings_eq, List.mem_append] at hf
  rcases hf with hf | hf
  · obtain ⟨e, he, rfl⟩ := List.mem_map.mp hf
    obtain ⟨hmem, hfirst⟩ := List.mem_filter.mp he
    exact located_repeatedFinding hmem (of_decide_eq_true hfirst)
  · obtain ⟨l, hl, rfl⟩ := List.mem_map.mp hf
    obtain ⟨hmem, hmissing⟩ := List.mem_filter.mp hl
    exact located_danglingFinding h hmem (of_decide_eq_true hmissing)

/-- A document that has a resource twice and two pointers that lead nowhere. -/
def repeatedAndDangling : Document where
  data := [⟨⟨"u", "1"⟩, [], []⟩]
  included := [⟨⟨"u", "1"⟩, [], [("owner", .one (some ⟨"u", "9"⟩)),
    ("n/~", .many [⟨"u", "1"⟩, ⟨"u", "8"⟩])]⟩]

theorem linkageFindings_located_repeatedAndDangling :
    (∀ r ∈ repeatedAndDangling.resources, Fields.Distinct r.relationships) ∧
    repeatedAndDangling.linkageFindings.map Finding.path =
      ["/included/0", "/included/0/relationships/owner", "/included/0/relationships/n/~"] ∧
    ∀ f ∈ repeatedAndDangling.linkageFindings, repeatedAndDangling.Located f :=
  have hdistinct : ∀ r ∈ repeatedAndDangling.resources, Fields.Distinct r.relationships := by decide
  ⟨hdistinct, by rfl, linkageFindings_located repeatedAndDangling hdistinct⟩

/-- A document with a pointer that leads nowhere, in a relationship with a slash in its name. -/
def slashed : Document where
  data := [⟨⟨"u", "1"⟩, [], [("a/b", .many [⟨"u", "9"⟩])]⟩]

/-- The place of the finding leads to nothing: it reads as a member `b` of a relationship `a`. -/
theorem linkageFindings_slash :
    slashed.linkageFindings =
      [⟨"/data/0/relationships/a/b", "pointer u/9 does not resolve"⟩] ∧
    Place.tokens? "/data/0/relationships/a/b" = some ["data", "0", "relationships", "a", "b"] ∧
    slashed.toJson.at? "/data/0/relationships/a/b" = none ∧
    slashed.toJson.at? "/data/0/relationships/a~1b" =
      some (relationshipJson (.many [⟨"u", "9"⟩])) := by
  refine ⟨?_, ?_, ?_, ?_⟩ <;> rfl

end Sideload.Document
