import Sideload.Proofs.Document.Encounters
import Sideload.Proofs.Fields.FirstWins

/-! # Merged resources

While a document is made it is a map from identities to resources (`Assembly.resource?`). To meet a
resource is to merge it into what the map has for its identity, wherever that stands
(`resource?_meet`); all other resources stay. So the resource of an identity is the first that was
met with it, merged with the later ones in order (`Resource.mergeAll`, `mergeAll_of_mem_assemble`).

`assemble_firstWins`: the attributes of a resource are those of all encounters of its identity, and
so are its relationships; for each name, the first encounter that has it wins. -/

namespace Sideload

open Document Resolved

namespace Resource

/-- A resource with what is there for its identity. -/
def into (r : Resource) (found : Option Resource) : Resource := found.elim r (·.merge r)

/-- The first of some resources, with what the later ones add. -/
def mergeAll : List Resource → Option Resource
  | [] => none
  | r :: rs => some (rs.foldl merge r)

theorem foldl_into (rs : List Resource) (found : Option Resource) :
    rs.foldl (fun found r => some (r.into found)) found = mergeAll (found.toList ++ rs) := by
  induction rs generalizing found with
  | nil => cases found <;> rfl
  | cons r rs ih =>
    rw [List.foldl_cons, ih]
    cases found <;> rfl

theorem pointer_foldl_merge (r : Resource) (rs : List Resource) :
    (rs.foldl merge r).pointer = r.pointer := by
  induction rs generalizing r with
  | nil => rfl
  | cons s rs ih => exact ih (r.merge s)

theorem attributes_foldl_merge (r : Resource) (rs : List Resource) :
    (rs.foldl merge r).attributes = (rs.map attributes).foldl Fields.union r.attributes := by
  induction rs generalizing r with
  | nil => rfl
  | cons s rs ih => exact ih (r.merge s)

theorem relationships_foldl_merge (r : Resource) (rs : List Resource) :
    (rs.foldl merge r).relationships =
      (rs.map relationships).foldl Fields.union r.relationships := by
  induction rs generalizing r with
  | nil => rfl
  | cons s rs ih => exact ih (r.merge s)

section MergeAll
variable {rs : List Resource} {r : Resource} (h : mergeAll rs = some r)
include h

theorem exists_cons_of_mergeAll : ∃ s rest, rs = s :: rest ∧
    r.attributes = (rest.map attributes).foldl Fields.union s.attributes ∧
    r.relationships = (rest.map relationships).foldl Fields.union s.relationships := by
  cases rs with
  | nil => cases h
  | cons s rest =>
    obtain rfl := Option.some.inj h
    exact ⟨s, rest, rfl, attributes_foldl_merge s rest, relationships_foldl_merge s rest⟩

theorem firstWins_attributes_of_mergeAll (hdistinct : ∀ s ∈ rs, Fields.Distinct s.attributes) :
    Fields.FirstWins r.attributes (rs.map attributes) := by
  obtain ⟨s, rest, rfl, hattributes, -⟩ := exists_cons_of_mergeAll h
  rw [hattributes]
  exact Fields.firstWins_foldl_union (hdistinct s List.mem_cons_self) _

theorem firstWins_relationships_of_mergeAll
    (hdistinct : ∀ s ∈ rs, Fields.Distinct s.relationships) :
    Fields.FirstWins r.relationships (rs.map relationships) := by
  obtain ⟨s, rest, rfl, -, hrelationships⟩ := exists_cons_of_mergeAll h
  rw [hrelationships]
  exact Fields.firstWins_foldl_union (hdistinct s List.mem_cons_self) _

end MergeAll

end Resource

namespace Assembly

/-- The resource of an identity that has been met. -/
def resource? (a : Assembly) (p : Pointer) : Option Resource :=
  (a.slot? p).bind fun slot => (a.document.part slot.part)[slot.index]?

/-! ### Slots and resources -/

section Exact
variable {a : Assembly} (ha : a.Exact)
include ha

theorem Exact.exists_resource {p : Pointer} {slot : Slot} (h : a.slot? p = some slot) :
    ∃ s, (a.document.part slot.part)[slot.index]? = some s ∧ s.pointer = p := by
  have hp := (ha p slot).mp h
  unfold pointers at hp
  rw [List.getElem?_map, Option.map_eq_some_iff] at hp
  exact hp

theorem Exact.resource?_of_mem {part : Part} {r : Resource} (h : r ∈ a.document.part part) :
    a.resource? r.pointer = some r := by
  obtain ⟨i, hi⟩ := List.mem_iff_getElem?.mp h
  have hslot : a.slot? r.pointer = some ⟨part, i⟩ := by
    rw [ha]
    unfold pointers
    rw [List.getElem?_map, hi]
    rfl
  unfold resource?
  rw [hslot]
  exact hi

theorem Exact.eq_of_slot? {p q : Pointer} {slot : Slot} (hp : a.slot? p = some slot)
    (hq : a.slot? q = some slot) : p = q :=
  Option.some.inj (((ha p slot).mp hp).symm.trans ((ha q slot).mp hq))

omit ha in
theorem getElem?_part_merge (slot other : Slot) (r : Resource) :
    ((a.merge slot r).document.part other.part)[other.index]? =
      if slot = other then (a.document.part other.part)[other.index]?.map (·.merge r)
      else (a.document.part other.part)[other.index]? := by
  obtain ⟨part, i⟩ := slot
  obtain ⟨part', j⟩ := other
  unfold merge
  rw [part_alter]
  by_cases hpart : part = part'
  · subst hpart
    rw [if_pos rfl, List.getElem?_modify]
    by_cases hi : i = j <;> simp [hi]
  · simp [hpart]

theorem Exact.resource?_meet_of_some (part : Part) {r : Resource} {slot : Slot}
    (h : a.slot? r.pointer = some slot) (p : Pointer) : (a.meet part r).resource? p =
      if p = r.pointer then some (r.into (a.resource? p)) else a.resource? p := by
  have hmeet : a.meet part r = a.merge slot r := by unfold Assembly.meet; rw [h]
  have hslot : (a.merge slot r).slot? p = a.slot? p := rfl
  rw [hmeet]
  unfold resource?
  rw [hslot]
  by_cases hp : p = r.pointer
  · subst hp
    obtain ⟨s, hs, -⟩ := ha.exists_resource h
    rw [if_pos rfl, h, Option.bind_some, Option.bind_some, getElem?_part_merge, if_pos rfl, hs]
    rfl
  · rw [if_neg hp]
    cases hq : a.slot? p with
    | none => rfl
    | some other =>
      -- another identity stands at another slot
      have hne : slot ≠ other := by
        rintro rfl
        exact hp (ha.eq_of_slot? hq h)
      rw [Option.bind_some, Option.bind_some, getElem?_part_merge, if_neg hne]

theorem Exact.resource?_meet_of_none (part : Part) {r : Resource} (h : a.slot? r.pointer = none)
    (p : Pointer) : (a.meet part r).resource? p =
      if p = r.pointer then some (r.into (a.resource? p)) else a.resource? p := by
  have hslot : (a.meet part r).slot? p =
      if p = r.pointer then some ⟨part, (a.document.part part).length⟩ else a.slot? p := by
    unfold Assembly.meet; rw [h]
  have hpart : ∀ q, (a.meet part r).document.part q =
      if part = q then a.document.part q ++ [r] else a.document.part q := by
    intro q
    unfold Assembly.meet
    rw [h, part_alter]
  unfold resource?
  rw [hslot]
  by_cases hp : p = r.pointer
  · subst hp
    rw [if_pos rfl, if_pos rfl, h, Option.bind_some, hpart, if_pos rfl, List.getElem?_concat_length]
    rfl
  · rw [if_neg hp, if_neg hp]
    cases hq : a.slot? p with
    | none => rfl
    | some other =>
      -- the new resource stands behind the one at this slot
      obtain ⟨s, hs, -⟩ := ha.exists_resource hq
      obtain ⟨hlt, -⟩ := List.getElem?_eq_some_iff.mp hs
      rw [Option.bind_some, Option.bind_some, hpart]
      split
      · exact List.getElem?_append_left hlt
      · rfl

/-- **Meeting a resource** changes what the document has for its identity, and nothing else. -/
theorem Exact.resource?_meet (part : Part) (r : Resource) (p : Pointer) :
    (a.meet part r).resource? p =
      if p = r.pointer then some (r.into (a.resource? p)) else a.resource? p := by
  cases h : a.slot? r.pointer with
  | some slot => exact ha.resource?_meet_of_some part h p
  | none => exact ha.resource?_meet_of_none part h p

end Exact

/-- Meeting resources one after the other merges those of each identity. -/
theorem resource?_foldl_meet (part : Part) (p : Pointer) : ∀ (rs : List Resource) (a : Assembly),
    a.Exact → (rs.foldl (meet part) a).resource? p =
      (rs.filter fun r => r.pointer = p).foldl (fun found r => some (r.into found)) (a.resource? p)
  | [], _, _ => rfl
  | r :: rs, a, ha => by
    rw [List.foldl_cons, resource?_foldl_meet part p rs _ (ha.meet part r), ha.resource?_meet]
    by_cases hp : p = r.pointer
    · rw [if_pos hp, List.filter_cons_of_pos (by simpa using hp.symm), List.foldl_cons]
    · rw [if_neg hp, List.filter_cons_of_neg (by simpa using Ne.symm hp)]

end Assembly

/-! ### Resources and encounters -/

/-- **A resource is merged from the encounters of its identity.** -/
theorem mergeAll_of_mem_assemble {empties : EmptyRelations} {roots : List Resolved} {r : Resource}
    (h : r ∈ (assemble empties roots).resources) :
    Resource.mergeAll ((encountersOf r.pointer roots).map (Resolved.resource empties)) =
      some r := by
  rw [assemble_eq_foldl] at h
  set met := roots.map (Resolved.resource empties)
  set walked := (roots.flatMap Resolved.descendants).map (Resolved.resource empties)
  set seeded := met.foldl (Assembly.meet .data) {}
  have hseeded : seeded.Exact := (Assembly.pointers_foldl_meet .data met {} .empty).1
  have hwalked : (walked.foldl (Assembly.meet .included) seeded).Exact :=
    (Assembly.pointers_foldl_meet .included walked seeded hseeded).1
  have hfound : (walked.foldl (Assembly.meet .included) seeded).resource? r.pointer = some r := by
    rcases List.mem_append.mp h with h | h
    · exact hwalked.resource?_of_mem (show r ∈ Document.part _ .data from h)
    · exact hwalked.resource?_of_mem (show r ∈ Document.part _ .included from h)
  have hmerged : Resource.mergeAll ((met ++ walked).filter fun s => s.pointer = r.pointer) =
      some r := by
    rw [← hfound, Assembly.resource?_foldl_meet .included _ walked seeded hseeded,
      Assembly.resource?_foldl_meet .data _ met {} .empty, ← List.foldl_append,
      ← List.filter_append, Resource.foldl_into]
    rfl
  rw [← hmerged, ← List.map_append, List.filter_map]
  rfl

theorem Document.mem_resources_of_mem_part {d : Document} {part : Part} {r : Resource}
    (h : r ∈ d.part part) : r ∈ d.resources := by
  cases part with
  | data => exact List.mem_append_left _ h
  | included => exact List.mem_append_right _ h

theorem Document.eq_of_part_eq {d d' : Document} (h : ∀ part, d.part part = d'.part part) :
    d = d' := by
  obtain ⟨data, included⟩ := d
  exact congrArg₂ Document.mk (h .data) (h .included)

/-- **Documents are compared identity by identity**: if the same identities stand in a part of both,
then what the merged encounters of each identity agree on, the parts agree on. -/
theorem map_part_eq {α : Type} {f g : Resource → α} {empties empties' : EmptyRelations}
    {roots roots' : List Resolved} {part : Part}
    (hpointers : (assemble empties roots).pointers part = (assemble empties' roots').pointers part)
    (hmerged : ∀ p, (Resource.mergeAll ((encountersOf p roots).map (resource empties))).map f =
      (Resource.mergeAll ((encountersOf p roots').map (resource empties'))).map g) :
    ((assemble empties roots).part part).map f = ((assemble empties' roots').part part).map g := by
  refine List.ext_getElem? fun i => ?_
  have hi : ((assemble empties roots).part part)[i]?.map Resource.pointer =
      ((assemble empties' roots').part part)[i]?.map Resource.pointer := by
    simpa only [pointers, List.getElem?_map] using congrArg (·[i]?) hpointers
  rw [List.getElem?_map, List.getElem?_map]
  cases hr : ((assemble empties roots).part part)[i]? with
  | none =>
    rw [hr, Option.map_none, eq_comm, Option.map_eq_none_iff] at hi
    rw [hi]
    rfl
  | some r =>
    rw [hr, Option.map_some, eq_comm, Option.map_eq_some_iff] at hi
    obtain ⟨s, hs, hp⟩ := hi
    have hr' := mergeAll_of_mem_assemble (mem_resources_of_mem_part (List.mem_of_getElem? hr))
    have hs' := mergeAll_of_mem_assemble (mem_resources_of_mem_part (List.mem_of_getElem? hs))
    rw [hs, ← hr', ← hs', hp]
    exact hmerged r.pointer

theorem get?_attributes_of_mem_assemble {empties : EmptyRelations} {roots : List Resolved}
    {r : Resource} (h : r ∈ (assemble empties roots).resources) (k : String) :
    Fields.get? r.attributes k =
      (encountersOf r.pointer roots).findSome? fun t => Fields.get? t.entity.attributes k := by
  obtain ⟨s, rest, hcons, hattributes, -⟩ :=
    Resource.exists_cons_of_mergeAll (mergeAll_of_mem_assemble h)
  rw [hattributes, Fields.get?_foldl_union, ← List.map_cons, ← hcons, List.findSome?_map,
    List.findSome?_map]
  rfl

theorem mem_relationships_of_mem_assemble {empties : EmptyRelations} {roots : List Resolved}
    {r : Resource} (h : r ∈ (assemble empties roots).resources) {name : String} {l : Linkage}
    (hl : (name, l) ∈ r.relationships) :
    ∃ t ∈ encountersOf r.pointer roots, (name, l) ∈ (t.resource empties).relationships := by
  obtain ⟨s, rest, hcons, -, hrelationships⟩ :=
    Resource.exists_cons_of_mergeAll (mergeAll_of_mem_assemble h)
  rw [hrelationships] at hl
  obtain ⟨fs, hfs, hl⟩ := Fields.mem_foldl_union hl
  rw [← List.map_cons, ← hcons, List.map_map, List.mem_map] at hfs
  obtain ⟨t, ht, rfl⟩ := hfs
  exact ⟨t, ht, hl⟩

theorem mem_keys_relationships_assemble_iff {empties : EmptyRelations} {roots : List Resolved}
    {r : Resource} (h : r ∈ (assemble empties roots).resources) {name : String} :
    name ∈ Fields.keys r.relationships ↔ ∃ t ∈ encountersOf r.pointer roots,
      name ∈ Fields.keys (t.resource empties).relationships := by
  obtain ⟨s, rest, hcons, -, hrelationships⟩ :=
    Resource.exists_cons_of_mergeAll (mergeAll_of_mem_assemble h)
  rw [hrelationships, Fields.mem_keys_foldl_union_iff, ← List.map_cons, ← hcons]
  simp only [List.map_map, List.mem_map, exists_exists_and_eq_and, Function.comp_apply]

theorem exists_mem_encountersOf {empties : EmptyRelations} {roots : List Resolved} {r : Resource}
    (h : r ∈ (assemble empties roots).resources) : ∃ t, t ∈ encountersOf r.pointer roots := by
  obtain ⟨s, rest, hcons, -⟩ := Resource.exists_cons_of_mergeAll (mergeAll_of_mem_assemble h)
  obtain ⟨t, ts, ht, -⟩ := List.map_eq_cons_iff.mp hcons
  exact ⟨t, ht ▸ List.mem_cons_self⟩

/-- No attribute and no branch has the name of another one. -/
def Resolved.Distinct (t : Resolved) : Prop :=
  Fields.Distinct t.entity.attributes ∧ Fields.Distinct t.branches

theorem Resolved.Distinct.relationships {t : Resolved} (h : t.Distinct) (empties : EmptyRelations) :
    Fields.Distinct (t.resource empties).relationships := by
  unfold Fields.Distinct
  rw [show (t.resource empties).relationships =
    Fields.mapValues Branch.linkage (t.shown empties) from rfl, Fields.keys_mapValues]
  exact h.2.filter _

/-- **Nothing is lost or overwritten by merging.** The attributes of a resource are those of all
encounters of its identity, each at the place and with the value of the first encounter that has
it; and so are its relationships. -/
theorem assemble_firstWins (empties : EmptyRelations) (roots : List Resolved)
    (hdistinct : ∀ t ∈ encounters roots, t.Distinct) :
    ∀ r ∈ (assemble empties roots).resources,
      Fields.FirstWins r.attributes
        ((encountersOf r.pointer roots).map fun t => t.entity.attributes) ∧
      Fields.FirstWins r.relationships
        ((encountersOf r.pointer roots).map fun t => (t.resource empties).relationships) := by
  intro r hr
  have hmerged := mergeAll_of_mem_assemble hr
  have hof : ∀ s ∈ (encountersOf r.pointer roots).map (Resolved.resource empties),
      Fields.Distinct s.attributes ∧ Fields.Distinct s.relationships := by
    intro s hs
    obtain ⟨t, ht, rfl⟩ := List.mem_map.mp hs
    have htree := hdistinct t (mem_encountersOf.mp ht).1
    exact ⟨htree.1, htree.relationships empties⟩
  have hattributes := Resource.firstWins_attributes_of_mergeAll hmerged fun s hs => (hof s hs).1
  have hrelationships :=
    Resource.firstWins_relationships_of_mergeAll hmerged fun s hs => (hof s hs).2
  rw [List.map_map] at hattributes hrelationships
  exact ⟨hattributes, hrelationships⟩

/-- An identity that is a root twice and is linked below the first as well: its encounters disagree
on `x`, and each of them brings a name of its own. -/
theorem assemble_firstWins_disagreement :
    let again : Resolved := .mk ⟨⟨"a", "1"⟩, [("x", .bool false), ("z", .null)]⟩
      [("s", ⟨⟨"a", "1"⟩, "s", "a", .one, [], []⟩)]
    let first : Resolved := .mk ⟨⟨"a", "1"⟩, [("x", .bool true)]⟩
      [("r", ⟨⟨"a", "1"⟩, "r", "a", .many, [], [again]⟩)]
    let roots : List Resolved := [first, .leaf ⟨⟨"a", "1"⟩, [("v", .null)]⟩]
    (∀ t ∈ encounters roots, t.Distinct) ∧ ∀ r ∈ (assemble .keep roots).resources,
      r.pointer = ⟨"a", "1"⟩ → Fields.keys r.attributes = ["x", "v", "z"] ∧
        Fields.get? r.attributes "x" = some (.bool true) ∧
        Fields.keys r.relationships = ["r", "s"] := by
  intro again first roots
  have hmet : encounters roots = [first, .leaf ⟨⟨"a", "1"⟩, [("v", .null)]⟩, again] := rfl
  have hdistinct : ∀ t ∈ encounters roots, t.Distinct := by
    rw [hmet]
    simp [first, again, Resolved.leaf, Resolved.Distinct, Resolved.entity, Resolved.branches,
      Fields.Distinct, Fields.keys]
  refine ⟨hdistinct, fun r hr hp => ?_⟩
  obtain ⟨hattributes, hrelationships⟩ := assemble_firstWins .keep roots hdistinct r hr
  rw [hp] at hattributes hrelationships
  exact ⟨hattributes.keys_eq.trans rfl, (hattributes.get?_eq "x").trans rfl,
    hrelationships.keys_eq.trans rfl⟩

end Sideload
