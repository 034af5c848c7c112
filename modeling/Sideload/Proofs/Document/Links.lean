import Sideload.Proofs.Document.Slots
import Sideload.Proofs.Fields.FirstWins

/-! # What a resource links

The resource of a tree has a relationship for each branch that is shown
(`mem_relationships_resource_iff`), which links what the branch holds: all values, or the first for
a relation to one (`Branch.linkage_eq`). The trees that are handed on as related to it are found in
another way, by the values that are linked (`Branch.linked`); `links_resource` and
`resource_links_related` say that both come to the same, pointer by pointer. -/

namespace Sideload

/-- The identities that a branch links, in the order of its linked values. -/
theorem Branch.pointers_linkage (b : Branch Resolved) :
    b.linkage.pointers = b.linked.map Resolved.pointer := by
  unfold linkage linked
  cases b.cardinality with
  | one => cases b.values <;> rfl
  | many => rfl

/-- The linkage of a relation to some targets: the first of them or nothing, or all of them. -/
def Linkage.of : Cardinality → List Pointer → Linkage
  | .one, targets => .one targets.head?
  | .many, targets => .many targets

theorem Linkage.mem_of_mem_pointers_of {cardinality : Cardinality} {targets : List Pointer}
    {p : Pointer} (h : p ∈ (Linkage.of cardinality targets).pointers) : p ∈ targets := by
  cases cardinality with
  | one => exact List.mem_of_mem_head? (Option.mem_toList.mp h)
  | many => exact h

theorem Branch.linkage_eq (b : Branch Resolved) :
    b.linkage = Linkage.of b.cardinality (b.values.map Resolved.pointer) := by
  unfold linkage
  cases b.cardinality with
  | one => rw [← List.head?_map]; rfl
  | many => rfl

namespace Resolved

/-- A resource has a relationship for each branch that is shown. -/
theorem mem_relationships_resource_iff {empties : EmptyRelations} {t : Resolved} {name : String}
    {l : Linkage} : (name, l) ∈ (t.resource empties).relationships ↔
      ∃ b, (name, b) ∈ t.branches ∧ (empties = .omit → b.isEmpty = false) ∧ l = b.linkage := by
  show (name, l) ∈ Fields.mapValues Branch.linkage (t.shown empties) ↔ _
  unfold Fields.mapValues shown
  simp only [List.mem_map, List.mem_filter, Prod.exists, Prod.mk.injEq]
  constructor
  · rintro ⟨_, b, ⟨hb, hshown⟩, rfl, rfl⟩
    exact ⟨b, hb, fun homit => by simpa [homit] using hshown, rfl⟩
  · rintro ⟨b, hb, hshown, rfl⟩
    refine ⟨name, b, ⟨hb, ?_⟩, rfl, rfl⟩
    by_cases homit : empties = .omit
    · simp [hshown homit]
    · simp [homit]

end Resolved

/-- The links of a resource, each with the name of its relationship, are those of the trees that its
relationships point at. -/
theorem Resolved.links_resource (empties : EmptyRelations) (r : Resolved) :
    ((r.resource empties).relationships.flatMap fun relationship =>
        relationship.2.pointers.map fun p => (relationship.1, p)) =
      (r.related empties).map fun v => (v.1, v.2.pointer) := by
  unfold resource related Fields.mapValues
  rw [List.flatMap_map, List.map_flatMap]
  refine List.flatMap_congr fun branch _ => ?_
  rw [Branch.pointers_linkage, List.map_map, List.map_map]
  rfl

/-- **What a resource links**: the identities of the trees its relationships point at. -/
theorem Resolved.linked_resource (empties : EmptyRelations) (r : Resolved) :
    (r.resource empties).linked = (r.related empties).map fun v => v.2.pointer := by
  have hlinks := congrArg (List.map Prod.snd) (r.links_resource empties)
  simp only [List.map_flatMap, List.map_map, Function.comp_def, List.map_id'] at hlinks
  exact hlinks

theorem Branch.linkage_eq_one_iff (b : Branch Resolved) :
    (∃ target, b.linkage = .one target) ↔ b.cardinality = .one := by
  unfold linkage
  cases b.cardinality <;> simp

/-- A branch has a relationship unless it is empty and empty relations are omitted. -/
theorem Resolved.mem_keys_relationships_resource_iff {empties : EmptyRelations} {r : Resolved}
    (hdistinct : Fields.Distinct r.branches) {name : String} {b : Branch Resolved}
    (hb : (name, b) ∈ r.branches) : name ∈ Fields.keys (r.resource empties).relationships ↔
      (empties = .omit → b.isEmpty = false) := by
  constructor
  · intro hname
    obtain ⟨l, hl⟩ := Fields.exists_mem_of_mem_keys hname
    obtain ⟨b', hb', hshown, -⟩ := mem_relationships_resource_iff.mp hl
    -- the branches of one name are one branch
    have hsame := (hdistinct.get?_of_mem hb).symm.trans (hdistinct.get?_of_mem hb')
    rwa [Option.some.inj hsame]
  · intro hshown
    exact Fields.mem_keys_of_mem (mem_relationships_resource_iff.mpr ⟨b, hb, hshown, rfl⟩)

/-- **What a resource links is what is handed on.** The links of the resource of a tree, each with
the name of its relationship, are the identities of the trees that are related to it, in the same
order. Each relationship is the linkage of the branch of its name, and links one entity or none
exactly if that is a relation to one. A branch has no relationship exactly if it has no values and
empty relations are omitted. -/
theorem Resolved.resource_links_related (empties : EmptyRelations) (r : Resolved)
    (hdistinct : Fields.Distinct r.branches) :
    ((r.resource empties).relationships.flatMap fun relationship =>
        relationship.2.pointers.map fun p => (relationship.1, p)) =
      (r.related empties).map (fun v => (v.1, v.2.pointer)) ∧
    (∀ name l, (name, l) ∈ (r.resource empties).relationships →
      ∃ b, (name, b) ∈ r.branches ∧ l = b.linkage ∧
        ((∃ target, l = .one target) ↔ b.cardinality = .one)) ∧
    ∀ name b, (name, b) ∈ r.branches →
      (name ∉ Fields.keys (r.resource empties).relationships ↔
        b.isEmpty = true ∧ empties = .omit) := by
  refine ⟨r.links_resource empties, fun name l hl => ?_, fun name b hb => ?_⟩
  · obtain ⟨b, hb, -, rfl⟩ := mem_relationships_resource_iff.mp hl
    exact ⟨b, hb, rfl, b.linkage_eq_one_iff⟩
  · rw [mem_keys_relationships_resource_iff hdistinct hb, Classical.not_imp, Bool.not_eq_false,
      and_comm]

/-- A relation to one with two values, one without values, and one to many. -/
theorem Resolved.resource_links_related_first_value :
    let leaf (id : String) : Resolved := .leaf ⟨⟨"u", id⟩, []⟩
    let branch (name : String) (c : Cardinality) (values : List Resolved) :
        String × Branch Resolved := (name, ⟨⟨"p", "1"⟩, name, "u", c, [], values⟩)
    let r : Resolved := .mk ⟨⟨"p", "1"⟩, []⟩
      [branch "author" .one [leaf "2", leaf "3"], branch "editor" .one [],
        branch "readers" .many [leaf "3", leaf "2"]]
    Fields.Distinct r.branches ∧
      (r.related .omit).map (fun v => (v.1, v.2.pointer)) =
        [("author", ⟨"u", "2"⟩), ("readers", ⟨"u", "3"⟩), ("readers", ⟨"u", "2"⟩)] ∧
      "editor" ∉ Fields.keys (r.resource .omit).relationships ∧
      "editor" ∈ Fields.keys (r.resource .keep).relationships := by
  intro leaf branch r
  have hdistinct : Fields.Distinct r.branches := by decide
  have heditor : branch "editor" .one [] ∈ r.branches := by simp [r, branches]
  obtain ⟨hlinks, -, habsent⟩ := resource_links_related .omit r hdistinct
  obtain ⟨-, -, hpresent⟩ := resource_links_related .keep r hdistinct
  refine ⟨hdistinct, hlinks.symm.trans rfl, (habsent _ _ heditor).mpr ⟨rfl, rfl⟩, ?_⟩
  exact not_not.mp fun h => absurd ((hpresent _ _ heditor).mp h).2 (by decide)

end Sideload
