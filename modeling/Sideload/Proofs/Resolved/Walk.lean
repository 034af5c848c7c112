import Sideload.Document.Assembly

/-! # The walk below a root

`descendants r` lists everything that is linked below the root of `r`, depth first: each linked
value, and then what is linked below it. A relation to many is followed to all its values, a
relation to one to its first value only.

* `descendants_eq_flatMap`: the walk goes through what the relationships of a resource point at,
  and what becomes of empty relations makes no difference to it.
* `mem_descendants_trans`: whatever a relationship met on the walk points at is met on the walk.

The `encounters` of an assembly are its roots and then everything on the walk below each of them. -/

namespace Sideload.Resolved

mutual

/-- Everything linked below the root of a tree, in pre-order. -/
def descendants : Resolved → List Resolved
  | mk _ branches => alongBranches branches

/-- Everything linked along some branches. -/
def alongBranches : List (String × Branch Resolved) → List Resolved
  | [] => []
  | (_, b) :: branches => alongBranch b ++ alongBranches branches

/-- Everything linked along one branch. -/
def alongBranch : Branch Resolved → List Resolved
  | ⟨_, _, _, .one, _, values⟩ => upToFirst values
  | ⟨_, _, _, .many, _, values⟩ => throughAll values

/-- The first value and everything below it. -/
def upToFirst : List Resolved → List Resolved
  | [] => []
  | v :: _ => v :: descendants v

/-- All values, each with everything below it. -/
def throughAll : List Resolved → List Resolved
  | [] => []
  | v :: values => v :: (descendants v ++ throughAll values)

end

/-! ### The walk as one pass over the linked values -/

theorem throughAll_eq : ∀ values : List Resolved,
    throughAll values = values.flatMap fun v => v :: descendants v
  | [] => by rw [throughAll, List.flatMap_nil]
  | v :: values => by
    rw [throughAll, throughAll_eq values, List.flatMap_cons, List.cons_append]

theorem alongBranch_eq (b : Branch Resolved) :
    alongBranch b = b.linked.flatMap fun v => v :: descendants v := by
  obtain ⟨source, relation, targetType, cardinality, columns, values⟩ := b
  cases cardinality with
  | one => cases values <;> simp [alongBranch, upToFirst, Branch.linked]
  | many => rw [alongBranch, throughAll_eq]; rfl

theorem alongBranches_eq : ∀ branches : List (String × Branch Resolved),
    alongBranches branches =
      branches.flatMap fun branch => branch.2.linked.flatMap fun v => v :: descendants v
  | [] => by rw [alongBranches, List.flatMap_nil]
  | (name, b) :: branches => by
    rw [alongBranches, alongBranch_eq, alongBranches_eq branches, List.flatMap_cons]

/-- A branch that a document leaves out links nothing. -/
theorem linked_eq_nil_of_isEmpty {b : Branch Resolved} (h : b.isEmpty = true) : b.linked = [] := by
  have hv : b.values = [] := List.isEmpty_iff.mp h
  unfold Branch.linked
  split
  · rw [hv, List.take_nil]
  · exact hv

theorem flatMap_shown {α : Type} (empties : EmptyRelations) (f : Branch Resolved → List α)
    (hf : ∀ b : Branch Resolved, b.isEmpty = true → f b = []) (r : Resolved) :
    ((r.shown empties).flatMap fun branch => f branch.2) =
      r.branches.flatMap fun branch => f branch.2 := by
  unfold shown
  induction r.branches with
  | nil => rfl
  | cons branch branches ih =>
    rw [List.filter_cons, List.flatMap_cons]
    split
    · rw [List.flatMap_cons, ih]
    · rename_i h
      have hb : branch.2.isEmpty = true := by
        cases hb : branch.2.isEmpty with
        | true => rfl
        | false => exact absurd (by rw [hb]; rfl) h
      rw [hf branch.2 hb, List.nil_append, ih]

theorem descendants_eq : ∀ r : Resolved, r.descendants =
    r.branches.flatMap fun branch => branch.2.linked.flatMap fun v => v :: descendants v
  | mk _ branches => by rw [descendants, alongBranches_eq]; rfl

/-- **The walk**: it meets what the relationships of the root point at, in their order, and goes
through what is below each before it comes to the next. -/
theorem descendants_eq_flatMap (empties : EmptyRelations) (r : Resolved) :
    r.descendants = (r.related empties).flatMap fun v => v.2 :: v.2.descendants := by
  have hshown := flatMap_shown empties
    (fun b => b.linked.flatMap fun v => v :: descendants v)
    (fun b hb => by rw [linked_eq_nil_of_isEmpty hb, List.flatMap_nil]) r
  rw [descendants_eq, ← hshown, related, List.flatMap_assoc]
  simp only [List.flatMap_map]

/-! ### The walk is closed -/

theorem mem_descendants_of_mem_related {empties : EmptyRelations} {r : Resolved}
    {v : String × Resolved} (h : v ∈ r.related empties) : v.2 ∈ r.descendants := by
  rw [descendants_eq_flatMap empties, List.mem_flatMap]
  exact ⟨v, h, List.mem_cons_self⟩

theorem mem_descendants_trans {r s t : Resolved} (hs : s ∈ r.descendants)
    (ht : t ∈ s.descendants) : t ∈ r.descendants := by
  rw [descendants_eq_flatMap .keep, List.mem_flatMap] at hs ⊢
  obtain ⟨v, hv, hs⟩ := hs
  refine ⟨v, hv, List.mem_cons_of_mem _ ?_⟩
  rcases List.mem_cons.mp hs with rfl | hs
  · exact ht
  · have := sizeOf_of_mem_related hv
    exact mem_descendants_trans hs ht
termination_by sizeOf r

theorem mem_descendants_iff {r t : Resolved} : t ∈ r.descendants ↔
    ∃ branch ∈ r.branches, ∃ v ∈ branch.2.linked, t = v ∨ t ∈ v.descendants := by
  simp only [descendants_eq r, List.mem_flatMap, List.mem_cons]

/-! ### Encounters -/

/-- The trees that an assembly meets: the roots, and then what is linked below each of them. -/
def encounters (roots : List Resolved) : List Resolved := roots ++ roots.flatMap descendants

theorem mem_encounters_of_mem_descendants {roots : List Resolved} {s t : Resolved}
    (hs : s ∈ encounters roots) (ht : t ∈ s.descendants) : t ∈ encounters roots := by
  refine List.mem_append_right _ ?_
  rcases List.mem_append.mp hs with hs | hs
  · exact List.mem_flatMap.mpr ⟨s, hs, ht⟩
  · obtain ⟨root, hroot, hs⟩ := List.mem_flatMap.mp hs
    exact List.mem_flatMap.mpr ⟨root, hroot, mem_descendants_trans hs ht⟩

/-- What is linked below an encounter is encountered. -/
theorem mem_encounters_of_mem_linked {roots : List Resolved} {t v : Resolved}
    (ht : t ∈ encounters roots) {branch : String × Branch Resolved} (hb : branch ∈ t.branches)
    (hv : v ∈ branch.2.linked) : v ∈ encounters roots :=
  mem_encounters_of_mem_descendants ht (mem_descendants_iff.mpr ⟨branch, hb, v, hv, Or.inl rfl⟩)

/-- The encounters of one identity. -/
def encountersOf (p : Pointer) (roots : List Resolved) : List Resolved :=
  (encounters roots).filter fun t => t.pointer = p

theorem mem_encountersOf {p : Pointer} {roots : List Resolved} {t : Resolved} :
    t ∈ encountersOf p roots ↔ t ∈ encounters roots ∧ t.pointer = p := by
  unfold encountersOf
  rw [List.mem_filter, decide_eq_true_iff]

/-- Whoever is a root is met as a root first. -/
theorem exists_cons_encountersOf {roots : List Resolved} {t : Resolved} (ht : t ∈ roots) :
    ∃ first rest, encountersOf t.pointer roots = first :: rest ∧ first ∈ roots := by
  have hroot : t ∈ roots.filter fun s => s.pointer = t.pointer :=
    List.mem_filter.mpr ⟨ht, decide_eq_true rfl⟩
  obtain ⟨first, rest, hcons⟩ := List.exists_cons_of_ne_nil (List.ne_nil_of_mem hroot)
  have hfirst : first ∈ roots.filter fun s => s.pointer = t.pointer := hcons ▸ List.mem_cons_self
  refine ⟨first, rest ++ (roots.flatMap descendants).filter fun s => s.pointer = t.pointer, ?_,
    (List.mem_filter.mp hfirst).1⟩
  unfold encountersOf encounters
  rw [List.filter_append, hcons, List.cons_append]

end Sideload.Resolved
