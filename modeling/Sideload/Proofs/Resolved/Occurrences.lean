import Mathlib.Data.List.Basic
import Sideload.Resolved

/-! # The entities of a tree

`walk` lists every entity that stands somewhere in some trees, with the way to it (`Occurrence`): a
root, then branch after branch what stands below it, then the next root. All values count, those
too that a document does not link. -/

namespace Sideload

/-- An entity at some place of a tree: the relations that lead to it from the root, the types of the
entities on this way, its own last, and its identity. -/
structure Occurrence where
  relations : List String
  types : List String
  pointer : Pointer
deriving DecidableEq, Repr

/-- The place as it is seen from the entity above: of some type, along some relation. -/
def Occurrence.below (type relation : String) (o : Occurrence) : Occurrence :=
  ⟨relation :: o.relations, type :: o.types, o.pointer⟩

namespace Resolved

mutual

/-- The entities of a tree. -/
def occurrences : Resolved → List Occurrence
  | mk e branches => ⟨[], [e.type], e.pointer⟩ :: occurrencesAlong branches e.type

/-- The entities along some branches of an entity of some type. -/
def occurrencesAlong : List (String × Branch Resolved) → String → List Occurrence
  | [], _ => []
  | (name, b) :: branches, type =>
    (occurrencesIn b).map (Occurrence.below type name) ++ occurrencesAlong branches type

/-- The entities below one branch. -/
def occurrencesIn : Branch Resolved → List Occurrence
  | ⟨_, _, _, _, _, values⟩ => walk values

/-- The entities of some trees, tree by tree. -/
def walk : List Resolved → List Occurrence
  | [] => []
  | v :: values => occurrences v ++ walk values

end

theorem walk_eq_flatMap : ∀ ts : List Resolved, walk ts = ts.flatMap occurrences
  | [] => by rw [walk, List.flatMap_nil]
  | t :: ts => by rw [walk, walk_eq_flatMap ts, List.flatMap_cons]

theorem occurrencesAlong_eq (type : String) : ∀ branches : List (String × Branch Resolved),
    occurrencesAlong branches type = branches.flatMap fun branch =>
      (walk branch.2.values).map (Occurrence.below type branch.1)
  | [] => by rw [occurrencesAlong, List.flatMap_nil]
  | (name, b) :: branches => by
    rw [occurrencesAlong, occurrencesIn, occurrencesAlong_eq type branches, List.flatMap_cons]

theorem occurrences_eq (t : Resolved) : t.occurrences = ⟨[], [t.type], t.pointer⟩ ::
    t.branches.flatMap fun branch =>
      (walk branch.2.values).map (Occurrence.below t.type branch.1) := by
  obtain ⟨e, branches⟩ := t
  rw [occurrences, occurrencesAlong_eq]
  rfl

/-- An entity of some trees is a root, or stands below a branch of one. -/
theorem mem_walk_iff {o : Occurrence} {ts : List Resolved} : o ∈ walk ts ↔
    ∃ t ∈ ts, o = ⟨[], [t.type], t.pointer⟩ ∨ ∃ branch ∈ t.branches,
      ∃ o' ∈ walk branch.2.values, o = o'.below t.type branch.1 := by
  rw [walk_eq_flatMap, List.mem_flatMap]
  refine exists_congr fun t => and_congr_right fun _ => ?_
  rw [occurrences_eq, List.mem_cons, List.mem_flatMap]
  simp only [List.mem_map, eq_comm]

/-- The values of a relation. -/
def valuesOf (name : String) (t : Resolved) : List Resolved :=
  (t.branches.filter fun branch => branch.1 = name).flatMap fun branch => branch.2.values

end Resolved

end Sideload
