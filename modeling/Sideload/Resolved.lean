import Sideload.Entity
import Sideload.Registry

/-! # Resolved trees

An entity with the relations that were included below it. Each relation is a `Branch`: where it
starts, what the registry tells of it, the columns its values were cut down to, and the values,
which are resolved trees again. -/

namespace Sideload

/-- A relation of an entity with the values that were loaded for it. -/
structure Branch (α : Type) where
  source : Pointer
  relation : String
  targetType : String
  cardinality : Cardinality
  columns : List String
  values : List α

namespace Branch

variable {α : Type}

/-- The values that the document links: all of them, or the first for a relation to one. -/
def linked (b : Branch α) : List α :=
  match b.cardinality with
  | .one => b.values.take 1
  | .many => b.values

/-- No value was loaded. -/
def isEmpty (b : Branch α) : Bool := b.values.isEmpty

theorem mem_of_mem_linked {b : Branch α} {v : α} (h : v ∈ b.linked) : v ∈ b.values := by
  unfold linked at h
  split at h
  · exact List.mem_of_mem_take h
  · exact h

end Branch

/-- An entity with what was included below it. The branches stand in the order in which their
relations were first asked for, under distinct names. -/
inductive Resolved where
  | mk (entity : Entity) (branches : List (String × Branch Resolved))

namespace Resolved

/-- The entity at the root. -/
def entity : Resolved → Entity
  | mk entity _ => entity

/-- The relations below the root. -/
def branches : Resolved → Fields (Branch Resolved)
  | mk _ branches => branches

/-- The identity of the root. -/
def pointer (r : Resolved) : Pointer := r.entity.pointer

/-- The type of the root. -/
def type (r : Resolved) : String := r.entity.type

/-- An entity with nothing included below it. -/
def leaf (e : Entity) : Resolved := mk e []

/-- A tree with one more branch. A branch of the same name is replaced in its place. -/
def withBranch (name : String) (b : Branch Resolved) : Resolved → Resolved
  | mk entity branches => mk entity (Fields.insert branches name b)

/-- A tree that is linked from a root is smaller. -/
theorem sizeOf_of_mem_linked {r v : Resolved} {branch : String × Branch Resolved}
    (hb : branch ∈ r.branches) (hv : v ∈ branch.2.linked) : sizeOf v < sizeOf r := by
  obtain ⟨entity, branches⟩ := r
  obtain ⟨name, source, relation, targetType, cardinality, columns, values⟩ := branch
  have h₁ : sizeOf v < sizeOf values := List.sizeOf_lt_of_mem (Branch.mem_of_mem_linked hv)
  have h₂ := List.sizeOf_lt_of_mem (show _ ∈ branches from hb)
  simp only [Prod.mk.sizeOf_spec, Branch.mk.sizeOf_spec, mk.sizeOf_spec] at h₂ ⊢
  omega

end Resolved

end Sideload
