import Sideload.Document.Basic
import Sideload.Resolved

/-! # Assembly

Resolved trees become one document. Each identity stands in it once, at the place of its first
encounter (its `Slot`): a root in `data`, anything else in `included`. All roots are met before the
walk, so that none is included. The walk meets what the relationships of a resource lead to, and
goes on below it. An identity that is met again adds the attributes and relationships its resource
lacks; what is below it is walked all the same. -/

namespace Sideload

/-- What becomes of a relation without values. -/
inductive EmptyRelations where
  | keep
  | omit
deriving DecidableEq, Repr

/-- The linkage of a branch. A relation to one entity links the first value only. -/
def Branch.linkage (b : Branch Resolved) : Linkage :=
  match b.cardinality with
  | .one => .one (b.values.head?.map Resolved.pointer)
  | .many => .many (b.values.map Resolved.pointer)

namespace Resolved

/-- The branches that a document shows. -/
def shown (empties : EmptyRelations) (r : Resolved) : Fields (Branch Resolved) :=
  r.branches.filter fun branch => !(branch.2.isEmpty && empties = .omit)

/-- The root of a tree as a resource. -/
def resource (empties : EmptyRelations) (r : Resolved) : Resource where
  pointer := r.pointer
  attributes := r.entity.attributes
  relationships := Fields.mapValues Branch.linkage (r.shown empties)

/-- The trees that the relationships of the root point at, each with the name of its relationship,
in the order of the pointers. -/
def related (empties : EmptyRelations) (r : Resolved) : List (String × Resolved) :=
  (r.shown empties).flatMap fun branch => branch.2.linked.map fun v => (branch.1, v)

theorem sizeOf_of_mem_related {empties : EmptyRelations} {r : Resolved} {v : String × Resolved}
    (h : v ∈ r.related empties) : sizeOf v.2 < sizeOf r := by
  simp only [related, List.mem_flatMap, List.mem_map] at h
  obtain ⟨branch, hb, w, hw, rfl⟩ := h
  exact sizeOf_of_mem_linked (List.mem_filter.mp hb).1 hw

end Resolved

/-! ### Places of resources -/

namespace Document

/-- The two lists of a document. -/
inductive Part where
  | data
  | included
deriving DecidableEq, Repr

/-- The resources of a part. -/
def part (d : Document) : Part → List Resource
  | .data => d.data
  | .included => d.included

/-- Change the resources of a part. -/
def alter (d : Document) (f : List Resource → List Resource) : Part → Document
  | .data => { d with data := f d.data }
  | .included => { d with included := f d.included }

theorem part_alter (d : Document) (f : List Resource → List Resource) (p q : Part) :
    (d.alter f p).part q = if p = q then f (d.part q) else d.part q := by
  cases p <;> cases q <;> rfl

/-- Where a resource stands: a part of the document, and its index there. -/
structure Slot where
  part : Part
  index : Nat
deriving DecidableEq, Repr

end Document

/-! ### Documents in the making -/

/-- A document in the making, and where each identity stands that has been met. -/
structure Assembly where
  document : Document := {}
  slot? : Pointer → Option Document.Slot := fun _ => none

namespace Assembly

/-- Merge a resource into the one that stands at a slot. -/
def merge (a : Assembly) (slot : Document.Slot) (r : Resource) : Assembly :=
  { a with document := a.document.alter (·.modify slot.index (·.merge r)) slot.part }

/-- Meet a resource. One with a new identity becomes the last of a part; any other is merged into
the resource that has its identity, wherever it stands. -/
def meet (part : Document.Part) (a : Assembly) (r : Resource) : Assembly :=
  match a.slot? r.pointer with
  | some slot => a.merge slot r
  | none =>
    { document := a.document.alter (· ++ [r]) part
      slot? := fun p =>
        if p = r.pointer then some ⟨part, (a.document.part part).length⟩ else a.slot? p }

/-- Meet the root of a tree, and then walk through what its relationships lead to. -/
def visit (empties : EmptyRelations) (a : Assembly) (r : Resolved) : Assembly :=
  (r.related empties).attach.foldl (fun a v => visit empties a v.1.2)
    (a.meet .included (r.resource empties))
termination_by sizeOf r
decreasing_by exact Resolved.sizeOf_of_mem_related v.2

end Assembly

/-- The document of some roots and everything linked below them. -/
def assemble (empties : EmptyRelations) (roots : List Resolved) : Document :=
  let seeded : Assembly := roots.foldl (fun a r => a.meet .data (r.resource empties)) {}
  let walked := roots.foldl
    (fun a r => (r.related empties).foldl (fun a v => a.visit empties v.2) a) seeded
  walked.document

end Sideload
