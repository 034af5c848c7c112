import Sideload.Proofs.Document.Links
import Sideload.Proofs.Resolved.Walk

/-! # Encounters

Assembly meets the roots in order, and then everything on the walk below each root in order
(`assemble_eq_foldl`): the walk that the assembly goes through tree by tree is the list of
`Resolved.descendants`. -/

namespace Sideload

open Document

namespace Assembly

theorem visit_eq (empties : EmptyRelations) (a : Assembly) (r : Resolved) :
    a.visit empties r = (r.related empties).foldl (fun a v => a.visit empties v.2)
      (a.meet .included (r.resource empties)) := by
  rw [visit]
  exact List.foldl_attach (f := fun (a : Assembly) (v : String × Resolved) => a.visit empties v.2)

/-- **The walk as a list**: to visit a tree is to meet its root and then everything linked
below it. -/
theorem visit_eq_foldl (empties : EmptyRelations) (a : Assembly) (r : Resolved) :
    a.visit empties r =
      ((r :: r.descendants).map (Resolved.resource empties)).foldl (meet .included) a := by
  rw [visit_eq, List.map_cons, List.foldl_cons, Resolved.descendants_eq_flatMap empties r,
    List.map_flatMap, List.foldl_flatMap]
  refine List.foldl_ext _ _ _ fun a v hv => ?_
  have := Resolved.sizeOf_of_mem_related hv
  exact visit_eq_foldl empties a v.2
termination_by sizeOf r

theorem foldl_visit (empties : EmptyRelations) (r : Resolved) (a : Assembly) :
    (r.related empties).foldl (fun a v => a.visit empties v.2) a =
      (r.descendants.map (Resolved.resource empties)).foldl (meet .included) a := by
  rw [Resolved.descendants_eq_flatMap empties r, List.map_flatMap, List.foldl_flatMap]
  exact List.foldl_ext _ _ _ fun a v _ => visit_eq_foldl empties a v.2

end Assembly

/-- **The encounters of an assembly**: the roots, and then the walk below each of them. -/
theorem assemble_eq_foldl (empties : EmptyRelations) (roots : List Resolved) :
    assemble empties roots =
      (((roots.flatMap Resolved.descendants).map (Resolved.resource empties)).foldl
        (Assembly.meet .included)
        ((roots.map (Resolved.resource empties)).foldl (Assembly.meet .data) {})).document := by
  unfold assemble
  rw [List.map_flatMap, List.foldl_flatMap, List.foldl_map]
  simp only [Assembly.foldl_visit]

end Sideload
