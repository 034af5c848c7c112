import Sideload.Proofs.Document.Identities
import Sideload.Proofs.Document.Merging

/-! # Outlines

The outline of a resolved tree is what is left of it without attributes and columns: who is there,
and what is linked from where. The walk below a root can be told from its outline
(`descendants_outline`), and so can the relationships of its resource
(`relationships_resource_outline`). So trees with the same outlines give documents with the same
identities and the same relationships, in the same order (`map_links_part_eq`). -/

namespace Sideload

namespace Resolved

mutual

/-- A tree without attributes and columns. -/
def outline : Resolved → Resolved
  | mk entity branches => mk ⟨entity.pointer, []⟩ (outlineBranches branches)

/-- Branches without columns, and without the attributes of their values. -/
def outlineBranches : List (String × Branch Resolved) → List (String × Branch Resolved)
  | [] => []
  | (name, b) :: branches => (name, outlineBranch b) :: outlineBranches branches

/-- A branch without columns, and without the attributes of its values. -/
def outlineBranch : Branch Resolved → Branch Resolved
  | ⟨source, relation, targetType, cardinality, _, values⟩ =>
    ⟨source, relation, targetType, cardinality, [], outlineAll values⟩

/-- Trees without attributes and columns. -/
def outlineAll : List Resolved → List Resolved
  | [] => []
  | v :: values => outline v :: outlineAll values

end

theorem outlineAll_eq_map : ∀ values : List Resolved, outlineAll values = values.map outline
  | [] => by rw [outlineAll, List.map_nil]
  | v :: values => by rw [outlineAll, outlineAll_eq_map values, List.map_cons]

theorem outlineBranch_eq (b : Branch Resolved) :
    outlineBranch b = { b with columns := [], values := b.values.map outline } := by
  obtain ⟨source, relation, targetType, cardinality, columns, values⟩ := b
  rw [outlineBranch, outlineAll_eq_map]

theorem outlineBranches_eq : ∀ branches : List (String × Branch Resolved),
    outlineBranches branches = Fields.mapValues outlineBranch branches
  | [] => by rw [outlineBranches]; rfl
  | (name, b) :: branches => by rw [outlineBranches, outlineBranches_eq branches]; rfl

theorem pointer_outline (r : Resolved) : r.outline.pointer = r.pointer := by
  obtain ⟨entity, branches⟩ := r
  rw [outline]
  rfl

theorem type_outline (r : Resolved) : r.outline.type = r.type :=
  congrArg Pointer.type (pointer_outline r)

theorem branches_outline (r : Resolved) :
    r.outline.branches = Fields.mapValues outlineBranch r.branches := by
  obtain ⟨entity, branches⟩ := r
  rw [outline, outlineBranches_eq]
  rfl

theorem map_pointer_outline (rs : List Resolved) :
    (rs.map outline).map pointer = rs.map pointer := by
  rw [List.map_map]
  exact List.map_congr_left fun r _ => pointer_outline r

/-! ### What an outline tells -/

theorem linked_outlineBranch (b : Branch Resolved) :
    (outlineBranch b).linked = b.linked.map outline := by
  rw [outlineBranch_eq]
  unfold Branch.linked
  cases b.cardinality with
  | one => exact List.map_take.symm
  | many => rfl

theorem linkage_outlineBranch (b : Branch Resolved) : (outlineBranch b).linkage = b.linkage := by
  rw [Branch.linkage_eq, Branch.linkage_eq, outlineBranch_eq]
  exact congrArg (Linkage.of b.cardinality) (map_pointer_outline b.values)

theorem isEmpty_outlineBranch (b : Branch Resolved) : (outlineBranch b).isEmpty = b.isEmpty := by
  rw [outlineBranch_eq]
  exact List.isEmpty_map

/-- **The relationships of a resource** can be told from the outline of its tree. -/
theorem relationships_resource_outline (empties : EmptyRelations) (r : Resolved) :
    (r.outline.resource empties).relationships = (r.resource empties).relationships := by
  unfold resource shown Fields.mapValues
  rw [branches_outline]
  unfold Fields.mapValues
  rw [List.filter_map, List.map_map]
  simp only [Function.comp_def, isEmpty_outlineBranch, linkage_outlineBranch]

/-- **The walk below a root** can be told from its outline. -/
theorem descendants_outline (r : Resolved) :
    r.outline.descendants = r.descendants.map outline := by
  rw [descendants_eq, descendants_eq r, branches_outline, List.map_flatMap]
  unfold Fields.mapValues
  rw [List.flatMap_map]
  refine List.flatMap_congr fun branch hb => ?_
  rw [linked_outlineBranch, List.flatMap_map, List.map_flatMap]
  refine List.flatMap_congr fun v hv => ?_
  have := sizeOf_of_mem_linked hb hv
  rw [descendants_outline v, List.map_cons]
termination_by sizeOf r

theorem flatMap_descendants_outline (roots : List Resolved) :
    (roots.map outline).flatMap descendants = (roots.flatMap descendants).map outline := by
  rw [List.flatMap_map, List.map_flatMap]
  exact List.flatMap_congr fun r _ => descendants_outline r

theorem encountersOf_outline (p : Pointer) (roots : List Resolved) :
    encountersOf p (roots.map outline) = (encountersOf p roots).map outline := by
  unfold encountersOf encounters
  rw [flatMap_descendants_outline, ← List.map_append, List.filter_map]
  simp only [Function.comp_def, pointer_outline]

end Resolved

/-! ### Documents -/

open Document Resolved

/-- What a resource says of itself apart from attributes. -/
def Resource.links (r : Resource) : Pointer × Fields Linkage := (r.pointer, r.relationships)

theorem pointers_assemble_outline (empties : EmptyRelations) (roots : List Resolved) :
    ∀ part, (assemble empties (roots.map outline)).pointers part =
      (assemble empties roots).pointers part
  | .data => by
    refine (map_pointer_data empties _).trans ?_
    rw [map_pointer_outline]
    exact (map_pointer_data empties roots).symm
  | .included => by
    refine (map_pointer_included empties _).trans ?_
    rw [flatMap_descendants_outline, map_pointer_outline, map_pointer_outline]
    exact (map_pointer_included empties roots).symm

/-- The outlines of the encounters of an identity are merged to the same relationships. -/
theorem map_links_mergeAll_outline (empties : EmptyRelations) (ts : List Resolved) :
    (Resource.mergeAll ((ts.map outline).map (resource empties))).map Resource.links =
      (Resource.mergeAll (ts.map (resource empties))).map Resource.links := by
  have hrelationships : ∀ ts : List Resolved,
      ((ts.map outline).map (resource empties)).map Resource.relationships =
        (ts.map (resource empties)).map Resource.relationships := by
    intro ts
    rw [List.map_map, List.map_map, List.map_map]
    exact List.map_congr_left fun t _ => relationships_resource_outline empties t
  cases ts with
  | nil => rfl
  | cons t ts =>
    have hpointer : (t.outline.resource empties).pointer = (t.resource empties).pointer :=
      pointer_outline t
    simp only [List.map_cons, Resource.mergeAll, Option.map_some, Resource.links,
      Resource.pointer_foldl_merge, Resource.relationships_foldl_merge, hrelationships, hpointer,
      relationships_resource_outline]

/-- **Trees with the same outlines** give documents with the same identities and relationships. -/
theorem map_links_part_eq (empties : EmptyRelations) {roots roots' : List Resolved}
    (h : roots.map outline = roots'.map outline) (part : Part) :
    ((assemble empties roots).part part).map Resource.links =
      ((assemble empties roots').part part).map Resource.links := by
  have houtline : ∀ roots : List Resolved,
      ((assemble empties (roots.map outline)).part part).map Resource.links =
        ((assemble empties roots).part part).map Resource.links := by
    intro roots
    refine map_part_eq (pointers_assemble_outline empties roots part) fun p => ?_
    rw [encountersOf_outline]
    exact map_links_mergeAll_outline empties _
  rw [← houtline roots, h, houtline]

end Sideload
