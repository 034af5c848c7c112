import Sideload.Document.Assembly
import Sideload.Proofs.Fields.Selection
import Sideload.Proofs.Include.WellFormed

/-! # Projections of one entity

An entity that is met with two lists of columns gets the attributes of both projections, and an
expression that gives a relation two lists of columns unites them. Both come to the same: columns
that are joined, in whatever way, select what the lists select together
(`Include.select_addColumns`), and so does the merge of what was selected
(`Fields.select_append`). `attributes_merge_project` puts this together. -/

namespace Sideload

open Include

/-! ### Columns that are joined -/

namespace Include

/-- Columns that are named again select nothing more. -/
theorem select_addColumns {α : Type} (fs : Fields α) (columns more : List String) :
    Fields.select fs (addColumns columns more) = Fields.select fs (columns ++ more) := by
  induction more generalizing columns with
  | nil => rw [List.append_nil]; rfl
  | cons c more ih =>
    show Fields.select fs (addColumns (if c ∈ columns then columns else columns ++ [c]) more) = _
    have hc : Fields.select fs (if c ∈ columns then columns else columns ++ [c]) =
        Fields.select fs (columns ++ [c]) := by
      split
      · next hc => rw [Fields.select_append_of_subset (List.forall_mem_singleton.mpr hc)]
      · rfl
    rw [ih, Fields.select_append, hc, ← Fields.select_append, List.append_assoc,
      List.singleton_append]

theorem addColumns_ne_nil {columns more : List String} (h : more ≠ []) :
    addColumns columns more ≠ [] := by
  obtain ⟨c, hc⟩ := List.exists_mem_of_ne_nil more h
  exact List.ne_nil_of_mem (mem_addColumns.mpr (Or.inr hc))

/-- Two column lists for one relation are joined one after the other. -/
theorem ofPaths_twice (policy : ColumnPolicy) (relation : String) (columns more : List String) :
    Forest.ofPaths policy [[⟨relation, some columns⟩], [⟨relation, some more⟩]] =
      [.mk relation (mergeColumns policy (mergeColumns policy [] (some columns)) (some more))
        []] := by
  simp [Forest.ofPaths, graft, alter, Node.leaf, Node.relation, Node.columns, Node.children]

end Include

theorem Entity.attributes_project {columns : List String} (h : columns ≠ []) (e : Entity) :
    (e.project columns).attributes = Fields.select e.attributes columns := by
  unfold project
  rw [if_neg (mt List.isEmpty_iff.mp h)]

/-- **Projecting, joining columns and merging agree.** Of an entity that is met with two lists of
columns, whatever is included below it, the merged resource has the attributes that the
concatenation of the lists keeps, and those that the joined lists of an expression keep; what a list
keeps are the attributes it names, at their first mention, with their values. -/
theorem attributes_merge_project (e : Entity) {columns more : List String} (h : columns ≠ [])
    (hmore : more ≠ []) :
    (∀ (empties : EmptyRelations) (below belowMore : Fields (Branch Resolved)),
      let merged := (((Resolved.mk (e.project columns) below).resource empties).merge
        ((Resolved.mk (e.project more) belowMore).resource empties)).attributes
      merged = (e.project (columns ++ more)).attributes ∧
        merged = (e.project (mergeColumns .union columns (some more))).attributes ∧
        ∀ relation, ∃ joined,
          Forest.ofPaths .union [[⟨relation, some columns⟩], [⟨relation, some more⟩]] =
            [.mk relation joined []] ∧
          merged = (e.project joined).attributes) ∧
    ∀ named : List String, named ≠ [] →
      Fields.keys (e.project named).attributes =
        named.eraseDups.filter (fun name => name ∈ Fields.keys e.attributes) ∧
      ∀ name, Fields.get? (e.project named).attributes name =
        if name ∈ named then Fields.get? e.attributes name else none := by
  have hjoined : ∀ cs : List String, addColumns cs more ≠ [] := fun _ => addColumns_ne_nil hmore
  refine ⟨fun empties below belowMore => ?_, fun named hnamed => ?_⟩
  · have hmerged : Fields.union (e.project columns).attributes (e.project more).attributes =
        Fields.select e.attributes (columns ++ more) := by
      rw [Entity.attributes_project h, Entity.attributes_project hmore, Fields.select_append]
    refine ⟨?_, ?_, fun relation => ⟨_, ofPaths_twice .union relation columns more, ?_⟩⟩
    · rw [Entity.attributes_project (List.append_ne_nil_of_left_ne_nil h more)]
      exact hmerged
    · show _ = (e.project (addColumns columns more)).attributes
      rw [Entity.attributes_project (hjoined columns), select_addColumns]
      exact hmerged
    · show _ = (e.project (addColumns (addColumns [] columns) more)).attributes
      rw [Entity.attributes_project (hjoined _), select_addColumns, Fields.select_append,
        select_addColumns, List.nil_append, ← Fields.select_append]
      exact hmerged
  · rw [Entity.attributes_project hnamed]
    exact ⟨Fields.keys_select e.attributes named, Fields.get?_select e.attributes named⟩

/-- Lists that repeat a column, share one, and name columns that the entity does not have. -/
theorem attributes_merge_project_overlapping :
    let e : Entity := ⟨⟨"u", "1"⟩, [("a", .int 1), ("b", .int 2), ("c", .null)]⟩
    let columns := ["c", "x", "b", "c"]
    let more := ["y", "a", "b", "a"]
    columns ≠ [] ∧ more ≠ [] ∧
      mergeColumns .union columns (some more) = ["c", "x", "b", "c", "y", "a"] ∧
      Fields.union (e.project columns).attributes (e.project more).attributes =
        (e.project (mergeColumns .union columns (some more))).attributes ∧
      Fields.keys (e.project (columns ++ more)).attributes = ["c", "b", "a"] := by
  intro e columns more
  have h : columns ≠ [] := List.cons_ne_nil _ _
  have hmore : more ≠ [] := List.cons_ne_nil _ _
  obtain ⟨hmerged, hkeys⟩ := attributes_merge_project e h hmore
  refine ⟨h, hmore, by decide +kernel, (hmerged .keep [] []).2.1, ?_⟩
  rw [(hkeys (columns ++ more) (List.append_ne_nil_of_left_ne_nil h more)).1]
  decide +kernel

end Sideload
