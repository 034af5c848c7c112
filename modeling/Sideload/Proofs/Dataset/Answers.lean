import Sideload.Proofs.Dataset.Shape
import Sideload.Proofs.Dataset.Visibility

/-! # What datasets answer

A dataset tells its declared types, its records and what is hidden (`Dataset.view`); how its fields
are ordered does not show. That is all that is ever asked of it: two datasets that tell the same
give the same answers (`sameAnswers_of_view_eq`).

A file tells what its dataset tells, so of two files that say the same both repeat an identity, or
both are datasets that tell the same (`ofFile_of_view_eq`). -/

namespace Sideload

theorem TypeRegistry.relation?_eq_view (r : TypeRegistry) (type relation : String) :
    r.relation? type relation = (r.view type).bind fun relations => relations relation := by
  unfold relation? view Shape.byName
  rw [Option.bind_map]
  refine Option.bind_congr fun t _ => ?_
  exact (Option.map_id_apply).symm

theorem TypeRegistry.containsType_eq_view (r : TypeRegistry) (type : String) :
    r.containsType type = (r.view type).isSome :=
  Option.isSome_map.symm

namespace Dataset

/-- What a dataset tells. -/
def view (d : Dataset) : (String → Option (String → Option RelationDef)) ×
    List (Entity × (String → Option (List String))) × List Pointer :=
  (d.types.view, d.records.map Record.view, d.hidden)

/-- Two datasets that nobody can tell apart. -/
structure SameAnswers (d e : Dataset) : Prop where
  entity : ∀ p, d.entity? p = e.entity? p
  entitiesOf : ∀ type, d.entitiesOf type = e.entitiesOf type
  roots : ∀ type ids, d.roots type ids = e.roots type ids
  hidden : ∀ p, d.isHidden p = e.isHidden p
  load : ∀ source relation, d.load source relation = e.load source relation
  loadBatch : ∀ sources relation,
    d.loader.loadBatch sources relation = e.loader.loadBatch sources relation
  size : d.size = e.size
  empty : d.isEmpty = e.isEmpty
  containsType : ∀ type, d.types.containsType type = e.types.containsType type
  relation : ∀ type relation, d.types.relation? type relation = e.types.relation? type relation
  registry : d.registry = e.registry
  resolve : ∀ roots expression options,
    d.resolve roots expression options = e.resolve roots expression options

theorem sameVisible_of_view_eq {d e : Dataset} (h : d.view = e.view) : d.SameVisible e := by
  obtain ⟨htypes, h⟩ := Prod.mk.inj h
  obtain ⟨hrecords, hhidden⟩ := Prod.mk.inj h
  have hvisible : ∀ d : Dataset, d.visibleRecords.map Record.view =
      (d.records.map Record.view).filter fun r => !d.hidden.contains r.1.pointer := by
    intro d
    rw [List.filter_map]
    rfl
  refine ⟨fun type relation => ?_, fun p => by rw [hhidden], ?_⟩
  · rw [TypeRegistry.relation?_eq_view, TypeRegistry.relation?_eq_view, htypes]
  · rw [hvisible, hvisible, hrecords, hhidden]

/-- **Datasets that tell the same answer the same**, to every question. -/
theorem sameAnswers_of_view_eq {d e : Dataset} (h : d.view = e.view) : d.SameAnswers e := by
  have hsame := sameVisible_of_view_eq h
  obtain ⟨htypes, h⟩ := Prod.mk.inj h
  obtain ⟨hrecords, -⟩ := Prod.mk.inj h
  have hrecord : ∀ p, (d.record? p).map Record.view = (e.record? p).map Record.view := by
    intro p
    unfold record?
    rw [map_view_find?, map_view_find?, hrecords]
  have hload : d.load = e.load := funext fun source => funext fun relation =>
    load_congr (hrecord source) hsame.registry_eq hsame.follow_eq relation
  have hsize : d.records.length = e.records.length := by
    have hlength := congrArg List.length hrecords
    rwa [List.length_map, List.length_map] at hlength
  refine {
    entity := fun p => ?_
    entitiesOf := hsame.entitiesOf_eq
    roots := hsame.roots_eq
    hidden := hsame.isHidden_eq
    load := fun source relation => by rw [hload]
    loadBatch := fun sources relation => ?_
    size := hsize
    empty := ?_
    containsType := fun type => ?_
    relation := hsame.types
    registry := hsame.registry_eq
    resolve := fun roots expression options => ?_ }
  · rw [entity?_eq_map_view, entity?_eq_map_view, hrecord]
  · unfold loader
    rw [hload]
  · unfold isEmpty
    rw [Bool.eq_iff_iff, List.isEmpty_iff_length_eq_zero, List.isEmpty_iff_length_eq_zero, hsize]
  · rw [TypeRegistry.containsType_eq_view, TypeRegistry.containsType_eq_view, htypes]
  · unfold Dataset.resolve loader
    rw [hsame.registry_eq, hload]

/-! ### Files -/

theorem view_recordOf (e : EntityEntry) : (recordOf e).view = e.view :=
  congrArg (Prod.mk e.entity) (funext fun name => Fields.get?_mapValues Links.ids e.links name)

theorem pointers_eq_map_view (f : DatasetFile) :
    f.pointers = f.view.2.1.map fun e => e.1.pointer := by
  unfold DatasetFile.pointers DatasetFile.view
  rw [List.map_map]
  rfl

theorem ofFile_of_firstRepeated? {f : DatasetFile} {p : Pointer}
    (h : firstRepeated? [] f.pointers = some p) : ofFile f = .error (.duplicate p) := by
  have hpointers : (f.entities.map recordOf).map Record.pointer = f.pointers := List.map_map
  unfold ofFile
  split
  · next q hq =>
    rw [hpointers, h] at hq
    rw [Option.some.inj hq]
  · next hnone =>
    rw [hpointers, h] at hnone
    cases hnone

/-- A file that repeats no identity is a dataset, which tells the same. -/
theorem exists_ofFile_of_firstRepeated? {f : DatasetFile}
    (h : firstRepeated? [] f.pointers = none) : ∃ d, ofFile f = .ok d ∧ d.view = f.view := by
  have hpointers : (f.entities.map recordOf).map Record.pointer = f.pointers := List.map_map
  have hrecords : (f.entities.map recordOf).map Record.view = f.entities.map EntityEntry.view := by
    rw [List.map_map]
    exact List.map_congr_left fun e _ => view_recordOf e
  unfold ofFile
  split
  · next q hq =>
    rw [hpointers, h] at hq
    cases hq
  · exact ⟨_, rfl, congrArg (fun records => (f.types.view, records, f.hidden)) hrecords⟩

/-- Two files that say the same are both refused, or are datasets that tell the same. -/
theorem ofFile_of_view_eq {f g : DatasetFile} (h : f.view = g.view) :
    (∃ p, ofFile f = .error (.duplicate p) ∧ ofFile g = .error (.duplicate p)) ∨
      ∃ d e, ofFile f = .ok d ∧ ofFile g = .ok e ∧ d.view = e.view := by
  have hpointers : f.pointers = g.pointers := by
    rw [pointers_eq_map_view, pointers_eq_map_view, h]
  cases hrepeated : firstRepeated? [] f.pointers with
  | some p =>
    exact Or.inl ⟨p, ofFile_of_firstRepeated? hrepeated,
      ofFile_of_firstRepeated? (hpointers ▸ hrepeated)⟩
  | none =>
    obtain ⟨d, hd, hdview⟩ := exists_ofFile_of_firstRepeated? hrepeated
    obtain ⟨e, he, heview⟩ := exists_ofFile_of_firstRepeated? (hpointers ▸ hrepeated)
    exact Or.inr ⟨d, e, hd, he, by rw [hdview, heview, h]⟩

end Dataset

end Sideload
