import Mathlib.Data.List.Forall2
import Sideload.Dataset.Basic
import Sideload.Proofs.Include.RoundTrip
import Sideload.Proofs.Resolution.Places

/-! # What a dataset hands out

Whatever a dataset hands out is visible: the roots that are taken from it
(`Offers.visible?_of_mem`), the values that it loads (`visible?_of_mem_load`), and so all entities
that are met when a forest is resolved with it (`visible?_of_met`). What is loaded for a relation is
of the type that the registry tells, and it is in the order of the links, without the hidden ones
(`follow_eq_ok_iff`). So all encounters of an identity are of the one entity that the dataset shows
with it (`mem_encountersOf_iff_of_visible?`).

`exists_of_resolve` splits a document of a dataset into its forest and its resolved trees. -/

namespace Sideload

/-- Declared types tell all of a relation that may be included. -/
theorem TypeRegistry.isSome_includable?_iff {r : TypeRegistry} {type relation : String} :
    (r.toRegistry.includable? type relation).isSome = true ↔
      r.toRegistry.isIncludable type relation = true := by
  unfold Registry.includable? toRegistry
  cases hd : r.relation? type relation with
  | none => simp [hd]
  | some d => cases h : d.isIncludable <;> simp [hd, h]

theorem Registry.of_includable? {r : Registry} {type relation target : String}
    {cardinality : Cardinality} (h : r.includable? type relation = some (target, cardinality)) :
    r.isIncludable type relation = true ∧ r.targetType? type relation = some target ∧
      r.cardinality? type relation = some cardinality := by
  unfold includable? at h
  split at h
  · next hincludable =>
    split at h
    · next t c ht hc =>
      cases h
      exact ⟨hincludable, ht, hc⟩
    · cases h
  · cases h

namespace Dataset

variable {d : Dataset}

/-! ### Records and entities -/

theorem find?_pointer_of_nodup : ∀ {rs : List Record}, (rs.map Record.pointer).Nodup →
    ∀ {r : Record}, r ∈ rs → rs.find? (fun s => s.pointer = r.pointer) = some r
  | [], _, _, h => nomatch h
  | s :: rs, hnodup, r, h => by
    rw [List.map_cons, List.nodup_cons] at hnodup
    rcases List.mem_cons.mp h with rfl | h
    · exact List.find?_cons_of_pos (by simp)
    · have hne : s.pointer ≠ r.pointer := fun e => hnodup.1 (e ▸ List.mem_map_of_mem h)
      rw [List.find?_cons_of_neg (by simpa using hne)]
      exact find?_pointer_of_nodup hnodup.2 h

theorem record?_of_mem {r : Record} (h : r ∈ d.records) : d.record? r.pointer = some r :=
  find?_pointer_of_nodup d.nodup h

theorem pointer_of_record? {p : Pointer} {r : Record} (h : d.record? p = some r) :
    r.pointer = p := by
  unfold record? at h
  have hp := List.find?_some h
  exact of_decide_eq_true hp

theorem pointer_of_entity? {p : Pointer} {e : Entity} (h : d.entity? p = some e) :
    e.pointer = p := by
  obtain ⟨r, hr, rfl⟩ := Option.map_eq_some_iff.mp h
  exact pointer_of_record? hr

theorem visible?_eq_some_iff {p : Pointer} {e : Entity} :
    d.visible? p = some e ↔ d.isHidden p = false ∧ d.entity? p = some e := by
  unfold visible?
  cases d.isHidden p <;> simp

theorem pointer_of_visible? {p : Pointer} {e : Entity} (h : d.visible? p = some e) :
    e.pointer = p :=
  pointer_of_entity? (visible?_eq_some_iff.mp h).2

/-! ### Roots -/

/-- Roots that are taken from a dataset: the visible entities of a type, or those with some ids. -/
inductive Offers (d : Dataset) : List Entity → Prop where
  | all (type : String) : Offers d (d.entitiesOf type)
  | withIds {type : String} {ids : List String} {roots : List Entity}
      (h : d.roots type ids = .ok roots) : Offers d roots

theorem visible?_of_mem_entitiesOf {type : String} {e : Entity} (h : e ∈ d.entitiesOf type) :
    d.visible? e.pointer = some e := by
  obtain ⟨r, hr, rfl⟩ := List.mem_map.mp h
  obtain ⟨hmem, hr⟩ := List.mem_filter.mp hr
  rw [Bool.and_eq_true, Bool.not_eq_true'] at hr
  refine visible?_eq_some_iff.mpr ⟨hr.2, ?_⟩
  exact Option.map_eq_some_iff.mpr ⟨r, record?_of_mem hmem, rfl⟩

theorem roots_eq_ok_iff {type : String} : ∀ {ids : List String} {roots : List Entity},
    d.roots type ids = .ok roots ↔
      List.Forall₂ (fun id e => d.visible? ⟨type, id⟩ = some e) ids roots
  | [], roots => by
    rw [Dataset.roots, List.forall₂_nil_left_iff]
    exact ⟨fun h => (Except.ok.inj h).symm, fun h => h ▸ rfl⟩
  | id :: ids, roots => by
    rw [Dataset.roots, List.forall₂_cons_left_iff]
    simp only [← roots_eq_ok_iff]
    cases d.visible? ⟨type, id⟩ with
    | none => simp
    | some e => cases d.roots type ids <;> simp [eq_comm]

theorem exists_id_of_mem_roots {type : String} {ids : List String} {roots : List Entity}
    (h : d.roots type ids = .ok roots) (e : Entity) (he : e ∈ roots) :
    ∃ id ∈ ids, d.visible? ⟨type, id⟩ = some e :=
  exists_of_mem_right (roots_eq_ok_iff.mp h) he

theorem visible?_of_mem_roots {type : String} {ids : List String} {roots : List Entity}
    (h : d.roots type ids = .ok roots) (e : Entity) (he : e ∈ roots) :
    d.visible? e.pointer = some e := by
  obtain ⟨id, -, hvisible⟩ := exists_id_of_mem_roots h e he
  rwa [pointer_of_visible? hvisible]

theorem Offers.visible?_of_mem {roots : List Entity} (h : d.Offers roots) {e : Entity}
    (he : e ∈ roots) : d.visible? e.pointer = some e := by
  cases h with
  | all type => exact visible?_of_mem_entitiesOf he
  | withIds h => exact visible?_of_mem_roots h e he

/-- Roots are of one type. -/
theorem Offers.exists_type {roots : List Entity} (h : d.Offers roots) :
    ∃ type, ∀ e ∈ roots, e.type = type := by
  cases h with
  | all type =>
    refine ⟨type, fun e he => ?_⟩
    obtain ⟨r, hr, rfl⟩ := List.mem_map.mp he
    have htype := (List.mem_filter.mp hr).2
    rw [Bool.and_eq_true, decide_eq_true_iff] at htype
    exact htype.1
  | @withIds type ids _ h =>
    refine ⟨type, fun e he => ?_⟩
    obtain ⟨id, -, hvisible⟩ := exists_id_of_mem_roots h e he
    exact congrArg Pointer.type (pointer_of_visible? hvisible)

/-! ### Loaded values -/

/-- The visible identities that a relation of an entity links, in order. -/
def targets (d : Dataset) (source : Pointer) (relation : String) : List Pointer :=
  match d.record? source, d.registry.targetType? source.type relation with
  | some r, some target =>
    (((Fields.get? r.links relation).getD []).map (Pointer.mk target)).filter fun p => !d.isHidden p
  | _, _ => []

/-- A target is visible, of the type that the registry tells, and its id is linked. -/
theorem exists_of_mem_targets {source p : Pointer} {relation : String}
    (h : p ∈ d.targets source relation) : ∃ r ids, d.record? source = some r ∧
      Fields.get? r.links relation = some ids ∧ p.id ∈ ids ∧
      d.registry.targetType? source.type relation = some p.type ∧ d.isHidden p = false := by
  unfold targets at h
  split at h
  · next r target hr htarget =>
    obtain ⟨hp, hvisible⟩ := List.mem_filter.mp h
    obtain ⟨id, hid, rfl⟩ := List.mem_map.mp hp
    cases hids : Fields.get? r.links relation with
    | none => rw [hids] at hid; cases hid
    | some ids =>
      rw [hids] at hid
      exact ⟨r, ids, hr, hids, hid, htarget, by simpa using hvisible⟩
  · cases h

theorem follow_eq_ok_iff (source : Pointer) (relation : String) {target : String} :
    ∀ {ids : List String} {values : List Entity},
      d.follow source relation target ids = .ok values ↔
        List.Forall₂ (fun p v => d.visible? p = some v)
          ((ids.map (Pointer.mk target)).filter fun p => !d.isHidden p) values
  | [], values => by
    rw [follow, List.map_nil, List.filter_nil, List.forall₂_nil_left_iff]
    exact ⟨fun h => (Except.ok.inj h).symm, fun h => h ▸ rfl⟩
  | id :: ids, values => by
    rw [follow, List.map_cons, List.filter_cons]
    cases hhidden : d.isHidden ⟨target, id⟩ with
    | true => exact follow_eq_ok_iff source relation
    | false =>
      have hvisible : d.visible? ⟨target, id⟩ = d.entity? ⟨target, id⟩ := by
        unfold visible?
        rw [hhidden]
        rfl
      simp only [Bool.false_eq_true, if_false, Bool.not_false, if_true,
        List.forall₂_cons_left_iff, ← follow_eq_ok_iff source relation, hvisible]
      cases d.entity? ⟨target, id⟩ with
      | none => simp
      | some e => cases d.follow source relation target ids <;> simp [eq_comm]

/-- **What a dataset loads**: for an entity that is there, the visible entities that the relation
links, in order; all of them have to be there. -/
theorem load_eq_ok_iff {source : Pointer} {relation : String} {values : List Entity} :
    d.load source relation = .ok values ↔ (d.record? source).isSome = true ∧
      List.Forall₂ (fun p v => d.visible? p = some v) (d.targets source relation) values := by
  have hnil : Except.ok ([] : List Entity) = (.ok values : Except LoadError (List Entity)) ↔
      List.Forall₂ (fun p v => d.visible? p = some v) [] values := by
    rw [List.forall₂_nil_left_iff, Except.ok.injEq, eq_comm]
  unfold load targets
  cases d.record? source with
  | none => simp
  | some r =>
    rw [Option.isSome_some, eq_self_iff_true, true_and]
    dsimp only
    cases d.registry.targetType? source.type relation with
    | none => cases Fields.get? r.links relation <;> exact hnil
    | some target =>
      dsimp only
      cases Fields.get? r.links relation with
      | none => exact hnil
      | some ids => exact follow_eq_ok_iff source relation

theorem visible?_of_mem_load {source : Pointer} {relation : String} {values : List Entity}
    (h : d.load source relation = .ok values) {v : Entity} (hv : v ∈ values) :
    d.visible? v.pointer = some v ∧
      d.registry.targetType? source.type relation = some v.type := by
  obtain ⟨p, hp, hvisible⟩ := exists_of_mem_right (load_eq_ok_iff.mp h).2 hv
  obtain rfl := pointer_of_visible? hvisible
  obtain ⟨-, -, -, -, -, htype, -⟩ := exists_of_mem_targets hp
  exact ⟨hvisible, htype⟩

/-! ### Entities that are met -/

/-- **Whoever is met is visible**, and stands in the dataset as it is met. -/
theorem visible?_of_met {roots : List Entity} (hroots : d.Offers roots) {forest : Include.Forest}
    {e : Entity} {columns : List String} {below : Include.Forest}
    (h : Met d.registry d.load roots forest e columns below) : d.visible? e.pointer = some e := by
  cases h with
  | root he => exact hroots.visible?_of_mem he
  | linked _ _ _ hload hv => exact (visible?_of_mem_load hload (Cardinality.mem_of_mem_linked hv)).1

section Encounters
variable {roots : List Entity} (hroots : d.Offers roots) {forest : Include.Forest}
  (hforest : forest.WellFormed) {ts : List Resolved} (hts : List.Forall₂
    (fun e t => Resolved.expandForest d.registry d.load forest (.leaf e) = .ok t) roots ts)
include hroots hforest hts

theorem exists_visible?_of_mem_encountersOf {p : Pointer} {t : Resolved}
    (ht : t ∈ Resolved.encountersOf p ts) : ∃ e, d.visible? p = some e := by
  obtain ⟨e, columns, below, hmet, rfl, -⟩ := (mem_encountersOf_iff hforest hts).mp ht
  exact ⟨e, visible?_of_met hroots hmet⟩

/-- All encounters of an identity are of the one entity that the dataset shows with it. -/
theorem mem_encountersOf_iff_of_visible? {e : Entity} (he : d.visible? e.pointer = some e)
    {t : Resolved} : t ∈ Resolved.encountersOf e.pointer ts ↔
      ∃ columns below, Met d.registry d.load roots forest e columns below ∧
        Resolved.expandForest d.registry d.load below (.leaf (e.project columns)) = .ok t := by
  rw [mem_encountersOf_iff hforest hts]
  constructor
  · rintro ⟨v, columns, below, hmet, hp, hexpand⟩
    have hv := visible?_of_met hroots hmet
    rw [hp, he] at hv
    obtain rfl := Option.some.inj hv
    exact ⟨columns, below, hmet, hexpand⟩
  · rintro ⟨columns, below, hmet, hexpand⟩
    exact ⟨e, columns, below, hmet, rfl, hexpand⟩

end Encounters

/-- Where there is a document, the expression has a forest. -/
theorem exists_forest_of_resolve {roots : List Entity} {expression : String}
    {options : ResolveOptions} {document : Document}
    (h : d.resolve roots expression options = .ok document) :
    ∃ forest, Include.parse options.expression expression = .ok forest := by
  unfold Dataset.resolve resolveDocument at h
  split at h
  · cases h
  · exact ⟨_, ‹_›⟩

/-- A document of a dataset is assembled from the roots, each expanded by the forest of the
expression. -/
theorem exists_of_resolve {roots : List Entity} {expression : String} {options : ResolveOptions}
    {forest : Include.Forest} {document : Document}
    (hforest : Include.parse options.expression expression = .ok forest)
    (h : d.resolve roots expression options = .ok document) :
    ∃ ts, document = assemble options.empties ts ∧ List.Forall₂
      (fun e t => Resolved.expandForest d.registry d.load forest (.leaf e) = .ok t) roots ts := by
  unfold Dataset.resolve resolveDocument at h
  rw [hforest] at h
  dsimp only at h
  split at h
  · cases h
  · next ts hts =>
    refine ⟨ts, (Except.ok.inj h).symm, ?_⟩
    exact forall₂_expandForest_of_resolve (Loader.entitywise_ofLoad d.load) hts

end Dataset

end Sideload
