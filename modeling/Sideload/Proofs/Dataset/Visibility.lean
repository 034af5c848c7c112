import Sideload.Proofs.Dataset.Loading
import Sideload.Proofs.Document.Identities
import Sideload.Proofs.Document.Merging
import Sideload.Proofs.Resolution.Agreement

/-! # Hidden entities

Two datasets look the same (`Dataset.SameVisible`) if they declare the same relations, hide the same
identities, and have the same records that are not hidden, in the same order. Their hidden records
may differ in everything, and may be missing.

`hidden_unobservable`: such datasets offer the same roots and give the same documents, or the same
errors; and nothing that is hidden is in a document, neither as a resource nor as a target. Loading
a relation of a visible entity asks for nothing that is hidden (`SameVisible.load_eq`), and what it
loads is visible again, so the two loaders agree on what is visible (`SameVisible.agreeOn`). -/

namespace Sideload

/-- What a record tells: its entity, and the ids that each relation links. -/
def Record.view (r : Record) : Entity × (String → Option (List String)) :=
  (r.entity, Fields.get? r.links)

namespace Dataset

/-- The records that are not hidden, in order. -/
def visibleRecords (d : Dataset) : List Record := d.records.filter fun r => !d.isHidden r.pointer

/-- Two datasets that differ in nothing but what is hidden. -/
structure SameVisible (d e : Dataset) : Prop where
  types : ∀ type relation, d.types.relation? type relation = e.types.relation? type relation
  hidden : ∀ p, p ∈ d.hidden ↔ p ∈ e.hidden
  records : d.visibleRecords.map Record.view = e.visibleRecords.map Record.view

theorem record?_eq_find?_visibleRecords {d : Dataset} {p : Pointer} (hp : d.isHidden p = false) :
    d.record? p = d.visibleRecords.find? fun r => r.pointer = p := by
  unfold record? visibleRecords
  rw [List.find?_filter]
  congr 1
  funext r
  by_cases h : r.pointer = p <;> simp [h, hp]

theorem entitiesOf_eq_filter (d : Dataset) (type : String) :
    d.entitiesOf type = ((d.visibleRecords.map Record.view).map Prod.fst).filter
      fun e => e.pointer.type = type := by
  unfold entitiesOf visibleRecords
  rw [List.map_map, List.filter_map, List.filter_filter]
  rfl

/-! ### What views tell -/

theorem map_view_find? (rs : List Record) (p : Pointer) :
    (rs.find? fun r => r.pointer = p).map Record.view =
      (rs.map Record.view).find? fun v => v.1.pointer = p := by
  rw [List.find?_map]
  rfl

theorem entity?_eq_map_view (d : Dataset) (p : Pointer) :
    d.entity? p = ((d.record? p).map Record.view).map Prod.fst := by
  rw [Option.map_map]
  rfl

/-- Loading reads of the record what its view tells. -/
theorem load_congr {d e : Dataset} {source : Pointer}
    (hview : (d.record? source).map Record.view = (e.record? source).map Record.view)
    (hregistry : d.registry = e.registry)
    (hfollow : ∀ source relation target ids,
      d.follow source relation target ids = e.follow source relation target ids)
    (relation : String) : d.load source relation = e.load source relation := by
  unfold load
  rw [← hregistry]
  cases hd : d.record? source with
  | none =>
    rw [hd, Option.map_none, eq_comm, Option.map_eq_none_iff] at hview
    rw [hview]
  | some r =>
    rw [hd, Option.map_some, eq_comm, Option.map_eq_some_iff] at hview
    obtain ⟨s, hs, hview⟩ := hview
    have hlinks : Fields.get? s.links relation = Fields.get? r.links relation :=
      congrFun (congrArg Prod.snd hview) relation
    rw [hs]
    dsimp only
    rw [hlinks]
    simp only [hfollow]

/-! ### Lookup and loading -/

namespace SameVisible

variable {d e : Dataset} (h : d.SameVisible e)
include h

theorem isHidden_eq (p : Pointer) : d.isHidden p = e.isHidden p := by
  unfold isHidden
  rw [Bool.eq_iff_iff, List.contains_iff_mem, List.contains_iff_mem]
  exact h.hidden p

theorem registry_eq : d.registry = e.registry := by
  unfold registry TypeRegistry.toRegistry
  simp only [h.types]

theorem map_view_record?_eq {p : Pointer} (hp : d.isHidden p = false) :
    (d.record? p).map Record.view = (e.record? p).map Record.view := by
  rw [record?_eq_find?_visibleRecords hp, record?_eq_find?_visibleRecords (h.isHidden_eq p ▸ hp),
    map_view_find?, map_view_find?, h.records]

theorem entity?_eq {p : Pointer} (hp : d.isHidden p = false) : d.entity? p = e.entity? p := by
  rw [entity?_eq_map_view, entity?_eq_map_view, h.map_view_record?_eq hp]

theorem visible?_eq (p : Pointer) : d.visible? p = e.visible? p := by
  unfold visible?
  rw [← h.isHidden_eq p]
  split
  · rfl
  · next hp => exact h.entity?_eq (eq_false_of_ne_true hp)

theorem entitiesOf_eq (type : String) : d.entitiesOf type = e.entitiesOf type := by
  rw [entitiesOf_eq_filter, entitiesOf_eq_filter, h.records]

theorem roots_eq (type : String) : ∀ ids : List String, d.roots type ids = e.roots type ids
  | [] => rfl
  | id :: ids => by rw [Dataset.roots, Dataset.roots, h.visible?_eq, roots_eq type ids]

theorem follow_eq (source : Pointer) (relation target : String) : ∀ ids : List String,
    d.follow source relation target ids = e.follow source relation target ids
  | [] => rfl
  | id :: ids => by
    rw [follow, follow, ← h.isHidden_eq, follow_eq source relation target ids]
    split
    · rfl
    · next hp => rw [h.entity?_eq (eq_false_of_ne_true hp)]

/-- **A visible entity loads the same**: its record is the same, and nothing that is hidden is
looked up. -/
theorem load_eq {source : Pointer} (hp : d.isHidden source = false) (relation : String) :
    d.load source relation = e.load source relation :=
  load_congr (h.map_view_record?_eq hp) h.registry_eq h.follow_eq relation

theorem agreeOn : AgreeOn (fun p => d.isHidden p = false) d.load e.load where
  same _ hp relation := h.load_eq hp relation
  closed _ _ _ _ hload _ hv :=
    (visible?_eq_some_iff.mp (visible?_of_mem_load hload hv).1).1

theorem resolve_eq {roots : List Entity} (hroots : ∀ v ∈ roots, d.isHidden v.pointer = false)
    (expression : String) (options : ResolveOptions) :
    d.resolve roots expression options = e.resolve roots expression options := by
  unfold Dataset.resolve resolveDocument loader
  rw [← h.registry_eq]
  cases Include.parse options.expression expression with
  | error m => rfl
  | ok forest => dsimp only; rw [h.agreeOn.resolve_eq d.registry hroots forest]

end SameVisible

/-! ### Documents -/

/-- Nobody who is hidden is encountered. -/
theorem isHidden_of_mem_encounters {d : Dataset} {roots : List Entity} (hroots : d.Offers roots)
    {forest : Include.Forest} (hforest : forest.WellFormed) {ts : List Resolved}
    (hts : List.Forall₂
      (fun e t => Resolved.expandForest d.registry d.load forest (.leaf e) = .ok t) roots ts)
    {t : Resolved} (ht : t ∈ Resolved.encounters ts) : d.isHidden t.pointer = false := by
  obtain ⟨e, he⟩ := exists_visible?_of_mem_encountersOf hroots hforest hts
    (Resolved.mem_encountersOf.mpr ⟨ht, rfl⟩)
  exact (visible?_eq_some_iff.mp he).1

theorem not_mem_resolve_of_isHidden {d : Dataset} {roots : List Entity} (hroots : d.Offers roots)
    {expression : String} {options : ResolveOptions} {document : Document}
    (h : d.resolve roots expression options = .ok document) {p : Pointer}
    (hp : d.isHidden p = true) {r : Resource} (hr : r ∈ document.resources) :
    r.pointer ≠ p ∧ ∀ relationship ∈ r.relationships, p ∉ relationship.2.pointers := by
  obtain ⟨forest, hforest⟩ := exists_forest_of_resolve h
  have hwell := (Include.wellFormed_of_parse hforest).1
  obtain ⟨ts, rfl, hts⟩ := exists_of_resolve hforest h
  have hvisible : ∀ {t : Resolved}, t ∈ Resolved.encounters ts → t.pointer ≠ p := by
    rintro t ht rfl
    rw [isHidden_of_mem_encounters hroots hwell hts ht] at hp
    cases hp
  constructor
  · obtain ⟨t, ht⟩ := exists_mem_encountersOf hr
    obtain ⟨ht, htp⟩ := Resolved.mem_encountersOf.mp ht
    exact htp ▸ hvisible ht
  · intro relationship hrelationship hmem
    have hlinked : p ∈ r.linked := List.mem_flatMap.mpr ⟨relationship, hrelationship, hmem⟩
    have hwalk := mem_walk_of_mem_linked hr hlinked
    obtain ⟨t, ht, htp⟩ := List.mem_map.mp hwalk
    exact hvisible (List.mem_append_right _ ht) htp

/-- **Hidden entities do not leak.** Two datasets that differ in nothing but what is hidden offer
the same roots; below roots that they offer, each expression gives the same document or the same
error; and no hidden identity is a resource of the document or a target of its relationships. -/
theorem hidden_unobservable {d e : Dataset} (h : d.SameVisible e) :
    (∀ type, d.entitiesOf type = e.entitiesOf type) ∧
    (∀ type ids, d.roots type ids = e.roots type ids) ∧
    ∀ roots, d.Offers roots → ∀ expression options,
      d.resolve roots expression options = e.resolve roots expression options ∧
      ∀ document, d.resolve roots expression options = .ok document →
        ∀ p, d.isHidden p = true → ∀ r ∈ document.resources,
          r.pointer ≠ p ∧ ∀ relationship ∈ r.relationships, p ∉ relationship.2.pointers := by
  refine ⟨h.entitiesOf_eq, h.roots_eq, fun roots hroots expression options => ⟨?_, ?_⟩⟩
  · refine h.resolve_eq (fun v hv => ?_) expression options
    exact (visible?_eq_some_iff.mp (hroots.visible?_of_mem hv)).1
  · intro document hdocument p hp r hr
    exact not_mem_resolve_of_isHidden hroots hdocument hp hr

/-- A hidden entity that is linked, has attributes and links what is not there, against one that is
missing. -/
theorem hidden_unobservable_missing :
    let types : TypeRegistry := ⟨[("c", ⟨[("members", ⟨"u", .many, true⟩)]⟩),
      ("u", ⟨[("members", ⟨"u", .many, true⟩)]⟩)]⟩
    let root : Record := ⟨⟨⟨"c", "1"⟩, [("title", .null)]⟩, [("members", ["3", "2", "3"])]⟩
    let member : Record := ⟨⟨⟨"u", "2"⟩, []⟩, [("members", ["3"])]⟩
    let secret : Record := ⟨⟨⟨"u", "3"⟩, [("name", .null)]⟩, [("members", ["4"])]⟩
    let d : Dataset := { types, records := [secret, root, member], hidden := [⟨"u", "3"⟩] }
    let e : Dataset := { types, records := [root, member], hidden := [⟨"u", "3"⟩, ⟨"u", "3"⟩] }
    d.SameVisible e ∧ ∀ expression options,
      d.resolve (d.entitiesOf "c") expression options =
        e.resolve (e.entitiesOf "c") expression options := by
  intro types root member secret d e
  have h : d.SameVisible e := ⟨fun _ _ => rfl, fun p => by simp [d, e], rfl⟩
  obtain ⟨hentities, -, hresolve⟩ := hidden_unobservable h
  refine ⟨h, fun expression options => ?_⟩
  rw [← hentities]
  exact (hresolve _ (.all "c") expression options).1

end Dataset

end Sideload
