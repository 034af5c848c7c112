import Sideload.Proofs.Dataset.Loading
import Sideload.Proofs.Document.Identities
import Sideload.Proofs.Document.Merging

/-! # The attributes of a document

Every encounter of an identity shows attributes of the one entity that the dataset has for it, cut
down to the columns of its place (`Entity.get?_project_eq_some_iff`). No two encounters disagree on
a value, so merging them joins their columns (`get?_attributes_iff`); and a root, which is met with
all its attributes before anything else, gains nothing (`attributes_of_mem_roots`).

`resolve_attributes` says this of the documents of a dataset. -/

namespace Sideload

/-- What a search finds, if all that it can find is the same. -/
theorem findSome?_eq_some_iff_of_agree {α β : Type} {f : α → Option β} {o : Option β} {xs : List α}
    (h : ∀ x ∈ xs, ∀ v, f x = some v → o = some v) {v : β} :
    xs.findSome? f = some v ↔ ∃ x ∈ xs, f x = some v := by
  constructor
  · exact List.exists_of_findSome?_eq_some
  · rintro ⟨x, hx, hv⟩
    have hsome : (xs.findSome? f).isSome = true :=
      List.findSome?_isSome_iff.mpr ⟨x, hx, by rw [hv]; rfl⟩
    obtain ⟨w, hw⟩ := Option.isSome_iff_exists.mp hsome
    obtain ⟨y, hy, hyw⟩ := List.exists_of_findSome?_eq_some hw
    rw [hw, ← h y hy w hyw, h x hx v hv]

/-! ### Columns -/

theorem Entity.get?_project_eq_some_iff {columns : List String} {e : Entity} {k : String}
    {v : Json} : Fields.get? (e.project columns).attributes k = some v ↔
      Fields.get? e.attributes k = some v ∧ (columns = [] ∨ k ∈ columns) := by
  unfold project
  cases columns with
  | nil => simp
  | cons c columns =>
    show Fields.get? (Fields.select e.attributes (c :: columns)) k = some v ↔ _
    rw [Fields.get?_select]
    split <;> simp_all

theorem Entity.mem_keys_of_mem_keys_project {columns : List String} {e : Entity} {k : String}
    (h : k ∈ Fields.keys (e.project columns).attributes) : k ∈ Fields.keys e.attributes := by
  obtain ⟨v, hv⟩ := Option.isSome_iff_exists.mp (Fields.isSome_get?_iff.mpr h)
  refine Fields.isSome_get?_iff.mp ?_
  rw [(get?_project_eq_some_iff.mp hv).1]
  rfl

namespace Dataset

open Resolved

/-! ### Merged columns -/

section Encounters
variable {d : Dataset} {roots : List Entity} (hroots : d.Offers roots) {forest : Include.Forest}
  (hforest : forest.WellFormed) {ts : List Resolved} (hts : List.Forall₂
    (fun e t => expandForest d.registry d.load forest (.leaf e) = .ok t) roots ts)
  {empties : EmptyRelations} {r : Resource} (hr : r ∈ (assemble empties ts).resources)
include hroots hforest hts hr

/-- **A resource has the attributes of all places where it is met**, with the values of the
dataset. -/
theorem get?_attributes_iff {e : Entity} (he : d.visible? e.pointer = some e)
    (hp : r.pointer = e.pointer) {k : String} {v : Json} :
    Fields.get? r.attributes k = some v ↔ Fields.get? e.attributes k = some v ∧
      ∃ columns below, Met d.registry d.load roots forest e columns below ∧
        (columns = [] ∨ k ∈ columns) := by
  have hmem := fun t => mem_encountersOf_iff_of_visible? hroots hforest hts he (t := t)
  have hshown : ∀ t ∈ encountersOf e.pointer ts, ∀ v, Fields.get? t.entity.attributes k = some v →
      Fields.get? e.attributes k = some v ∧ ∃ columns below,
        Met d.registry d.load roots forest e columns below ∧ (columns = [] ∨ k ∈ columns) := by
    intro t ht v hv
    obtain ⟨columns, below, hmet, hexpand⟩ := (hmem t).mp ht
    rw [entity_expandForest hexpand] at hv
    obtain ⟨hv, hk⟩ := Entity.get?_project_eq_some_iff.mp hv
    exact ⟨hv, columns, below, hmet, hk⟩
  rw [get?_attributes_of_mem_assemble hr, hp,
    findSome?_eq_some_iff_of_agree fun t ht v hv => (hshown t ht v hv).1]
  constructor
  · rintro ⟨t, ht, hv⟩
    exact hshown t ht v hv
  · rintro ⟨hv, columns, below, hmet, hk⟩
    obtain ⟨t, ht, hexpand⟩ := hmet.exists_mem_encounters hforest hts
    refine ⟨t, (hmem t).mpr ⟨columns, below, hmet, hexpand⟩, ?_⟩
    rw [entity_expandForest hexpand]
    exact Entity.get?_project_eq_some_iff.mpr ⟨hv, hk⟩

/-- **A root keeps its attributes as they are**: it is met as a root before it is met on the walk,
and then there is nothing to be added. -/
theorem attributes_of_mem_roots {e : Entity} (he : e ∈ roots) (hp : r.pointer = e.pointer) :
    r.attributes = e.attributes := by
  have hvisible := hroots.visible?_of_mem he
  have hmem := fun t => mem_encountersOf_iff_of_visible? hroots hforest hts hvisible (t := t)
  obtain ⟨t, ht, hexpand⟩ := exists_of_mem_left hts he
  obtain ⟨first, rest, hfirst, hroot⟩ := exists_cons_encountersOf ht
  rw [show t.pointer = e.pointer from pointer_expandForest hexpand] at hfirst
  have hattributes : first.entity.attributes = e.attributes := by
    obtain ⟨v, hv, hexpand⟩ := exists_of_mem_right hts hroot
    have hfound : first ∈ encountersOf e.pointer ts := hfirst ▸ List.mem_cons_self
    have hpointer : v.pointer = e.pointer :=
      (pointer_expandForest hexpand).symm.trans (mem_encountersOf.mp hfound).2
    have hv := hroots.visible?_of_mem hv
    rw [hpointer, hvisible] at hv
    rw [entity_expandForest hexpand, ← Option.some.inj hv]
    rfl
  obtain ⟨s, others, hcons, hmerged, -⟩ :=
    Resource.exists_cons_of_mergeAll (mergeAll_of_mem_assemble hr)
  rw [hp, hfirst, List.map_cons] at hcons
  obtain ⟨rfl, rfl⟩ := List.cons.inj hcons
  rw [hmerged, Fields.foldl_union_of_subset, Resolved.resource, hattributes]
  -- a later encounter has columns of the same entity
  intro gs hgs k hk
  rw [List.map_map, List.mem_map] at hgs
  obtain ⟨t, ht, rfl⟩ := hgs
  obtain ⟨columns, _, -, hexpand⟩ := (hmem t).mp (hfirst ▸ List.mem_cons_of_mem _ ht)
  have hk : k ∈ Fields.keys t.entity.attributes := hk
  rw [entity_expandForest hexpand] at hk
  show k ∈ Fields.keys first.entity.attributes
  rw [hattributes]
  exact Entity.mem_keys_of_mem_keys_project hk

end Encounters

/-! ### Documents -/

/-- **Projection is exact.** What is asked for keeps all attributes of its entity. What is included
is no root, and has exactly the attributes of its entity that some node of the forest keeps where
the entity is met; a node without columns keeps all of them. All values are the dataset's. -/
theorem resolve_attributes {d : Dataset} {roots : List Entity} (hroots : d.Offers roots)
    {expression : String} {options : ResolveOptions} {forest : Include.Forest}
    (hforest : Include.parse options.expression expression = .ok forest) {document : Document}
    (h : d.resolve roots expression options = .ok document) :
    (∀ r ∈ document.data, ∃ e ∈ roots, d.visible? r.pointer = some e ∧
      r.attributes = e.attributes) ∧
    ∀ r ∈ document.included, (∀ e ∈ roots, e.pointer ≠ r.pointer) ∧
      ∃ e, d.visible? r.pointer = some e ∧ ∀ k v,
        Fields.get? r.attributes k = some v ↔ Fields.get? e.attributes k = some v ∧
          ∃ columns below, Met d.registry d.load roots forest e columns below ∧
            (columns = [] ∨ k ∈ columns) := by
  obtain ⟨ts, rfl, hts⟩ := exists_of_resolve hforest h
  have hwell := (Include.wellFormed_of_parse hforest).1
  constructor
  · intro r hr
    obtain ⟨t, ht, hp⟩ := List.mem_map.mp (mem_map_pointer_of_mem_data hr)
    obtain ⟨e, he, hexpand⟩ := exists_of_mem_right hts ht
    have hp : r.pointer = e.pointer := hp.symm.trans (pointer_expandForest hexpand)
    refine ⟨e, he, hp ▸ hroots.visible?_of_mem he, ?_⟩
    exact attributes_of_mem_roots hroots hwell hts (List.mem_append_left _ hr) he hp
  · intro r hr
    have hmem := List.mem_append_right (assemble options.empties ts).data hr
    constructor
    · intro e he hp
      obtain ⟨t, ht, hexpand⟩ := exists_of_mem_left hts he
      have htp : t.pointer = r.pointer := (pointer_expandForest hexpand).trans hp
      exact not_mem_map_pointer_of_mem_included hr (htp ▸ List.mem_map_of_mem ht)
    · obtain ⟨t, ht⟩ := exists_mem_encountersOf hmem
      obtain ⟨e, he⟩ := exists_visible?_of_mem_encountersOf hroots hwell hts ht
      have hp := pointer_of_visible? he
      refine ⟨e, he, fun k v => ?_⟩
      exact get?_attributes_iff hroots hwell hts hmem (hp ▸ he) hp.symm

/-- An entity that two relations lead to: each of them keeps another column, and none keeps `z`. -/
theorem resolve_attributes_two_paths :
    let d : Dataset := {
      types := ⟨[("a", ⟨[("r", ⟨"b", .many, true⟩), ("s", ⟨"b", .one, true⟩)]⟩)]⟩
      records := [⟨⟨⟨"a", "1"⟩, [("x", .null)]⟩, [("r", ["2", "1"]), ("s", ["1", "2"])]⟩,
        ⟨⟨⟨"b", "1"⟩, [("x", .null), ("y", .bool true), ("z", .null)]⟩, []⟩,
        ⟨⟨⟨"b", "2"⟩, []⟩, []⟩] }
    ∃ document, d.resolve (d.entitiesOf "a") "r[x],s[y]" {} = .ok document ∧
      (∀ r ∈ document.data, r.attributes = [("x", .null)]) ∧
      ∃ r ∈ document.included, r.pointer = ⟨"b", "1"⟩ ∧
        Fields.get? r.attributes "x" = some .null ∧
        Fields.get? r.attributes "y" = some (.bool true) ∧
        ∀ v, Fields.get? r.attributes "z" ≠ some v := by
  intro d
  let forest : Include.Forest := [.mk "r" ["x"] [], .mk "s" ["y"] []]
  have hforest : Include.parse {} "r[x],s[y]" = .ok forest := by decide +kernel
  have hincluded : (d.resolve (d.entitiesOf "a") "r[x],s[y]" {}).toOption.map (fun document =>
      document.included.map Resource.pointer) = some [⟨"b", "2"⟩, ⟨"b", "1"⟩] := by decide +kernel
  have hplaces : ∀ {e columns below},
      Met d.registry d.load (d.entitiesOf "a") forest e columns below →
      e ∈ d.entitiesOf "a" ∧ below = forest ∨ below = [] ∧ (columns = ["x"] ∨ columns = ["y"]) := by
    intro e columns below hmet
    induction hmet with
    | root he => exact Or.inl ⟨he, rfl⟩
    | linked _ hn _ _ _ ih =>
      rcases ih with ⟨-, rfl⟩ | ⟨rfl, -⟩
      · rcases List.mem_pair.mp hn with rfl | rfl
        · exact Or.inr ⟨rfl, Or.inl rfl⟩
        · exact Or.inr ⟨rfl, Or.inr rfl⟩
      · cases hn
  cases h : d.resolve (d.entitiesOf "a") "r[x],s[y]" {} with
  | error e => rw [h] at hincluded; cases hincluded
  | ok document =>
    rw [h] at hincluded
    have hpointers : document.included.map Resource.pointer = [⟨"b", "2"⟩, ⟨"b", "1"⟩] :=
      Option.some.inj hincluded
    obtain ⟨hdata, hall⟩ := resolve_attributes (.all "a") hforest h
    have hmem : ⟨"b", "1"⟩ ∈ document.included.map Resource.pointer := by rw [hpointers]; simp
    obtain ⟨r, hr, hp⟩ := List.mem_map.mp hmem
    obtain ⟨-, e, he, hattributes⟩ := hall r hr
    rw [hp] at he
    obtain rfl := Option.some.inj he
    refine ⟨document, rfl, fun s hs => ?_, r, hr, hp, ?_, ?_, fun v hv => ?_⟩
    · obtain ⟨root, hroot, -, hroots⟩ := hdata s hs
      obtain rfl := List.mem_singleton.mp hroot
      exact hroots
    · refine (hattributes "x" _).mpr ⟨rfl, ["x"], [], ?_, Or.inr (by simp)⟩
      exact .linked (.root (List.mem_singleton.mpr rfl)) (n := .mk "r" ["x"] []) (by simp [forest])
        rfl rfl (by simp [Cardinality.linked])
    · refine (hattributes "y" _).mpr ⟨rfl, ["y"], [], ?_, Or.inr (by simp)⟩
      exact .linked (.root (List.mem_singleton.mpr rfl)) (n := .mk "s" ["y"] []) (by simp [forest])
        rfl rfl (by simp [Cardinality.linked])
    · obtain ⟨-, columns, below, hmet, hk⟩ := (hattributes "z" v).mp hv
      rcases hplaces hmet with ⟨hroot, -⟩ | ⟨-, rfl | rfl⟩
      · have htype := congrArg Entity.type (List.mem_singleton.mp hroot)
        exact absurd htype (by decide)
      · simp at hk
      · simp at hk

end Dataset

end Sideload
