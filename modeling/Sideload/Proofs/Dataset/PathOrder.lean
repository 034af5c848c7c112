import Sideload.Proofs.Dataset.Projection
import Sideload.Proofs.Dataset.Relationships
import Sideload.Proofs.Resolution.Alike

/-! # The order of include paths

With a dataset, and if column lists are joined, it makes no difference but to orders in which order
the paths of an expression are written. The two forests are alike, so the same entities are met with
them, the same columns of them are kept, and the same relations are asked for there. Since the
attributes and the relationships of a resource are all those of the places where it is met, they are
the same with both (`get?_attributes_eq`, `get?_relationships_eq`).

`resolve_perm` says this of the documents of a dataset, and that there is one for the first order
of paths exactly if there is one for the other. -/

namespace Sideload

open Resolved

/-- Resources of the same identities stand in two documents, with the same attributes and the same
relationships. The order of what is asked for is the same; the order of what is included and the
orders of names may differ. -/
structure Document.SameUpToOrder (d e : Document) : Prop where
  data_eq : d.data.map Resource.pointer = e.data.map Resource.pointer
  included_perm : (d.included.map Resource.pointer).Perm (e.included.map Resource.pointer)
  attributes_eq : ∀ r ∈ d.resources, ∀ s ∈ e.resources, r.pointer = s.pointer →
    ∀ k, Fields.get? r.attributes k = Fields.get? s.attributes k
  relationships_eq : ∀ r ∈ d.resources, ∀ s ∈ e.resources, r.pointer = s.pointer →
    ∀ name, Fields.get? r.relationships name = Fields.get? s.relationships name

namespace Dataset

theorem map_pointer_of_roots {d : Dataset} {roots : List Entity} {forest : Include.Forest}
    {ts : List Resolved}
    (hts : List.Forall₂ (fun e t => expandForest d.registry d.load forest (leaf e) = .ok t)
      roots ts) : ts.map Resolved.pointer = roots.map Entity.pointer := by
  -- roots keep all their attributes, as if no columns were named
  have hprojected : List.Forall₂ (fun e t =>
      expandForest d.registry d.load forest (leaf (Entity.project [] e)) = .ok t) roots ts := hts
  exact map_pointer_of_expandForest hprojected

section Alike
variable {d : Dataset} {roots : List Entity} {forest forest' : Include.Forest}
  (halike : forest.Alike forest') (hforest : forest.WellFormed) (hforest' : forest'.WellFormed)
  {ts ts' : List Resolved}
  (hts : List.Forall₂ (fun e t => expandForest d.registry d.load forest (leaf e) = .ok t) roots ts)
  (hts' : List.Forall₂ (fun e t => expandForest d.registry d.load forest' (leaf e) = .ok t)
    roots ts')
  (empties : EmptyRelations)
include halike hforest hforest' hts hts'

theorem included_perm : ((assemble empties ts).included.map Resource.pointer).Perm
    ((assemble empties ts').included.map Resource.pointer) := by
  have hnodup : ∀ us : List Resolved,
      ((assemble empties us).included.map Resource.pointer).Nodup := by
    intro us
    rw [map_pointer_included]
    exact nodup_eraseDups _
  rw [List.perm_ext_iff_of_nodup (hnodup ts) (hnodup ts')]
  intro p
  rw [mem_map_pointer_included_iff, mem_map_pointer_included_iff, map_pointer_of_roots hts,
    map_pointer_of_roots hts', mem_map_pointer_encounters_iff hforest hts,
    mem_map_pointer_encounters_iff hforest' hts',
    exists_met_iff halike hforest.distinct hforest'.distinct fun _ _ h => h]

variable {empties} {r s : Resource} (hr : r ∈ (assemble empties ts).resources)
  (hs : s ∈ (assemble empties ts').resources) (hp : r.pointer = s.pointer)
include hr hs hp

theorem get?_attributes_eq (hroots : d.Offers roots) (k : String) :
    Fields.get? r.attributes k = Fields.get? s.attributes k := by
  obtain ⟨t, ht⟩ := exists_mem_encountersOf hr
  obtain ⟨e, he⟩ := exists_visible?_of_mem_encountersOf hroots hforest hts ht
  have hre : r.pointer = e.pointer := (pointer_of_visible? he).symm
  rw [hre] at he
  have hplaces : (∃ columns below, Met d.registry d.load roots forest e columns below ∧
        (columns = [] ∨ k ∈ columns)) ↔
      ∃ columns below, Met d.registry d.load roots forest' e columns below ∧
        (columns = [] ∨ k ∈ columns) := by
    have hiff : (∃ v columns below, Met d.registry d.load roots forest v columns below ∧
          v = e ∧ (columns = [] ∨ k ∈ columns)) ↔
        ∃ v columns below, Met d.registry d.load roots forest' v columns below ∧
          v = e ∧ (columns = [] ∨ k ∈ columns) :=
      exists_met_iff halike hforest.distinct hforest'.distinct fun hcolumns _ h => by
        simpa only [List.eq_nil_iff_forall_not_mem, hcolumns] using h
    simpa [and_left_comm] using hiff
  refine Option.ext fun v => ?_
  rw [get?_attributes_iff hroots hforest hts hr he hre,
    get?_attributes_iff hroots hforest' hts' hs he (hp ▸ hre), hplaces]

theorem get?_relationships_eq (name : String) :
    Fields.get? r.relationships name = Fields.get? s.relationships name := by
  have hnames : name ∈ Fields.keys r.relationships ↔ name ∈ Fields.keys s.relationships := by
    rw [mem_keys_relationships_iff_exists_met hforest hts hr,
      mem_keys_relationships_iff_exists_met hforest' hts' hs, hp]
    refine and_congr_left' ?_
    exact exists_met_iff halike hforest.distinct hforest'.distinct fun _ hbelow h =>
      ⟨h.1, (hbelow.exists_relation_iff name).mp h.2⟩
  cases hl : Fields.get? r.relationships name with
  | none =>
    rw [Fields.get?_eq_none_iff, hnames, ← Fields.get?_eq_none_iff] at hl
    exact hl.symm
  | some l =>
    have hmem := Fields.mem_of_get? hl
    obtain ⟨l', hl'⟩ := Option.isSome_iff_exists.mp
      (Fields.isSome_get?_iff.mpr (hnames.mp (Fields.mem_keys_of_mem hmem)))
    -- what either links was loaded for the same identity
    obtain ⟨_, cardinality, values, hincludable, hload, rfl⟩ :=
      exists_load_of_mem_assemble hforest hts hr hmem
    obtain ⟨_, cardinality', values', hincludable', hload', rfl⟩ :=
      exists_load_of_mem_assemble hforest' hts' hs (Fields.mem_of_get? hl')
    rw [← hp] at hincludable' hload'
    obtain ⟨rfl, rfl⟩ := Prod.mk.inj (Option.some.inj (hincludable.symm.trans hincludable'))
    obtain rfl := Except.ok.inj (hload.symm.trans hload')
    exact hl'.symm

end Alike

/-! ### Documents -/

/-- A resolution below the roots has a document exactly if all that its forest asks for can be
loaded. -/
theorem resolve_cases {d : Dataset} (roots : List Entity) {expression : String}
    {options : ResolveOptions} {forest : Include.Forest}
    (hforest : Include.parse options.expression expression = .ok forest) :
    ((∃ document, d.resolve roots expression options = .ok document) ∧
        ∀ e ∈ roots, Loadable d.registry d.load forest e.pointer) ∨
      ((∃ error, d.resolve roots expression options = .error (.load error)) ∧
        ¬ ∀ e ∈ roots, Loadable d.registry d.load forest e.pointer) := by
  have hiff : (∃ ts, (Sideload.resolve d.registry d.loader roots forest).outcome = .ok ts) ↔
      ∀ e ∈ roots, Loadable d.registry d.load forest e.pointer :=
    exists_resolve_iff (Loader.entitywise_ofLoad d.load)
  unfold Dataset.resolve resolveDocument
  rw [hforest]
  dsimp only
  cases houtcome : (Sideload.resolve d.registry d.loader roots forest).outcome with
  | ok ts => exact Or.inl ⟨⟨_, rfl⟩, hiff.mp ⟨ts, houtcome⟩⟩
  | error error =>
    refine Or.inr ⟨⟨error, rfl⟩, fun hall => ?_⟩
    obtain ⟨ts, hts⟩ := hiff.mpr hall
    rw [houtcome] at hts
    cases hts

/-- **The order of include paths affects only orders.** An expression with the same paths in another
order has a document below the same roots exactly if the first has one, and then the two documents
are the same up to order. -/
theorem resolve_perm {d : Dataset} {roots : List Entity} (hroots : d.Offers roots)
    {options : ResolveOptions} (hpolicy : options.expression.columnPolicy = .union)
    {expression expression' : String} {forest : Include.Forest}
    (hforest : Include.parse options.expression expression = .ok forest)
    (hperm : (expression.toList.splitOn ',').Perm (expression'.toList.splitOn ',')) :
    (∃ error error', d.resolve roots expression options = .error (.load error) ∧
      d.resolve roots expression' options = .error (.load error')) ∨
    ∃ document document', d.resolve roots expression options = .ok document ∧
      d.resolve roots expression' options = .ok document' ∧
      document.SameUpToOrder document' := by
  obtain ⟨forest', hforest', halike⟩ := Include.parse_perm hpolicy hforest hperm
  have hwell := (Include.wellFormed_of_parse hforest).1
  have hwell' := (Include.wellFormed_of_parse hforest').1
  rcases resolve_cases roots hforest with ⟨⟨document, h⟩, hall⟩ | ⟨⟨error, h⟩, hfail⟩ <;>
    rcases resolve_cases roots hforest' with ⟨⟨document', h'⟩, hall'⟩ | ⟨⟨error', h'⟩, hfail'⟩
  · obtain ⟨ts, rfl, hts⟩ := exists_of_resolve hforest h
    obtain ⟨ts', rfl, hts'⟩ := exists_of_resolve hforest' h'
    refine Or.inr ⟨_, _, h, h', ⟨?_, included_perm halike hwell hwell' hts hts' _, ?_, ?_⟩⟩
    · rw [map_pointer_data, map_pointer_data, map_pointer_of_roots hts, map_pointer_of_roots hts']
    · exact fun r hr s hs hp =>
        get?_attributes_eq halike hwell hwell' hts hts' hr hs hp hroots
    · exact fun r hr s hs hp => get?_relationships_eq halike hwell hwell' hts hts' hr hs hp
  · exact (hfail' fun e he => (hall e he).of_alike halike hwell.distinct hwell'.distinct).elim
  · exact (hfail fun e he => (hall' e he).of_alike halike.symm hwell'.distinct hwell.distinct).elim
  · exact Or.inl ⟨error, error', h, h'⟩

/-- Three paths, two of which keep columns of the same relation: in the other order an entity that
is linked by both relations is included first, and its columns are joined the other way round. -/
theorem resolve_perm_three_paths :
    let d : Dataset := {
      types := ⟨[("a", ⟨[("r", ⟨"b", .many, true⟩), ("s", ⟨"b", .one, true⟩)]⟩)]⟩
      records := [⟨⟨⟨"a", "1"⟩, [("x", .null)]⟩, [("r", ["2", "1"]), ("s", ["1", "2"])]⟩,
        ⟨⟨⟨"b", "1"⟩, [("x", .null), ("y", .bool true), ("z", .null)]⟩, []⟩,
        ⟨⟨⟨"b", "2"⟩, []⟩, []⟩] }
    ("r[x],s[y],r[z]".toList.splitOn ',').Perm ("s[y],r[z],r[x]".toList.splitOn ',') ∧
    ∃ document document', d.resolve (d.entitiesOf "a") "r[x],s[y],r[z]" {} = .ok document ∧
      d.resolve (d.entitiesOf "a") "s[y],r[z],r[x]" {} = .ok document' ∧
      document.included.map Resource.pointer = [⟨"b", "2"⟩, ⟨"b", "1"⟩] ∧
      document'.included.map Resource.pointer = [⟨"b", "1"⟩, ⟨"b", "2"⟩] ∧
      document.SameUpToOrder document' := by
  intro d
  have hforest : Include.parse ({} : ResolveOptions).expression "r[x],s[y],r[z]" =
      .ok [.mk "r" ["x", "z"] [], .mk "s" ["y"] []] := by decide +kernel
  have hperm : ("r[x],s[y],r[z]".toList.splitOn ',').Perm
      ("s[y],r[z],r[x]".toList.splitOn ',') := by decide +kernel
  have hincluded : (d.resolve (d.entitiesOf "a") "r[x],s[y],r[z]" {}).toOption.map
      (fun document => document.included.map Resource.pointer) =
        some [⟨"b", "2"⟩, ⟨"b", "1"⟩] := by decide +kernel
  have hincluded' : (d.resolve (d.entitiesOf "a") "s[y],r[z],r[x]" {}).toOption.map
      (fun document => document.included.map Resource.pointer) =
        some [⟨"b", "1"⟩, ⟨"b", "2"⟩] := by decide +kernel
  refine ⟨hperm, ?_⟩
  rcases resolve_perm (.all "a") (by rfl) hforest hperm with
    ⟨error, _, h, -⟩ | ⟨document, document', h, h', hsame⟩
  · rw [h] at hincluded
    cases hincluded
  · rw [h] at hincluded
    rw [h'] at hincluded'
    exact ⟨document, document', h, h', Option.some.inj hincluded, Option.some.inj hincluded', hsame⟩

end Dataset

end Sideload
