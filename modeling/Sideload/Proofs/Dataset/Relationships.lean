import Sideload.Proofs.Dataset.Loading
import Sideload.Proofs.Document.Merging

/-! # The relationships of a document

An encounter shows a relationship for each relation of the forest below its place that may be
included from its type (`Resolved.mem_keys_relationships_iff`), unless nothing was loaded for it and
empty relations are left out. So a resource has the relationships of all places where it is met
(`mem_keys_relationships_iff_exists_met`). What one links is made of all that was loaded
(`exists_load_of_mem_assemble`), which does not depend on the place, so it does not matter which
encounter of an identity brings it into the document.

`resolve_relationships` says this of the documents of a dataset. -/

namespace Sideload

section Branches
variable {registry : Registry} {load : Pointer → String → Except LoadError (List Entity)}

/-- A branch links what was loaded. -/
theorem IsBranch.exists_load {n : Include.Node} {source : Pointer} {b : Branch Resolved}
    (h : IsBranch registry load n source b) : ∃ values, load source n.relation = .ok values ∧
      b.linkage = Linkage.of b.cardinality (values.map Entity.pointer) ∧
      (b.isEmpty = true ↔ values = []) := by
  obtain ⟨values, hload, hvalues⟩ := h.loaded
  have hpointers := map_pointer_of_expandForest hvalues
  refine ⟨values, hload, by rw [Branch.linkage_eq, hpointers], ?_⟩
  unfold Branch.isEmpty
  rw [List.isEmpty_iff, ← List.length_eq_zero_iff, ← List.length_eq_zero_iff, hvalues.length_eq]

end Branches

/-! ### The relationships of an encounter -/

namespace Resolved

section Place
variable {registry : Registry} {load : Pointer → String → Except LoadError (List Entity)}
  {below : Include.Forest} {e : Entity} {t : Resolved}
  (h : expandForest registry load below (leaf e) = .ok t)
  (hdistinct : (below.map Include.Node.relation).Nodup) {empties : EmptyRelations} {name : String}
include h hdistinct

theorem exists_load_of_mem_relationships {l : Linkage}
    (hl : (name, l) ∈ (t.resource empties).relationships) :
    ∃ target cardinality values,
      registry.includable? e.pointer.type name = some (target, cardinality) ∧
      load e.pointer name = .ok values ∧
      l = Linkage.of cardinality (values.map Entity.pointer) := by
  obtain ⟨b, hb, -, rfl⟩ := mem_relationships_resource_iff.mp hl
  obtain ⟨n, -, rfl, hbranch⟩ := exists_node_of_mem_branches h hdistinct hb
  obtain ⟨values, hload, hlinkage, -⟩ := hbranch.exists_load
  exact ⟨b.targetType, b.cardinality, values, hbranch.includable, hload, hlinkage⟩

theorem mem_keys_relationships_iff : name ∈ Fields.keys (t.resource empties).relationships ↔
    (∃ n ∈ below, n.relation = name) ∧
      (registry.includable? e.pointer.type name).isSome = true ∧
      (empties = .omit → load e.pointer name ≠ .ok []) := by
  constructor
  · intro hname
    obtain ⟨l, hl⟩ := Fields.exists_mem_of_mem_keys hname
    obtain ⟨b, hb, hshown, -⟩ := mem_relationships_resource_iff.mp hl
    obtain ⟨n, hn, rfl, hbranch⟩ := exists_node_of_mem_branches h hdistinct hb
    obtain ⟨values, hload, -, hempty⟩ := hbranch.exists_load
    refine ⟨⟨n, hn, rfl⟩, Option.isSome_of_eq_some hbranch.includable, fun homit hnil => ?_⟩
    have hvalues : values = [] := Except.ok.inj (hload.symm.trans hnil)
    rw [← hempty, hshown homit] at hvalues
    cases hvalues
  · rintro ⟨⟨n, hn, rfl⟩, hsome, hload⟩
    obtain ⟨b, hb, hbranch⟩ := exists_branch_of_mem h hdistinct hn hsome
    obtain ⟨values, hvalues, -, hempty⟩ := hbranch.exists_load
    refine Fields.mem_keys_of_mem (mem_relationships_resource_iff.mpr ⟨b, hb, fun homit => ?_, rfl⟩)
    rw [Bool.eq_false_iff, Ne, hempty]
    rintro rfl
    exact hload homit hvalues

end Place

end Resolved

/-! ### The relationships of a resource -/

open Resolved

section Encounters
variable {registry : Registry} {load : Pointer → String → Except LoadError (List Entity)}
  {roots : List Entity} {forest : Include.Forest} (hforest : forest.WellFormed) {ts : List Resolved}
  (hts : List.Forall₂ (fun e t => expandForest registry load forest (leaf e) = .ok t) roots ts)
  {empties : EmptyRelations} {r : Resource} (hr : r ∈ (assemble empties ts).resources)
  {name : String}
include hforest hts hr

/-- **The names of the relationships** of a resource come from all places where it is met. -/
theorem mem_keys_relationships_iff_exists_met : name ∈ Fields.keys r.relationships ↔
    (∃ e columns below, Met registry load roots forest e columns below ∧
      e.pointer = r.pointer ∧ ∃ n ∈ below, n.relation = name) ∧
    (registry.includable? r.pointer.type name).isSome = true ∧
      (empties = .omit → load r.pointer name ≠ .ok []) := by
  rw [mem_keys_relationships_assemble_iff hr]
  constructor
  · rintro ⟨t, ht, hname⟩
    obtain ⟨e, columns, below, hmet, hp, hexpand⟩ := (mem_encountersOf_iff hforest hts).mp ht
    obtain ⟨hn, hshown⟩ :=
      (mem_keys_relationships_iff hexpand (hmet.distinct hforest)).mp hname
    rw [Entity.pointer_project, hp] at hshown
    exact ⟨⟨e, columns, below, hmet, hp, hn⟩, hshown⟩
  · rintro ⟨⟨e, columns, below, hmet, hp, hn⟩, hshown⟩
    obtain ⟨t, -, hexpand⟩ := hmet.exists_mem_encounters hforest hts
    refine ⟨t, (mem_encountersOf_iff hforest hts).mpr ⟨e, columns, below, hmet, hp, hexpand⟩, ?_⟩
    rw [mem_keys_relationships_iff hexpand (hmet.distinct hforest), Entity.pointer_project, hp]
    exact ⟨hn, hshown⟩

/-- **A relationship links what was loaded**, wherever it comes from. -/
theorem exists_load_of_mem_assemble {l : Linkage} (hl : (name, l) ∈ r.relationships) :
    ∃ target cardinality values,
      registry.includable? r.pointer.type name = some (target, cardinality) ∧
      load r.pointer name = .ok values ∧
      l = Linkage.of cardinality (values.map Entity.pointer) := by
  obtain ⟨t, ht, hl⟩ := mem_relationships_of_mem_assemble hr hl
  obtain ⟨e, columns, below, hmet, hp, hexpand⟩ := (mem_encountersOf_iff hforest hts).mp ht
  have hload := exists_load_of_mem_relationships hexpand (hmet.distinct hforest) hl
  rwa [Entity.pointer_project, hp] at hload

end Encounters

/-! ### Documents -/

namespace Dataset

/-- **Relationships are exact.** A resource has a relationship exactly if it is met where the forest
asks for the relation, the relation may be included from its type, and it is not an empty one that
is to be left out. What it links is all that the dataset loads for the relation, in order, or the
first of that for a relation to one; and all of it is of the target type. -/
theorem resolve_relationships {d : Dataset} {roots : List Entity} {expression : String}
    {options : ResolveOptions} {forest : Include.Forest}
    (hforest : Include.parse options.expression expression = .ok forest) {document : Document}
    (h : d.resolve roots expression options = .ok document) :
    ∀ r ∈ document.resources, ∀ name,
      (name ∈ Fields.keys r.relationships ↔
        (∃ e columns below, Met d.registry d.load roots forest e columns below ∧
          e.pointer = r.pointer ∧ ∃ n ∈ below, n.relation = name) ∧
        d.registry.isIncludable r.pointer.type name = true ∧
        (options.empties = .omit → d.load r.pointer name ≠ .ok [])) ∧
      ∀ linkage, (name, linkage) ∈ r.relationships → ∃ target cardinality values,
        d.registry.targetType? r.pointer.type name = some target ∧
        d.registry.cardinality? r.pointer.type name = some cardinality ∧
        d.load r.pointer name = .ok values ∧
        linkage = Linkage.of cardinality (values.map Entity.pointer) ∧
        ∀ p ∈ linkage.pointers, p.type = target := by
  obtain ⟨ts, rfl, hts⟩ := exists_of_resolve hforest h
  have hwell := (Include.wellFormed_of_parse hforest).1
  intro r hr name
  constructor
  · rw [mem_keys_relationships_iff_exists_met hwell hts hr, registry,
      TypeRegistry.isSome_includable?_iff]
  · intro linkage hlinkage
    obtain ⟨target, cardinality, values, hincludable, hload, rfl⟩ :=
      exists_load_of_mem_assemble hwell hts hr hlinkage
    obtain ⟨-, htarget, hcardinality⟩ := Registry.of_includable? hincludable
    refine ⟨target, cardinality, values, htarget, hcardinality, hload, rfl, fun p hmem => ?_⟩
    obtain ⟨v, hv, rfl⟩ := List.mem_map.mp (Linkage.mem_of_mem_pointers_of hmem)
    have htype := (visible?_of_mem_load hload hv).2
    exact Option.some.inj (htype.symm.trans htarget)

/-- A relation to one with three links, the first of which is hidden, a way back to the root, and a
relation that is left out, since all it links is hidden. -/
theorem resolve_relationships_cycle :
    let d : Dataset := {
      types := ⟨[("a", ⟨[("r", ⟨"b", .one, true⟩), ("s", ⟨"b", .many, true⟩)]⟩),
        ("b", ⟨[("up", ⟨"a", .many, true⟩)]⟩)]⟩
      records := [⟨⟨⟨"a", "1"⟩, []⟩, [("r", ["3", "1", "2"]), ("s", ["3"])]⟩,
        ⟨⟨⟨"b", "1"⟩, []⟩, [("up", ["1"])]⟩, ⟨⟨⟨"b", "2"⟩, []⟩, []⟩]
      hidden := [⟨"b", "3"⟩] }
    ∃ document, d.resolve (d.entitiesOf "a") "r.up,s" { empties := .omit } = .ok document ∧
      (∃ r ∈ document.resources, r.pointer = ⟨"a", "1"⟩ ∧ "r" ∈ Fields.keys r.relationships ∧
        "s" ∉ Fields.keys r.relationships ∧
        ∀ linkage, ("r", linkage) ∈ r.relationships → linkage = .one (some ⟨"b", "1"⟩)) ∧
      ∃ r ∈ document.resources, r.pointer = ⟨"b", "1"⟩ ∧ "up" ∈ Fields.keys r.relationships ∧
        ∀ linkage, ("up", linkage) ∈ r.relationships → linkage = .many [⟨"a", "1"⟩] := by
  intro d
  let forest : Include.Forest := [.mk "r" [] [.mk "up" [] []], .mk "s" [] []]
  have hforest : Include.parse {} "r.up,s" = .ok forest := by decide +kernel
  have hresources : (d.resolve (d.entitiesOf "a") "r.up,s" { empties := .omit }).toOption.map
      (fun document => document.resources.map Resource.pointer) =
      some [⟨"a", "1"⟩, ⟨"b", "1"⟩] := by decide +kernel
  cases h : d.resolve (d.entitiesOf "a") "r.up,s" { empties := .omit } with
  | error e => rw [h] at hresources; cases hresources
  | ok document =>
    rw [h] at hresources
    have hpointers : document.resources.map Resource.pointer = [⟨"a", "1"⟩, ⟨"b", "1"⟩] :=
      Option.some.inj hresources
    have hall := @resolve_relationships d _ _ { empties := .omit } _ hforest _ h
    have hfind : ∀ p ∈ [⟨"a", "1"⟩, ⟨"b", "1"⟩], ∃ r ∈ document.resources, r.pointer = p := by
      rw [← hpointers]
      exact fun p hp => List.mem_map.mp hp
    -- a relation of somebody who is met, with what it loads
    have hshown : ∀ {e columns below n cardinality v values},
        Met d.registry d.load (d.entitiesOf "a") forest e columns below → n ∈ below →
        d.registry.isIncludable e.pointer.type n.relation = true →
        d.registry.cardinality? e.pointer.type n.relation = some cardinality →
        d.load e.pointer n.relation = .ok (v :: values) →
        ∀ r ∈ document.resources, r.pointer = e.pointer →
          n.relation ∈ Fields.keys r.relationships ∧ ∀ linkage,
            (n.relation, linkage) ∈ r.relationships →
              linkage = Linkage.of cardinality ((v :: values).map Entity.pointer) := by
      intro e columns below n cardinality v values hmet hn hincludable hcardinality hload r hr hp
      obtain ⟨hnames, hlinkages⟩ := hall r hr n.relation
      rw [hp, hload, hcardinality] at hlinkages
      rw [hp, hload] at hnames
      constructor
      · exact hnames.mpr ⟨⟨e, columns, below, hmet, rfl, n, hn, rfl⟩, hincludable, by simp⟩
      · intro linkage hlinkage
        obtain ⟨_, _, _, -, hsome, hvalues, rfl, -⟩ := hlinkages linkage hlinkage
        rw [Option.some.inj hsome, Except.ok.inj hvalues]
    have hroot : Met d.registry d.load (d.entitiesOf "a") forest ⟨⟨"a", "1"⟩, []⟩ [] forest :=
      .root (List.mem_singleton.mpr rfl)
    have hlinked : Met d.registry d.load (d.entitiesOf "a") forest ⟨⟨"b", "1"⟩, []⟩ []
        [.mk "up" [] []] :=
      .linked hroot (n := .mk "r" [] [.mk "up" [] []]) List.mem_cons_self rfl rfl
        List.mem_cons_self
    obtain ⟨r, hr, hp⟩ := hfind _ List.mem_cons_self
    obtain ⟨s, hs, hq⟩ := hfind _ (List.mem_cons_of_mem _ List.mem_cons_self)
    obtain ⟨hname, hone⟩ := hshown hroot List.mem_cons_self rfl rfl rfl r hr hp
    refine ⟨document, rfl, ⟨r, hr, hp, hname, fun hempty => ?_, hone⟩, s, hs, hq, ?_⟩
    · have hnames := (hall r hr "s").1.mp hempty
      rw [hp] at hnames
      exact hnames.2.2 rfl rfl
    · exact hshown hlinked List.mem_cons_self rfl rfl rfl s hs hq

end Dataset

end Sideload
