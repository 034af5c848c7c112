import Sideload.Proofs.Document.Identities
import Sideload.Proofs.Document.Reachability
import Sideload.Proofs.Resolution.FixedAnswers

/-! # Empty relations

A document that omits empty relations has the same resources, in the same order and with the same
attributes, as one that keeps them (`assemble_omit_empty`). Of relationships this cannot be said of
all trees: where two encounters of an identity disagree, the one with an empty relation may hide
what the other links, if it is kept.

Trees of a resolution do not disagree if what is loaded is fixed: then whether a relationship is
empty can be told from the identity and the name (`Resource.EmptyBy`), so the empty ones may be left
out before the encounters are merged as well as afterwards (`mergeAll_map_withoutEmpty`). -/

namespace Sideload

open Document Resolved

/-! ### Without empty relationships -/

/-- A resource without the relationships that link nothing. -/
def Resource.withoutEmpty (r : Resource) : Resource :=
  { r with relationships := r.relationships.filter fun relationship => !relationship.2.isEmpty }

/-- A document without the relationships that link nothing. -/
def Document.withoutEmpty (d : Document) : Document where
  data := d.data.map Resource.withoutEmpty
  included := d.included.map Resource.withoutEmpty

theorem Branch.isEmpty_linkage (b : Branch Resolved) : b.linkage.isEmpty = b.isEmpty := by
  unfold linkage isEmpty
  cases b.cardinality <;> cases b.values <;> rfl

theorem Resolved.resource_omit (t : Resolved) :
    t.resource .omit = (t.resource .keep).withoutEmpty := by
  have hshown : t.shown .omit = (t.shown .keep).filter fun branch => !branch.2.linkage.isEmpty := by
    unfold shown
    rw [List.filter_filter]
    exact List.filter_congr fun branch _ => by simp [Branch.isEmpty_linkage]
  unfold resource Resource.withoutEmpty Fields.mapValues
  rw [hshown, List.filter_map]
  rfl

namespace Resource

/-- Whether a relationship is empty can be told from its name. -/
def EmptyBy (isEmpty : String → Bool) (r : Resource) : Prop :=
  ∀ relationship ∈ r.relationships, relationship.2.isEmpty = isEmpty relationship.1

section EmptyBy
variable {isEmpty : String → Bool} {r s : Resource}

theorem EmptyBy.relationships_eq (h : r.EmptyBy isEmpty) : r.withoutEmpty.relationships =
    Fields.restrict (fun name => !isEmpty name) r.relationships :=
  List.filter_congr fun relationship hmem => by rw [h relationship hmem]

theorem EmptyBy.merge (hr : r.EmptyBy isEmpty) (hs : s.EmptyBy isEmpty) :
    (r.merge s).EmptyBy isEmpty := fun relationship hmem =>
  (Fields.mem_union hmem).elim (hr relationship) (hs relationship)

/-- What is left out after one merge can be left out before it. -/
theorem EmptyBy.merge_withoutEmpty (hr : r.EmptyBy isEmpty) (hs : s.EmptyBy isEmpty) :
    r.withoutEmpty.merge s.withoutEmpty = (r.merge s).withoutEmpty := by
  have hrelationships : Fields.union r.withoutEmpty.relationships s.withoutEmpty.relationships =
      (r.merge s).withoutEmpty.relationships := by
    rw [hr.relationships_eq, hs.relationships_eq, (hr.merge hs).relationships_eq,
      ← Fields.restrict_union]
    rfl
  unfold Resource.merge
  rw [hrelationships]
  rfl

theorem EmptyBy.foldl_merge_withoutEmpty : ∀ {rs : List Resource} {r : Resource},
    r.EmptyBy isEmpty → (∀ s ∈ rs, s.EmptyBy isEmpty) →
      (rs.map withoutEmpty).foldl Resource.merge r.withoutEmpty =
        (rs.foldl Resource.merge r).withoutEmpty
  | [], _, _, _ => rfl
  | s :: rs, r, hr, hrs => by
    obtain ⟨hs, hrs⟩ := List.forall_mem_cons.mp hrs
    rw [List.map_cons, List.foldl_cons, hr.merge_withoutEmpty hs,
      foldl_merge_withoutEmpty (hr.merge hs) hrs, List.foldl_cons]

/-- Empty relationships can be left out before or after resources are merged. -/
theorem mergeAll_map_withoutEmpty {rs : List Resource} (h : ∀ r ∈ rs, r.EmptyBy isEmpty) :
    mergeAll (rs.map withoutEmpty) = (mergeAll rs).map withoutEmpty := by
  cases rs with
  | nil => rfl
  | cons r rs =>
    obtain ⟨hr, hrs⟩ := List.forall_mem_cons.mp h
    exact congrArg some (hr.foldl_merge_withoutEmpty hrs)

end EmptyBy

end Resource

/-! ### Documents -/

/-- What becomes of empty relations makes no difference to which identities stand in a document. -/
theorem pointers_assemble_eq (empties empties' : EmptyRelations) (roots : List Resolved)
    (part : Part) :
    (assemble empties roots).pointers part = (assemble empties' roots).pointers part := by
  cases part with
  | data => exact (map_pointer_data empties roots).trans (map_pointer_data empties' roots).symm
  | included =>
    exact (map_pointer_included empties roots).trans (map_pointer_included empties' roots).symm

/-- It makes no difference to their attributes, either. -/
theorem map_attributes_part_eq (empties empties' : EmptyRelations) (roots : List Resolved)
    (part : Part) :
    ((assemble empties roots).part part).map (fun r => (r.pointer, r.attributes)) =
      ((assemble empties' roots).part part).map fun r => (r.pointer, r.attributes) := by
  refine map_part_eq (pointers_assemble_eq empties empties' roots part) fun p => ?_
  cases encountersOf p roots with
  | nil => rfl
  | cons t ts =>
    simp only [List.map_cons, Resource.mergeAll, Option.map_some, Resource.pointer_foldl_merge,
      Resource.attributes_foldl_merge, List.map_map]
    rfl

section Loaded
variable {registry : Registry} {lists : Pointer → String → List Entity}

/-- Whether a relationship of an encounter is empty can be told from what is fixed for its name. -/
theorem emptyBy_of_everywhere {t : Resolved}
    (h : t.Everywhere (IsLoaded registry fun p relation => .ok (lists p relation)))
    (empties : EmptyRelations) :
    (t.resource empties).EmptyBy fun relation => (lists t.pointer relation).isEmpty := by
  rintro ⟨relation, l⟩ hl
  obtain ⟨b, hb, -, rfl⟩ := mem_relationships_resource_iff.mp hl
  obtain ⟨values, hload, hvalues⟩ := (h.here hb).loaded
  obtain rfl := Except.ok.inj hload
  have hisEmpty := congrArg List.isEmpty hvalues
  rw [List.isEmpty_map, List.isEmpty_map] at hisEmpty
  exact b.isEmpty_linkage.trans hisEmpty

/-- **Omitting empty relations only removes empty relationships**, if the trees hold what is
fixed. -/
theorem assemble_omit_of_everywhere {roots : List Resolved}
    (h : ∀ t ∈ roots, t.Everywhere (IsLoaded registry fun p relation => .ok (lists p relation))) :
    assemble .omit roots = (assemble .keep roots).withoutEmpty := by
  have hpart : ∀ part, (assemble .omit roots).part part =
      ((assemble .keep roots).part part).map Resource.withoutEmpty := by
    intro part
    rw [← List.map_id ((assemble .omit roots).part part)]
    refine map_part_eq (pointers_assemble_eq _ _ roots part) fun p => ?_
    have hempty : ∀ r ∈ (encountersOf p roots).map (resource .keep),
        r.EmptyBy fun relation => (lists p relation).isEmpty := by
      intro r hr
      obtain ⟨t, ht, rfl⟩ := List.mem_map.mp hr
      obtain ⟨hmet, rfl⟩ := mem_encountersOf.mp ht
      exact emptyBy_of_everywhere (everywhere_of_mem_encounters h hmet) .keep
    have homit : (encountersOf p roots).map (resource .omit) =
        ((encountersOf p roots).map (resource .keep)).map Resource.withoutEmpty := by
      rw [List.map_map]
      exact List.map_congr_left fun t _ => t.resource_omit
    rw [homit, Resource.mergeAll_map_withoutEmpty hempty, Option.map_id]
    rfl
  refine Document.eq_of_part_eq fun part => (hpart part).trans ?_
  cases part <;> rfl

end Loaded

/-- **What the option does**: the documents of some trees have the same identities in the same order
with the same attributes, whatever becomes of empty relations; and if the trees come from a
resolution with a loader whose answers are fixed, then the document without empty relations is the
other one, less its empty relationships. -/
theorem assemble_omit_empty (ts : List Resolved) :
    ((assemble .omit ts).data.map (fun r => (r.pointer, r.attributes)) =
        (assemble .keep ts).data.map (fun r => (r.pointer, r.attributes)) ∧
      (assemble .omit ts).included.map (fun r => (r.pointer, r.attributes)) =
        (assemble .keep ts).included.map (fun r => (r.pointer, r.attributes))) ∧
    ∀ (registry : Registry) (loader : Loader) (lists : Pointer → String → List Entity)
      (roots : List Entity) (forest : Include.Forest), loader.Fixed lists →
      (resolve registry loader roots forest).outcome = .ok ts →
        assemble .omit ts = (assemble .keep ts).withoutEmpty :=
  ⟨⟨map_attributes_part_eq .omit .keep ts .data, map_attributes_part_eq .omit .keep ts .included⟩,
    fun _ _ _ _ _ hfixed hts => assemble_omit_of_everywhere (everywhere_of_fixed hfixed hts)⟩

/-- A root that links itself: met again, it adds an empty relationship, and what it links has
another one. -/
theorem assemble_omit_empty_cycle :
    let registry : Registry := ⟨fun _ _ => true, fun type _ => some type, fun _ _ => some .many⟩
    let entity (id : String) : Entity := ⟨⟨"a", id⟩, []⟩
    let lists (p : Pointer) (relation : String) : List Entity :=
      if p.id = "1" then
        if relation = "r" then [entity "2"] else if relation = "s" then [entity "1"] else []
      else []
    let loader : Loader := ⟨fun p relation => .ok (lists p relation),
      fun ps relation => .ok (ps.map fun p => lists p relation)⟩
    let forest : Include.Forest :=
      [.mk "r" [] [.mk "s" [] []], .mk "s" [] [.mk "r" [] [], .mk "t" [] []]]
    loader.Fixed lists ∧
      ∃ ts, (resolve registry loader [entity "1"] forest).outcome = .ok ts ∧
        assemble .omit ts = (assemble .keep ts).withoutEmpty ∧
        (assemble .keep ts).resources.map (fun r => Fields.keys r.relationships) =
          [["r", "s", "t"], ["s"]] ∧
        (assemble .omit ts).resources.map (fun r => Fields.keys r.relationships) =
          [["r", "s"], []] := by
  intro registry entity lists loader forest
  have hfixed : loader.Fixed lists := fun _ _ _ hanswer _ => (Except.ok.inj hanswer).symm
  have hkeys : (resolve registry loader [entity "1"] forest).outcome.toOption.map
      (fun ts => ((assemble .keep ts).resources.map fun r => Fields.keys r.relationships,
        (assemble .omit ts).resources.map fun r => Fields.keys r.relationships)) =
      some ([["r", "s", "t"], ["s"]], [["r", "s"], []]) := by decide +kernel
  refine ⟨hfixed, ?_⟩
  cases hts : (resolve registry loader [entity "1"] forest).outcome with
  | error e =>
    rw [hts] at hkeys
    cases hkeys
  | ok ts =>
    rw [hts] at hkeys
    obtain ⟨hkeep, homit⟩ := Prod.mk.inj (Option.some.inj hkeys)
    exact ⟨ts, rfl, (assemble_omit_empty ts).2 registry loader lists [entity "1"] forest hfixed hts,
      hkeep, homit⟩

end Sideload
