import Sideload.Proofs.Resolution.Places

/-! # What can be loaded

A forest asks for relations below an entity, and then for relations below what these load. It can be
resolved exactly if all that it asks for can be loaded (`exists_expandForest_iff`), whatever the
order in which it asks; the columns that are kept make no difference. So a resolution has a result
exactly if this is so below all its roots (`exists_resolve_iff`). -/

namespace Sideload

open Resolved

section Loadable
variable (registry : Registry) (load : Pointer → String → Except LoadError (List Entity))

/-- All that a forest asks for below an identity can be loaded: the relations that may be included,
and then what is asked for below their values. -/
inductive Loadable : Include.Forest → Pointer → Prop where
  | intro {forest : Include.Forest} {p : Pointer}
      (loaded : ∀ n ∈ forest, (registry.includable? p.type n.relation).isSome = true →
        ∃ values, load p n.relation = .ok values)
      (below : ∀ n ∈ forest, (registry.includable? p.type n.relation).isSome = true →
        ∀ values, load p n.relation = .ok values → ∀ v ∈ values, Loadable n.children v.pointer) :
      Loadable forest p

variable {registry load}

theorem Loadable.nil (p : Pointer) : Loadable registry load [] p :=
  .intro (fun _ hn => nomatch hn) (fun _ hn => nomatch hn)

/-- The relations of a forest are loaded one by one, whatever the order. -/
theorem loadable_cons_iff {n : Include.Node} {forest : Include.Forest} {p : Pointer} :
    Loadable registry load (n :: forest) p ↔
      ((registry.includable? p.type n.relation).isSome = true →
        ∃ values, load p n.relation = .ok values ∧
          ∀ v ∈ values, Loadable registry load n.children v.pointer) ∧
      Loadable registry load forest p := by
  constructor
  · rintro ⟨loaded, below⟩
    rw [List.forall_mem_cons] at loaded below
    refine ⟨fun hsome => ?_, .intro loaded.2 below.2⟩
    obtain ⟨values, hload⟩ := loaded.1 hsome
    exact ⟨values, hload, below.1 hsome values hload⟩
  · rintro ⟨hn, ⟨loaded, below⟩⟩
    refine .intro (List.forall_mem_cons.mpr ⟨fun hsome => ?_, loaded⟩)
      (List.forall_mem_cons.mpr ⟨fun hsome values hload => ?_, below⟩)
    · obtain ⟨values, hload, -⟩ := hn hsome
      exact ⟨values, hload⟩
    · obtain ⟨values', hload', hvalues⟩ := hn hsome
      obtain rfl := Except.ok.inj (hload'.symm.trans hload)
      exact hvalues

theorem pointer_expandNode {n : Include.Node} {r t : Resolved}
    (h : expandNode registry load n r = .ok t) : t.pointer = r.pointer := by
  rcases expandNode_cases h with ⟨-, rfl⟩ | ⟨-, b, -, rfl⟩
  · rfl
  · exact congrArg Entity.pointer (entity_withBranch _ b r)

mutual

/-- **A forest can be resolved** below an identity if all that it asks for can be loaded. -/
theorem exists_expandForest_iff : ∀ {forest : Include.Forest} {r : Resolved},
    (∃ t, expandForest registry load forest r = .ok t) ↔ Loadable registry load forest r.pointer
  | [], r => ⟨fun _ => .nil _, fun _ => ⟨r, by rw [expandForest]⟩⟩
  | n :: forest, r => by
    rw [loadable_cons_iff, ← exists_expandNode_iff, ← exists_expandForest_iff (r := r)]
    have hkeep : ∀ {r'}, expandNode registry load n r = .ok r' →
        ((∃ t, expandForest registry load forest r' = .ok t) ↔
          ∃ t, expandForest registry load forest r = .ok t) := by
      intro r' hr'
      rw [exists_expandForest_iff, exists_expandForest_iff, pointer_expandNode hr']
    simp only [expandForest, bind_eq_ok_iff]
    constructor
    · rintro ⟨t, r', hr', ht⟩
      exact ⟨⟨r', hr'⟩, (hkeep hr').mp ⟨t, ht⟩⟩
    · rintro ⟨⟨r', hr'⟩, hforest⟩
      obtain ⟨t, ht⟩ := (hkeep hr').mpr hforest
      exact ⟨t, r', hr', ht⟩

theorem exists_expandNode_iff : ∀ {n : Include.Node} {r : Resolved},
    (∃ t, expandNode registry load n r = .ok t) ↔
      ((registry.includable? r.pointer.type n.relation).isSome = true →
        ∃ values, load r.pointer n.relation = .ok values ∧
          ∀ v ∈ values, Loadable registry load n.children v.pointer)
  | .mk relation columns children, r => by
    rw [expandNode]
    show _ ↔ ((registry.includable? r.type relation).isSome = true →
      ∃ values, load r.pointer relation = .ok values ∧
        ∀ v ∈ values, Loadable registry load children v.pointer)
    cases hfound : registry.includable? r.type relation with
    | none =>
      refine ⟨fun _ hsome => absurd hsome Bool.false_ne_true, fun _ => ⟨r, ?_⟩⟩
      unfold expandOne
      rw [hfound]
    | some found =>
      obtain ⟨target, cardinality⟩ := found
      have hpointer : ∀ v : Entity, (leaf (v.project columns)).pointer = v.pointer :=
        Entity.pointer_project columns
      have hbelow : ∀ v : Entity, Loadable registry load children v.pointer ↔
          ∃ t, expandForest registry load children (leaf (v.project columns)) = .ok t := fun v => by
        rw [exists_expandForest_iff, hpointer]
      simp only [expandOne_eq_ok_iff hfound, List.forall₂_map_left_iff, Option.isSome_some,
        forall_const, hbelow]
      constructor
      · rintro ⟨_, loaded, values, hload, hvalues, rfl⟩
        refine ⟨loaded, hload, fun v hv => ?_⟩
        obtain ⟨t, -, ht⟩ := exists_of_mem_left hvalues hv
        exact ⟨t, ht⟩
      · rintro ⟨loaded, hload, hall⟩
        obtain ⟨values, hvalues⟩ := exists_forall₂ hall
        exact ⟨_, loaded, values, hload, hvalues, rfl⟩

end

/-- A resolution has a result if all that is asked for below its roots can be loaded. -/
theorem exists_resolve_iff {loader : Loader} (hloader : loader.Entitywise) {roots : List Entity}
    {forest : Include.Forest} : (∃ ts, (resolve registry loader roots forest).outcome = .ok ts) ↔
      ∀ e ∈ roots, Loadable registry loader.load forest e.pointer := by
  unfold resolve
  simp only [outcome_resolveForest registry hloader, List.forall₂_map_left_iff]
  have hroot : ∀ e : Entity, (∃ t, expandForest registry loader.load forest (leaf e) = .ok t) ↔
      Loadable registry loader.load forest e.pointer := fun e => exists_expandForest_iff
  simp only [← hroot]
  exact ⟨fun ⟨_, h⟩ e he => (exists_of_mem_left h he).imp fun _ ht => ht.2, exists_forall₂⟩

end Loadable

end Sideload
