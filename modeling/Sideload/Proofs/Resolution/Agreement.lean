import Sideload.Proofs.Resolution.Expansion

/-! # Loaders that agree

Two loaders that answer alike wherever a resolution asks give the same run: the same batches in the
same order, and the same result or the same error (`AgreeOn.resolve_eq`). It is enough that they
agree on some identities that hold the roots and are closed under loading (`AgreeOn`), since
resolution asks for nothing but its roots and what it loads below them: the parents of a level keep
their identities (`map_pointer_resolveForest`). -/

namespace Sideload

theorem Run.bind_congr {α β : Type} {x : Run α} {f g : α → Run β}
    (h : ∀ a, x.outcome = .ok a → f a = g a) : x >>= f = x >>= g := by
  show x.bind f = x.bind g
  unfold Run.bind
  cases hx : x.outcome with
  | error e => rfl
  | ok a => dsimp only; rw [h a hx]

/-! ### The parents of a level -/

namespace Resolved

section Parents
variable {registry : Registry} {loader : Loader}

theorem map_pointer_attach (name type : String) :
    ∀ (parents : List Resolved) (branches : List (Branch Resolved)),
      (attach name type parents branches).map pointer = parents.map pointer
  | [], _ => rfl
  | p :: parents, [] => by
    rw [attach]
    split <;> exact congrArg (p.pointer :: ·) (map_pointer_attach name type parents [])
  | p :: parents, b :: branches => by
    rw [attach]
    split
    · have hp : (p.withBranch name b).pointer = p.pointer :=
        congrArg Entity.pointer (entity_withBranch name b p)
      rw [List.map_cons, List.map_cons, hp, map_pointer_attach name type parents branches]
    · exact congrArg (p.pointer :: ·) (map_pointer_attach name type parents (b :: branches))

theorem map_pointer_resolveGroup {relation : String} {columns : List String}
    {within : List Resolved → Run (List Resolved)} {type : String} {parents ts : List Resolved}
    (h : (resolveGroup registry loader relation columns within type parents).outcome = .ok ts) :
    ts.map pointer = parents.map pointer := by
  unfold resolveGroup at h
  split at h
  · rw [(Run.outcome_pure parents ts).mp h]
  · obtain ⟨lists, -, h⟩ := Run.outcome_bind.mp h
    obtain ⟨values, -, h⟩ := Run.outcome_bind.mp h
    rw [(Run.outcome_pure _ ts).mp h]
    exact map_pointer_attach _ _ _ _

theorem map_pointer_foldlM {group : List Resolved → String → Run (List Resolved)}
    (hgroup : ∀ ps type ts, (group ps type).outcome = .ok ts → ts.map pointer = ps.map pointer) :
    ∀ (types : List String) {ps ts : List Resolved}, (types.foldlM group ps).outcome = .ok ts →
      ts.map pointer = ps.map pointer
  | [], ps, ts, h => by rw [(Run.outcome_pure ps ts).mp h]
  | type :: types, ps, ts, h => by
    rw [List.foldlM_cons] at h
    obtain ⟨qs, hqs, h⟩ := Run.outcome_bind.mp h
    rw [map_pointer_foldlM hgroup types h, hgroup ps type qs hqs]

theorem map_pointer_resolveNode (n : Include.Node) {ps ts : List Resolved}
    (h : (resolveNode registry loader n ps).outcome = .ok ts) :
    ts.map pointer = ps.map pointer := by
  obtain ⟨relation, columns, children⟩ := n
  rw [resolveNode] at h
  exact map_pointer_foldlM (fun _ _ _ => map_pointer_resolveGroup) _ h

theorem map_pointer_resolveForest : ∀ (forest : Include.Forest) {ps ts : List Resolved},
    (resolveForest registry loader forest ps).outcome = .ok ts → ts.map pointer = ps.map pointer
  | [], ps, ts, h => by
    rw [resolveForest] at h
    rw [(Run.outcome_pure ps ts).mp h]
  | n :: forest, ps, ts, h => by
    rw [resolveForest] at h
    obtain ⟨qs, hqs, h⟩ := Run.outcome_bind.mp h
    rw [map_pointer_resolveForest forest h, map_pointer_resolveNode n hqs]

end Parents

end Resolved

/-! ### Runs of two loaders -/

/-- Two ways to load answer alike for some identities, and what they load is among these again. -/
structure AgreeOn (V : Pointer → Prop)
    (load load' : Pointer → String → Except LoadError (List Entity)) : Prop where
  same : ∀ p, V p → ∀ relation, load p relation = load' p relation
  closed : ∀ p, V p → ∀ relation values, load p relation = .ok values →
    ∀ v ∈ values, V v.pointer

namespace AgreeOn

variable {V : Pointer → Prop} {load load' : Pointer → String → Except LoadError (List Entity)}

section Loading
variable (h : AgreeOn V load load')
include h

theorem each_eq (relation : String) : ∀ {ps : List Pointer}, (∀ p ∈ ps, V p) →
    Loader.each load relation ps = Loader.each load' relation ps
  | [], _ => rfl
  | p :: ps, hps => by
    obtain ⟨hp, hps⟩ := List.forall_mem_cons.mp hps
    rw [Loader.each, Loader.each, h.same p hp, each_eq relation hps]

theorem load_eq (type relation : String) {ps : List Pointer} (hps : ∀ p ∈ ps, V p) :
    Run.load (.ofLoad load) type relation ps = Run.load (.ofLoad load') type relation ps := by
  have heach : (Loader.ofLoad load).loadBatch ps relation =
      (Loader.ofLoad load').loadBatch ps relation := h.each_eq relation hps
  unfold Run.load
  rw [heach]

theorem of_mem_flatten {type relation : String} {ps : List Pointer} (hps : ∀ p ∈ ps, V p)
    {lists : List (List Entity)}
    (hlists : (Run.load (.ofLoad load) type relation ps).outcome = .ok lists) :
    ∀ v ∈ lists.flatten, V v.pointer := by
  have hall := (Run.outcome_load (Loader.entitywise_ofLoad load) type relation ps lists).mp hlists
  clear hlists
  induction hall with
  | nil => intro v hv; cases hv
  | cons hload _ ih =>
    obtain ⟨hp, hps⟩ := List.forall_mem_cons.mp hps
    intro v hv
    rcases List.mem_append.mp (List.flatten_cons ▸ hv) with hv | hv
    · exact h.closed _ hp relation _ hload v hv
    · exact ih hps v hv

end Loading

open Resolved

section Levels
variable (registry : Registry)

theorem resolveGroup_eq (h : AgreeOn V load load') {relation : String} {columns : List String}
    {within within' : List Resolved → Run (List Resolved)}
    (hwithin : ∀ ps : List Resolved, (∀ p ∈ ps.map pointer, V p) → within ps = within' ps)
    (type : String) {parents : List Resolved} (hparents : ∀ p ∈ parents.map pointer, V p) :
    resolveGroup registry (.ofLoad load) relation columns within type parents =
      resolveGroup registry (.ofLoad load') relation columns within' type parents := by
  unfold resolveGroup
  cases registry.includable? type relation with
  | none => rfl
  | some found =>
    obtain ⟨target, cardinality⟩ := found
    have hsources : ∀ p ∈ (parents.filter fun p => p.type = type).map pointer, V p := fun p hp =>
      hparents p ((List.filter_sublist.map pointer).subset hp)
    dsimp only
    rw [← h.load_eq type relation hsources]
    refine Run.bind_congr fun lists hlists => ?_
    rw [hwithin]
    intro p hp
    obtain ⟨t, ht, rfl⟩ := List.mem_map.mp hp
    obtain ⟨e, he, rfl⟩ := List.mem_map.mp ht
    show V (e.project columns).pointer
    rw [Entity.pointer_project]
    exact h.of_mem_flatten hsources hlists e he

theorem foldlM_eq {group group' : List Resolved → String → Run (List Resolved)}
    (hgroup : ∀ ps type, (∀ p ∈ ps.map pointer, V p) → group ps type = group' ps type)
    (hkeep : ∀ ps type ts, (group ps type).outcome = .ok ts → ts.map pointer = ps.map pointer) :
    ∀ (types : List String) {ps : List Resolved}, (∀ p ∈ ps.map pointer, V p) →
      types.foldlM group ps = types.foldlM group' ps
  | [], _, _ => rfl
  | type :: types, ps, hps => by
    rw [List.foldlM_cons, List.foldlM_cons, ← hgroup ps type hps]
    refine Run.bind_congr fun qs hqs => foldlM_eq hgroup hkeep types ?_
    rwa [hkeep ps type qs hqs]

mutual

theorem resolveForest_eq (h : AgreeOn V load load') :
    ∀ (forest : Include.Forest) {ps : List Resolved}, (∀ p ∈ ps.map pointer, V p) →
      resolveForest registry (.ofLoad load) forest ps =
        resolveForest registry (.ofLoad load') forest ps
  | [], _, _ => by rw [resolveForest, resolveForest]
  | n :: forest, ps, hps => by
    rw [resolveForest, resolveForest, ← h.resolveNode_eq n hps]
    refine Run.bind_congr fun qs hqs => h.resolveForest_eq forest ?_
    rwa [map_pointer_resolveNode n hqs]

theorem resolveNode_eq (h : AgreeOn V load load') : ∀ (n : Include.Node) {ps : List Resolved},
    (∀ p ∈ ps.map pointer, V p) → resolveNode registry (.ofLoad load) n ps =
      resolveNode registry (.ofLoad load') n ps
  | .mk relation columns children, ps, hps => by
    rw [resolveNode, resolveNode]
    refine foldlM_eq (fun qs type hqs => ?_) (fun _ _ _ => map_pointer_resolveGroup) _ hps
    exact h.resolveGroup_eq registry (fun _ => h.resolveForest_eq children) type hqs

end

/-- **Loaders that agree give the same run.** -/
theorem resolve_eq (h : AgreeOn V load load') {roots : List Entity}
    (hroots : ∀ e ∈ roots, V e.pointer) (forest : Include.Forest) :
    resolve registry (.ofLoad load) roots forest =
      resolve registry (.ofLoad load') roots forest := by
  unfold resolve
  refine h.resolveForest_eq registry forest fun p hp => ?_
  obtain ⟨t, ht, rfl⟩ := List.mem_map.mp hp
  obtain ⟨e, he, rfl⟩ := List.mem_map.mp ht
  exact hroots e he

end Levels

end AgreeOn

end Sideload
