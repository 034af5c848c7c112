import Sideload.Proofs.Resolution.Loaded

/-! # Loaders with fixed answers

A loader may fail for some batches and not for others. If what it answers for an entity is fixed
wherever it answers at all (`Loader.Fixed`), then it refines the loader that answers from these
lists one entity at a time (`Loader.Fixed.refines`): a run that has a result has the same result
with that loader (`resolve_refines`). So its trees hold, at every branch, what is fixed for the
relation of the entity (`everywhere_of_fixed`). -/

namespace Sideload

/-- What a batch is answered with is, entity by entity, what some lists fix. An answer of another
length does not count, since resolution refuses it. -/
def Loader.Fixed (loader : Loader) (lists : Pointer → String → List Entity) : Prop :=
  ∀ sources relation answer, loader.loadBatch sources relation = .ok answer →
    answer.length = sources.length → answer = sources.map fun p => lists p relation

/-- Where the first loader answers a batch, the second one answers the same. -/
def Loader.Refines (loader loader' : Loader) : Prop :=
  ∀ sources relation answer, loader.loadBatch sources relation = .ok answer →
    answer.length = sources.length → loader'.loadBatch sources relation = .ok answer

theorem Loader.each_ok (lists : Pointer → String → List Entity) (relation : String) :
    ∀ sources : List Pointer, each (fun p relation => .ok (lists p relation)) relation sources =
      .ok (sources.map fun p => lists p relation)
  | [] => rfl
  | p :: sources => by
    rw [each, each_ok lists relation sources]
    rfl

theorem Loader.Fixed.refines {loader : Loader} {lists : Pointer → String → List Entity}
    (h : loader.Fixed lists) :
    loader.Refines (.ofLoad fun p relation => .ok (lists p relation)) := by
  intro sources relation answer hanswer hlength
  rw [h sources relation answer hanswer hlength]
  exact each_ok lists relation sources

/-- If the first run has a result, the second one has the same. -/
def Run.Refines {α : Type} (x y : Run α) : Prop := ∀ a, x.outcome = .ok a → y.outcome = .ok a

namespace Run

theorem Refines.refl {α : Type} (x : Run α) : x.Refines x := fun _ => id

theorem Refines.bind {α β : Type} {x y : Run α} {f g : α → Run β} (h : x.Refines y)
    (hf : ∀ a, (f a).Refines (g a)) : (x >>= f).Refines (y >>= g) := by
  intro b hb
  obtain ⟨a, ha, hb⟩ := outcome_bind.mp hb
  exact outcome_bind.mpr ⟨a, h a ha, hf a b hb⟩

theorem load_refines {loader loader' : Loader} (h : loader.Refines loader')
    (type relation : String) (sources : List Pointer) :
    (load loader type relation sources).Refines (load loader' type relation sources) := by
  intro lists hlists
  unfold load at hlists ⊢
  dsimp only at hlists ⊢
  cases hanswer : loader.loadBatch sources relation with
  | error e => simp [hanswer] at hlists
  | ok answer =>
    by_cases hlength : answer.length = sources.length
    · rw [h sources relation answer hanswer hlength]
      rwa [hanswer] at hlists
    · simp [hanswer, hlength] at hlists

end Run

namespace Resolved

section Refines
variable (registry : Registry) {loader loader' : Loader}

theorem resolveGroup_refines (h : loader.Refines loader') (relation : String)
    (columns : List String) {within within' : List Resolved → Run (List Resolved)}
    (hwithin : ∀ values, (within values).Refines (within' values)) (parents : List Resolved)
    (type : String) :
    (resolveGroup registry loader relation columns within type parents).Refines
      (resolveGroup registry loader' relation columns within' type parents) := by
  unfold resolveGroup
  cases registry.includable? type relation with
  | none => exact .refl _
  | some found =>
    exact (Run.load_refines h _ _ _).bind fun _ => (hwithin _).bind fun _ => .refl _

theorem foldlM_refines {group group' : List Resolved → String → Run (List Resolved)}
    (hgroup : ∀ parents type, (group parents type).Refines (group' parents type)) :
    ∀ (types : List String) (parents : List Resolved),
      (types.foldlM group parents).Refines (types.foldlM group' parents)
  | [], _ => .refl _
  | type :: types, parents => by
    rw [List.foldlM_cons, List.foldlM_cons]
    exact (hgroup parents type).bind (foldlM_refines hgroup types)

mutual

theorem resolveForest_refines (h : loader.Refines loader') :
    ∀ (forest : Include.Forest) (parents : List Resolved),
      (resolveForest registry loader forest parents).Refines
        (resolveForest registry loader' forest parents)
  | [], _ => by
    rw [resolveForest, resolveForest]
    exact .refl _
  | n :: forest, parents => by
    rw [resolveForest, resolveForest]
    exact (resolveNode_refines h n parents).bind (resolveForest_refines h forest)

theorem resolveNode_refines (h : loader.Refines loader') :
    ∀ (n : Include.Node) (parents : List Resolved),
      (resolveNode registry loader n parents).Refines (resolveNode registry loader' n parents)
  | .mk relation columns children, parents => by
    rw [resolveNode, resolveNode]
    exact foldlM_refines (resolveGroup_refines registry h relation columns
      (resolveForest_refines h children)) _ _

end

end Refines

end Resolved

/-- **A resolution that has a result has the same one with a loader that is refined.** -/
theorem resolve_refines (registry : Registry) {loader loader' : Loader}
    (h : loader.Refines loader') (roots : List Entity) (forest : Include.Forest) :
    (resolve registry loader roots forest).Refines (resolve registry loader' roots forest) :=
  Resolved.resolveForest_refines registry h forest _

theorem everywhere_of_fixed {registry : Registry} {loader : Loader}
    {lists : Pointer → String → List Entity} (h : loader.Fixed lists) {roots : List Entity}
    {forest : Include.Forest} {ts : List Resolved}
    (hts : (resolve registry loader roots forest).outcome = .ok ts) :
    ∀ t ∈ ts, t.Everywhere (IsLoaded registry fun p relation => .ok (lists p relation)) :=
  everywhere_of_resolve (Loader.entitywise_ofLoad _)
    (resolve_refines registry h.refines roots forest ts hts)

end Sideload
