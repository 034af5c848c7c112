import Sideload.Proofs.Resolution.Agreement

/-! # Resolution as a dialogue

`resolve` takes a loader that answers a batch alike whenever it is asked. To speak of a loader that
may answer the same batch in another way later, resolution is written down as a `Dialogue`: batches
asked one after the other, where what is asked next depends on the lists that came back. A dialogue
can be held with a loader that changes with what it was asked (`Dialogue.run`); with one that does
not change it is the resolution (`resolveAnew_const`).

Whatever the answers are, each batch is for some entities, all of the type that it is asked with
(`ensures_dialogueForest`): the parents of a level keep their identities, so a type that occurs
among them when the level begins still does when its turn comes. -/

namespace Sideload

/-- A computation that asks a loader: it is done, or it asks a batch for entities of a type and goes
on with the lists. -/
inductive Dialogue (α : Type) where
  | done (a : α)
  | ask (type : String) (batch : Batch) (next : List (List Entity) → Dialogue α)

/-- The batch is for some entities, all of them of a type. -/
def Batch.IsOf (type : String) (b : Batch) : Prop := b.sources ≠ [] ∧ ∀ p ∈ b.sources, p.type = type

namespace Dialogue

variable {α β : Type}

/-- Go on with the result of a dialogue. -/
def bind : Dialogue α → (α → Dialogue β) → Dialogue β
  | done a, f => f a
  | ask type b next, f => ask type b fun lists => (next lists).bind f

instance : Monad Dialogue where
  pure := done
  bind := bind

/-- Ask for one batch. -/
def load (type relation : String) (sources : List Pointer) : Dialogue (List (List Entity)) :=
  ask type ⟨relation, sources⟩ done

/-- Hold a dialogue after some batches that were asked before. The loader may change with what it
was asked: `loader past` is the loader after the batches `past`. -/
def run (loader : List Batch → Loader) : Dialogue α → List Batch → Run α
  | done a, _ => pure a
  | ask type b next, past => do
    let lists ← Run.load (loader past) type b.relation b.sources
    run loader (next lists) (past ++ [b])

/-- Whatever is answered, each batch is for some entities, all of the type that it is asked with,
and the result has a property. -/
def Ensures (Q : α → Prop) : Dialogue α → Prop
  | done a => Q a
  | ask type b next => b.IsOf type ∧ ∀ lists, (next lists).Ensures Q

theorem Ensures.bind {Q : α → Prop} {R : β → Prop} {f : α → Dialogue β}
    (hf : ∀ a, Q a → (f a).Ensures R) : ∀ {x : Dialogue α}, x.Ensures Q → (x >>= f).Ensures R
  | done a, h => hf a h
  | ask _ _ _, h => ⟨h.1, fun lists => Ensures.bind hf (h.2 lists)⟩

theorem ensures_load {type relation : String} {sources : List Pointer}
    (h : Batch.IsOf type ⟨relation, sources⟩) :
    (load type relation sources).Ensures fun _ => True :=
  ⟨h, fun _ => trivial⟩

end Dialogue

/-! ### The dialogue of a resolution -/

namespace Resolved

section Dialogue
variable (registry : Registry)

/-- One relation for the parents of one type, as `resolveGroup` has it. -/
def dialogueGroup (relation : String) (columns : List String)
    (within : List Resolved → Dialogue (List Resolved)) (type : String) (parents : List Resolved) :
    Dialogue (List Resolved) :=
  match registry.includable? type relation with
  | none => pure parents
  | some (target, cardinality) => do
    let sources := (parents.filter fun p => p.type = type).map pointer
    let lists ← Dialogue.load type relation sources
    let values ← within (lists.flatten.map fun e => leaf (e.project columns))
    let branches := List.zipWith
      (fun source values => ⟨source, relation, target, cardinality, columns, values⟩)
      sources (regroup (lists.map List.length) values)
    return attach relation type parents branches

mutual

/-- The relations of a forest, one after the other, for all parents. -/
def dialogueForest : Include.Forest → List Resolved → Dialogue (List Resolved)
  | [], parents => pure parents
  | n :: forest, parents => do
    let parents ← dialogueNode n parents
    dialogueForest forest parents

/-- One relation for all parents, type by type. -/
def dialogueNode : Include.Node → List Resolved → Dialogue (List Resolved)
  | .mk relation columns children, parents =>
    (typesOf parents).foldlM
      (fun parents type => dialogueGroup registry relation columns
        (fun values => dialogueForest children values) type parents)
      parents

end

end Dialogue

end Resolved

/-- Resolve a forest below some entities with a loader that may answer anew each time: `loader past`
is the loader after the batches `past`. -/
def resolveAnew (registry : Registry) (loader : List Batch → Loader) (roots : List Entity)
    (forest : Include.Forest) : Run (List Resolved) :=
  (Resolved.dialogueForest registry forest (roots.map Resolved.leaf)).run loader []

/-! ### With a loader that does not change -/

theorem Run.bind_assoc {α β γ : Type} (x : Run α) (f : α → Run β) (g : β → Run γ) :
    x >>= f >>= g = x >>= fun a => f a >>= g := by
  show (x.bind f).bind g = x.bind fun a => (f a).bind g
  unfold Run.bind
  cases x.outcome with
  | error e => rfl
  | ok a =>
    cases hf : (f a).outcome with
    | error e => simp only [hf]
    | ok b => simp only [hf, List.append_assoc]

/-- Held with a loader that does not change, the dialogue is the run, whatever was asked before. -/
def Dialogue.Speaks {α : Type} (loader : Loader) (x : Dialogue α) (y : Run α) : Prop :=
  ∀ past, x.run (fun _ => loader) past = y

namespace Dialogue

variable {α β : Type} {loader : Loader}

theorem speaks_pure (a : α) : (Pure.pure a : Dialogue α).Speaks loader (Pure.pure a) := fun _ => rfl

theorem speaks_load (type relation : String) (sources : List Pointer) :
    (load type relation sources).Speaks loader (Run.load loader type relation sources) := by
  intro past
  show (Run.load loader type relation sources).bind Run.pure = _
  unfold Run.bind
  cases h : (Run.load loader type relation sources).outcome with
  | error e => exact congrArg (Run.mk _) h.symm
  | ok lists => exact congrArg (Run.mk _) h.symm

theorem Speaks.bind {f : α → Dialogue β} {g : α → Run β} (hf : ∀ a, (f a).Speaks loader (g a))
    {x : Dialogue α} {y : Run α} (h : x.Speaks loader y) : (x >>= f).Speaks loader (y >>= g) := by
  intro past
  rw [← h past]
  clear h
  induction x generalizing past with
  | done a => exact hf a past
  | ask type b next ih =>
    show (Run.load loader type b.relation b.sources >>= fun lists =>
      (next lists >>= f).run (fun _ => loader) (past ++ [b])) = _
    rw [run, Run.bind_assoc]
    exact Run.bind_congr fun lists _ => ih lists (past ++ [b])

end Dialogue

namespace Resolved

section Speaks
variable {registry : Registry} {loader : Loader}

theorem speaks_dialogueGroup {relation : String} {columns : List String}
    {within : List Resolved → Dialogue (List Resolved)}
    {within' : List Resolved → Run (List Resolved)}
    (hwithin : ∀ values, (within values).Speaks loader (within' values)) (type : String)
    (parents : List Resolved) :
    (dialogueGroup registry relation columns within type parents).Speaks loader
      (resolveGroup registry loader relation columns within' type parents) := by
  unfold dialogueGroup resolveGroup
  cases registry.includable? type relation with
  | none => exact Dialogue.speaks_pure parents
  | some found =>
    exact .bind (fun lists => .bind (fun values => Dialogue.speaks_pure _) (hwithin _))
      (Dialogue.speaks_load type relation _)

theorem speaks_foldlM {group : List Resolved → String → Dialogue (List Resolved)}
    {group' : List Resolved → String → Run (List Resolved)}
    (hgroup : ∀ parents type, (group parents type).Speaks loader (group' parents type)) :
    ∀ (types : List String) (parents : List Resolved),
      (types.foldlM group parents).Speaks loader (types.foldlM group' parents)
  | [], parents => Dialogue.speaks_pure parents
  | type :: types, parents => by
    rw [List.foldlM_cons, List.foldlM_cons]
    exact .bind (speaks_foldlM hgroup types) (hgroup parents type)

mutual

theorem speaks_dialogueForest : ∀ (forest : Include.Forest) (parents : List Resolved),
    (dialogueForest registry forest parents).Speaks loader
      (resolveForest registry loader forest parents)
  | [], parents => by
    rw [dialogueForest, resolveForest]
    exact Dialogue.speaks_pure parents
  | n :: forest, parents => by
    rw [dialogueForest, resolveForest]
    exact .bind (speaks_dialogueForest forest) (speaks_dialogueNode n parents)

theorem speaks_dialogueNode : ∀ (n : Include.Node) (parents : List Resolved),
    (dialogueNode registry n parents).Speaks loader (resolveNode registry loader n parents)
  | .mk relation columns children, parents => by
    rw [dialogueNode, resolveNode]
    exact speaks_foldlM
      (fun qs type => speaks_dialogueGroup (speaks_dialogueForest children) type qs) _ parents

end

end Speaks

end Resolved

/-- **With a loader that does not change the dialogue is the resolution.** -/
theorem resolveAnew_const (registry : Registry) (loader : Loader) (roots : List Entity)
    (forest : Include.Forest) :
    resolveAnew registry (fun _ => loader) roots forest = resolve registry loader roots forest :=
  Resolved.speaks_dialogueForest forest _ []

/-! ### What is asked -/

namespace Resolved

section Ensures
variable {registry : Registry}

/-- The parents keep their identities. -/
theorem ensures_dialogueGroup {relation : String} {columns : List String}
    {within : List Resolved → Dialogue (List Resolved)}
    (hwithin : ∀ values, (within values).Ensures fun _ => True) {type : String}
    {parents : List Resolved} (htype : type ∈ parents.map Resolved.type) :
    (dialogueGroup registry relation columns within type parents).Ensures
      fun ts => ts.map pointer = parents.map pointer := by
  unfold dialogueGroup
  cases registry.includable? type relation with
  | none => exact rfl
  | some found =>
    refine .bind (fun lists _ => .bind (fun values _ => ?_) (hwithin _))
      (Dialogue.ensures_load ⟨?_, fun p hp => ?_⟩)
    · exact map_pointer_attach relation type parents _
    · obtain ⟨p, hp, htype⟩ := List.mem_map.mp htype
      exact List.ne_nil_of_mem
        (List.mem_map_of_mem (List.mem_filter.mpr ⟨hp, decide_eq_true htype⟩))
    · obtain ⟨t, ht, rfl⟩ := List.mem_map.mp hp
      exact of_decide_eq_true (List.mem_filter.mp ht).2

theorem map_type_eq {ps qs : List Resolved} (h : ps.map pointer = qs.map pointer) :
    ps.map Resolved.type = qs.map Resolved.type := by
  have := congrArg (List.map Pointer.type) h
  rwa [List.map_map, List.map_map] at this

theorem ensures_foldlM {group : List Resolved → String → Dialogue (List Resolved)}
    (hgroup : ∀ parents type, type ∈ parents.map Resolved.type →
      (group parents type).Ensures fun ts => ts.map pointer = parents.map pointer) :
    ∀ (types : List String) {parents : List Resolved},
      (∀ type ∈ types, type ∈ parents.map Resolved.type) →
        (types.foldlM group parents).Ensures fun ts => ts.map pointer = parents.map pointer
  | [], _, _ => rfl
  | type :: types, parents, h => by
    obtain ⟨htype, htypes⟩ := List.forall_mem_cons.mp h
    rw [List.foldlM_cons]
    refine .bind (fun ts hts => ?_) (hgroup parents type htype)
    rw [← map_type_eq hts] at htypes
    rw [← hts]
    exact ensures_foldlM hgroup types htypes

mutual

/-- **Each batch is for some entities, all of one type**, whatever is answered. -/
theorem ensures_dialogueForest : ∀ (forest : Include.Forest) (parents : List Resolved),
    (dialogueForest registry forest parents).Ensures fun _ => True
  | [], parents => by
    rw [dialogueForest]
    exact trivial
  | n :: forest, parents => by
    rw [dialogueForest]
    exact .bind (fun ts _ => ensures_dialogueForest forest ts) (ensures_dialogueNode n parents)

theorem ensures_dialogueNode : ∀ (n : Include.Node) (parents : List Resolved),
    (dialogueNode registry n parents).Ensures fun ts => ts.map pointer = parents.map pointer
  | .mk relation columns children, parents => by
    rw [dialogueNode]
    refine ensures_foldlM (fun qs type htype => ?_) _ fun type htype => List.mem_eraseDups.mp htype
    exact ensures_dialogueGroup (ensures_dialogueForest children) htype

end

end Ensures

end Resolved

end Sideload
