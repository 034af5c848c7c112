import Sideload.Proofs.Document.Encounters
import Sideload.Proofs.Resolution.Loadable

/-! # Resolved trees hold what was loaded

A resolved tree holds, at every branch and at any depth, all that was loaded for the relation of the
entity it stands below (`everywhere_expandForest`). What forest was resolved makes no difference to
this, whether siblings differ or not: a branch that is replaced holds the same as the one before.

If loading serves some identities, among which it stays, then every forest can be resolved below
them (`Serves.loadable`, `Serves.exists_resolve`). -/

namespace Sideload

/-- A property of all branches of a tree, at any depth, each with the identity and the name that it
stands below. -/
inductive Resolved.Everywhere (P : Pointer → String → Branch Resolved → Prop) :
    Resolved → Prop where
  | intro {r : Resolved} (here : ∀ branch ∈ r.branches, P r.pointer branch.1 branch.2)
      (deeper : ∀ branch ∈ r.branches, ∀ v ∈ branch.2.values, Everywhere P v) : Everywhere P r

namespace Resolved

section Everywhere
variable {P : Pointer → String → Branch Resolved → Prop} {r : Resolved}

theorem Everywhere.here (h : r.Everywhere P) {branch : String × Branch Resolved}
    (hb : branch ∈ r.branches) : P r.pointer branch.1 branch.2 := by
  obtain ⟨here, -⟩ := h
  exact here branch hb

theorem Everywhere.deeper (h : r.Everywhere P) {branch : String × Branch Resolved}
    (hb : branch ∈ r.branches) {v : Resolved} (hv : v ∈ branch.2.values) : v.Everywhere P := by
  obtain ⟨-, deeper⟩ := h
  exact deeper branch hb v hv

theorem Everywhere.leaf (e : Entity) : (leaf e).Everywhere P :=
  .intro (fun _ hb => nomatch hb) (fun _ hb => nomatch hb)

theorem Everywhere.withBranch (h : r.Everywhere P) {name : String} {b : Branch Resolved}
    (hb : P r.pointer name b) (hvalues : ∀ v ∈ b.values, v.Everywhere P) :
    (r.withBranch name b).Everywhere P := by
  obtain ⟨entity, branches⟩ := r
  refine .intro (fun branch hbranch => ?_) (fun branch hbranch v hv => ?_)
  · rcases Fields.mem_insert hbranch with hbranch | rfl
    · exact h.here hbranch
    · exact hb
  · rcases Fields.mem_insert hbranch with hbranch | rfl
    · exact h.deeper hbranch hv
    · exact hvalues v hv

theorem Everywhere.of_mem_descendants {r t : Resolved} (h : r.Everywhere P)
    (ht : t ∈ r.descendants) : t.Everywhere P := by
  obtain ⟨branch, hb, v, hv, ht⟩ := mem_descendants_iff.mp ht
  have hdeeper := h.deeper hb (Branch.mem_of_mem_linked hv)
  rcases ht with rfl | ht
  · exact hdeeper
  · have := sizeOf_of_mem_linked hb hv
    exact hdeeper.of_mem_descendants ht
termination_by sizeOf r

end Everywhere

end Resolved

open Resolved

section Loaded
variable (registry : Registry) (load : Pointer → String → Except LoadError (List Entity))

/-- The branch is what the registry and a loader tell of a relation of an identity. -/
structure IsLoaded (p : Pointer) (relation : String) (b : Branch Resolved) : Prop where
  includable : registry.includable? p.type relation = some (b.targetType, b.cardinality)
  loaded : ∃ values, load p relation = .ok values ∧
    b.values.map Resolved.pointer = values.map Entity.pointer

variable {registry load}

/-- Two branches for one relation of one identity link the same. -/
theorem IsLoaded.linkage_eq {p : Pointer} {relation : String} {b c : Branch Resolved}
    (hb : IsLoaded registry load p relation b) (hc : IsLoaded registry load p relation c) :
    b.linkage = c.linkage := by
  obtain ⟨values, hload, hvalues⟩ := hb.loaded
  obtain ⟨values', hload', hvalues'⟩ := hc.loaded
  obtain rfl := Except.ok.inj (hload.symm.trans hload')
  have hcardinality : b.cardinality = c.cardinality :=
    congrArg Prod.snd (Option.some.inj (hb.includable.symm.trans hc.includable))
  rw [Branch.linkage_eq, Branch.linkage_eq, hcardinality, hvalues, hvalues']

/-- **Resolved trees hold what was loaded**, at every branch. -/
theorem everywhere_expandForest : ∀ (forest : Include.Forest) {r t : Resolved},
    r.Everywhere (IsLoaded registry load) → expandForest registry load forest r = .ok t →
      t.Everywhere (IsLoaded registry load)
  | [], r, t, hr, h => by
    rw [expandForest] at h
    rwa [← Except.ok.inj h]
  | .mk relation columns children :: forest, r, t, hr, h => by
    rw [expandForest] at h
    obtain ⟨r', hr', ht⟩ := bind_eq_ok_iff.mp h
    refine everywhere_expandForest forest ?_ ht
    rcases expandNode_cases hr' with ⟨-, rfl⟩ | ⟨-, b, hbranch, rfl⟩
    · exact hr
    · obtain ⟨values, hload, hvalues⟩ := hbranch.loaded
      have hloaded : IsLoaded registry load r.pointer relation b :=
        ⟨hbranch.includable, values, hload, map_pointer_of_expandForest hvalues⟩
      refine hr.withBranch hloaded fun v hv => ?_
      obtain ⟨e, -, hexpand⟩ := exists_of_mem_right hvalues hv
      exact everywhere_expandForest children (.leaf _) hexpand

theorem everywhere_of_resolve {loader : Loader} (hloader : loader.Entitywise) {roots : List Entity}
    {forest : Include.Forest} {ts : List Resolved}
    (h : (resolve registry loader roots forest).outcome = .ok ts) :
    ∀ t ∈ ts, t.Everywhere (IsLoaded registry loader.load) := by
  intro t ht
  obtain ⟨e, -, hexpand⟩ := exists_of_mem_right (forall₂_expandForest_of_resolve hloader h) ht
  exact everywhere_expandForest forest (.leaf e) hexpand

end Loaded

/-! ### Loading that never fails -/

/-- Loading gives an answer for some identities, and what it loads is among these again. -/
def Serves (V : Pointer → Prop) (load : Pointer → String → Except LoadError (List Entity)) : Prop :=
  ∀ p, V p → ∀ relation, ∃ values, load p relation = .ok values ∧ ∀ v ∈ values, V v.pointer

namespace Serves

variable {V : Pointer → Prop} {load : Pointer → String → Except LoadError (List Entity)}
  (registry : Registry)

/-- **Every forest can be resolved below an identity that is served.** -/
theorem loadable (h : Serves V load) : ∀ (forest : Include.Forest) {p : Pointer}, V p →
    Loadable registry load forest p
  | [], p, _ => .nil p
  | .mk relation _ children :: forest, p, hp => by
    refine loadable_cons_iff.mpr ⟨fun _ => ?_, loadable h forest hp⟩
    obtain ⟨values, hload, hvalues⟩ := h p hp relation
    exact ⟨values, hload, fun v hv => loadable h children (hvalues v hv)⟩

/-- **A resolution below identities that are served has a result**, and its trees hold what was
loaded. -/
theorem exists_resolve {loader : Loader} (hloader : loader.Entitywise) (h : Serves V loader.load)
    {roots : List Entity} (hroots : ∀ e ∈ roots, V e.pointer) (forest : Include.Forest) :
    ∃ ts, (resolve registry loader roots forest).outcome = .ok ts ∧
      ∀ t ∈ ts, t.Everywhere (IsLoaded registry loader.load) := by
  obtain ⟨ts, hts⟩ := (exists_resolve_iff hloader).mpr fun e he =>
    h.loadable registry forest (hroots e he)
  exact ⟨ts, hts, everywhere_of_resolve hloader hts⟩

end Serves

end Sideload
