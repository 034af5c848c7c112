import Sideload.Proofs.Dataset.Loading
import Sideload.Proofs.Resolution.Failures

/-! # What a dataset fails to load

A resolution that loads entity by entity fails with what one of the loads says
(`exists_load_of_resolve`): the batches have as many lists as entities. A dataset fails to load the
links of an entity that is not there, and links that dangle, of which it tells the first
(`follow_eq_error_iff`, `load_eq_error`). So all failures of resolutions with a dataset have one exit
code (`exitCode_of_resolve`). -/

namespace Sideload

section Loads
variable {load : Pointer → String → Except LoadError (List Entity)} {e : LoadError}

theorem Loader.exists_load_of_each {relation : String} : ∀ {ps : List Pointer},
    each load relation ps = .error e → ∃ p ∈ ps, load p relation = .error e
  | [], h => by cases h
  | p :: ps, h => by
    rw [each] at h
    cases hp : load p relation with
    | error e' =>
      rw [hp] at h
      obtain rfl : e = e' := (Except.error.inj h).symm
      exact ⟨p, List.mem_cons_self, hp⟩
    | ok values =>
      rw [hp] at h
      cases hps : each load relation ps with
      | error e' =>
        rw [hps] at h
        obtain rfl : e = e' := (Except.error.inj h).symm
        obtain ⟨q, hq, hload⟩ := exists_load_of_each hps
        exact ⟨q, List.mem_cons_of_mem p hq, hload⟩
      | ok lists =>
        rw [hps] at h
        cases h

theorem Batch.Fails.exists_load {b : Batch} (h : b.Fails (.ofLoad load) e) :
    ∃ p ∈ b.sources, load p b.relation = .error e := by
  cases h with
  | refused h => exact Loader.exists_load_of_each h
  | mismatched h hlength _ =>
    have hlists := (Loader.entitywise_ofLoad load _ _ _).mp h
    exact absurd hlists.length_eq.symm hlength

/-- **A resolution fails with what one of its loads says.** -/
theorem exists_load_of_resolve {registry : Registry} {roots : List Entity}
    {forest : Include.Forest}
    (h : (resolve registry (.ofLoad load) roots forest).outcome = .error e) :
    ∃ source relation, load source relation = .error e := by
  rw [← resolveAnew_const] at h
  have hjudged : (resolveAnew registry (fun _ => .ofLoad load) roots forest).Judged
      (fun _ => .ofLoad load) [] :=
    Dialogue.judged_run (Resolved.ensures_dialogueForest forest _) []
  obtain ⟨-, b, -, -, hb⟩ := hjudged.error e h
  obtain ⟨p, -, hload⟩ := hb.exists_load
  exact ⟨p, b.relation, hload⟩

end Loads

namespace Dataset

/-- The identity is neither hidden nor there. -/
def dangles (d : Dataset) (q : Pointer) : Bool := !d.isHidden q && (d.entity? q).isNone

/-- What fails is the first link that dangles. -/
theorem follow_eq_error_iff {d : Dataset} {source : Pointer} {relation target : String}
    {error : LoadError} : ∀ {ids : List String},
      d.follow source relation target ids = .error error ↔
        ∃ q, (ids.map (Pointer.mk target)).find? d.dangles = some q ∧
          error = .danglingReference source relation q
  | [] => by simp [follow]
  | id :: ids => by
    rw [follow, List.map_cons]
    cases hhidden : d.isHidden ⟨target, id⟩ with
    | true =>
      have hpass : ¬d.dangles ⟨target, id⟩ := by simp [dangles, hhidden]
      rw [List.find?_cons_of_neg hpass, if_pos rfl]
      exact follow_eq_error_iff
    | false =>
      rw [if_neg (by decide)]
      cases hentity : d.entity? ⟨target, id⟩ with
      | none =>
        have hstop : d.dangles ⟨target, id⟩ := by simp [dangles, hhidden, hentity]
        simp [List.find?_cons_of_pos hstop, eq_comm]
      | some e =>
        have hpass : ¬d.dangles ⟨target, id⟩ := by simp [dangles, hentity]
        rw [List.find?_cons_of_neg hpass, ← follow_eq_error_iff]
        cases d.follow source relation target ids <;> simp

variable {d : Dataset} {source : Pointer} {relation : String} {e : LoadError}

theorem load_eq_error (h : d.load source relation = .error e) :
    (d.record? source = none ∧ e = .unknownEntity source) ∨
      ∃ q, d.dangles q = true ∧ e = .danglingReference source relation q := by
  unfold load at h
  split at h
  · next hnone => exact Or.inl ⟨hnone, (Except.error.inj h).symm⟩
  · split at h
    · obtain ⟨q, hq, rfl⟩ := follow_eq_error_iff.mp h
      exact Or.inr ⟨q, List.find?_some hq, rfl⟩
    · cases h

/-- **What a dataset fails to load has one exit code.** -/
theorem exitCode_of_resolve {roots : List Entity} {forest : Include.Forest}
    (h : (Sideload.resolve d.registry d.loader roots forest).outcome = .error e) :
    e.exitCode = 2 := by
  obtain ⟨source, relation, hload⟩ := exists_load_of_resolve h
  rcases load_eq_error hload with ⟨-, rfl⟩ | ⟨q, -, rfl⟩
  · rfl
  · rfl

end Dataset

end Sideload
