import Sideload.Proofs.Resolution.Dialogue

/-! # Failures of a loader

A resolution has a result exactly if all its batches are answered with as many lists as they have
entities. Otherwise the first batch that is not is the last one asked, and the resolution fails with
the error of that batch: the loader's own, or one on the number of lists (`resolve_all_or_nothing`).
This holds for loaders that may answer anew each time; that nothing is asked after a failure is read
off the dialogue, batch by batch (`Dialogue.judged_run`). -/

namespace Sideload

/-- The batch is answered with one list for each of its entities. -/
def Batch.Answered (loader : Loader) (b : Batch) : Prop :=
  ∃ lists, loader.loadBatch b.sources b.relation = .ok lists ∧ lists.length = b.sources.length

/-- The error with which a batch fails: what the loader says, or that the number of lists is not
that of the entities, with the type of these. -/
inductive Batch.Fails (loader : Loader) (b : Batch) : LoadError → Prop where
  | refused {e : LoadError} (h : loader.loadBatch b.sources b.relation = .error e) :
      b.Fails loader e
  | mismatched {lists : List (List Entity)} {p : Pointer}
      (h : loader.loadBatch b.sources b.relation = .ok lists)
      (hlength : lists.length ≠ b.sources.length) (hp : p ∈ b.sources) :
      b.Fails loader (.batchMismatch p.type b.relation b.sources.length lists.length)

/-- Each batch is answered, by the loader as it is after those before it. -/
def EachAnswered (loader : List Batch → Loader) : List Batch → List Batch → Prop
  | _, [] => True
  | past, b :: batches => b.Answered (loader past) ∧ EachAnswered loader (past ++ [b]) batches

section Batches
variable {loader : List Batch → Loader} {l : Loader} {b : Batch} {e e' : LoadError}

theorem Batch.Fails.not_answered (h : b.Fails l e) : ¬ b.Answered l := by
  rintro ⟨lists, hok, hlength⟩
  cases h with
  | refused h => cases hok.symm.trans h
  | mismatched h hne _ => exact hne (Except.ok.inj (hok.symm.trans h) ▸ hlength)

theorem Batch.Fails.unique {type : String} (hb : b.IsOf type) (h : b.Fails l e)
    (h' : b.Fails l e') : e = e' := by
  cases h with
  | refused h =>
    cases h' with
    | refused h' => exact Except.error.inj (h.symm.trans h')
    | mismatched h' _ _ => cases h.symm.trans h'
  | mismatched h _ hp =>
    cases h' with
    | refused h' => cases h.symm.trans h'
    | mismatched h' _ hp' =>
      obtain rfl := Except.ok.inj (h.symm.trans h')
      rw [hb.2 _ hp, hb.2 _ hp']

theorem eachAnswered_concat : ∀ {batches past : List Batch},
    EachAnswered loader past (batches ++ [b]) ↔
      EachAnswered loader past batches ∧ b.Answered (loader (past ++ batches))
  | [], past => by
    rw [List.append_nil]
    exact and_comm
  | c :: batches, past => by
    rw [List.cons_append, EachAnswered, EachAnswered, eachAnswered_concat, and_assoc,
      List.append_assoc]
    rfl

/-- A batch is answered, or it fails. -/
theorem Run.load_cases {type : String} (hb : b.IsOf type) :
    (∃ lists, (load l type b.relation b.sources).outcome = .ok lists ∧ b.Answered l) ∨
      ∃ e, (load l type b.relation b.sources).outcome = .error e ∧ b.Fails l e := by
  unfold load
  cases h : l.loadBatch b.sources b.relation with
  | error e => exact Or.inr ⟨e, rfl, .refused h⟩
  | ok lists =>
    by_cases hlength : lists.length = b.sources.length
    · exact Or.inl ⟨lists, if_pos hlength, lists, h, hlength⟩
    · obtain ⟨p, hp⟩ := List.exists_mem_of_ne_nil _ hb.1
      refine Or.inr ⟨_, if_neg hlength, ?_⟩
      rw [← hb.2 p hp]
      exact .mismatched h hlength hp

end Batches

/-! ### Runs of a dialogue -/

/-- The batches of a run account for how it ended: all are answered, or all but the last, which fails
with the error of the run. -/
structure Run.Judged {α : Type} (loader : List Batch → Loader) (past : List Batch) (x : Run α) :
    Prop where
  isOf : ∀ b ∈ x.batches, ∃ type, b.IsOf type
  ok : ∀ a, x.outcome = .ok a → EachAnswered loader past x.batches
  error : ∀ e, x.outcome = .error e → ∃ calls b, x.batches = calls ++ [b] ∧
    EachAnswered loader past calls ∧ b.Fails (loader (past ++ calls)) e

section Judged
variable {α : Type} {loader : List Batch → Loader}

/-- **Batch by batch:** an answer goes on, a failure ends the run. -/
theorem Dialogue.judged_run {Q : α → Prop} : ∀ {x : Dialogue α}, x.Ensures Q →
    ∀ past : List Batch, (x.run loader past).Judged loader past
  | done a, _, past => ⟨fun _ h => (nomatch h), fun _ _ => trivial, fun _ h => (nomatch h)⟩
  | ask type b next, h, past => by
    show Run.Judged loader past ((Run.load (loader past) type b.relation b.sources).bind
      fun lists => (next lists).run loader (past ++ [b]))
    unfold Run.bind
    rcases Run.load_cases (l := loader past) h.1 with ⟨lists, hok, hb⟩ | ⟨e, herror, hb⟩
    · have hrest := judged_run (h.2 lists) (past ++ [b])
      rw [hok]
      refine ⟨List.forall_mem_cons.mpr ⟨⟨type, h.1⟩, hrest.isOf⟩, fun a ha => ⟨hb, hrest.ok a ha⟩,
        fun e he => ?_⟩
      obtain ⟨calls, c, hcalls, hanswered, hc⟩ := hrest.error e he
      refine ⟨b :: calls, c, congrArg (b :: ·) hcalls, ⟨hb, hanswered⟩, ?_⟩
      rwa [List.append_assoc] at hc
    · rw [herror]
      refine ⟨List.forall_mem_singleton.mpr ⟨type, h.1⟩, fun _ h => (nomatch h), fun e' he' => ?_⟩
      obtain rfl : e = e' := Except.error.inj he'
      exact ⟨[], b, rfl, trivial, (List.append_nil past).symm ▸ hb⟩

variable {x : Run α} (h : x.Judged loader [])
include h

theorem Run.Judged.ok_iff :
    (∃ a, x.outcome = .ok a) ↔ EachAnswered loader [] x.batches := by
  constructor
  · rintro ⟨a, ha⟩
    exact h.ok a ha
  · intro hall
    cases hx : x.outcome with
    | ok a => exact ⟨a, rfl⟩
    | error e =>
      obtain ⟨calls, b, hcalls, -, hb⟩ := h.error e hx
      rw [hcalls, eachAnswered_concat] at hall
      exact absurd hall.2 hb.not_answered

theorem Run.Judged.error_iff (e : LoadError) :
    x.outcome = .error e ↔ ∃ calls b, x.batches = calls ++ [b] ∧
      EachAnswered loader [] calls ∧ b.Fails (loader calls) e := by
  refine ⟨h.error e, ?_⟩
  rintro ⟨calls, b, hcalls, -, hb⟩
  cases hx : x.outcome with
  | ok a =>
    have hall := h.ok a hx
    rw [hcalls, eachAnswered_concat] at hall
    exact absurd hall.2 hb.not_answered
  | error e' =>
    -- both errors are of the last batch
    obtain ⟨calls', b', hcalls', -, hb'⟩ := h.error e' hx
    obtain ⟨rfl, hlast⟩ := List.append_inj' (hcalls.symm.trans hcalls') rfl
    obtain rfl := List.singleton_inj.mp hlast
    obtain ⟨type, htype⟩ := h.isOf b (hcalls ▸ List.mem_concat_self)
    rw [hb'.unique htype hb]

end Judged

/-- **Failures are all-or-nothing, and come out as they are.** Whatever a loader answers, and
however this changes with what it was asked, each batch is for some entities of one type; the
resolution has a result exactly if each batch is answered with one list for each entity; and it fails
exactly with the error of the first batch that is not, which is the last one asked. With a loader
that does not change this is `resolve`. -/
theorem resolve_all_or_nothing (registry : Registry) (roots : List Entity)
    (forest : Include.Forest) :
    (∀ loader, resolveAnew registry (fun _ => loader) roots forest =
        resolve registry loader roots forest) ∧
      ∀ loader : List Batch → Loader,
        (∀ b ∈ (resolveAnew registry loader roots forest).batches, ∃ type, b.IsOf type) ∧
        ((∃ ts, (resolveAnew registry loader roots forest).outcome = .ok ts) ↔
          EachAnswered loader [] (resolveAnew registry loader roots forest).batches) ∧
        ∀ e, (resolveAnew registry loader roots forest).outcome = .error e ↔
          ∃ calls b, (resolveAnew registry loader roots forest).batches = calls ++ [b] ∧
            EachAnswered loader [] calls ∧ b.Fails (loader calls) e := by
  refine ⟨fun loader => resolveAnew_const registry loader roots forest, fun loader => ?_⟩
  have hjudged : (resolveAnew registry loader roots forest).Judged loader [] :=
    Dialogue.judged_run (Resolved.ensures_dialogueForest forest _) []
  exact ⟨hjudged.isOf, hjudged.ok_iff, hjudged.error_iff⟩

/-- A loader that answers once, and then refuses the same batch. -/
example :
    let loader : List Batch → Loader := fun past => .ofLoad fun p relation =>
      if past = [] then .ok [] else .error (.backend p relation "closed")
    let registry : Registry := ⟨fun _ _ => true, fun _ _ => some "b", fun _ _ => some .many⟩
    let x := resolveAnew registry loader [⟨⟨"a", "1"⟩, []⟩] [.mk "r" [] [], .mk "r" [] []]
    x.batches = [⟨"r", [⟨"a", "1"⟩]⟩, ⟨"r", [⟨"a", "1"⟩]⟩] ∧
      x.outcome = .error (.backend ⟨"a", "1"⟩ "r" "closed") :=
  ⟨by decide +kernel, rfl⟩

end Sideload
