import Sideload.CommandLine.Run
import Sideload.Proofs.Dataset.LoadErrors
import Sideload.Proofs.Dataset.Opening
import Sideload.Proofs.Dataset.Roots
import Sideload.Proofs.FileTree.Writing

/-! # The stages of `resolve`

A dataset is opened, roots are looked up in it, an expression is read and resolved below them, and
the document may be checked. What can go wrong is told stage by stage and, where it can be, without
the stages before: a source that is missing and an expression that is malformed are both failures of
the request (`ResolveRequest.Fails`). The answer is that of the first stage that fails, and the disk
is left as it is; if none fails, the document is printed, or it is written to the file that is named
and nowhere else (`resolve_writes_only_on_success`).

A stage that fails has an error as its result (`Source.openDataset_of_fails`, `roots_of_fails`,
`parse_of_fails`, `resolve_of_fails`), and one that does not fail has something that the next one
goes on with (`Source.exists_openDataset`, `exists_roots`, `exists_parse`, `exists_made`). What
becomes of the disk is told by `Disk.find?_of_write` and `Disk.shows?_of_write`. -/

namespace Sideload.CommandLine

open FileTree (Path)

/-- What `resolve` goes through. -/
inductive Stage where
  | source
  | roots
  | expression
  | load
  | check
deriving DecidableEq, Repr

/-- The stages are gone through in the order of their numbers. -/
def Stage.number : Stage → Nat
  | source => 0
  | roots => 1
  | expression => 2
  | load => 3
  | check => 4

/-- What is said about a dataset that cannot be opened. -/
def sourceFailed (what : String) : String := "Error loading dataset: " ++ what ++ "\n"

/-- What is said if there is no document. -/
def resolveFailed (e : ResolveError) : String := "Error: " ++ e.message ++ "\n"

namespace ResolveRequest

/-- What the stages in front of the check make of a request. -/
structure Made (world : World) (r : ResolveRequest) (d : Dataset) (es : List Entity)
    (forest : Include.Forest) (ts : List Resolved) : Prop where
  opened : Source.openDataset world r.source = .ok d
  found : r.roots.of d r.type = .ok es
  read : Include.parse r.options.expression r.expression = .ok forest
  resolved : (resolve d.registry d.loader es forest).outcome = .ok ts

/-- A stage of a request fails, with an exit code and with what is said about it. -/
inductive Fails (world : World) (r : ResolveRequest) : Stage → Nat → String → Prop where
  | source {code : Nat} {what : String} (h : Source.Fails world r.source code what) :
      Fails world r .source code (sourceFailed what)
  | unknownRoot {d : Dataset} {ids : List String} {id : String}
      (hd : Source.openDataset world r.source = .ok d) (hids : r.roots = .ids ids)
      (h : ids.find? (fun id => id ∉ (d.entitiesOf r.type).map Entity.id) = some id) :
      Fails world r .roots 2 (resolveFailed (.unknownRoot ⟨r.type, id⟩))
  | malformed {m : Include.Malformed}
      (h : Include.parse r.options.expression r.expression = .error m) :
      Fails world r .expression 2 (resolveFailed (.malformed m))
  | load {d : Dataset} {es : List Entity} {forest : Include.Forest} {e : LoadError}
      (hd : Source.openDataset world r.source = .ok d) (hes : r.roots.of d r.type = .ok es)
      (hforest : Include.parse r.options.expression r.expression = .ok forest)
      (h : (resolve d.registry d.loader es forest).outcome = .error e) :
      Fails world r .load 2 (resolveFailed (.load e))
  | check {d : Dataset} {es : List Entity} {forest : Include.Forest} {ts : List Resolved}
      (hmade : Made world r d es forest ts) (hcheck : r.check = true)
      (h : (assemble r.options.empties ts).findings ≠ []) :
      Fails world r .check 1 (checkFailed (assemble r.options.empties ts).findings).err

section Stages
variable {world : World} {r : ResolveRequest} {d : Dataset} {es : List Entity}
  {forest : Include.Forest} {ts : List Resolved} {code : Nat} {err : String}

/-! ### Stage by stage -/

theorem openDataset_of_fails (h : r.Fails world .source code err) : ∃ e,
    Source.openDataset world r.source = .error e ∧ code = e.exitCode ∧
      err = sourceFailed e.message := by
  cases h with
  | source h =>
    obtain ⟨e, he, hcode, rfl⟩ := Source.openDataset_of_fails h
    exact ⟨e, he, hcode, rfl⟩

theorem exists_openDataset (h : ∀ code err, ¬ r.Fails world .source code err) :
    ∃ d, Source.openDataset world r.source = .ok d :=
  Source.exists_openDataset fun _ _ hfails => h _ _ (.source hfails)

theorem roots_of_fails (hd : Source.openDataset world r.source = .ok d)
    (h : r.Fails world .roots code err) : ∃ e,
      r.roots.of d r.type = .error e ∧ code = e.exitCode ∧ err = resolveFailed e := by
  cases h with
  | @unknownRoot d' ids id hd' hids h =>
    obtain rfl : d = d' := Except.ok.inj (hd.symm.trans hd')
    refine ⟨.unknownRoot ⟨r.type, id⟩, ?_, rfl, rfl⟩
    rw [hids]
    exact Dataset.roots_eq_error_iff.mpr ⟨id, h, rfl⟩

theorem exists_roots (hd : Source.openDataset world r.source = .ok d)
    (h : ∀ code err, ¬ r.Fails world .roots code err) : ∃ es, r.roots.of d r.type = .ok es := by
  cases hroots : r.roots with
  | all => exact ⟨_, rfl⟩
  | ids ids =>
    show ∃ es, d.roots r.type ids = .ok es
    cases hes : d.roots r.type ids with
    | ok es => exact ⟨es, rfl⟩
    | error e =>
      obtain ⟨id, hid, -⟩ := Dataset.roots_eq_error_iff.mp hes
      exact absurd (.unknownRoot hd hroots hid) (h _ _)

theorem parse_of_fails (h : r.Fails world .expression code err) : ∃ m,
    Include.parse r.options.expression r.expression = .error m ∧
      code = (ResolveError.malformed m).exitCode ∧ err = resolveFailed (.malformed m) := by
  cases h with
  | malformed h => exact ⟨_, h, rfl, rfl⟩

theorem exists_parse (h : ∀ code err, ¬ r.Fails world .expression code err) :
    ∃ forest, Include.parse r.options.expression r.expression = .ok forest := by
  cases hforest : Include.parse r.options.expression r.expression with
  | ok forest => exact ⟨forest, rfl⟩
  | error m => exact absurd (.malformed hforest) (h _ _)

theorem resolve_of_fails (hd : Source.openDataset world r.source = .ok d)
    (hes : r.roots.of d r.type = .ok es)
    (hforest : Include.parse r.options.expression r.expression = .ok forest)
    (h : r.Fails world .load code err) : ∃ e,
      (resolve d.registry d.loader es forest).outcome = .error e ∧ code = e.exitCode ∧
        err = resolveFailed (.load e) := by
  cases h with
  | @load d' es' forest' e hd' hes' hforest' h =>
    obtain rfl : d = d' := Except.ok.inj (hd.symm.trans hd')
    obtain rfl : es = es' := Except.ok.inj (hes.symm.trans hes')
    obtain rfl : forest = forest' := Except.ok.inj (hforest.symm.trans hforest')
    exact ⟨e, h, (Dataset.exitCode_of_resolve h).symm, rfl⟩

/-- If no stage in front of the check fails, there is a document to be checked. -/
theorem exists_made (h : ∀ stage : Stage, stage.number < Stage.check.number →
    ∀ code err, ¬ r.Fails world stage code err) :
    ∃ d es forest ts, r.Made world d es forest ts := by
  obtain ⟨d, hd⟩ := exists_openDataset (h .source (by decide))
  obtain ⟨es, hes⟩ := exists_roots hd (h .roots (by decide))
  obtain ⟨forest, hforest⟩ := exists_parse (h .expression (by decide))
  cases hts : (resolve d.registry d.loader es forest).outcome with
  | ok ts => exact ⟨d, es, forest, ts, hd, hes, hforest, hts⟩
  | error e => exact absurd (.load hd hes hforest hts) (h .load (by decide) _ _)

/-- Where there is a document to be checked, nothing has failed. -/
theorem Made.not_fails (hmade : r.Made world d es forest ts) {stage : Stage}
    (hstage : stage.number < Stage.check.number) : ¬ r.Fails world stage code err := by
  intro h
  cases stage with
  | source =>
    obtain ⟨e, he, -⟩ := openDataset_of_fails h
    cases hmade.opened.symm.trans he
  | roots =>
    obtain ⟨e, he, -⟩ := roots_of_fails hmade.opened h
    cases hmade.found.symm.trans he
  | expression =>
    obtain ⟨m, hm, -⟩ := parse_of_fails h
    cases hmade.read.symm.trans hm
  | load =>
    obtain ⟨e, he, -⟩ := resolve_of_fails hmade.opened hmade.found hmade.read h
    cases hmade.resolved.symm.trans he
  | check => exact absurd hstage (Nat.lt_irrefl _)

/-! ### All stages -/

theorem resolveDocument_of_made (h : r.Made world d es forest ts)
    (hpass : r.check = true → (assemble r.options.empties ts).findings = []) :
    resolveDocument world r = .ok (assemble r.options.empties ts) := by
  simp only [resolveDocument, h.opened, h.found, Dataset.resolve, Sideload.resolveDocument, h.read,
    h.resolved]
  cases hcheck : r.check with
  | false => simp only [Bool.false_eq_true, if_false]
  | true => simp only [if_true, hpass hcheck]

theorem resolveDocument_of_check (h : r.Made world d es forest ts) (hcheck : r.check = true)
    (hwrong : (assemble r.options.empties ts).findings ≠ []) :
    resolveDocument world r = .error (checkFailed (assemble r.options.empties ts).findings) := by
  obtain ⟨f, fs, hfindings⟩ := List.exists_cons_of_ne_nil hwrong
  simp only [resolveDocument, h.opened, h.found, Dataset.resolve, Sideload.resolveDocument, h.read,
    h.resolved, hcheck, if_true, hfindings]

/-- **The first stage that fails answers.** -/
theorem resolveDocument_of_fails {stage : Stage} (h : r.Fails world stage code err)
    (hfirst : ∀ earlier : Stage, earlier.number < stage.number →
      ∀ code err, ¬ r.Fails world earlier code err) :
    resolveDocument world r = .error { code, err } := by
  cases stage with
  | source =>
    obtain ⟨e, he, rfl, rfl⟩ := openDataset_of_fails h
    simp only [resolveDocument, he]
    rfl
  | roots =>
    obtain ⟨d, hd⟩ := exists_openDataset (hfirst .source (by decide))
    obtain ⟨e, he, rfl, rfl⟩ := roots_of_fails hd h
    simp only [resolveDocument, hd, he]
    rfl
  | expression =>
    obtain ⟨d, hd⟩ := exists_openDataset (hfirst .source (by decide))
    obtain ⟨es, hes⟩ := exists_roots hd (hfirst .roots (by decide))
    obtain ⟨m, hm, rfl, rfl⟩ := parse_of_fails h
    simp only [resolveDocument, hd, hes, Dataset.resolve, Sideload.resolveDocument, hm]
    rfl
  | load =>
    obtain ⟨d, hd⟩ := exists_openDataset (hfirst .source (by decide))
    obtain ⟨es, hes⟩ := exists_roots hd (hfirst .roots (by decide))
    obtain ⟨forest, hforest⟩ := exists_parse (hfirst .expression (by decide))
    obtain ⟨e, he, rfl, rfl⟩ := resolve_of_fails hd hes hforest h
    simp only [resolveDocument, hd, hes, Dataset.resolve, Sideload.resolveDocument, hforest, he]
    rfl
  | check =>
    cases h with
    | check hmade hcheck h => exact resolveDocument_of_check hmade hcheck h

/-- If no stage fails, there is a document. -/
theorem exists_resolveDocument (h : ∀ stage code err, ¬ r.Fails world stage code err) :
    ∃ d es forest ts, r.Made world d es forest ts ∧
      (r.check = true → (assemble r.options.empties ts).findings = []) := by
  obtain ⟨d, es, forest, ts, hmade⟩ := exists_made fun stage _ => h stage
  refine ⟨d, es, forest, ts, hmade, fun hcheck => ?_⟩
  by_contra hwrong
  exact h .check _ _ (.check hmade hcheck hwrong)

end Stages

end ResolveRequest

/-- **Nothing is written unless all stages succeed.** Whatever the disk, the network and the
request: if a stage fails and none before it does, the answer is its exit code and what is said
about it on the standard error; nothing is printed, and the disk is as it was. If no stage fails,
the text of the document is printed with a line feed and the disk is as it was, or, if a file is
named, the text is to be written there; if that succeeds, the file holds exactly this text, nothing
is printed, and all other places show what they have shown. -/
theorem resolve_writes_only_on_success (d : Disk) (network : Option Network) (r : ResolveRequest) :
    let world : World := ⟨d.find?, network⟩
    let after := (run world (.resolve r)).settle d
    (∀ words, Request.ofWords words = .ok (.resolve r) → execute d network words = after) ∧
    (∀ stage code err, r.Fails world stage code err →
      (∀ earlier : Stage, earlier.number < stage.number →
        ∀ code err, ¬ r.Fails world earlier code err) →
      after = (d, { code := code, out := "", err := err })) ∧
    ((∀ stage code err, ¬ r.Fails world stage code err) →
      ∃ dataset es forest ts, r.Made world dataset es forest ts ∧
        (r.check = true → (assemble r.options.empties ts).findings = []) ∧
        let text := jsonText r.pretty (assemble r.options.empties ts).toJson
        (r.output = none → after = (d, { code := 0, out := text ++ "\n", err := "" })) ∧
        ∀ path, r.output = some path → run world (.resolve r) = .save path text ∧
          ∀ d', d.write path text.toUTF8 = .ok d' →
            after = (d', { code := 0, out := "", err := "" }) ∧
            d'.find? path = some (.file text.toUTF8) ∧
            ∀ other, d.place other ≠ d.place path → d'.shows? other = d.shows? other) := by
  intro world after
  refine ⟨fun words h => ?_, fun stage code err h hfirst => ?_, fun h => ?_⟩
  · simp only [execute, runWords, h]
    rfl
  · simp only [after, run, runResolve, ResolveRequest.resolveDocument_of_fails h hfirst]
    rfl
  · obtain ⟨dataset, es, forest, ts, hmade, hpass⟩ := ResolveRequest.exists_resolveDocument h
    have hdocument := ResolveRequest.resolveDocument_of_made hmade hpass
    refine ⟨dataset, es, forest, ts, hmade, hpass, fun houtput => ?_, fun path houtput => ?_⟩
    · simp only [after, run, runResolve, hdocument, houtput]
      rfl
    · have hsave : run world (.resolve r) =
          .save path (jsonText r.pretty (assemble r.options.empties ts).toJson) := by
        simp only [run, runResolve, hdocument, houtput]
      refine ⟨hsave, fun d' hwrite => ⟨?_, Disk.find?_of_write hwrite, fun other =>
        Disk.shows?_of_write hwrite⟩⟩
      simp only [after, hsave, Outcome.settle, hwrite]

/-- An entity whose attribute cannot stand in a document, in a file and behind a URL: it is written
over an old file above the working directory, but not if it is checked, and an unknown root is told
before a malformed expression. -/
theorem resolve_writes_only_on_success_faults :
    let content := "\x7b\"entities\":[[\"a\",1,\x7b\"id\":2\x7d]]\x7d".toUTF8
    let d : Disk := ⟨.directory [(Path.ofText "out", .file "old".toUTF8), (Path.ofText "work",
      .directory [(Path.ofText "d.json", .file content)])], [Path.ofText "work"]⟩
    let network : Network :=
      { fetch url := if url = "http://h/d" then .ok content else .error "error sending request"
        refusal _ _ := "error decoding response body" }
    let r : ResolveRequest :=
      ⟨"/work/d.json", "a", .ids ["1"], "", {}, false, some (.ofText "../out"), false⟩
    let after (r : ResolveRequest) := (run ⟨d.find?, some network⟩ (.resolve r)).settle d
    (∃ d' written, after r = (d', {}) ∧ d'.find? (.ofText "../out") = some (.file written) ∧
      d'.shows? (.ofText "d.json") = d.shows? (.ofText "d.json")) ∧
    (∃ err, after { r with check := true } = (d, { code := 1, err := err })) ∧
    after { r with source := "http://h/d", roots := .ids ["1", "2"], expression := "x[" } =
      (d, { code := 2, err := "Error: root entity a/2 not found\n" }) := by
  intro content d network r after
  let world : World := ⟨d.find?, some network⟩
  have hopen : ∀ source ∈ ["/work/d.json", "http://h/d"], ∃ dataset es,
      Source.openDataset world source = .ok dataset ∧ dataset.roots "a" ["1"] = .ok es ∧
        (dataset.entitiesOf "a").map Entity.id = ["1"] ∧
        (assemble .keep (es.map Resolved.leaf)).findings ≠ [] := by
    intro source hsource
    have hfound : ((Source.openDataset world source).toOption.bind fun d =>
        (d.roots "a" ["1"]).toOption.map fun es => ((d.entitiesOf "a").map Entity.id,
          (assemble .keep (es.map Resolved.leaf)).findings.isEmpty)) = some (["1"], false) := by
      revert source
      decide +kernel
    obtain ⟨dataset, hd, hfound⟩ := Option.bind_eq_some_iff.mp hfound
    obtain ⟨es, hes, hpair⟩ := Option.map_eq_some_iff.mp hfound
    obtain ⟨hids, hfindings⟩ := Prod.mk.inj hpair
    exact ⟨dataset, es, toOption_eq_some_iff.mp hd, toOption_eq_some_iff.mp hes, hids,
      List.isEmpty_eq_false_iff.mp hfindings⟩
  obtain ⟨dataset, es, hd, hes, -, hfindings⟩ := hopen "/work/d.json" (by decide)
  have hread : Include.parse {} "" = .ok [] := by decide +kernel
  have hts : (resolve dataset.registry dataset.loader es []).outcome =
      .ok (es.map Resolved.leaf) := by rfl
  refine ⟨?_, ?_, ?_⟩
  · have hmade : r.Made world dataset es [] (es.map Resolved.leaf) := ⟨hd, hes, hread, hts⟩
    obtain ⟨-, -, hall⟩ := resolve_writes_only_on_success d (some network) r
    obtain ⟨d', es', forest, ts, -, -, -, hwritten⟩ := hall fun stage code err h => by
      by_cases hstage : stage.number < Stage.check.number
      · exact hmade.not_fails hstage h
      · cases h with
        | check _ hcheck _ => cases hcheck
        | _ => exact hstage (by decide)
    obtain ⟨hafter, hfile, hothers⟩ := (hwritten (.ofText "../out") rfl).2 _ rfl
    exact ⟨_, _, hafter, hfile, hothers (.ofText "d.json") (by decide +kernel)⟩
  · have hmade : ({ r with check := true } : ResolveRequest).Made world dataset es []
        (es.map Resolved.leaf) := ⟨hd, hes, hread, hts⟩
    obtain ⟨-, hfirst, -⟩ :=
      resolve_writes_only_on_success d (some network) { r with check := true }
    exact ⟨_, hfirst .check 1 _ (.check hmade rfl hfindings) fun _ h _ _ => hmade.not_fails h⟩
  · obtain ⟨dataset, es, hd, -, hids, -⟩ := hopen "http://h/d" (by decide)
    have hmessage : "Error: root entity a/2 not found\n" =
        resolveFailed (.unknownRoot ⟨"a", "2"⟩) := by decide +kernel
    obtain ⟨-, hfirst, -⟩ := resolve_writes_only_on_success d (some network)
      { r with source := "http://h/d", roots := .ids ["1", "2"], expression := "x[" }
    rw [hmessage]
    refine hfirst .roots 2 _ (.unknownRoot hd rfl ?_) fun earlier hearlier code err h => ?_
    · show ["1", "2"].find? (fun id => decide (id ∉ (dataset.entitiesOf "a").map Entity.id)) =
        some "2"
      rw [hids]
      decide
    · cases earlier with
      | source =>
        obtain ⟨e, he, -⟩ := ResolveRequest.openDataset_of_fails h
        cases hd.symm.trans he
      | _ => exact absurd hearlier (by decide)

/-- Not every source that is read and is no JSON is told by the exit code 2: the body of a URL is
not, nor is a file whose bytes are no text. -/
theorem resolve_notJson_exitCode :
    let d : Disk := ⟨.directory [(Path.ofText "d.json", .file ⟨#[0xFF]⟩)], []⟩
    let network : Network :=
      { fetch _ := .ok "<html>".toUTF8
        refusal _ _ := "error decoding response body" }
    let reply (source : String) : Reply :=
      (execute d network ["resolve", source, "--type", "a", "--all"]).2
    (Json.read "<html>").isOk = false ∧
      reply "http://h/d.json" = { code := 3, err :=
        "Error loading dataset: failed to fetch http://h/d.json: error decoding response body\n" } ∧
      reply "d.json" = { code := 3, err :=
        "Error loading dataset: cannot read d.json: stream did not contain valid UTF-8\n" } := by
  decide +kernel

end Sideload.CommandLine
