import Sideload.CommandLine.Run
import Sideload.Proofs.Lists.Related

/-! # Totals of a lint report

A report is judged in two ways: file by file, by the worst diagnostic of each (`Report.failed`), and
over all files at once, by how many diagnostics there are of each severity (`Report.isClean`). The
command prints the first and ends with the second. A file fails if it has an error, or any
diagnostic if the report is strict (`FileReport.fails_eq`), and as there are no severities but two,
both verdicts ask for the same diagnostics (`Report.isClean_iff`).

As JSON, a report can only be printed if the paths in it are texts (`Report.isSome_toJson?_iff`).
If one is not, the command fails whatever the verdict is. -/

namespace Sideload.Lint

open FileTree (Path)

/-! ### One file -/

theorem Severity.eq_error_or_eq_warning (s : Severity) : s = .error ∨ s = .warning := by
  cases s <;> simp

/-- Whether a file fails, by its diagnostics. -/
theorem FileReport.fails_eq (strict : Bool) (f : FileReport) :
    f.fails strict = f.diagnostics.any fun d => strict || d.severity = .error := by
  unfold fails status
  cases strict with
  | false =>
    simp only [Bool.false_eq_true, if_false, Bool.false_or]
    cases f.diagnostics.any fun d => decide (d.severity = .error) with
    | true => rfl
    | false =>
      rw [if_neg Bool.false_ne_true]
      split <;> rfl
  | true =>
    simp only [if_true, Bool.true_or]
    cases hdiagnostics : f.diagnostics with
    | nil => rfl
    | cons d ds =>
      -- the first diagnostic is an error or a warning, so the file is not in order
      rcases d.severity.eq_error_or_eq_warning with hd | hd
      · simp [hd]
      · by_cases herror : ds.any fun d => decide (d.severity = .error) <;> simp [hd, herror]

/-! ### All files -/

namespace Report

variable (r : Report)

theorem passed_add_failed : r.passed + r.failed = r.files.length :=
  Nat.sub_add_cancel List.countP_le_length

theorem failed_eq_countP : r.failed =
    r.files.countP fun f => f.diagnostics.any fun d => r.strict || d.severity = .error := by
  unfold failed
  exact List.countP_congr fun f _ => by rw [FileReport.fails_eq]

theorem failed_eq_zero_iff :
    r.failed = 0 ↔ ∀ d ∈ r.diagnostics, r.strict = false ∧ d.severity ≠ .error := by
  rw [failed_eq_countP, List.countP_eq_zero]
  unfold diagnostics
  simp only [List.mem_flatMap, List.any_eq_true, not_exists, not_and, Bool.or_eq_true, not_or,
    Bool.not_eq_true, decide_eq_true_iff]
  exact ⟨fun h d ⟨f, hf, hd⟩ => h f hf d hd, fun h f hf d hd => h d ⟨f, hf, hd⟩⟩

theorem count_eq_zero_iff (s : Severity) : r.count s = 0 ↔ ∀ d ∈ r.diagnostics, d.severity ≠ s := by
  unfold count
  rw [List.countP_eq_zero]
  simp only [decide_eq_true_iff, ne_eq]

/-- **Both verdicts agree.** -/
theorem isClean_iff : r.isClean = true ↔ r.failed = 0 := by
  rw [failed_eq_zero_iff]
  unfold isClean isOk errors warnings
  rw [Bool.and_eq_true, Bool.or_eq_true, Bool.not_eq_true', decide_eq_true_iff, decide_eq_true_iff,
    count_eq_zero_iff, count_eq_zero_iff]
  constructor
  · rintro ⟨herrors, hstrict | hwarnings⟩ d hd
    · exact ⟨hstrict, herrors d hd⟩
    · rcases d.severity.eq_error_or_eq_warning with h | h
      · exact absurd h (herrors d hd)
      · exact absurd h (hwarnings d hd)
  · intro h
    refine ⟨fun d hd => (h d hd).2, ?_⟩
    cases hstrict : r.strict with
    | false => exact Or.inl rfl
    | true => exact Or.inr fun d hd => absurd ((h d hd).1.symm.trans hstrict) (by decide)

/-- Diagnostics of a severity, counted file by file. -/
theorem count_eq_foldl (s : Severity) : r.count s =
    r.files.foldl (fun n f => n + f.diagnostics.countP fun d => d.severity = s) 0 := by
  have hcount : ∀ (files : List FileReport) (n : Nat),
      files.foldl (fun n f => n + f.diagnostics.countP fun d => d.severity = s) n =
        n + (files.flatMap FileReport.diagnostics).countP fun d => d.severity = s := by
    intro files
    induction files with
    | nil => intro n; rfl
    | cons f files ih =>
      intro n
      rw [List.foldl_cons, ih, List.flatMap_cons, List.countP_append, Nat.add_assoc]
  rw [hcount, Nat.zero_add]
  rfl

end Report

/-! ### Reports as JSON -/

/-- The paths that are written for a file: the path that is shown of it, and the whole path with
each diagnostic. -/
def FileReport.paths (f : FileReport) : List Path := f.name :: f.diagnostics.map fun _ => f.path

/-- The paths that are written in a report. -/
def Report.paths (r : Report) : List Path := r.path :: r.files.flatMap FileReport.paths

theorem FileReport.isSome_toJson?_iff (f : FileReport) :
    f.toJson?.isSome ↔ ∀ p ∈ f.paths, p.text?.isSome := by
  have hdiagnostics : (f.diagnostics.mapM f.diagnosticToJson?).isSome ↔
      ∀ d ∈ f.diagnostics, f.path.text?.isSome := by
    rw [isSome_mapM_iff]
    simp only [diagnosticToJson?, Option.isSome_map]
  unfold toJson? paths
  rw [List.forall_mem_cons, List.forall_mem_map, ← hdiagnostics]
  cases f.name.text? with
  | none => simp
  | some _ => cases f.diagnostics.mapM f.diagnosticToJson? <;> simp

/-- **A report is JSON exactly if its paths are texts.** -/
theorem Report.isSome_toJson?_iff (r : Report) :
    r.toJson?.isSome ↔ ∀ p ∈ r.paths, p.text?.isSome := by
  have hfiles : (r.files.mapM FileReport.toJson?).isSome ↔
      ∀ p ∈ r.files.flatMap FileReport.paths, p.text?.isSome := by
    rw [isSome_mapM_iff, List.forall_mem_flatMap]
    simp only [FileReport.isSome_toJson?_iff]
  unfold toJson? paths
  rw [List.forall_mem_cons, ← hfiles]
  cases r.path.text? with
  | none => simp
  | some _ => cases r.files.mapM FileReport.toJson? <;> simp

/-! ### The command -/

section Command
variable {files : Files} {r : CommandLine.LintRequest} {t : FileTree}

/-- What the command replies with, by the report of what it finds. -/
theorem runLint_of_found (h : files r.path = some t) :
    let report := Report.of r.path r.strict (some t)
    let code := if report.isClean then 0 else 1
    CommandLine.runLint files r =
      if r.asJson then CommandLine.jsonReply code report.toJson?
      else { code := code, out := report.text r.quiet } := by
  simp only [CommandLine.runLint, h]

/-- A reply that can be made has the verdict of the report. -/
theorem code_runLint_eq_zero_iff (h : files r.path = some t)
    (hpaths : r.asJson = true → ∀ p ∈ (Report.of r.path r.strict (some t)).paths, p.text?.isSome) :
    (CommandLine.runLint files r).code = 0 ↔
      (Report.of r.path r.strict (some t)).failed = 0 := by
  have hcode : (CommandLine.runLint files r).code =
      if (Report.of r.path r.strict (some t)).isClean then 0 else 1 := by
    rw [runLint_of_found h]
    cases hjson : r.asJson with
    | false => rfl
    | true =>
      have hsome := (Report.isSome_toJson?_iff _).mpr (hpaths hjson)
      obtain ⟨v, hv⟩ := Option.isSome_iff_exists.mp hsome
      rw [if_pos rfl, hv, CommandLine.jsonReply]
  rw [hcode, ← Report.isClean_iff]
  split
  · next hclean => exact iff_of_true rfl hclean
  · next hclean => exact iff_of_false Nat.one_ne_zero hclean

/-- Without a JSON value there is no report, whatever the verdict is. -/
theorem runLint_of_not_text (h : files r.path = some t) (hjson : r.asJson = true)
    (hpath : ∃ p ∈ (Report.of r.path r.strict (some t)).paths, p.text? = none) :
    (CommandLine.runLint files r).code = 2 ∧ (CommandLine.runLint files r).out = "" := by
  have hnone : (Report.of r.path r.strict (some t)).toJson? = none := by
    obtain ⟨p, hp, htext⟩ := hpath
    refine Option.not_isSome_iff_eq_none.mp fun hsome => ?_
    have hp := (Report.isSome_toJson?_iff _).mp hsome p hp
    rw [htext] at hp
    cases hp
  rw [runLint_of_found h, hjson, if_pos rfl, hnone]
  exact ⟨rfl, rfl⟩

end Command

/-- **Totals and exit code agree.** In every report, strict or not, the files that pass and those
that fail are all files; errors and warnings are the diagnostics of that severity, added up over the
files; and those files fail that have an error, or, if the report is strict, any diagnostic. The
command that lints what stands at a path ends with 0 exactly if none of its files fails, in whatever
form it prints the report. Only if the report is to be JSON and a path in it is no text, the command
ends with 2, and there is no report. -/
theorem lint_verdicts_agree :
    (∀ r : Report,
      r.passed + r.failed = r.files.length ∧
      r.errors =
        r.files.foldl (fun n f => n + f.diagnostics.countP fun d => d.severity = .error) 0 ∧
      r.warnings =
        r.files.foldl (fun n f => n + f.diagnostics.countP fun d => d.severity = .warning) 0 ∧
      r.failed =
        r.files.countP fun f => f.diagnostics.any fun d => r.strict || d.severity = .error) ∧
    (∀ (d : Disk) (network : Option Network) (words : List String) (r : CommandLine.LintRequest),
      CommandLine.Request.ofWords words = .ok (.lint r) →
        CommandLine.execute d network words = (d, CommandLine.runLint d.find? r)) ∧
    ∀ (files : Files) (r : CommandLine.LintRequest) (t : FileTree), files r.path = some t →
      let report := Report.of r.path r.strict (some t)
      let reply := CommandLine.runLint files r
      ((r.asJson = true → ∀ p ∈ report.paths, p.text?.isSome) →
        (reply.code = 0 ↔ report.failed = 0)) ∧
      (r.asJson = true → (∃ p ∈ report.paths, p.text? = none) →
        reply.code = 2 ∧ reply.out = "") := by
  refine ⟨fun r => ⟨r.passed_add_failed, r.count_eq_foldl .error, r.count_eq_foldl .warning,
    r.failed_eq_countP⟩, fun d network words r h => ?_, fun files r t h => ?_⟩
  · simp only [CommandLine.execute, CommandLine.runWords, h, CommandLine.run]
    rfl
  · exact ⟨code_runLint_eq_zero_iff h, runLint_of_not_text h⟩

/-- A file that hides an identity it does not have: it fails only if the report is strict. With a
name that is no text, there is no report of it as JSON. -/
theorem lint_verdicts_agree_warning :
    let d : Disk := ⟨.directory [
      (Path.ofText "a.json", .file "\x7b\"hidden\": [[\"u\", 1]]\x7d".toUTF8),
      (Path.ofText "b", .directory [(0xFF :: Path.extension, .file "\x7b\x7d".toUTF8)])], []⟩
    let a := Path.ofText "a.json"
    let report (strict : Bool) : Report := .of a strict (d.find? a)
    let reply (words : List String) : CommandLine.Reply := (CommandLine.execute d none words).2
    ((report false).passed = 1 ∧ (report false).warnings = 1 ∧ (report false).failed = 0 ∧
        (reply ["lint", "a.json", "--format", "json"]).code = 0) ∧
      ((report true).passed = 0 ∧ (report true).failed = 1 ∧
        (reply ["lint", "a.json", "--strict", "-q"]).code ≠ 0) ∧
      (reply ["lint", "b", "--format", "json"]).code = 2 := by
  intro d a report reply
  obtain ⟨htotals, hcommand, hcode⟩ := lint_verdicts_agree
  have hreply : ∀ {words : List String} {r : CommandLine.LintRequest},
      CommandLine.Request.ofWords words = .ok (.lint r) →
        reply words = CommandLine.runLint d.find? r := fun h =>
    congrArg Prod.snd (hcommand d none _ _ h)
  obtain ⟨t, ht⟩ := Option.isSome_iff_exists.mp (by decide +kernel : (d.find? a).isSome)
  obtain ⟨u, hu⟩ := Option.isSome_iff_exists.mp
    (by decide +kernel : (d.find? (.ofText "b")).isSome)
  have hwarnings : (report false).warnings = 1 := by decide +kernel
  have hfailed : (report false).failed = 0 := by decide +kernel
  have hstrict : (report true).failed = 1 := by decide +kernel
  have hpassed : ∀ strict, (report strict).passed + (report strict).failed = 1 := fun strict => by
    have hlength : (report strict).files.length = 1 := by cases strict <;> decide +kernel
    exact (htotals (report strict)).1.trans hlength
  have hreport : ∀ strict, report strict = .of a strict (some t) := fun _ => ht ▸ rfl
  refine ⟨⟨?_, hwarnings, hfailed, ?_⟩, ⟨?_, hstrict, ?_⟩, ?_⟩
  · have hall := hpassed false
    rwa [hfailed] at hall
  · have hpaths : ∀ p ∈ (report false).paths, p.text?.isSome := by decide +kernel
    rw [hreport] at hfailed hpaths
    rw [hreply (r := ⟨a, true, false, false⟩) rfl]
    exact ((hcode d.find? _ t ht).1 fun _ => hpaths).mpr hfailed
  · have hall := hpassed true
    rw [hstrict] at hall
    exact Nat.succ.inj hall
  · rw [hreport] at hstrict
    rw [hreply (r := ⟨a, false, true, true⟩) rfl]
    intro h
    have hzero := ((hcode d.find? ⟨a, false, true, true⟩ t ht).1 nofun).mp h
    exact absurd (hstrict.symm.trans hzero) (by decide)
  · have hpath : ∃ p ∈ (Report.of (.ofText "b") false (d.find? (.ofText "b"))).paths,
        p.text? = none := by decide +kernel
    rw [hu] at hpath
    rw [hreply (r := ⟨.ofText "b", true, false, false⟩) rfl]
    exact ((hcode d.find? _ u hu).2 rfl hpath).1

/-- The command does not always end with 0 if no file fails: a report may not be JSON, as the name
of a file is no text, and a path that begins with `-` is not taken for one. -/
theorem lint_verdicts_differ :
    let clean : FileTree := .file "\x7b\x7d".toUTF8
    let d : Disk := ⟨.directory [(Path.ofText "x", .directory [(0xFF :: Path.extension, clean)]),
      (Path.ofText "-x.json", clean)], []⟩
    let failed (path : Path) : Option Nat :=
      (d.find? path).map fun t => (Report.of path false (some t)).failed
    let reply (words : List String) : CommandLine.Reply := (CommandLine.execute d none words).2
    (failed (.ofText "x") = some 0 ∧
      reply ["lint", "x", "--format", "json"] =
        { code := 2
          err := "Error serializing output: path contains invalid UTF-8 characters\n" }) ∧
    failed (.ofText "-x.json") = some 0 ∧
      (reply ["lint", "-x.json", "--format", "json"]).code = 2 := by
  decide +kernel

end Sideload.Lint
