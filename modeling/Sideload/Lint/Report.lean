import Sideload.Lint.Check

/-! # Lint reports

A `FileReport` holds the diagnostics of one file, a `Report` those of all `json` files at and below
a path. Everything else is counted from them: a file fails if it has an error, or, in a strict
report, any diagnostic.

JSON is made of texts, so a report in which some path is none has no JSON value. -/

namespace Sideload.Lint

/-- How a file did. -/
inductive Status where
  | ok
  | error
  | warning
deriving DecidableEq, Repr

/-- The name of a status. -/
def Status.name : Status → String
  | ok => "ok"
  | error => "error"
  | warning => "warning"

/-- The diagnostics of one file. `name` is what is shown of its path. -/
structure FileReport where
  path : FileTree.Path
  name : FileTree.Path
  diagnostics : List Diagnostic

namespace FileReport

/-- The report of what stands at a path, shown relative to a base. -/
def of (base path : FileTree.Path) (found : Option FileTree) : FileReport where
  path := path
  name := FileTree.Path.relativeTo base path
  diagnostics :=
    match Source.value path found with
    | .error e => [⟨"/", .unreadable e⟩]
    | .ok v => diagnose v

/-- How the file did: as its worst diagnostic. -/
def status (r : FileReport) : Status :=
  if r.diagnostics.any fun d => d.severity = .error then .error
  else if r.diagnostics.any fun d => d.severity = .warning then .warning
  else .ok

/-- The file fails. -/
def fails (strict : Bool) (r : FileReport) : Bool :=
  if strict then r.status ≠ .ok else r.status = .error

/-- A diagnostic of the file as a JSON value, if the path is a text. -/
def diagnosticToJson? (r : FileReport) (d : Diagnostic) : Option Json :=
  r.path.text?.map fun file =>
    .object [("severity", .string d.severity.name), ("code", .string d.problem.code),
      ("file", .string file), ("path", .string d.path), ("message", .string d.problem.message)]

/-- The report as a JSON value, if the paths in it are texts. -/
def toJson? (r : FileReport) : Option Json := do
  let file ← r.name.text?
  let diagnostics ← r.diagnostics.mapM r.diagnosticToJson?
  return .object ([("file", .string file), ("status", .string r.status.name)] ++
    if diagnostics.isEmpty then [] else [("diagnostics", .array diagnostics)])

end FileReport

/-- The reports of the files at and below a path. -/
structure Report where
  path : FileTree.Path
  strict : Bool
  files : List FileReport

namespace Report

/-- The report of what stands at a path. -/
def of (path : FileTree.Path) (strict : Bool) (found : Option FileTree) : Report where
  path := path
  strict := strict
  files :=
    match found with
    | none => []
    | some t => (t.jsonFiles path).map fun f => .of path f.1 (f.2.map .file)

/-- How many files fail. -/
def failed (r : Report) : Nat := r.files.countP (FileReport.fails r.strict)

/-- How many files do not fail. -/
def passed (r : Report) : Nat := r.files.length - r.failed

/-- The diagnostics of all files. -/
def diagnostics (r : Report) : List Diagnostic := r.files.flatMap FileReport.diagnostics

/-- How many diagnostics of a severity there are in all files. -/
def count (s : Severity) (r : Report) : Nat := r.diagnostics.countP fun d => d.severity = s

/-- How many errors there are. -/
def errors (r : Report) : Nat := r.count .error

/-- How many warnings there are. -/
def warnings (r : Report) : Nat := r.count .warning

/-- There are no errors. -/
def isOk (r : Report) : Bool := r.errors = 0

/-- There is nothing that a command would fail for. -/
def isClean (r : Report) : Bool := r.isOk && (!r.strict || r.warnings = 0)

/-- The report as a JSON value, if the paths in it are texts. -/
def toJson? (r : Report) : Option Json := do
  let path ← r.path.text?
  let results ← r.files.mapM FileReport.toJson?
  return .object [("path", .string path), ("files_checked", .int r.files.length),
    ("passed", .int r.passed), ("failed", .int r.failed), ("errors", .int r.errors),
    ("warnings", .int r.warnings), ("results", .array results)]

end Report

end Sideload.Lint
