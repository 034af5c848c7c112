import Sideload.Lint.Report

/-! # Lint reports on a terminal

A report as lines of text: a heading, a line for each file and each diagnostic, and a verdict.
A quiet report leaves out the heading, the files that are in order, and the warnings. -/

namespace Sideload.Lint

/-- The colours of a terminal. -/
inductive Colour where
  | red
  | green
  | yellow
deriving DecidableEq, Repr

/-- The code of a colour. -/
def Colour.code : Colour → String
  | red => "31"
  | green => "32"
  | yellow => "33"

/-- A text in colour. -/
def Colour.paint (c : Colour) (s : String) : String := "\x1b[" ++ c.code ++ "m" ++ s ++ "\x1b[0m"

/-- The mark of a status. -/
def Status.mark : Status → String
  | .ok => Colour.green.paint "✓"
  | .warning => Colour.yellow.paint "⚠"
  | .error => Colour.red.paint "✗"

/-- The colour of a severity. -/
def Severity.colour : Severity → Colour
  | .error => .red
  | .warning => .yellow

/-- A diagnostic as a line. -/
def Diagnostic.line (d : Diagnostic) : String :=
  "    " ++ d.severity.colour.paint (d.severity.name ++ "[" ++ d.problem.code ++ "]") ++ ": " ++
    d.path ++ " - " ++ d.problem.message ++ "\n"

/-- A file as lines. -/
def FileReport.lines (quiet : Bool) (r : FileReport) : List String :=
  (if quiet && r.status = .ok then []
    else ["  " ++ r.status.mark ++ " " ++ r.name.shown ++ "\n"]) ++
    (r.diagnostics.filter fun d => !quiet || d.severity = .error).map Diagnostic.line

/-- The verdict on all files. -/
def Report.verdict (r : Report) : String :=
  let checked := toString r.files.length ++ " files checked"
  if r.isClean then Colour.green.paint ("✓ " ++ checked ++ ", all passed")
  else
    Colour.red.paint ("✗ " ++ checked ++ ": " ++ toString r.passed ++ " passed, " ++
      toString r.failed ++ " failed (" ++ toString r.errors ++ " errors, " ++
      toString r.warnings ++ " warnings)")

/-- A report as text. -/
def Report.text (quiet : Bool) (r : Report) : String :=
  (if quiet then "" else "Linting " ++ r.path.shown ++ " ...\n\n") ++
    String.join (r.files.flatMap (FileReport.lines quiet)) ++ "\n" ++ r.verdict ++ "\n"

end Sideload.Lint
