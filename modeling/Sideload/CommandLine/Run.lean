import Sideload.CommandLine.Request
import Sideload.Document.Check
import Sideload.FileTree.Disk
import Sideload.Include.Json
import Sideload.Lint.Text

/-! # Running requests

A request is answered from what is found at paths and URLs (`run`): either at once, with texts for
the standard output and the standard error and an exit code, or by a file that is to be written.
Nothing is written unless everything before has succeeded. `execute` runs a command line on a
disk. -/

namespace Sideload.CommandLine

/-- What a command leaves behind. -/
structure Reply where
  code : Nat := 0
  out : String := ""
  err : String := ""
deriving DecidableEq, Repr

/-- A reply, or a file to write. -/
inductive Outcome where
  | done (r : Reply)
  | save (path : FileTree.Path) (text : String)
deriving DecidableEq, Repr

/-- A reply with a line on the standard output. -/
def printed (line : String) : Reply := { out := line ++ "\n" }

/-- A reply with a line on the standard error. -/
def failed (code : Nat) (line : String) : Reply := { code, err := line ++ "\n" }

/-- A JSON value as text. -/
def jsonText (pretty : Bool) (v : Json) : String := if pretty then v.pretty else v.compact

/-- The name and the version of the program. -/
def versionText : String := "compound-doc 0.3.0"

/-- How the program is used. -/
def usageText : String :=
  "Resolve include expressions into compound documents\n\n" ++
  "Usage: compound-doc [--verbose] <COMMAND>\n\n" ++
  "Commands:\n" ++
  "  parse <EXPRESSION> [--columns union|last] [--max-depth N] [--pretty]\n" ++
  "  resolve <DATASET> --type TYPE (--id ID... | --all) [--include EXPRESSION] [--omit-empty]\n" ++
  "          [--columns union|last] [--max-depth N] [--check] [--output FILE] [--pretty]\n" ++
  "  lint <PATH> [--format text|json] [--strict] [--quiet]\n" ++
  "  help"

/-- The reply to a command line that cannot be followed: what is wrong with it, or, if it says
nothing, how the program is used. -/
def refused : UsageError → Reply
  | .nothingAsked => failed 2 usageText
  | e => failed 2 ("error: " ++ e.message)

/-- Read an expression and print its forest. -/
def runParse (r : ParseRequest) : Reply :=
  match Include.parse r.options r.expression with
  | .error m => failed 2 ("Error: " ++ m.message)
  | .ok forest => printed (jsonText r.pretty forest.toJson)

/-- The roots that are asked for. -/
def Roots.of (d : Dataset) (type : String) : Roots → Except ResolveError (List Entity)
  | all => .ok (d.entitiesOf type)
  | ids wanted => d.roots type wanted

/-- The reply to a document that did not pass its check. -/
def checkFailed (fs : List Finding) : Reply :=
  { code := 1
    err := "Document check failed:\n" ++ String.join (fs.map fun f => "  " ++ f.text ++ "\n") }

/-- The document that is asked for, or the reply that says why there is none: the dataset is
opened, the roots are looked up, the expression is resolved, and the document is checked, in this
order. -/
def resolveDocument (world : World) (r : ResolveRequest) : Except Reply Document :=
  match Source.openDataset world r.source with
  | .error e => .error (failed e.exitCode ("Error loading dataset: " ++ e.message))
  | .ok d =>
    match r.roots.of d r.type with
    | .error e => .error (failed e.exitCode ("Error: " ++ e.message))
    | .ok roots =>
      match d.resolve roots r.expression r.options with
      | .error e => .error (failed e.exitCode ("Error: " ++ e.message))
      | .ok document =>
        match if r.check then document.findings else [] with
        | [] => .ok document
        | wrong => .error (checkFailed wrong)

/-- Resolve an expression; print the document, or have it written. -/
def runResolve (world : World) (r : ResolveRequest) : Outcome :=
  match resolveDocument world r with
  | .error reply => .done reply
  | .ok document =>
    let text := jsonText r.pretty document.toJson
    match r.output with
    | none => .done (printed text)
    | some path => .save path text

/-- The reply with a report as JSON, which has to be made of texts. -/
def jsonReply (code : Nat) : Option Json → Reply
  | some v => { code, out := v.pretty ++ "\n" }
  | none => failed 2 "Error serializing output: path contains invalid UTF-8 characters"

/-- Lint files and print the report. -/
def runLint (files : Files) (r : LintRequest) : Reply :=
  match files r.path with
  | none => failed 2 ("Error: path not found: " ++ r.path.shown)
  | found =>
    let report := Lint.Report.of r.path r.strict found
    let code := if report.isClean then 0 else 1
    if r.asJson then jsonReply code report.toJson? else { code, out := report.text r.quiet }

/-- Answer a request. -/
def run (world : World) : Request → Outcome
  | .parse r => .done (runParse r)
  | .resolve r => runResolve world r
  | .lint r => .done (runLint world.files r)
  | .help => .done (printed usageText)
  | .version => .done (printed versionText)

/-- Answer a command line. -/
def runWords (world : World) (words : List String) : Outcome :=
  match Request.ofWords words with
  | .error e => .done (refused e)
  | .ok r => run world r

/-- The reply when a file cannot be written. -/
def unwritable (path : FileTree.Path) (fault : FileTree.Fault) : Reply :=
  failed 3 ("Error writing to " ++ path.shown ++ ": " ++ fault.message)

/-- Carry out what is left to do. -/
def Outcome.settle (d : Disk) : Outcome → Disk × Reply
  | done r => (d, r)
  | save path text =>
    match d.write path text.toUTF8 with
    | .ok d => (d, {})
    | .error fault => (d, unwritable path fault)

/-- Answer a command line on a disk: the disk afterwards, and the reply. -/
def execute (d : Disk) (network : Option Network) (words : List String) : Disk × Reply :=
  (runWords ⟨d.find?, network⟩ words).settle d

end Sideload.CommandLine
