import Sideload.CommandLine.Arguments
import Sideload.Compound
import Sideload.FileTree.Path

/-! # Requests

What a command line asks for: to read an include expression, to resolve one against a dataset, or
to lint dataset files (`Request.ofWords`). -/

namespace Sideload.CommandLine

/-- Which entities of a type are the roots. -/
inductive Roots where
  | all
  | ids (ids : List String)
deriving DecidableEq, Repr

/-- Read an include expression and write its forest. -/
structure ParseRequest where
  expression : String
  options : Include.Options
  pretty : Bool
deriving DecidableEq, Repr

/-- Resolve an include expression against a dataset and write the document. -/
structure ResolveRequest where
  source : String
  type : String
  roots : Roots
  expression : String
  options : ResolveOptions
  check : Bool
  /-- The file to write to, if not the standard output. -/
  output : Option FileTree.Path
  pretty : Bool
deriving DecidableEq, Repr

/-- Lint the dataset files at and below a path. -/
structure LintRequest where
  path : FileTree.Path
  asJson : Bool
  strict : Bool
  quiet : Bool
deriving DecidableEq, Repr

/-- What a command line asks for. -/
inductive Request where
  | parse (r : ParseRequest)
  | resolve (r : ResolveRequest)
  | lint (r : LintRequest)
  | help
  | version
deriving DecidableEq, Repr

/-! ### Options -/

/-- More of the log. What is logged is no part of the answer. -/
def verboseOpt : Opt := { name := "verbose", letter := some 'v', repeats := true }

/-- How a command is used. -/
def helpOpt : Opt := { name := "help", letter := some 'h', isLast := true }

/-- Which version the program has. -/
def versionOpt : Opt := { name := "version", letter := some 'V', isLast := true }

/-- The options of every command. -/
def commonOpts : List Opt := [verboseOpt, helpOpt]

/-- The options in front of a command. -/
def frontOpts : List Opt := [verboseOpt, helpOpt, versionOpt]

/-- The options that say how expressions are read. -/
def expressionOpts : List Opt :=
  [{ name := "columns", form := some (.oneOf ["union", "last"]) },
    { name := "max-depth", form := some .number }]

/-- What can be said to `parse`. -/
def parseUsage : Usage where
  opts := commonOpts ++ expressionOpts ++ [{ name := "pretty" }]
  plainName := "expression"

/-- What can be said to `resolve`. -/
def resolveUsage : Usage where
  opts := commonOpts ++ expressionOpts ++
    [{ name := "type", letter := some 't', form := some .any },
      { name := "id", form := some .any, repeats := true }, { name := "all" },
      { name := "include", letter := some 'i', form := some .any }, { name := "omit-empty" },
      { name := "check" }, { name := "output", form := some .nonEmpty }, { name := "pretty" }]
  plainName := "dataset"

/-- What can be said to `lint`. -/
def lintUsage : Usage where
  opts := commonOpts ++
    [{ name := "format", form := some .any }, { name := "strict" },
      { name := "quiet", letter := some 'q' }]
  plainName := "path"
  plainForm := .nonEmpty

/-! ### What arguments say -/

/-- How expressions are read: by default, columns are united and the depth is the common limit. -/
def expressionOptions (args : List Argument) : Include.Options where
  columnPolicy := if value? "columns" args = some "last" then .last else .union
  maxDepth := some (((value? "max-depth" args).bind readNumber?).getD Include.defaultMaxDepth)

/-- Which roots are asked for: all of them, or some ids. -/
def readRoots (args : List Argument) : Except UsageError Roots :=
  match hasFlag "all" args, values "id" args with
  | true, [] => .ok .all
  | true, _ => .error (.conflict "id" "all")
  | false, [] => .error (.missing "id")
  | false, ids => .ok (.ids ids)

/-! ### Commands -/

/-- The request of `parse`. -/
def ParseRequest.ofArguments (args : List Argument) : Except UsageError ParseRequest := do
  let expression ← parseUsage.plain args
  return { expression, options := expressionOptions args, pretty := hasFlag "pretty" args }

/-- The request of `resolve`. -/
def ResolveRequest.ofArguments (args : List Argument) : Except UsageError ResolveRequest := do
  let source ← resolveUsage.plain args
  let some type := value? "type" args | throw (.missing "type")
  let roots ← readRoots args
  let empties := if hasFlag "omit-empty" args then EmptyRelations.omit else .keep
  return { source, type, roots, expression := (value? "include" args).getD "",
           options := ⟨expressionOptions args, empties⟩, check := hasFlag "check" args,
           output := (value? "output" args).map .ofText, pretty := hasFlag "pretty" args }

/-- The request of `lint`. -/
def LintRequest.ofArguments (args : List Argument) : Except UsageError LintRequest := do
  let path ← lintUsage.plain args
  return { path := .ofText path, asJson := value? "format" args = some "json",
           strict := hasFlag "strict" args, quiet := hasFlag "quiet" args }

/-- A request of a command, unless its help is asked for. Then nothing needs to be there, but what
stands in front of the question must be right. -/
def ofCommand {α : Type} (u : Usage) (build : List Argument → Except UsageError α)
    (wrap : α → Request) (words : List String) : Except UsageError Request :=
  match u.read words with
  | .error e => .error e
  | .ok args => if hasFlag "help" args then .ok .help else (build args).map wrap

/-- The request for help, with a command or without one. -/
def ofHelp : List String → Except UsageError Request
  | [] => .ok .help
  | [name] =>
    if name ∈ ["parse", "resolve", "lint", "help"] then .ok .help else .error (.unknownCommand name)
  | _ :: word :: _ => .error (.unexpected word)

/-- The request of a command by its name. -/
def ofCommandName (name : String) (words : List String) : Except UsageError Request :=
  match name with
  | "parse" => ofCommand parseUsage ParseRequest.ofArguments .parse words
  | "resolve" => ofCommand resolveUsage ResolveRequest.ofArguments .resolve words
  | "lint" => ofCommand lintUsage LintRequest.ofArguments .lint words
  | "help" => ofHelp words
  | _ => .error (.unknownCommand name)

/-- The request of a command with options in front of it. No command stands behind `--`. -/
def ofFront : List String → Except UsageError Request
  | [] => .error .noCommand
  | ["--"] => .error .noCommand
  | "--" :: word :: _ => .error (.unexpected word)
  | word :: words =>
    match readWord frontOpts word with
    | .error e => .error e
    | .ok r =>
      match r.found with
      | [.plain name] => ofCommandName name words
      | found =>
        if hasFlag "version" found then .ok .version
        else if hasFlag "help" found then .ok .help
        else ofFront words

/-- What a command line asks for. -/
def Request.ofWords (words : List String) : Except UsageError Request :=
  if words = [] || words = ["--"] then .error .nothingAsked else ofFront words

end Sideload.CommandLine
