import Sideload.Source

/-! # Diagnostics

What can be wrong with a dataset file: a `Problem`, with its severity, its code and its words, at a
place in the file. -/

namespace Sideload.Lint

/-- How bad a problem is. -/
inductive Severity where
  | error
  | warning
deriving DecidableEq, Repr

/-- The name of a severity. -/
def Severity.name : Severity → String
  | error => "error"
  | warning => "warning"

/-- What can be wrong with a dataset file. -/
inductive Problem where
  /-- The file cannot be read, or is not JSON. -/
  | unreadable (e : SourceError)
  /-- The JSON value is not shaped like a dataset. -/
  | wrongShape (e : ShapeError)
  /-- A link leads to an entity that is not in the file. -/
  | missingTarget (target : Pointer)
  /-- A relation to one entity is written as several links. -/
  | severalLinks (relation : String)
  /-- An identity occurs again. -/
  | duplicate (p : Pointer)
  /-- A relation leads to a type that is neither declared nor used. -/
  | unknownTarget (type : String)
  /-- An entity has a relation that its type does not declare. -/
  | undeclaredRelation (type relation : String)
  /-- A hidden identity is not in the file. -/
  | missingHidden (p : Pointer)

namespace Problem

/-- How bad the problem is. -/
def severity : Problem → Severity
  | unreadable _ => .error
  | wrongShape _ => .error
  | missingTarget _ => .error
  | severalLinks _ => .error
  | duplicate _ => .error
  | unknownTarget _ => .warning
  | undeclaredRelation .. => .warning
  | missingHidden _ => .warning

/-- The code of the problem. -/
def code : Problem → String
  | unreadable _ => "E001"
  | wrongShape _ => "E002"
  | missingTarget _ => "E003"
  | severalLinks _ => "E004"
  | duplicate _ => "E005"
  | unknownTarget _ => "W001"
  | undeclaredRelation .. => "W002"
  | missingHidden _ => "W003"

/-- The problem in words. -/
def message : Problem → String
  | unreadable e => "syntax error: " ++ e.message
  | wrongShape e => "invalid dataset: " ++ e.message
  | missingTarget target => "link to missing entity " ++ target.text
  | severalLinks relation =>
    "one-valued relation \"" ++ relation ++ "\" must link a single id or null"
  | duplicate p => "duplicate entity " ++ p.text
  | unknownTarget type => "relation targets unknown type \"" ++ type ++ "\""
  | undeclaredRelation type relation =>
    "relation \"" ++ relation ++ "\" is not declared for type \"" ++ type ++ "\""
  | missingHidden p => "hidden entry refers to missing entity " ++ p.text

end Problem

/-- A problem at a place in a file. -/
structure Diagnostic where
  path : String
  problem : Problem

/-- How bad a diagnostic is. -/
def Diagnostic.severity (d : Diagnostic) : Severity := d.problem.severity

end Sideload.Lint
