import Sideload.Document.Assembly
import Sideload.Include.Expression
import Sideload.Resolution

/-! # From an include expression to a compound document

The expression is read before anything is loaded; then its forest is resolved below the roots, and
the resolved trees are assembled. -/

namespace Sideload

/-- How expressions are read and documents are written. -/
structure ResolveOptions where
  expression : Include.Options := {}
  empties : EmptyRelations := .keep
deriving DecidableEq, Repr

/-- Why there is no document. -/
inductive ResolveError where
  | malformed (m : Include.Malformed)
  | load (e : LoadError)
  | unknownRoot (root : Pointer)
deriving DecidableEq, Repr

namespace ResolveError

/-- The error in words. -/
def message : ResolveError → String
  | malformed m => m.message
  | load e => e.message
  | unknownRoot root => "root entity " ++ root.text ++ " not found"

/-- The exit code of a command that fails with the error. -/
def exitCode : ResolveError → Nat
  | malformed _ => 2
  | load e => e.exitCode
  | unknownRoot _ => 2

end ResolveError

/-- The compound document of an expression below some roots. -/
def resolveDocument (registry : Registry) (loader : Loader) (roots : List Entity)
    (expression : String) (options : ResolveOptions) : Except ResolveError Document :=
  match Include.parse options.expression expression with
  | .error m => .error (.malformed m)
  | .ok forest =>
    match (resolve registry loader roots forest).outcome with
    | .error e => .error (.load e)
    | .ok resolved => .ok (assemble options.empties resolved)

end Sideload
