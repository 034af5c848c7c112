import Sideload.Include.Node
import Sideload.Loader
import Sideload.Resolved

/-! # Resolution

A forest is resolved below some entities, level by level. For each relation of a level, in order,
the parents are grouped by type, in the order in which the types first occur; each group is one
batch (`resolveGroup`). The values of all parents of a group, cut down to the relation's columns,
are the parents of the next level. A relation that may not be included from a type, or is not fully
known, is skipped there with everything below it.

A `Run` keeps the batches that were asked for, in order, together with how it ended, so that what
the loader is asked can be spoken of as well as what comes out. -/

namespace Sideload

/-- One question to a loader: a relation, for some entities. -/
structure Batch where
  relation : String
  sources : List Pointer
deriving DecidableEq, Repr

/-- The batches that were asked for, in order, and how the run ended. -/
structure Run (α : Type) where
  batches : List Batch
  outcome : Except LoadError α

namespace Run

variable {α β : Type}

/-- Nothing is asked. -/
def pure (a : α) : Run α := ⟨[], .ok a⟩

/-- Go on with the result of a run; a run that failed ends here. -/
def bind (x : Run α) (f : α → Run β) : Run β :=
  match x.outcome with
  | .error e => ⟨x.batches, .error e⟩
  | .ok a => ⟨x.batches ++ (f a).batches, (f a).outcome⟩

instance : Monad Run where
  pure := pure
  bind := bind

/-- Ask for one batch. An answer with another number of lists than there are sources fails. -/
def load (loader : Loader) (type relation : String) (sources : List Pointer) :
    Run (List (List Entity)) where
  batches := [⟨relation, sources⟩]
  outcome :=
    match loader.loadBatch sources relation with
    | .error e => .error e
    | .ok lists =>
      if lists.length = sources.length then .ok lists
      else .error (.batchMismatch type relation sources.length lists.length)

end Run

namespace Resolved

/-- The types that occur, in the order of their first occurrence. -/
def typesOf (parents : List Resolved) : List String := (parents.map type).eraseDups

/-- Cut a list into pieces of the given lengths. -/
def regroup {α : Type} : List Nat → List α → List (List α)
  | [], _ => []
  | n :: lengths, values => values.take n :: regroup lengths (values.drop n)

/-- Give the parents of one type their branches, in order. -/
def attach (name type : String) : List Resolved → List (Branch Resolved) → List Resolved
  | [], _ => []
  | p :: parents, branches =>
    if p.type = type then
      match branches with
      | [] => p :: attach name type parents []
      | b :: branches => p.withBranch name b :: attach name type parents branches
    else p :: attach name type parents branches

/-- One relation for the parents of one type: load it for all of them together, resolve what is
`within` the values, and give each parent its branch. -/
def resolveGroup (registry : Registry) (loader : Loader) (relation : String)
    (columns : List String) (within : List Resolved → Run (List Resolved)) (type : String)
    (parents : List Resolved) : Run (List Resolved) :=
  match registry.includable? type relation with
  | none => pure parents
  | some (target, cardinality) => do
    let sources := (parents.filter fun p => p.type = type).map pointer
    let lists ← Run.load loader type relation sources
    let values ← within (lists.flatten.map fun e => leaf (e.project columns))
    let branches := List.zipWith
      (fun source values => ⟨source, relation, target, cardinality, columns, values⟩)
      sources (regroup (lists.map List.length) values)
    return attach relation type parents branches

mutual

/-- The relations of a forest, one after the other, for all parents. -/
def resolveForest (registry : Registry) (loader : Loader) :
    Include.Forest → List Resolved → Run (List Resolved)
  | [], parents => pure parents
  | n :: forest, parents => do
    let parents ← resolveNode registry loader n parents
    resolveForest registry loader forest parents

/-- One relation for all parents, type by type. -/
def resolveNode (registry : Registry) (loader : Loader) :
    Include.Node → List Resolved → Run (List Resolved)
  | .mk relation columns children, parents =>
    (typesOf parents).foldlM
      (fun parents type => resolveGroup registry loader relation columns
        (fun values => resolveForest registry loader children values) type parents)
      parents

end

end Resolved

/-- Resolve a forest below some entities. The roots keep all their attributes. -/
def resolve (registry : Registry) (loader : Loader) (roots : List Entity)
    (forest : Include.Forest) : Run (List Resolved) :=
  Resolved.resolveForest registry loader forest (roots.map Resolved.leaf)

end Sideload
