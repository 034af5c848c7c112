import Sideload.Entity

/-! # Loaders

A `Loader` fetches the entities that a relation of an entity leads to, for one entity or for
several of one type at once. The batch answers one list for each entity, in the order of the
entities; a loader that has nothing better loads one by one (`Loader.ofLoad`). What the caller may
not see, a loader leaves out. -/

namespace Sideload

/-- Why related entities could not be loaded. -/
inductive LoadError where
  /-- The entity whose relation is asked for is not there. -/
  | unknownEntity (source : Pointer)
  /-- The relation leads to an entity that is not there. -/
  | danglingReference (source : Pointer) (relation : String) (target : Pointer)
  /-- What stands behind the loader failed. -/
  | backend (source : Pointer) (relation cause : String)
  /-- A batch was answered with another number of lists than it had entities. -/
  | batchMismatch (type relation : String) (expected got : Nat)
deriving DecidableEq, Repr

namespace LoadError

/-- The error in words. -/
def message : LoadError → String
  | unknownEntity source => "entity " ++ source.text ++ " not found"
  | danglingReference source relation target =>
    source.text ++ ": relation '" ++ relation ++ "' points to missing " ++ target.text
  | backend source relation cause =>
    "failed to load '" ++ relation ++ "' for " ++ source.text ++ ": " ++ cause
  | batchMismatch type relation expected got =>
    "batch load of '" ++ relation ++ "' for " ++ type ++ " returned " ++ toString got ++
      " results for " ++ toString expected ++ " entities"

/-- The exit code of a command that fails with the error. -/
def exitCode : LoadError → Nat
  | unknownEntity _ => 2
  | danglingReference .. => 2
  | backend .. => 3
  | batchMismatch .. => 3

end LoadError

/-- Where related entities come from. -/
structure Loader where
  /-- The entities that a relation of an entity leads to, in the relation's order. -/
  load : Pointer → String → Except LoadError (List Entity)
  /-- The same for several entities of one type, one list for each. -/
  loadBatch : List Pointer → String → Except LoadError (List (List Entity))

namespace Loader

/-- The loads one after the other; the first failure ends them. -/
def each (load : Pointer → String → Except LoadError (List Entity)) (relation : String) :
    List Pointer → Except LoadError (List (List Entity))
  | [] => .ok []
  | p :: ps =>
    match load p relation with
    | .error e => .error e
    | .ok values =>
      match each load relation ps with
      | .error e => .error e
      | .ok lists => .ok (values :: lists)

/-- A loader that answers batches one entity at a time. -/
def ofLoad (load : Pointer → String → Except LoadError (List Entity)) : Loader where
  load := load
  loadBatch ps relation := each load relation ps

end Loader

end Sideload
