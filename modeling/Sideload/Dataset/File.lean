import Sideload.Entity
import Sideload.Registry

/-! # Dataset files

What a dataset file says, before anything is looked up: declared types, entities with their links,
and the identities that are hidden. Ids are texts; an integer id is known by its decimal text. -/

namespace Sideload

/-- The links of one relation of an entity: one id or none, or a list of ids. -/
inductive Links where
  | one (id : Option String)
  | many (ids : List String)
deriving DecidableEq, Repr

namespace Links

/-- The ids that are linked, in order. -/
def ids : Links → List String
  | one id => id.toList
  | many ids => ids

/-- The links are written as a list. -/
def isList : Links → Bool
  | one _ => false
  | many _ => true

end Links

/-- An entity of a dataset file. -/
structure EntityEntry where
  entity : Entity
  links : Fields Links

/-- What a dataset file says. -/
structure DatasetFile where
  types : TypeRegistry
  entities : List EntityEntry
  hidden : List Pointer

/-- The identities of the entities, in order. -/
def DatasetFile.pointers (f : DatasetFile) : List Pointer := f.entities.map (·.entity.pointer)

end Sideload
