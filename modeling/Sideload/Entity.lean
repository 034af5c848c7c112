import Sideload.Json.Basic

/-! # Entities

An entity has an identity, its type and its id, and attributes. A `Pointer` is the identity alone;
messages write it as `type/id`. -/

namespace Sideload

/-- The identity of an entity. -/
structure Pointer where
  type : String
  id : String
deriving DecidableEq, Repr

/-- The written form of an identity. -/
def Pointer.text (p : Pointer) : String := p.type ++ "/" ++ p.id

/-- A pointer as a JSON value: its id, then its type. -/
def Pointer.toJson (p : Pointer) : Json := .object [("id", .string p.id), ("type", .string p.type)]

/-- An identity with its attributes. -/
structure Entity where
  pointer : Pointer
  attributes : Fields Json

namespace Entity

/-- The type of an entity. -/
def type (e : Entity) : String := e.pointer.type

/-- The id of an entity. -/
def id (e : Entity) : String := e.pointer.id

/-- An entity with the attributes that some columns name, in the order of the columns. Without
columns all attributes stay. -/
def project (columns : List String) (e : Entity) : Entity :=
  if columns.isEmpty then e else { e with attributes := Fields.select e.attributes columns }

theorem pointer_project (columns : List String) (e : Entity) :
    (e.project columns).pointer = e.pointer := by
  unfold project
  split <;> rfl

end Entity

end Sideload
