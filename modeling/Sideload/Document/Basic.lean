import Sideload.Entity

/-! # Compound documents

A document holds resources in two lists: `data`, what was asked for, and `included`, what is
related to it. A resource is an entity whose relations are given by pointers only; the entities
they point at stand in the document themselves. -/

namespace Sideload

/-- What a relationship points at: one entity or nothing, or any number of entities. -/
inductive Linkage where
  | one (target : Option Pointer)
  | many (targets : List Pointer)
deriving DecidableEq, Repr

namespace Linkage

/-- The pointers, in order. -/
def pointers : Linkage → List Pointer
  | one target => target.toList
  | many targets => targets

/-- There are no pointers. -/
def isEmpty : Linkage → Bool
  | one target => target.isNone
  | many targets => targets.isEmpty

theorem isEmpty_iff {l : Linkage} : l.isEmpty = true ↔ l.pointers = [] := by
  cases l with
  | one target => cases target <;> simp [isEmpty, pointers]
  | many targets => simp [isEmpty, pointers]

/-- The linkage as a JSON value. -/
def toJson : Linkage → Json
  | one none => .null
  | one (some target) => target.toJson
  | many targets => .array (targets.map Pointer.toJson)

end Linkage

/-- An entity of a document. -/
structure Resource where
  pointer : Pointer
  attributes : Fields Json
  relationships : Fields Linkage

namespace Resource

/-- The resource as a JSON value. -/
def toJson (r : Resource) : Json :=
  .object [("id", .string r.pointer.id), ("type", .string r.pointer.type),
    ("attributes", .object r.attributes),
    ("relationships", .object
      (Fields.mapValues (fun linkage => .object [("data", linkage.toJson)]) r.relationships))]

/-- The attributes and relationships of a resource, with those of a second one that the first does
not have. -/
def merge (r s : Resource) : Resource where
  pointer := r.pointer
  attributes := Fields.union r.attributes s.attributes
  relationships := Fields.union r.relationships s.relationships

end Resource

/-- Resources that were asked for, and resources that are related to them. -/
structure Document where
  data : List Resource := []
  included : List Resource := []

namespace Document

/-- All resources, in order. -/
def resources (d : Document) : List Resource := d.data ++ d.included

/-- The first resource with an identity. -/
def find? (d : Document) (p : Pointer) : Option Resource :=
  d.resources.find? fun r => r.pointer = p

/-- The document as a JSON value. -/
def toJson (d : Document) : Json :=
  .object [("data", .array (d.data.map Resource.toJson)),
    ("included", .array (d.included.map Resource.toJson))]

end Document

end Sideload
