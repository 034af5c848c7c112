import Sideload.Fields

/-! # Registries

A `Registry` tells what is known of a relation of a type: whether it may be included, the type it
leads to, and whether it leads to one entity or to many. A `TypeRegistry` is one that has been
written down, type by type and relation by relation (`TypeRegistry.toRegistry`). -/

namespace Sideload

/-- How many entities a relation leads to. -/
inductive Cardinality where
  | one
  | many
deriving DecidableEq, Repr

namespace Cardinality

/-- The name of a cardinality. -/
def name : Cardinality → String
  | one => "one"
  | many => "many"

/-- The cardinality with a name. -/
def ofName? : String → Option Cardinality
  | "one" => some one
  | "many" => some many
  | _ => none

theorem ofName?_name (c : Cardinality) : ofName? c.name = some c := by cases c <;> rfl

end Cardinality

/-- What is known of the relations of types. -/
structure Registry where
  /-- Whether a relation may be included from a type. -/
  isIncludable : String → String → Bool
  /-- The type that a relation of a type leads to. -/
  targetType? : String → String → Option String
  /-- How many entities a relation of a type leads to. -/
  cardinality? : String → String → Option Cardinality

/-- The target type and the cardinality of a relation that may be included and is fully known. -/
def Registry.includable? (r : Registry) (type relation : String) :
    Option (String × Cardinality) :=
  if r.isIncludable type relation then
    match r.targetType? type relation, r.cardinality? type relation with
    | some target, some cardinality => some (target, cardinality)
    | _, _ => none
  else none

/-- The declaration of a relation. -/
structure RelationDef where
  target : String
  cardinality : Cardinality := .many
  isIncludable : Bool := true
deriving DecidableEq, Repr

/-- The declaration of a type: its relations. -/
structure TypeDef where
  relations : Fields RelationDef := []
deriving DecidableEq, Repr

/-- Declared types. -/
structure TypeRegistry where
  types : Fields TypeDef := []
deriving DecidableEq, Repr

namespace TypeRegistry

/-- The declaration of a relation of a type. -/
def relation? (r : TypeRegistry) (type relation : String) : Option RelationDef :=
  (Fields.get? r.types type).bind fun t => Fields.get? t.relations relation

/-- The type is declared. -/
def containsType (r : TypeRegistry) (type : String) : Bool := (Fields.get? r.types type).isSome

/-- Declare a type. One that is declared already keeps its relations. -/
def declare (r : TypeRegistry) (type : String) : TypeRegistry :=
  ⟨Fields.insertIfNew r.types type {}⟩

/-- Declare a relation of a type, and the type if it is new. -/
def insert (r : TypeRegistry) (type relation : String) (d : RelationDef) : TypeRegistry :=
  let old := ((Fields.get? r.types type).getD {}).relations
  ⟨Fields.insert r.types type ⟨Fields.insert old relation d⟩⟩

/-- What declared types tell of their relations. -/
def toRegistry (r : TypeRegistry) : Registry where
  isIncludable type relation := ((r.relation? type relation).map (·.isIncludable)).getD false
  targetType? type relation := (r.relation? type relation).map (·.target)
  cardinality? type relation := (r.relation? type relation).map (·.cardinality)

theorem relation?_insert (r : TypeRegistry) (type relation : String) (d : RelationDef)
    (type' relation' : String) :
    (r.insert type relation d).relation? type' relation' =
      if type = type' ∧ relation = relation' then some d else r.relation? type' relation' := by
  unfold relation? insert
  simp only [Fields.get?_insert]
  by_cases h : type = type'
  · subst h
    cases ht : Fields.get? r.types type <;>
      by_cases hr : relation = relation' <;> simp [Fields.get?_insert, Fields.get?, hr]
  · simp [h]

end TypeRegistry

end Sideload
