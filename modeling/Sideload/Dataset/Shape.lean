import Sideload.Dataset.File
import Sideload.Decimal.Integer
import Sideload.Json.Number
import Sideload.Text.Quoted

/-! # The shape of dataset files

A dataset file is a JSON value of a fixed shape; this module tells the shape and what is wrong with
a value that has another one (`DatasetFile.ofJson`).

A record is an object with named fields, or an array of its fields in their order. Fields that are
not required may be left out, at the end in an array. An object may have other fields as well,
except the dataset itself. The fields are looked at in written order, and the first fault counts;
what is missing, or too much, is found at the end. -/

namespace Sideload

/-- What is wrong with the shape of a value. -/
inductive ShapeError where
  /-- A value of another kind stands there. -/
  | wrongType (found : Json) (expected : String)
  /-- A required field is missing in an object. -/
  | missingField (name : String)
  /-- A field of an object is not known. -/
  | unknownField (name : String) (known : List String)
  /-- An array ends before a required field. -/
  | shortArray (length : Nat) (record : String) (size : Nat)
  /-- An array goes on behind the last field. -/
  | longArray (length : Nat)
  /-- A value has none of the forms of an id or of links. -/
  | noForm (name : String)
  /-- A cardinality has another name. -/
  | unknownCardinality (name : String)
  /-- A cardinality is an object, but not of one field. -/
  | notOneKey

/-- A value in the words of a message. -/
def Json.describe : Json → String
  | .null => "null"
  | .bool b => "boolean `" ++ (if b then "true" else "false") ++ "`"
  | .number (.integer n) => "integer `" ++ Decimal.integerText n ++ "`"
  | .number (.double x) => "floating point `" ++ String.ofList (Json.Number.doubleChars x) ++ "`"
  | .string s => "string " ++ Text.quoted s
  | .array _ => "sequence"
  | .object _ => "map"

namespace ShapeError

/-- Names in the words of a message. -/
def listNames (names : List String) : String :=
  ", ".intercalate (names.map fun name => "`" ++ name ++ "`")

/-- The error in words. -/
def message : ShapeError → String
  | wrongType found expected => "invalid type: " ++ found.describe ++ ", expected " ++ expected
  | missingField name => "missing field `" ++ name ++ "`"
  | unknownField name known =>
    "unknown field `" ++ name ++ "`, expected one of " ++ listNames known
  | shortArray length record size =>
    "invalid length " ++ toString length ++ ", expected struct " ++ record ++ " with " ++
      toString size ++ " elements"
  | longArray length =>
    "invalid length " ++ toString length ++ ", expected fewer elements in array"
  | noForm name => "data did not match any variant of untagged enum " ++ name
  | unknownCardinality name => "unknown variant `" ++ name ++ "`, expected `one` or `many`"
  | notOneKey => "invalid value: map, expected map with a single key"

end ShapeError

namespace Shape

/-! ### Parts -/

/-- A text. -/
def string : Json → Except ShapeError String
  | .string s => .ok s
  | v => .error (.wrongType v "a string")

/-- A truth value. -/
def bool : Json → Except ShapeError Bool
  | .bool b => .ok b
  | v => .error (.wrongType v "a boolean")

/-- Any members. -/
def members : Json → Except ShapeError (Fields Json)
  | .object ms => .ok ms
  | v => .error (.wrongType v "a map")

/-- Members whose values have one shape. -/
def map {α : Type} (item : Json → Except ShapeError α) (v : Json) :
    Except ShapeError (Fields α) := do
  (← members v).mapM fun field => return (field.1, ← item field.2)

/-- Items of one shape. -/
def list {α : Type} (item : Json → Except ShapeError α) : Json → Except ShapeError (List α)
  | .array items => items.mapM item
  | v => .error (.wrongType v "a sequence")

/-! ### Records -/

/-- A record: its name in messages, and its fields in order. -/
structure Record where
  name : String
  fields : List String

namespace Record

/-- The values of the fields by name, in written order. -/
def entries (r : Record) : Json → Except ShapeError (Fields Json)
  | .object ms => .ok ms
  | .array items => .ok (r.fields.zip items)
  | v => .error (.wrongType v ("struct " ++ r.name))

/-- What is wrong when a required field is missing. -/
def missing (r : Record) (v : Json) (field : String) : ShapeError :=
  match v with
  | .array items => .shortArray items.length r.name r.fields.length
  | _ => .missingField field

/-- An array has no items behind the last field. -/
def checkEnd (r : Record) : Json → Except ShapeError Unit
  | .array items =>
    if r.fields.length < items.length then .error (.longArray items.length) else .ok ()
  | _ => .ok ()

end Record

/-- A value that has to be there. -/
def require {α : Type} (found : Option α) (fault : ShapeError) : Except ShapeError α :=
  match found with
  | some a => .ok a
  | none => .error fault

/-! ### Ids and links -/

/-- An id: a text, or an integer of 64 bits with sign. -/
def id? : Json → Option String
  | .string s => some s
  | .number (.integer n) =>
    if -(Nat.pow 2 63 : Nat) ≤ n ∧ n < (Nat.pow 2 63 : Nat) then some (Decimal.integerText n)
    else none
  | _ => none

/-- An id. -/
def id (v : Json) : Except ShapeError String := require (id? v) (.noForm "RawId")

/-- Links: a list of ids, one id, or null for none. -/
def links (v : Json) : Except ShapeError Links :=
  let found : Option Links := match v with
    | .array items => (items.mapM id?).map .many
    | .null => some (.one none)
    | v => (id? v).map fun i => .one (some i)
  require found (.noForm "RawLinks")

/-! ### Pointers -/

/-- The record of a pointer. -/
def pointerRecord : Record := ⟨"RawPointer", ["type", "id"]⟩

/-- A field of a pointer. -/
inductive PointerField where
  | type (s : String)
  | id (s : String)
  | other

/-- A field of a pointer by its name. -/
def pointerField (field : String × Json) : Except ShapeError PointerField :=
  match field.1 with
  | "type" => (string field.2).map .type
  | "id" => (id field.2).map .id
  | _ => .ok .other

/-- A pointer. -/
def pointer (v : Json) : Except ShapeError Pointer := do
  let fields ← (← pointerRecord.entries v).mapM pointerField
  let type ← require (fields.findSome? fun | .type s => some s | _ => none)
    (pointerRecord.missing v "type")
  let id ← require (fields.findSome? fun | .id s => some s | _ => none)
    (pointerRecord.missing v "id")
  pointerRecord.checkEnd v
  return ⟨type, id⟩

/-! ### Entities -/

/-- The record of an entity. -/
def entityRecord : Record := ⟨"RawEntity", ["type", "id", "attributes", "relations"]⟩

/-- A field of an entity. -/
inductive EntityField where
  | type (s : String)
  | id (s : String)
  | attributes (fields : Fields Json)
  | relations (fields : Fields Links)
  | other

/-- A field of an entity by its name. -/
def entityField (field : String × Json) : Except ShapeError EntityField :=
  match field.1 with
  | "type" => (string field.2).map .type
  | "id" => (id field.2).map .id
  | "attributes" => (members field.2).map .attributes
  | "relations" => (map links field.2).map .relations
  | _ => .ok .other

/-- An entity. -/
def entity (v : Json) : Except ShapeError EntityEntry := do
  let fields ← (← entityRecord.entries v).mapM entityField
  let type ← require (fields.findSome? fun | .type s => some s | _ => none)
    (entityRecord.missing v "type")
  let id ← require (fields.findSome? fun | .id s => some s | _ => none)
    (entityRecord.missing v "id")
  entityRecord.checkEnd v
  let attributes := (fields.findSome? fun | .attributes a => some a | _ => none).getD []
  let relations := (fields.findSome? fun | .relations r => some r | _ => none).getD []
  return ⟨⟨⟨type, id⟩, attributes⟩, relations⟩

/-! ### Types and relations -/

/-- A cardinality with a name. -/
def cardinalityNamed (name : String) : Except ShapeError Cardinality :=
  require (Cardinality.ofName? name) (.unknownCardinality name)

/-- A cardinality: its name, or an object with the name as its only key and null as its value. -/
def cardinality : Json → Except ShapeError Cardinality
  | .string name => cardinalityNamed name
  | .object [(name, v)] => do
    let c ← cardinalityNamed name
    match v with
    | .null => return c
    | v => throw (.wrongType v "unit")
  | .object _ => .error .notOneKey
  | v => .error (.wrongType v "string or map")

/-- The record of a relation. -/
def relationRecord : Record := ⟨"RelationDef", ["type", "cardinality", "includable"]⟩

/-- A field of a relation. -/
inductive RelationField where
  | type (s : String)
  | cardinality (c : Cardinality)
  | includable (b : Bool)
  | other

/-- A field of a relation by its name. -/
def relationField (field : String × Json) : Except ShapeError RelationField :=
  match field.1 with
  | "type" => (string field.2).map .type
  | "cardinality" => (cardinality field.2).map .cardinality
  | "includable" => (bool field.2).map .includable
  | _ => .ok .other

/-- The declaration of a relation. It leads to many entities and may be included unless it says
otherwise. -/
def relation (v : Json) : Except ShapeError RelationDef := do
  let fields ← (← relationRecord.entries v).mapM relationField
  let target ← require (fields.findSome? fun | .type s => some s | _ => none)
    (relationRecord.missing v "type")
  relationRecord.checkEnd v
  let c := (fields.findSome? fun | .cardinality c => some c | _ => none).getD .many
  let b := (fields.findSome? fun | .includable b => some b | _ => none).getD true
  return ⟨target, c, b⟩

/-- The record of a type. -/
def typeRecord : Record := ⟨"TypeDef", ["relations"]⟩

/-- The field of a type by its name, with nothing for other fields. -/
def typeField (field : String × Json) : Except ShapeError (Option (Fields RelationDef)) :=
  match field.1 with
  | "relations" => (map relation field.2).map some
  | _ => .ok none

/-- The declaration of a type. -/
def type (v : Json) : Except ShapeError TypeDef := do
  let fields ← (← typeRecord.entries v).mapM typeField
  typeRecord.checkEnd v
  return ⟨(fields.findSome? fun found => found).getD []⟩

/-- Declared types. -/
def registry (v : Json) : Except ShapeError TypeRegistry := (map type v).map fun types => ⟨types⟩

/-! ### The file -/

/-- The record of a dataset. -/
def datasetRecord : Record := ⟨"RawDataset", ["types", "entities", "hidden"]⟩

/-- A field of a dataset. -/
inductive DatasetField where
  | types (r : TypeRegistry)
  | entities (entries : List EntityEntry)
  | hidden (ps : List Pointer)

/-- A field of a dataset by its name; there are no others. -/
def datasetField (field : String × Json) : Except ShapeError DatasetField :=
  match field.1 with
  | "types" => (registry field.2).map .types
  | "entities" => (list entity field.2).map .entities
  | "hidden" => (list pointer field.2).map .hidden
  | name => .error (.unknownField name datasetRecord.fields)

end Shape

/-- What a JSON value says as a dataset file. -/
def DatasetFile.ofJson (v : Json) : Except ShapeError DatasetFile := do
  let fields ← (← Shape.datasetRecord.entries v).mapM Shape.datasetField
  Shape.datasetRecord.checkEnd v
  let types := (fields.findSome? fun | .types r => some r | _ => none).getD {}
  let entities := (fields.findSome? fun | .entities es => some es | _ => none).getD []
  let hidden := (fields.findSome? fun | .hidden ps => some ps | _ => none).getD []
  return ⟨types, entities, hidden⟩

end Sideload
