import Sideload.Finding
import Sideload.Json.Pointer
import Sideload.Json.Printer

/-! # Schemas

A schema says which JSON values are valid (`Schema.isValid`); `Schema.findings` lists what is wrong
with a value that is not. A schema is a keyword, or several that all have to hold. A keyword that
speaks of members or items says nothing of other kinds of values. -/

namespace Sideload

/-- The kinds of JSON values. -/
inductive Json.Kind where
  | null
  | boolean
  | number
  | string
  | array
  | object
deriving DecidableEq, Repr

/-- The name of a kind. -/
def Json.Kind.name : Json.Kind → String
  | null => "null"
  | boolean => "boolean"
  | number => "number"
  | string => "string"
  | array => "array"
  | object => "object"

/-- The kind of a value. -/
def Json.kind : Json → Json.Kind
  | .null => .null
  | .bool _ => .boolean
  | .number _ => .number
  | .string _ => .string
  | .array _ => .array
  | .object _ => .object

/-- A description of JSON values. -/
inductive Schema where
  /-- Values of one kind. -/
  | type (kind : Json.Kind)
  /-- Objects that have some members. -/
  | required (names : List String)
  /-- Objects whose members are valid, each named one under its own schema, all others under one
  schema; without one, others are not allowed. -/
  | members (named : List (String × Schema)) (others : Option Schema)
  /-- Arrays of valid items. -/
  | items (item : Schema)
  /-- Values that are not valid. -/
  | not (s : Schema)
  /-- Values that are valid in at least one way. -/
  | anyOf (ways : List Schema)
  /-- Values that are valid in exactly one way. -/
  | oneOf (ways : List Schema)
  /-- Values that satisfy several keywords. -/
  | all (keywords : List Schema)
  /-- Values that are valid under a schema that has a name. -/
  | ref (name : String) (s : Schema)

namespace Schema

/-! ### Validity -/

mutual

/-- The value is valid. -/
def isValid : Schema → Json → Bool
  | type kind, v => v.kind = kind
  | required names, v =>
    match v with
    | .object ms => names.all fun name => (Fields.get? ms name).isSome
    | _ => true
  | members named others, v =>
    match v with
    | .object ms => ms.all fun m => (isValidNamed named m.1 m.2).getD (isValidOther others m.2)
    | _ => true
  | items item, v =>
    match v with
    | .array vs => vs.all fun v => isValid item v
    | _ => true
  | not s, v => !isValid s v
  | anyOf ways, v => 0 < countValid ways v
  | oneOf ways, v => countValid ways v = 1
  | all keywords, v => isValidAll keywords v
  | ref _ s, v => isValid s v

/-- The value is valid under the schema of its name, if the name has one. -/
def isValidNamed : List (String × Schema) → String → Json → Option Bool
  | [], _, _ => none
  | (name, s) :: named, key, v =>
    if name = key then some (isValid s v) else isValidNamed named key v

/-- The value is valid as one without a schema of its own. -/
def isValidOther : Option Schema → Json → Bool
  | none, _ => false
  | some s, v => isValid s v

/-- The number of ways in which a value is valid. -/
def countValid : List Schema → Json → Nat
  | [], _ => 0
  | s :: ways, v => (if isValid s v then 1 else 0) + countValid ways v

/-- The value satisfies all keywords. -/
def isValidAll : List Schema → Json → Bool
  | [], _ => true
  | s :: keywords, v => isValid s v && isValidAll keywords v

end

/-! ### The schema as a JSON value -/

mutual

/-- The members of a schema as a JSON object. -/
def toMembers : Schema → Fields Json
  | type kind => [("type", .string kind.name)]
  | required names => [("required", .array (names.map .string))]
  | members named others =>
    ("additionalProperties", otherToJson others) ::
      match named with
      | [] => []
      | _ :: _ => [("properties", .object (namedToJson named))]
  | items item => [("items", .object (toMembers item))]
  | not s => [("not", .object (toMembers s))]
  | anyOf ways => [("anyOf", .array (waysToJson ways))]
  | oneOf ways => [("oneOf", .array (waysToJson ways))]
  | all keywords => allToMembers keywords
  | ref name _ => [("$ref", .string ("#/$defs/" ++ name))]

/-- Schemas by name. -/
def namedToJson : List (String × Schema) → Fields Json
  | [] => []
  | (name, s) :: named => (name, .object (toMembers s)) :: namedToJson named

/-- The schema of other members, or that there are none. -/
def otherToJson : Option Schema → Json
  | none => .bool false
  | some s => .object (toMembers s)

/-- Schemas in a list. -/
def waysToJson : List Schema → List Json
  | [] => []
  | s :: ways => .object (toMembers s) :: waysToJson ways

/-- The keywords of one schema. -/
def allToMembers : List Schema → Fields Json
  | [] => []
  | s :: keywords => toMembers s ++ allToMembers keywords

end

/-- A schema as a JSON value; named schemas are mentioned by their names. -/
def toJson (s : Schema) : Json := .object (toMembers s)

/-! ### Findings -/

/-- Member names in the words of a message. -/
def listNames (names : List String) : String :=
  ", ".intercalate (names.map fun name => "'" ++ name ++ "'")

/-- Members that are not allowed. -/
def unexpected (path : String) : List String → List Finding
  | [] => []
  | names =>
    [⟨path, "Additional properties are not allowed (" ++ listNames names ++
      (if names.length = 1 then " was" else " were") ++ " unexpected)"⟩]

/-- The names of members that have no schema of their own. -/
def unnamed (named : List (String × Schema)) (ms : Fields Json) : List String :=
  (ms.map Prod.fst).filter fun name => !(named.map Prod.fst).contains name

mutual

/-- What is wrong with a value that stands at a place. -/
def findings : Schema → String → Json → List Finding
  | type kind, path, v =>
    if v.kind = kind then []
    else [⟨path, v.compact ++ " is not of type \"" ++ kind.name ++ "\""⟩]
  | required names, path, v =>
    match v with
    | .object ms =>
      (names.filter fun name => (Fields.get? ms name).isNone).map fun name =>
        ⟨path, (Json.string name).compact ++ " is a required property"⟩
    | _ => []
  | members named others, path, v =>
    match v with
    | .object ms =>
      (ms.flatMap fun m =>
        let place := Json.Place.member path m.1
        (findingsNamed named m.1 place m.2).getD (findingsOther others place m.2)) ++
        if others.isNone then unexpected path (unnamed named ms) else []
    | _ => []
  | items item, path, v =>
    match v with
    | .array vs => vs.zipIdx.flatMap fun e => findings item (Json.Place.item path e.2) e.1
    | _ => []
  | not s, path, v =>
    if isValid s v then [⟨path, s.toJson.compact ++ " is not allowed for " ++ v.compact⟩] else []
  | anyOf ways, path, v =>
    if countValid ways v = 0 then
      [⟨path, v.compact ++ " is not valid under any of the schemas listed in the 'anyOf' keyword"⟩]
    else []
  | oneOf ways, path, v =>
    if countValid ways v = 0 then
      [⟨path, v.compact ++ " is not valid under any of the schemas listed in the 'oneOf' keyword"⟩]
    else if countValid ways v = 1 then []
    else
      [⟨path, v.compact ++
        " is valid under more than one of the schemas listed in the 'oneOf' keyword"⟩]
  | all keywords, path, v => findingsAll keywords path v
  | ref _ s, path, v => findings s path v

/-- What is wrong with a member that has a schema of its own. -/
def findingsNamed : List (String × Schema) → String → String → Json → Option (List Finding)
  | [], _, _, _ => none
  | (name, s) :: named, key, path, v =>
    if name = key then some (findings s path v) else findingsNamed named key path v

/-- What is wrong with a member that has no schema of its own. -/
def findingsOther : Option Schema → String → Json → List Finding
  | none, _, _ => []
  | some s, path, v => findings s path v

/-- What is wrong under any of several keywords. -/
def findingsAll : List Schema → String → Json → List Finding
  | [], _, _ => []
  | s :: keywords, path, v => findings s path v ++ findingsAll keywords path v

end

end Schema

end Sideload
