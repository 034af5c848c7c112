import Sideload.Document.Basic
import Sideload.Schema

/-! # The document format

The format of a compound document as a schema (`Document.format`): what the members of a document,
a resource, a relationship and a pointer are, and that attributes never repeat the identity.
`Document.formatJson` is the schema as others can read it. -/

namespace Sideload.Document

/-- An object with some members, all of them required and no others allowed. -/
def closedObject (named : List (String × Schema)) : Schema :=
  .all [.type .object, .required (named.map Prod.fst), .members named none]

/-- The format of a pointer. -/
def pointerFormat : Schema := closedObject [("id", .type .string), ("type", .type .string)]

/-- The format of a linkage: nothing, a pointer, or a list of pointers. -/
def linkageFormat : Schema :=
  .oneOf [.type .null, .ref "pointer" pointerFormat,
    .all [.type .array, .items (.ref "pointer" pointerFormat)]]

/-- The format of a relationship. -/
def relationshipFormat : Schema := closedObject [("data", linkageFormat)]

/-- The format of attributes: any, but none that is named like a part of the identity. -/
def attributesFormat : Schema :=
  .all [.type .object, .not (.anyOf [.required ["id"], .required ["type"]])]

/-- The format of relationships: any names. -/
def relationshipsFormat : Schema :=
  .all [.type .object, .members [] (some (.ref "relationship" relationshipFormat))]

/-- The format of a resource. -/
def resourceFormat : Schema :=
  closedObject [("id", .type .string), ("type", .type .string), ("attributes", attributesFormat),
    ("relationships", relationshipsFormat)]

/-- The format of a list of resources. -/
def resourcesFormat : Schema := .all [.type .array, .items (.ref "resource" resourceFormat)]

/-- The format of a document. -/
def format : Schema := closedObject [("data", resourcesFormat), ("included", resourcesFormat)]

/-- The format as a JSON value that stands for itself: it says what language it is written in and
what the names mean that it mentions. -/
def formatJson : Json :=
  .object (("$schema", .string "https://json-schema.org/draft/2020-12/schema") ::
    (format.toMembers ++ [("$defs", .object [("pointer", pointerFormat.toJson),
      ("relationship", relationshipFormat.toJson), ("resource", resourceFormat.toJson)])]))

/-- What is wrong with the format of a value that should be a document. -/
def formatFindings (v : Json) : List Finding := format.findings "" v

end Sideload.Document
