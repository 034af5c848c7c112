import Sideload.Include.Node
import Sideload.Json.Basic

/-! # Include forests as JSON

A node is an object with its relation, its columns and its children, in this order. -/

namespace Sideload.Include

mutual

/-- A node as a JSON value. -/
def Node.toJson : Node → Json
  | .mk relation columns children =>
    .object [("relation", .string relation), ("columns", .array (columns.map .string)),
      ("children", .array (Node.listToJson children))]

/-- The nodes of a forest as JSON values. -/
def Node.listToJson : Forest → List Json
  | [] => []
  | n :: forest => n.toJson :: Node.listToJson forest

end

/-- A forest as a JSON value. -/
def Forest.toJson (forest : Forest) : Json := .array (Node.listToJson forest)

end Sideload.Include
