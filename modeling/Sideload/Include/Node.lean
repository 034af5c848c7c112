import Sideload.Include.Path

/-! # Include forests

What an include expression asks for: a forest of relations. A node is a relation with the columns
to keep of its values (none named means all) and the relations to include below it. Siblings stand
in the order of their first mention.

`render` writes a forest as one path for every leaf (`Node.leafPaths`); every ancestor of a leaf
is written again with its columns. -/

namespace Sideload.Include

/-- A relation to include, the columns to keep, and what to include below it. -/
inductive Node where
  | mk (relation : String) (columns : List String) (children : List Node)

/-- Relations to include at one place. -/
abbrev Forest := List Node

namespace Node

/-- The relation that is included. -/
def relation : Node → String
  | mk relation _ _ => relation

/-- The columns that are kept; none named means all. -/
def columns : Node → List String
  | mk _ columns _ => columns

/-- What is included below. -/
def children : Node → Forest
  | mk _ _ children => children

/-- A relation alone, with all columns. -/
def leaf (relation : String) : Node := mk relation [] []

/-- No columns are named. -/
def allColumns (n : Node) : Bool := n.columns.isEmpty

/-- The first child for a relation. -/
def find? (n : Node) (relation : String) : Option Node :=
  n.children.find? fun child => child.relation = relation

/-- The segment that names a node. -/
def segment (n : Node) : Segment :=
  ⟨n.relation, if n.columns.isEmpty then none else some n.columns⟩

mutual

/-- The number of relations on the longest path down from a node, itself included. -/
def depth : Node → Nat
  | mk _ _ children => 1 + depthBelow children

/-- The depth of the deepest tree. -/
def depthBelow : Forest → Nat
  | [] => 0
  | n :: forest => max (depth n) (depthBelow forest)

end

mutual

/-- The paths from a node to the leaves below it. -/
def leafPaths : Node → List Path
  | mk relation columns [] => [[(mk relation columns []).segment]]
  | mk relation columns (child :: children) =>
    (child.leafPaths ++ leafPathsOf children).map
      ((mk relation columns (child :: children)).segment :: ·)

/-- The paths from the roots of a forest to its leaves. -/
def leafPathsOf : Forest → List Path
  | [] => []
  | n :: forest => n.leafPaths ++ leafPathsOf forest

end

mutual

/-- Two nodes are the same. -/
def same : Node → Node → Bool
  | mk r cs ns, mk r' cs' ns' => r = r' && cs = cs' && sameAll ns ns'

/-- Two forests are the same. -/
def sameAll : Forest → Forest → Bool
  | [], [] => true
  | n :: ns, n' :: ns' => same n n' && sameAll ns ns'
  | _, _ => false

end

mutual

theorem same_iff : ∀ a b : Node, same a b = true ↔ a = b
  | mk r cs ns, mk r' cs' ns' => by
    simp [same, sameAll_iff ns ns', and_assoc]

theorem sameAll_iff : ∀ ns ns' : Forest, sameAll ns ns' = true ↔ ns = ns'
  | [], [] => by simp [sameAll]
  | [], _ :: _ => by simp [sameAll]
  | _ :: _, [] => by simp [sameAll]
  | n :: ns, n' :: ns' => by simp [sameAll, same_iff n n', sameAll_iff ns ns']

end

instance : DecidableEq Node := fun a b => decidable_of_iff _ (same_iff a b)

end Node

/-- The canonical text of a forest: its leaf paths, with a comma and a space between them. -/
def render (forest : Forest) : String :=
  ", ".intercalate ((Node.leafPathsOf forest).map Path.text)

end Sideload.Include
