import Sideload.Include.Node

/-! # Paths merged into a forest

Paths that begin alike share their first nodes. `graft` leads one path through a forest: it goes
along the nodes that are there, and adds the missing ones behind their siblings. A column list on
the way is combined with the columns the node already has, as the `ColumnPolicy` says; a segment
without one changes nothing. -/

namespace Sideload.Include

/-- How repeated column lists for one relation combine. -/
inductive ColumnPolicy where
  /-- The lists are joined. -/
  | union
  /-- The last list counts. -/
  | last
deriving DecidableEq, Repr

/-- The policy of a name. -/
def ColumnPolicy.ofName? : String → Option ColumnPolicy
  | "union" => some .union
  | "last" => some .last
  | "last-wins" => some .last
  | _ => none

/-- Columns with those of a second list that are not among them yet. -/
def addColumns (columns more : List String) : List String :=
  more.foldl (fun cs c => if c ∈ cs then cs else cs ++ [c]) columns

/-- The columns of a node after a segment with the given column list. -/
def mergeColumns (policy : ColumnPolicy) (columns : List String) :
    Option (List String) → List String
  | none => columns
  | some more =>
    match policy with
    | .union => addColumns columns more
    | .last => addColumns [] more

/-- Change the first node for a relation; without one, change a new leaf behind the others. -/
def alter (relation : String) (f : Node → Node) : Forest → Forest
  | [] => [f (.leaf relation)]
  | n :: forest => if n.relation = relation then f n :: forest else n :: alter relation f forest

/-- Lead a path through a forest. -/
def graft (policy : ColumnPolicy) : Path → Forest → Forest
  | [], forest => forest
  | s :: path, forest =>
    alter s.relation
      (fun n => .mk n.relation (mergeColumns policy n.columns s.columns)
        (graft policy path n.children))
      forest

/-- The forest of some paths. -/
def Forest.ofPaths (policy : ColumnPolicy) (paths : List Path) : Forest :=
  paths.foldl (fun forest path => graft policy path forest) []

end Sideload.Include
