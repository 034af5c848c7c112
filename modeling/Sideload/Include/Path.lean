/-! # Include paths

A path names relations one below the other, each with or without a list of columns: the text
`users[email|name].posts` is a path of two segments. -/

namespace Sideload.Include

/-- One relation of a path. Without a column list, all columns are meant. -/
structure Segment where
  relation : String
  columns : Option (List String)
deriving DecidableEq, Repr

/-- Relations one below the other. -/
abbrev Path := List Segment

/-- The written form: columns stand in brackets, with bars between them. -/
def Segment.text (s : Segment) : String :=
  match s.columns with
  | none => s.relation
  | some columns => s.relation ++ "[" ++ "|".intercalate columns ++ "]"

/-- The written form: a point stands between a segment and the text in front of it. -/
def Path.text (path : Path) : String :=
  path.foldl (fun before s => if before.isEmpty then s.text else before ++ "." ++ s.text) ""

example : Path.text [⟨"users", some ["email", "name"]⟩, ⟨"posts", none⟩] =
    "users[email|name].posts" := by decide +kernel

end Sideload.Include
