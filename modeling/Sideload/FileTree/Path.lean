import Sideload.Text.Lossy

/-! # File paths

A path is a row of bytes, of parts with slashes between them. A part is a name, `..` for the
directory above, or `.` and the empty part, which stay where they are. A path that begins with a
slash is absolute; all others begin in the working directory.

As a rule the bytes are a text in UTF-8 (`ofText`), but any bytes can be a name. There is something
to show for every path (`shown`), but not every path is a text (`text?`).

The components of a path are its parts without those that stay where they are, except for the
first: a leading `.` and a leading slash count. `relativeTo` compares paths by components, so
`sub/` is a way to `sub/data.json` and `su` is not.

Paths and names have limits: a longer path leads nowhere (`isTooLong`), and no directory has an
entry with a longer name (`isLongName`). -/

namespace Sideload.FileTree

/-- A path, or a part of one. -/
abbrev Path := List UInt8

namespace Path

/-! ### Texts -/

/-- The path that a text writes. -/
def ofText (s : String) : Path := s.toUTF8.data.toList

/-- The text that a path writes, if it is UTF-8. -/
def text? (path : Path) : Option String := String.fromUTF8? ⟨path.toArray⟩

/-- What is shown of a path. -/
def shown (path : Path) : String := Text.lossy path

/-! ### Parts -/

/-- What stands between parts. -/
def slash : UInt8 := 0x2F

/-- The part for where a path stands. -/
def here : Path := [0x2E]

/-- The part for the directory above. -/
def up : Path := [0x2E, 0x2E]

/-- The part in front of the first slash, and the parts behind it. -/
def splitParts : Path → Path × List Path
  | [] => ([], [])
  | byte :: bytes =>
    let (first, others) := splitParts bytes
    if byte = slash then ([], first :: others) else (byte :: first, others)

/-- The parts of a path, at least one. -/
def parts (path : Path) : List Path :=
  let (first, others) := splitParts path
  first :: others

/-- The path begins with a slash. -/
def isAbsolute (path : Path) : Bool := path.head? = some slash

/-- The path ends with a slash. -/
def endsInSlash (path : Path) : Bool := path.getLast? = some slash

/-- The part stays where it is. -/
def isIdle (part : Path) : Bool := part = [] || part = here

/-- The components of a path. An empty path has none; the empty component begins an absolute
path. -/
def components (path : Path) : List Path :=
  if path = [] then []
  else
    match parts path with
    | [] => []
    | first :: others => first :: others.filter fun p => !isIdle p

/-- The path with some parts. -/
def ofParts (ps : List Path) : Path := [slash].intercalate ps

/-- The parts without those at the end that stay where they are. -/
def dropIdleEnd (ps : List Path) : List Path := (ps.reverse.dropWhile isIdle).reverse

/-- The parts behind some components. -/
def dropComponents : Nat → List Path → List Path
  | 0, ps => ps
  | _, [] => []
  | n + 1, p :: ps => if isIdle p then dropComponents (n + 1) ps else dropComponents n ps

/-- The rest of a path behind a base that it begins with, by components; the whole path if it does
not begin with the base. -/
def relativeTo (base path : Path) : Path :=
  let way := components base
  if way.isPrefixOf (components path) then
    match way, parts path with
    | [], first :: others => ofParts (first :: dropIdleEnd others)
    | _ :: rest, _ :: others =>
      ofParts (dropIdleEnd ((dropComponents rest.length others).dropWhile isIdle))
    | _, [] => path
  else path

/-! ### Places -/

/-- The names that parts of a path come down to, from the directory that some names lead to, the
nearest first. What is above the root is the root. -/
def namesFrom : List Path → List Path → List Path
  | names, [] => names.reverse
  | names, p :: ps =>
    if isIdle p then namesFrom names ps
    else if p = up then namesFrom names.tail ps
    else namesFrom (p :: names) ps

/-! ### Limits -/

/-- The most bytes that a path can have. -/
def maxBytes : Nat := 4095

/-- The most bytes that a name can have. -/
def maxNameBytes : Nat := 255

/-- The path is too long to be followed, wherever it would lead. -/
def isTooLong (path : Path) : Bool := maxBytes < path.length

/-- The name is too long for an entry of a directory. -/
def isLongName (name : Path) : Bool := maxNameBytes < name.length

/-! ### Order -/

/-- Lists in the order of the first elements that differ; a list stands in front of those that go on
from its end. -/
def leLists {α : Type} [DecidableEq α] (le : α → α → Bool) : List α → List α → Bool
  | [], _ => true
  | _ :: _, [] => false
  | a :: as, b :: bs => if a = b then leLists le as bs else le a b

/-- Ways in the order of their names, and names in the order of their bytes. -/
def leNames : List Path → List Path → Bool := leLists (leLists fun x y => x.toNat ≤ y.toNat)

/-! ### Names -/

/-- The path of an entry of a directory. -/
def join (path name : Path) : Path :=
  if path = [] || endsInSlash path then path ++ name else path ++ slash :: name

/-- The extension of dataset files. -/
def extension : Path := ofText ".json"

/-- The name has the extension `json`. A name that is nothing but the extension has none. -/
def isJson (name : Path) : Bool := extension.isSuffixOf name && name ≠ extension

end Path

end Sideload.FileTree
