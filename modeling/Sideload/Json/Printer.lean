import Sideload.Json.Number

/-! # Writing JSON text

Two forms of one value: `compact` on one line without blanks, `pretty` with one item or member on
a line, two spaces deeper than its container. Both are written in front of the text that follows
(`write v rest`), so that the written form of a container is the composition of the written forms
of its parts. In strings only what has to be escaped is. -/

namespace Sideload.Json

/-- The letters of the escapes with a letter. -/
def escapeLetter? (c : Char) : Option Char :=
  if c = '"' then some '"'
  else if c = '\\' then some '\\'
  else if c = '\x08' then some 'b'
  else if c = '\x0c' then some 'f'
  else if c = '\n' then some 'n'
  else if c = '\r' then some 'r'
  else if c = '\t' then some 't'
  else none

/-- The written form of one character of a string: a quote, a backslash and the controls are
escaped, every other character stands for itself. -/
def escape (c : Char) : List Char :=
  match escapeLetter? c with
  | some letter => ['\\', letter]
  | none =>
    if c.toNat < 0x20 then
      ['\\', 'u', '0', '0', Nat.digitChar (c.toNat / 16), Nat.digitChar (c.toNat % 16)]
    else [c]

/-- A string between quotes, in front of `rest`. -/
def writeString (s : String) (rest : List Char) : List Char :=
  '"' :: (s.toList.flatMap escape ++ '"' :: rest)

/-- A value without parts, in front of `rest`. -/
def writeScalar (v : Json) (rest : List Char) : List Char :=
  match v with
  | null => 'n' :: 'u' :: 'l' :: 'l' :: rest
  | bool true => 't' :: 'r' :: 'u' :: 'e' :: rest
  | bool false => 'f' :: 'a' :: 'l' :: 's' :: 'e' :: rest
  | number n => n.chars ++ rest
  | string s => writeString s rest
  | array _ => rest
  | object _ => rest

/-! ### On one line -/

mutual

/-- A value without blanks, in front of `rest`. -/
def write : Json → List Char → List Char
  | array [], rest => '[' :: ']' :: rest
  | array (v :: items), rest => '[' :: write v (writeItems items rest)
  | object [], rest => '\x7b' :: '\x7d' :: rest
  | object ((name, v) :: members), rest =>
    '\x7b' :: writeString name (':' :: write v (writeMembers members rest))
  | v, rest => writeScalar v rest

/-- The items behind the first, each behind a comma, and the end of the array. -/
def writeItems : List Json → List Char → List Char
  | [], rest => ']' :: rest
  | v :: items, rest => ',' :: write v (writeItems items rest)

/-- The members behind the first, each behind a comma, and the end of the object. -/
def writeMembers : List (String × Json) → List Char → List Char
  | [], rest => '\x7d' :: rest
  | (name, v) :: members, rest =>
    ',' :: writeString name (':' :: write v (writeMembers members rest))

end

/-- A value on one line, without blanks. -/
def compact (v : Json) : String := String.ofList (write v [])

/-! ### On many lines -/

/-- A new line that begins with two spaces for each level, in front of `rest`. -/
def newLine (level : Nat) (rest : List Char) : List Char :=
  '\n' :: (List.replicate (2 * level) ' ' ++ rest)

mutual

/-- A value over several lines at a level, in front of `rest`. -/
def writePretty (level : Nat) : Json → List Char → List Char
  | array [], rest => '[' :: ']' :: rest
  | array (v :: items), rest =>
    '[' :: newLine (level + 1) (writePretty (level + 1) v (writePrettyItems level items rest))
  | object [], rest => '\x7b' :: '\x7d' :: rest
  | object ((name, v) :: members), rest =>
    '\x7b' :: newLine (level + 1) (writeString name
      (':' :: ' ' :: writePretty (level + 1) v (writePrettyMembers level members rest)))
  | v, rest => writeScalar v rest

/-- The items behind the first, each on a line of its own, and the end of the array. -/
def writePrettyItems (level : Nat) : List Json → List Char → List Char
  | [], rest => newLine level (']' :: rest)
  | v :: items, rest =>
    ',' :: newLine (level + 1) (writePretty (level + 1) v (writePrettyItems level items rest))

/-- The members behind the first, each on a line of its own, and the end of the object. -/
def writePrettyMembers (level : Nat) : List (String × Json) → List Char → List Char
  | [], rest => newLine level ('\x7d' :: rest)
  | (name, v) :: members, rest =>
    ',' :: newLine (level + 1) (writeString name
      (':' :: ' ' :: writePretty (level + 1) v (writePrettyMembers level members rest)))

end

/-- A value over several lines, two spaces to a level. -/
def pretty (v : Json) : String := String.ofList (writePretty 0 v [])

end Sideload.Json
