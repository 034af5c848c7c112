import Sideload.Text.Hidden

/-! # Quoted text in messages

Text that a message quotes stands between double quotes. A quote, a backslash and the common
controls have two-character escapes; any other hidden character is written by its code point,
`\u{…}` in lower-case hexadecimal; every other character stands for itself. -/

namespace Sideload.Text

/-- The written form of one character between quotes. -/
def quotedChar (c : Char) : List Char :=
  if c = '"' then ['\\', '"']
  else if c = '\\' then ['\\', '\\']
  else if c = '\n' then ['\\', 'n']
  else if c = '\t' then ['\\', 't']
  else if c = '\r' then ['\\', 'r']
  else if c.toNat = 0 then ['\\', '0']
  else if isHidden c then ['\\', 'u', '\x7b'] ++ Nat.toDigits 16 c.toNat ++ ['\x7d']
  else [c]

/-- Text between double quotes, as messages show it. -/
def quoted (s : String) : String :=
  String.ofList ('"' :: s.toList.flatMap quotedChar ++ ['"'])

example : quoted "\"\\\n" = "\"\\\"\\\\\\n\"" := by cbv

end Sideload.Text
