/-! # Bytes shown as a text

Bytes that are meant as UTF-8 can be shown as a text whatever they are (`Text.lossy`): characters
stand for themselves, and one mark stands for each piece that is none. Such a piece ends before the
first byte with which it could no longer become a character. -/

namespace Sideload.Text

/-- A character of which some bytes have been read. -/
structure Opened where
  /-- The bits of the bytes that have been read. -/
  bits : Nat
  /-- The least byte that can come next. -/
  least : Nat := 0x80
  /-- The greatest byte that can come next. -/
  greatest : Nat := 0xBF
  /-- How many bytes come behind the next one. -/
  more : Nat
deriving DecidableEq, Repr

/-- The character that a first byte of several opens. Some second bytes are left out: with them the
character could be written in fewer bytes, or would be none. -/
def Opened.ofByte? (byte : Nat) : Option Opened :=
  if byte < 0xC2 then none
  else if byte < 0xE0 then some { bits := byte - 0xC0, more := 0 }
  else if byte = 0xE0 then some { bits := 0, least := 0xA0, more := 1 }
  else if byte = 0xED then some { bits := 0xD, greatest := 0x9F, more := 1 }
  else if byte < 0xF0 then some { bits := byte - 0xE0, more := 1 }
  else if byte = 0xF0 then some { bits := 0, least := 0x90, more := 2 }
  else if byte < 0xF4 then some { bits := byte - 0xF0, more := 2 }
  else if byte = 0xF4 then some { bits := 4, greatest := 0x8F, more := 2 }
  else none

/-- The mark for bytes that are no character. -/
def replacement : Char := '\uFFFD'

/-- What one more byte makes of an open character: a character, or a longer piece of one. -/
def Opened.take? (o : Opened) (byte : Nat) : Option (Char ⊕ Opened) :=
  if byte < o.least || o.greatest < byte then none
  else
    let bits := o.bits * 64 + byte % 64
    match o.more with
    | 0 => some (.inl (Char.ofNat bits))
    | more + 1 => some (.inr { bits, more })

/-- What a byte is that does not go on with an open character. -/
def begin? (byte : Nat) : Char ⊕ Opened :=
  if byte < 0x80 then .inl (Char.ofNat byte)
  else
    match Opened.ofByte? byte with
    | none => .inl replacement
    | some o => .inr o

/-- The characters of bytes, behind those of an open character. -/
def lossyFrom : Option Opened → List UInt8 → List Char
  | none, [] => []
  | some _, [] => [replacement]
  | pending, byte :: bytes =>
    match pending.bind fun o => o.take? byte.toNat with
    | some (.inl c) => c :: lossyFrom none bytes
    | some (.inr o) => lossyFrom (some o) bytes
    | none =>
      -- a piece of a character that does not go on is marked once
      let marks := if pending.isSome then [replacement] else []
      match begin? byte.toNat with
      | .inl c => marks ++ c :: lossyFrom none bytes
      | .inr o => marks ++ lossyFrom (some o) bytes

/-- The text that bytes are shown as. -/
def lossy (bytes : List UInt8) : String := String.ofList (lossyFrom none bytes)

example : lossy [0x61, 0xE2, 0x82, 0xAC, 0xFF, 0xE2, 0x82, 0x62] = "a€\uFFFD\uFFFDb" := by decide

end Sideload.Text
