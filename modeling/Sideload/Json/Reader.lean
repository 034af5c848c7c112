import Sideload.Json.Number
import Sideload.Text.Bytes

/-! # Reading JSON text

The reader walks the text once, with a list of the containers that are still open (`Frame`) and
what may stand next (`Mode`). Every step takes at least one character, so it ends; it never looks
back. A repeated member name keeps its first place and takes its last value. A text with too many
containers inside each other is refused when the first one too many opens. -/

namespace Sideload.Json

/-! ### Strings -/

/-- The value of a hexadecimal digit. -/
def hexValue? (c : Char) : Option Nat :=
  if c.isDigit then some (c.toNat - '0'.toNat)
  else if 'a' ≤ c ∧ c ≤ 'f' then some (c.toNat - 'a'.toNat + 10)
  else if 'A' ≤ c ∧ c ≤ 'F' then some (c.toNat - 'A'.toNat + 10)
  else none

/-- The character that a one-letter escape stands for. -/
def escapedChar? : Char → Option Char
  | '"' => some '"'
  | '\\' => some '\\'
  | '/' => some '/'
  | 'b' => some '\x08'
  | 'f' => some '\x0c'
  | 'n' => some '\n'
  | 'r' => some '\r'
  | 't' => some '\t'
  | _ => none

/-- Four hexadecimal digits. Whether a text is cut short here is a matter of its bytes: with four
or more of them left, something else stands in the place of a digit. -/
def readHex4 : List Char → Except Fault (Nat × List Char)
  | a :: b :: c :: d :: rest =>
    match hexValue? a, hexValue? b, hexValue? c, hexValue? d with
    | some a, some b, some c, some d => .ok (((a * 16 + b) * 16 + c) * 16 + d, rest)
    | _, _, _, _ => .error .malformed
  | cs => if Text.byteSize cs < 4 then .error .cutShort else .error .malformed

/-- The second half of a surrogate pair, with its backslash; the first half is given. -/
def readLowSurrogate (high : Nat) : List Char → Except Fault (Char × List Char)
  | [] => .error .cutShort
  | ['\\'] => .error .cutShort
  | '\\' :: 'u' :: cs =>
    match readHex4 cs with
    | .ok (low, rest) =>
      if 0xDC00 ≤ low ∧ low ≤ 0xDFFF then
        .ok (Char.ofNat ((high - 0xD800) * 0x400 + (low - 0xDC00) + 0x10000), rest)
      else .error .malformed
    | .error fault => .error fault
  | _ => .error .malformed

/-- One escape, behind its backslash. A surrogate counts only as one half of a pair. -/
def readEscape : List Char → Except Fault (Char × List Char)
  | [] => .error .cutShort
  | 'u' :: cs =>
    match readHex4 cs with
    | .ok (n, rest) =>
      if 0xDC00 ≤ n ∧ n ≤ 0xDFFF then .error .malformed
      else if 0xD800 ≤ n ∧ n ≤ 0xDBFF then readLowSurrogate n rest
      else .ok (Char.ofNat n, rest)
    | .error fault => .error fault
  | c :: cs =>
    match escapedChar? c with
    | some c => .ok (c, cs)
    | none => .error .malformed

theorem length_readHex4 {cs rest : List Char} {n : Nat} (h : readHex4 cs = .ok (n, rest)) :
    rest.length < cs.length := by
  unfold readHex4 at h
  split at h
  · split at h
    · simp only [Except.ok.injEq, Prod.mk.injEq] at h
      rw [← h.2]; simp only [List.length_cons]; omega
    · simp at h
  · split at h <;> simp at h

theorem length_readLowSurrogate {high : Nat} {cs rest : List Char} {c : Char}
    (h : readLowSurrogate high cs = .ok (c, rest)) : rest.length < cs.length := by
  unfold readLowSurrogate at h
  split at h
  · simp at h
  · simp at h
  · split at h
    · rename_i heq
      have := length_readHex4 heq
      split at h
      · simp only [Except.ok.injEq, Prod.mk.injEq] at h
        rw [← h.2]; simp only [List.length_cons]; omega
      · simp at h
    · simp at h
  · simp at h

theorem length_readEscape {cs rest : List Char} {c : Char}
    (h : readEscape cs = .ok (c, rest)) : rest.length < cs.length := by
  unfold readEscape at h
  split at h
  · simp at h
  · split at h
    · rename_i heq
      have := length_readHex4 heq
      split at h
      · simp at h
      · split at h
        · have := length_readLowSurrogate h
          simp only [List.length_cons]; omega
        · simp only [Except.ok.injEq, Prod.mk.injEq] at h
          rw [← h.2]; simp only [List.length_cons]; omega
    · simp at h
  · split at h
    · simp only [Except.ok.injEq, Prod.mk.injEq] at h
      rw [← h.2]; simp
    · simp at h

/-- A string behind its opening quote, up to and with the closing one. The characters read so far
are collected last first. Control characters have to be escaped. -/
def readString (seen : List Char) (cs : List Char) : Except Fault (String × List Char) :=
  match cs with
  | [] => .error .cutShort
  | '"' :: rest => .ok (String.ofList seen.reverse, rest)
  | '\\' :: rest =>
    match h : readEscape rest with
    | .ok (c, rest') =>
      have := length_readEscape h
      readString (c :: seen) rest'
    | .error fault => .error fault
  | c :: rest => if c.toNat < 0x20 then .error .malformed else readString (c :: seen) rest
termination_by cs.length
decreasing_by all_goals (simp only [List.length_cons]; omega)

theorem length_readString {seen cs rest : List Char} {s : String}
    (h : readString seen cs = .ok (s, rest)) : rest.length < cs.length := by
  fun_induction readString seen cs with
  | case1 => simp at h
  | case2 =>
    simp only [Except.ok.injEq, Prod.mk.injEq] at h
    rw [← h.2]; simp
  | case3 seen rest c rest' heq hlt ih =>
    have := ih h
    simp only [List.length_cons]; omega
  | case4 => simp at h
  | case5 => simp at h
  | case6 seen c rest _ _ _ ih =>
    have := ih h
    simp only [List.length_cons]; omega

/-! ### Scalars -/

/-- Blanks between the parts of a value. -/
def isSpace (c : Char) : Bool := c = ' ' || c = '\n' || c = '\t' || c = '\r'

/-- The rest of a text behind a word that it has to begin with. -/
def readWord : List Char → List Char → Except Fault (List Char)
  | [], cs => .ok cs
  | _ :: _, [] => .error .cutShort
  | w :: word, c :: cs => if c = w then readWord word cs else .error .malformed

/-- The literals that are words, by their first letter: the rest of the word, and the value. -/
def wordValue? : Char → Option (List Char × Json)
  | 't' => some (['r', 'u', 'e'], bool true)
  | 'f' => some (['a', 'l', 's', 'e'], bool false)
  | 'n' => some (['u', 'l', 'l'], null)
  | _ => none

/-- A value without parts from the front of a text: a word, a string or a number. -/
def readScalar (c : Char) (cs : List Char) : Except Fault (Json × List Char) :=
  if c = '"' then (readString [] cs).map fun found => (string found.1, found.2)
  else match wordValue? c with
    | some (word, v) => (readWord word cs).map fun rest => (v, rest)
    | none => (Number.read (c :: cs)).map fun found => (number found.1, found.2)

theorem length_readWord {word cs rest : List Char} (h : readWord word cs = .ok rest) :
    rest.length ≤ cs.length := by
  fun_induction readWord word cs with
  | case1 => simp only [Except.ok.injEq] at h; exact h ▸ Nat.le_refl _
  | case2 => simp at h
  | case3 w word cs ih => have := ih h; simp only [List.length_cons]; omega
  | case4 => simp at h

theorem map_eq_ok {α β : Type} {f : α → β} {x : Except Fault α} {b : β}
    (h : x.map f = .ok b) : ∃ a, x = .ok a ∧ f a = b := by
  cases x with
  | error fault => simp [Except.map] at h
  | ok a => exact ⟨a, rfl, by simpa [Except.map] using h⟩

theorem length_readScalar {c : Char} {cs rest : List Char} {v : Json}
    (h : readScalar c cs = .ok (v, rest)) : rest.length ≤ cs.length := by
  unfold readScalar at h
  split at h
  · obtain ⟨found, hr, he⟩ := map_eq_ok h
    have := length_readString hr
    simp only [Prod.mk.injEq] at he
    rw [← he.2]; omega
  · split at h
    · obtain ⟨found, hr, he⟩ := map_eq_ok h
      have := length_readWord hr
      simp only [Prod.mk.injEq] at he
      rw [← he.2]; omega
    · obtain ⟨found, hr, he⟩ := map_eq_ok h
      have := Number.length_read hr
      simp only [List.length_cons] at this
      simp only [Prod.mk.injEq] at he
      rw [← he.2]; omega

/-! ### The walk -/

/-- A container that is still open, with what it holds so far: the items last first, or the members
in order and the name that the next value belongs to. -/
inductive Frame where
  | array (items : List Json)
  | object (members : Fields Json) (name : String)

/-- What may stand next. -/
inductive Mode where
  /-- A value. -/
  | value
  /-- The first item of an array, or its end. -/
  | firstItem
  /-- A member name. -/
  | name
  /-- The first member name of an object, or its end. -/
  | firstName
  /-- The colon behind a member name. -/
  | colon
  /-- A comma, or the end of the innermost container. -/
  | next
  /-- Nothing: the value is complete. -/
  | done (v : Json)

/-- How far a walk has come: how many more containers may open inside the open ones, the open
ones, innermost first, and what may stand next. -/
structure Walk where
  room : Nat
  opened : List Frame
  mode : Mode

namespace Walk

/-- Put a complete value where it belongs. -/
def put (w : Walk) (v : Json) : Walk :=
  match w.opened with
  | [] => ⟨w.room, [], .done v⟩
  | .array items :: outer => ⟨w.room, .array (v :: items) :: outer, .next⟩
  | .object members name :: outer =>
    ⟨w.room, .object (Fields.insert members name v) name :: outer, .next⟩

/-- Open a container. -/
def enter (w : Walk) (frame : Frame) (mode : Mode) : Except Fault Walk :=
  match w.room with
  | 0 => .error .malformed
  | room + 1 => .ok ⟨room, frame :: w.opened, mode⟩

/-- Close the innermost container with the given end character. -/
def leave (w : Walk) (c : Char) : Except Fault Walk :=
  match w.opened with
  | .array items :: outer =>
    if c = ']' then .ok (put ⟨w.room + 1, outer, .next⟩ (array items.reverse))
    else .error .malformed
  | .object members _ :: outer =>
    if c = '\x7d' then .ok (put ⟨w.room + 1, outer, .next⟩ (object members))
    else .error .malformed
  | [] => .error .malformed

/-- Begin a value with its first character. -/
def begin (w : Walk) (c : Char) (cs : List Char) : Except Fault (Walk × List Char) :=
  if c = '[' then (w.enter (.array []) .firstItem).map (·, cs)
  else if c = '\x7b' then (w.enter (.object [] "") .firstName).map (·, cs)
  else (readScalar c cs).map fun found => (w.put found.1, found.2)

/-- Read a member name from its first character on. -/
def named (w : Walk) (c : Char) (cs : List Char) : Except Fault (Walk × List Char) :=
  match w.opened with
  | .object members _ :: outer =>
    if c = '"' then
      (readString [] cs).map fun found =>
        (⟨w.room, .object members found.1 :: outer, .colon⟩, found.2)
    else .error .malformed
  | _ => .error .malformed

/-- Behind a value: a comma, or the end of the innermost container. -/
def separate (w : Walk) (c : Char) : Except Fault Walk :=
  if c = ',' then
    match w.opened with
    | .object .. :: _ => .ok { w with mode := .name }
    | _ => .ok { w with mode := .value }
  else w.leave c

/-- One part of a text: a character that is no blank, and as much of what follows it as belongs to
it. -/
def step (w : Walk) (c : Char) (cs : List Char) : Except Fault (Walk × List Char) :=
  match w.mode with
  | .value => w.begin c cs
  | .firstItem => if c = ']' then (w.leave c).map (·, cs) else w.begin c cs
  | .name => w.named c cs
  | .firstName => if c = '\x7d' then (w.leave c).map (·, cs) else w.named c cs
  | .colon => if c = ':' then .ok ({ w with mode := .value }, cs) else .error .malformed
  | .next => (w.separate c).map (·, cs)
  | .done _ => .error .malformed

theorem length_map_pair {x : Except Fault Walk} {cs rest : List Char} {w : Walk}
    (h : x.map (·, cs) = .ok (w, rest)) : rest.length ≤ cs.length := by
  obtain ⟨_, _, he⟩ := map_eq_ok h
  simp only [Prod.mk.injEq] at he
  exact he.2 ▸ Nat.le_refl _

theorem length_begin {w w' : Walk} {c : Char} {cs rest : List Char}
    (h : w.begin c cs = .ok (w', rest)) : rest.length ≤ cs.length := by
  unfold begin at h
  split at h
  · exact length_map_pair h
  · split at h
    · exact length_map_pair h
    · obtain ⟨found, hr, he⟩ := map_eq_ok h
      simp only [Prod.mk.injEq] at he
      rw [← he.2]; exact length_readScalar hr

theorem length_named {w w' : Walk} {c : Char} {cs rest : List Char}
    (h : w.named c cs = .ok (w', rest)) : rest.length ≤ cs.length := by
  unfold named at h
  split at h
  · split at h
    · obtain ⟨found, hr, he⟩ := map_eq_ok h
      have := length_readString hr
      simp only [Prod.mk.injEq] at he
      rw [← he.2]; omega
    · simp at h
  · simp at h

theorem length_step {w w' : Walk} {c : Char} {cs rest : List Char}
    (h : w.step c cs = .ok (w', rest)) : rest.length ≤ cs.length := by
  unfold step at h
  split at h
  · exact length_begin h
  · split at h
    · exact length_map_pair h
    · exact length_begin h
  · exact length_named h
  · split at h
    · exact length_map_pair h
    · exact length_named h
  · split at h
    · simp only [Except.ok.injEq, Prod.mk.injEq] at h
      exact h.2 ▸ Nat.le_refl _
    · simp at h
  · exact length_map_pair h
  · simp at h

/-- Walk to the end of a text. -/
def run (w : Walk) (cs : List Char) : Except Fault Json :=
  match cs with
  | [] =>
    match w.mode with
    | .done v => .ok v
    | _ => .error .cutShort
  | c :: cs =>
    if isSpace c then run w cs
    else match h : w.step c cs with
      | .ok (w', rest) =>
        have := length_step h
        run w' rest
      | .error fault => .error fault
termination_by cs.length
decreasing_by all_goals (simp only [List.length_cons]; omega)

end Walk

/-- How many containers may be open at once in a document that is read. -/
def maxNesting : Nat := 127

/-- The value of a text with at most `nesting` containers open at once. -/
def readNested (nesting : Nat) (text : String) : Except Fault Json :=
  Walk.run ⟨nesting, [], .value⟩ text.toList

/-- The value of a text. -/
def read (text : String) : Except Fault Json := readNested maxNesting text

end Sideload.Json
