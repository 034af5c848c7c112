import Sideload.Json.Printer
import Sideload.Json.Reader
import Sideload.Proofs.Decimal.Digits
import Sideload.Proofs.Json.Storable
import Sideload.Proofs.Lists.Fronts

/-! # Scalars that are read back

What is written for a scalar is what is read as that scalar, in front of any text that does not go
on with a number (`readScalar_writeScalar`). A text comes back character by character, whether it is
escaped or not (`readString_escape`); an integer comes back from its digits as long as it has 64
bits (`Number.read_integerChars`). -/

namespace Sideload.Json

/-! ### Numbers -/

/-- The text does not go on with a number. -/
def EndsNumber (cs : List Char) : Prop :=
  ∀ c ∈ cs.head?, c.isDigit = false ∧ c ≠ '.' ∧ c ≠ 'e' ∧ c ≠ 'E'

theorem EndsNumber.nil : EndsNumber [] := fun _ hc => nomatch hc

theorem EndsNumber.cons {c : Char} (hdigit : c.isDigit = false) (hpoint : c ≠ '.') (he : c ≠ 'e')
    (hE : c ≠ 'E') (cs : List Char) : EndsNumber (c :: cs) := by
  intro d hd
  rw [List.head?_cons, Option.mem_some] at hd
  exact hd ▸ ⟨hdigit, hpoint, he, hE⟩

namespace Number

section Digits
variable {rest : List Char} (hrest : EndsNumber rest)
include hrest

theorem readDigits_append {digits : List Char} (hne : digits ≠ [])
    (hdigits : ∀ c ∈ digits, c.isDigit = true) :
    readDigits (digits ++ rest) = .ok (digits, rest) := by
  obtain ⟨c, digits, rfl⟩ := List.exists_cons_of_ne_nil hne
  obtain ⟨hc, hdigits⟩ := List.forall_mem_cons.mp hdigits
  have hend : ∀ c ∈ rest.head?, c.isDigit = false := fun c hc => (hrest c hc).1
  rw [List.cons_append, readDigits, if_pos hc, takeWhile_append_of_head hdigits hend,
    dropWhile_append_of_head hdigits hend]

theorem readWhole_toDigits (n : Nat) :
    readWhole (Nat.toDigits 10 n ++ rest) = .ok (Nat.toDigits 10 n, rest) := by
  have hdigits := readDigits_append hrest (@Nat.toDigits_ne_nil n 10) fun c hc =>
    Decimal.isDigit_of_mem_toDigits hc
  unfold readWhole
  rw [hdigits]
  split
  · next heq =>
    have hzero := (Prod.mk.inj (Except.ok.inj heq)).1
    exact absurd hzero (Decimal.toDigits_ne_zero_cons_cons n _ _)
  · rfl

theorem readFraction_of_endsNumber : readFraction rest = .ok ([], rest) := by
  unfold readFraction
  split
  · exact absurd rfl (hrest '.' rfl).2.1
  · rfl

theorem readExponent_of_endsNumber : readExponent rest = .ok (none, rest) := by
  unfold readExponent
  split
  · rfl
  · next c signed =>
    obtain ⟨-, -, he, hE⟩ := hrest c rfl
    rw [if_neg (not_or.mpr ⟨he, hE⟩)]

theorem readUnsigned_toDigits {isNegative : Bool} {n : Nat} {i : Int}
    (hn : n ≤ Decimal.maxSignificand) (hi : integer? isNegative ⟨n, 0⟩ = some i) :
    readUnsigned isNegative (Nat.toDigits 10 n ++ rest) = .ok (.integer i, rest) := by
  have hparts : ofParts isNegative (Nat.toDigits 10 n) [] none = .ok (.integer i) := by
    unfold ofParts
    rw [Decimal.foldl_pushWhole_toDigits n hn]
    dsimp only
    rw [hi]
  unfold readUnsigned
  rw [readWhole_toDigits hrest]
  dsimp only
  rw [readFraction_of_endsNumber hrest]
  dsimp only
  rw [readExponent_of_endsNumber hrest]
  dsimp only
  rw [hparts]
  rfl

/-- **An integer of 64 bits is read back**, with or without a sign. -/
theorem read_integerChars {n : Int} (hlow : -(Nat.pow 2 63 : Nat) ≤ n)
    (hhigh : n < (Nat.pow 2 64 : Nat)) :
    read (Decimal.integerChars n ++ rest) = .ok (.integer n, rest) := by
  have hmax : Decimal.maxSignificand + 1 = Nat.pow 2 64 := rfl
  have hbits : Nat.pow 2 63 ≤ Decimal.maxSignificand := by decide
  unfold Decimal.integerChars
  split
  · next hnegative =>
    have hinteger : integer? true ⟨n.natAbs, 0⟩ = some n := by
      unfold integer?
      rw [if_neg (by simp), if_pos rfl, if_neg (by dsimp only; omega)]
      dsimp only
      congr 1
      omega
    exact readUnsigned_toDigits hrest (by omega) hinteger
  · next hpositive =>
    have hinteger : integer? false ⟨n.natAbs, 0⟩ = some n := by
      unfold integer?
      rw [if_neg (by simp), if_neg (by decide)]
      dsimp only
      congr 1
      omega
    unfold read
    split
    · next cs heq =>
      obtain ⟨c, ds, hds⟩ := List.exists_cons_of_ne_nil (@Nat.toDigits_ne_nil n.natAbs 10)
      have hdigit := Decimal.isDigit_of_mem_toDigits (hds ▸ List.mem_cons_self)
      rw [hds, List.cons_append] at heq
      rw [(List.cons.inj heq).1] at hdigit
      cases hdigit
    · exact readUnsigned_toDigits hrest (by omega) hinteger

end Digits

end Number

/-! ### Texts -/

theorem hexValue?_digitChar : ∀ d < 16, hexValue? (Nat.digitChar d) = some d := by decide

/-- The letter of an escape stands for the character that is escaped with it. -/
theorem escapedChar?_of_escapeLetter? {c letter : Char} (h : escapeLetter? c = some letter) :
    letter ≠ 'u' ∧ escapedChar? letter = some c := by
  unfold escapeLetter? at h
  split_ifs at h <;> cases h <;> subst_vars <;> decide

theorem readEscape_of_letter {c letter : Char} (h : escapeLetter? c = some letter)
    (cs : List Char) : readEscape (letter :: cs) = .ok (c, cs) := by
  obtain ⟨hu, hc⟩ := escapedChar?_of_escapeLetter? h
  unfold readEscape
  split
  · next heq => cases heq
  · next heq => exact absurd (List.cons.inj heq).1 hu
  · next heq =>
    obtain ⟨rfl, rfl⟩ := List.cons.inj heq
    rw [hc]

theorem readEscape_of_control {c : Char} (h : c.toNat < 0x20) (cs : List Char) :
    readEscape ('u' :: '0' :: '0' :: Nat.digitChar (c.toNat / 16) ::
      Nat.digitChar (c.toNat % 16) :: cs) = .ok (c, cs) := by
  have hzero : hexValue? '0' = some 0 := rfl
  have hhigh : hexValue? (Nat.digitChar (c.toNat / 16)) = some (c.toNat / 16) :=
    hexValue?_digitChar _ (by omega)
  have hlow : hexValue? (Nat.digitChar (c.toNat % 16)) = some (c.toNat % 16) :=
    hexValue?_digitChar _ (by omega)
  have hvalue : ((0 * 16 + 0) * 16 + c.toNat / 16) * 16 + c.toNat % 16 = c.toNat := by omega
  rw [readEscape, readHex4, hzero, hhigh, hlow]
  dsimp only
  rw [hvalue, if_neg (by omega), if_neg (by omega), Char.ofNat_toNat]

/-- An escape is read behind its backslash. -/
theorem readString_backslash {c : Char} {cs rest : List Char} (h : readEscape cs = .ok (c, rest))
    (seen : List Char) : readString seen ('\\' :: cs) = readString (c :: seen) rest := by
  rw [readString]
  split
  · next heq =>
    rw [h] at heq
    cases heq
    rfl
  · next heq =>
    rw [h] at heq
    cases heq

/-- **A character is read back**, as itself or from its escape. -/
theorem readString_escape (c : Char) (seen cs : List Char) :
    readString seen (escape c ++ cs) = readString (c :: seen) cs := by
  unfold escape
  split
  · next letter hletter => exact readString_backslash (readEscape_of_letter hletter cs) seen
  · next hplain =>
    split
    · next hcontrol => exact readString_backslash (readEscape_of_control hcontrol cs) seen
    · next hcontrol =>
      have hquote : c ≠ '"' := by
        rintro rfl
        cases hplain
      have hbackslash : c ≠ '\\' := by
        rintro rfl
        cases hplain
      rw [List.singleton_append, readString.eq_def]
      split
      · next heq => cases heq
      · next heq => exact absurd (List.cons.inj heq).1 hquote
      · next heq => exact absurd (List.cons.inj heq).1 hbackslash
      · next heq =>
        obtain ⟨rfl, rfl⟩ := List.cons.inj heq
        rw [if_neg hcontrol]

theorem readString_flatMap : ∀ (cs seen rest : List Char),
    readString seen (cs.flatMap escape ++ '"' :: rest) =
      .ok (String.ofList (seen.reverse ++ cs), rest)
  | [], seen, rest => by
    rw [List.flatMap_nil, List.nil_append, readString, List.append_nil]
  | c :: cs, seen, rest => by
    rw [List.flatMap_cons, List.append_assoc, readString_escape, readString_flatMap cs,
      List.reverse_cons, List.append_assoc, List.singleton_append]

/-- **A text is read back**, behind its opening quote. -/
theorem readString_text (s : String) (rest : List Char) :
    readString [] (s.toList.flatMap escape ++ '"' :: rest) = .ok (s, rest) := by
  rw [readString_flatMap, List.reverse_nil, List.nil_append, String.ofList_toList]

/-! ### Values without parts -/

/-- The value has no parts. -/
def IsScalar : Json → Prop
  | array _ => False
  | object _ => False
  | _ => True

/-- The letter begins a scalar: it is neither a blank nor the mark of a container. -/
def BeginsScalar (c : Char) : Prop := isSpace c = false ∧ c ≠ '[' ∧ c ≠ ']' ∧ c ≠ '\x7b'

instance (c : Char) : Decidable (BeginsScalar c) :=
  inferInstanceAs (Decidable (isSpace c = false ∧ c ≠ '[' ∧ c ≠ ']' ∧ c ≠ '\x7b'))

/-- What begins with a digit or a minus sign is read as a number. -/
theorem readScalar_of_number {c : Char} (h : c = '-' ∨ c.isDigit = true) (cs : List Char) :
    BeginsScalar c ∧
      readScalar c cs = (Number.read (c :: cs)).map fun found => (number found.1, found.2) := by
  have hne : ∀ d : Char, d ≠ '-' → d.isDigit = false → c ≠ d := by
    rintro d hminus hdigit rfl
    rcases h with rfl | h
    · exact hminus rfl
    · rw [hdigit] at h
      cases h
  have hspace : isSpace c = false := by
    unfold isSpace
    simp [hne ' ', hne '\n', hne '\t', hne '\r']
  have hword : wordValue? c = none := by
    unfold wordValue?
    split
    · exact absurd rfl (hne 't' (by decide) (by decide))
    · exact absurd rfl (hne 'f' (by decide) (by decide))
    · exact absurd rfl (hne 'n' (by decide) (by decide))
    · rfl
  refine ⟨⟨hspace, hne '[' (by decide) (by decide), hne ']' (by decide) (by decide),
    hne '\x7b' (by decide) (by decide)⟩, ?_⟩
  unfold readScalar
  rw [if_neg (hne '"' (by decide) (by decide)), hword]

/-- An integer begins with a digit or a minus sign. -/
theorem exists_cons_integerChars (n : Int) : ∃ c cs, Decimal.integerChars n = c :: cs ∧
    (c = '-' ∨ c.isDigit = true) := by
  unfold Decimal.integerChars
  split
  · exact ⟨'-', _, rfl, Or.inl rfl⟩
  · obtain ⟨c, cs, hcs⟩ := List.exists_cons_of_ne_nil (@Nat.toDigits_ne_nil n.natAbs 10)
    have hdigit := Decimal.isDigit_of_mem_toDigits (hcs ▸ List.mem_cons_self)
    exact ⟨c, cs, hcs, Or.inr hdigit⟩

/-- **A scalar is read back** from its first letter on. -/
theorem readScalar_writeScalar {room : Nat} {v : Json} (hv : v.Storable room) (hscalar : v.IsScalar)
    {rest : List Char} (hrest : EndsNumber rest) : ∃ c cs, writeScalar v rest = c :: cs ∧
      BeginsScalar c ∧ readScalar c cs = .ok (v, rest) := by
  cases hv with
  | null => exact ⟨'n', _, rfl, by decide, rfl⟩
  | bool b =>
    cases b
    · exact ⟨'f', _, rfl, by decide, rfl⟩
    · exact ⟨'t', _, rfl, by decide, rfl⟩
  | @integer _ n hlow hhigh =>
    obtain ⟨c, cs, hchars, hc⟩ := exists_cons_integerChars n
    obtain ⟨hbegins, hread⟩ := readScalar_of_number hc (cs ++ rest)
    have hinteger := Number.read_integerChars hrest hlow hhigh
    rw [hchars, List.cons_append] at hinteger
    refine ⟨c, cs ++ rest, ?_, hbegins, by rw [hread, hinteger]; rfl⟩
    show Decimal.integerChars n ++ rest = _
    rw [hchars, List.cons_append]
  | string s =>
    refine ⟨'"', _, rfl, by decide, ?_⟩
    unfold readScalar
    rw [if_pos rfl, readString_text]
    rfl
  | array => exact hscalar.elim
  | object => exact hscalar.elim

end Sideload.Json
