import Mathlib.Tactic.SplitIfs
import Sideload.Text.Lossy

/-! # What is shown of a text

The bytes of a text are shown as this text (`lossy_toUTF8`): each character is read back from the
bytes that it is written in (`lossyFrom_utf8EncodeChar`). -/

namespace Sideload.Text

theorem toNat_ofNat_of_lt {n : Nat} (h : n < 256) : (UInt8.ofNat n).toNat = n := Nat.mod_eq_of_lt h

/-! ### First bytes -/

theorem ofByte?_of_two {first : Nat} (h : 0xC2 ≤ first) (h' : first < 0xE0) :
    Opened.ofByte? first = some { bits := first - 0xC0, more := 0 } := by
  rw [Opened.ofByte?, if_neg (by omega), if_pos h']

/-- The first of three bytes; some second bytes would go on with a shorter form, or with half of a
character. -/
theorem ofByte?_of_three {first : Nat} (h : 0xE0 ≤ first) (h' : first < 0xF0) :
    ∃ least greatest, Opened.ofByte? first = some ⟨first - 0xE0, least, greatest, 1⟩ ∧
      ∀ second, 0x80 ≤ second → second ≤ 0xBF → (first = 0xE0 → 0xA0 ≤ second) →
        (first = 0xED → second ≤ 0x9F) → least ≤ second ∧ second ≤ greatest := by
  unfold Opened.ofByte?
  split_ifs with h₁ h₂ h₃ h₄
  · omega
  · omega
  · exact ⟨0xA0, 0xBF, by rw [h₃], fun second _ hle hleast _ => ⟨hleast h₃, hle⟩⟩
  · exact ⟨0x80, 0x9F, by rw [h₄], fun second hle _ _ hgreatest => ⟨hle, hgreatest h₄⟩⟩
  · exact ⟨0x80, 0xBF, rfl, fun second hle hle' _ _ => ⟨hle, hle'⟩⟩

/-- The first of four bytes; some second bytes would go on with a shorter form, or with more than
the last character. -/
theorem ofByte?_of_four {first : Nat} (h : 0xF0 ≤ first) (h' : first ≤ 0xF4) :
    ∃ least greatest, Opened.ofByte? first = some ⟨first - 0xF0, least, greatest, 2⟩ ∧
      ∀ second, 0x80 ≤ second → second ≤ 0xBF → (first = 0xF0 → 0x90 ≤ second) →
        (first = 0xF4 → second ≤ 0x8F) → least ≤ second ∧ second ≤ greatest := by
  unfold Opened.ofByte?
  split_ifs with h₁ h₂ h₃ h₄ h₅ h₆ h₇
  · omega
  · omega
  · omega
  · omega
  · omega
  · exact ⟨0x90, 0xBF, by rw [h₆], fun second _ hle hleast _ => ⟨hleast h₆, hle⟩⟩
  · exact ⟨0x80, 0xBF, rfl, fun second hle hle' _ _ => ⟨hle, hle'⟩⟩
  · have hfirst : first = 0xF4 := by omega
    exact ⟨0x80, 0x8F, by rw [hfirst], fun second hle _ _ hgreatest => ⟨hle, hgreatest hfirst⟩⟩
  · omega

/-! ### Characters -/

section Reading
variable {n : Nat} {bytes : List UInt8} {o : Opened} (hn : n < 256)
include hn

theorem lossyFrom_one (h : n < 0x80) :
    lossyFrom none (UInt8.ofNat n :: bytes) = Char.ofNat n :: lossyFrom none bytes := by
  rw [lossyFrom, Option.bind_none, toNat_ofNat_of_lt hn, begin?, if_pos h]
  rfl

theorem lossyFrom_first (h : Opened.ofByte? n = some o) :
    lossyFrom none (UInt8.ofNat n :: bytes) = lossyFrom (some o) bytes := by
  have hmany : ¬ n < 0x80 := fun hlt => by
    rw [Opened.ofByte?, if_pos (by omega)] at h
    cases h
  rw [lossyFrom, Option.bind_none, toNat_ofNat_of_lt hn, begin?, if_neg hmany, h]
  rfl

variable {bits least greatest more : Nat} (hleast : least ≤ n) (hgreatest : n ≤ greatest)
include hleast hgreatest

theorem lossyFrom_last : lossyFrom (some ⟨bits, least, greatest, 0⟩) (UInt8.ofNat n :: bytes) =
    Char.ofNat (bits * 64 + n % 64) :: lossyFrom none bytes := by
  have hrange : (decide (n < least) || decide (greatest < n)) = false := by
    simp [hleast, hgreatest]
  rw [lossyFrom, Option.bind_some, toNat_ofNat_of_lt hn, Opened.take?, hrange,
    if_neg Bool.false_ne_true]

theorem lossyFrom_next :
    lossyFrom (some ⟨bits, least, greatest, more + 1⟩) (UInt8.ofNat n :: bytes) =
      lossyFrom (some { bits := bits * 64 + n % 64, more }) bytes := by
  have hrange : (decide (n < least) || decide (greatest < n)) = false := by
    simp [hleast, hgreatest]
  rw [lossyFrom, Option.bind_some, toNat_ofNat_of_lt hn, Opened.take?, hrange,
    if_neg Bool.false_ne_true]

end Reading

/-- A character is read back from the bytes that it is written in. -/
theorem lossyFrom_utf8EncodeChar (c : Char) (bytes : List UInt8) :
    lossyFrom none (String.utf8EncodeChar c ++ bytes) = c :: lossyFrom none bytes := by
  have hc : Char.ofNat c.val.toNat = c := Char.ofNat_toNat c
  have hvalid : c.val.toNat < 0xD800 ∨ 0xDFFF < c.val.toNat ∧ c.val.toNat < 0x110000 := c.valid
  unfold String.utf8EncodeChar
  generalize c.val.toNat = v at hc hvalid ⊢
  dsimp only
  split_ifs with h₁ h₂ h₃ <;> simp only [List.cons_append, List.nil_append]
  · rw [lossyFrom_one (by omega) (by omega), hc]
  · rw [lossyFrom_first (by omega) (ofByte?_of_two (by omega) (by omega)),
      lossyFrom_last (by omega) (by omega) (by omega), ← hc]
    congr 2
    omega
  · obtain ⟨least, greatest, hfirst, hsecond⟩ :=
      ofByte?_of_three (by omega : 0xE0 ≤ v / 4096 % 16 + 0xE0) (by omega)
    obtain ⟨hleast, hgreatest⟩ :=
      hsecond (v / 64 % 64 + 0x80) (by omega) (by omega) (by omega) (by omega)
    rw [lossyFrom_first (by omega) hfirst, lossyFrom_next (by omega) hleast hgreatest,
      lossyFrom_last (by omega) (by omega) (by omega), ← hc]
    congr 2
    omega
  · obtain ⟨least, greatest, hfirst, hsecond⟩ :=
      ofByte?_of_four (by omega : 0xF0 ≤ v / 262144 % 8 + 0xF0) (by omega)
    obtain ⟨hleast, hgreatest⟩ :=
      hsecond (v / 4096 % 64 + 0x80) (by omega) (by omega) (by omega) (by omega)
    rw [lossyFrom_first (by omega) hfirst, lossyFrom_next (by omega) hleast hgreatest,
      lossyFrom_next (by omega) (by omega) (by omega),
      lossyFrom_last (by omega) (by omega) (by omega), ← hc]
    congr 2
    omega

/-- **A text is shown as it is.** -/
theorem lossy_toUTF8 (s : String) : lossy s.toUTF8.data.toList = s := by
  have hbytes : s.toUTF8.data.toList = s.toList.flatMap String.utf8EncodeChar := by
    rw [String.toUTF8_eq_toByteArray, ← String.utf8Encode_toList, List.utf8Encode]
    simp
  have hread : ∀ cs : List Char, lossyFrom none (cs.flatMap String.utf8EncodeChar) = cs := by
    intro cs
    induction cs with
    | nil => rfl
    | cons c cs ih => rw [List.flatMap_cons, lossyFrom_utf8EncodeChar, ih]
  rw [lossy, hbytes, hread, String.ofList_toList]

end Sideload.Text
