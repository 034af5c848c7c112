import Mathlib.Logic.Function.Defs
import Sideload.Decimal.Integer
import Sideload.Decimal.Scaled

/-! # Digits

The written form of a natural number has digits only (`isDigit_of_mem_toDigits`), no zero in front
of others (`eq_zero_of_toDigits`), and it tells the number (`toDigits_injective`). Pushed onto
nothing one after the other, the digits give the number again as long as it fits
(`foldl_pushWhole_toDigits`). -/

namespace Sideload.Decimal

theorem integerChars_natCast (n : Nat) : integerChars n = Nat.toDigits 10 n :=
  if_neg (Int.not_lt.mpr (Int.natCast_nonneg n))

theorem isDigit_of_mem_toDigits {n : Nat} {c : Char} (h : c ∈ Nat.toDigits 10 n) :
    c.isDigit = true :=
  Nat.isDigit_of_mem_toDigits (by decide) (by decide) h

/-- Different numbers are written differently: their digits can be read back. -/
theorem toDigits_injective : Function.Injective (Nat.toDigits 10) := fun m n h => by
  calc
    m = Nat.ofDigitChars 10 (Nat.toDigits 10 m) 0 := Nat.ofDigitChars_ten_toDigits.symm
    _ = Nat.ofDigitChars 10 (Nat.toDigits 10 n) 0 := by rw [h]
    _ = n := Nat.ofDigitChars_ten_toDigits

theorem integerText_natCast_injective {m n : Nat}
    (h : integerText (m : Int) = integerText (n : Int)) : m = n := by
  have hchars := String.ofList_inj.mp h
  rw [integerChars_natCast, integerChars_natCast] at hchars
  exact toDigits_injective hchars

/-- Only zero is written with a zero in front. -/
theorem eq_zero_of_toDigits (n : Nat) {cs : List Char} (h : Nat.toDigits 10 n = '0' :: cs) :
    n = 0 := by
  by_cases hsmall : n < 10
  · rw [Nat.toDigits_of_lt_base hsmall] at h
    have hzero : n.digitChar = '0' := (List.cons.inj h).1
    have hvalue := Nat.toNat_digitChar_of_lt_ten hsmall
    rw [hzero] at hvalue
    have hcode : '0'.toNat = 48 := rfl
    omega
  · rw [Nat.toDigits_of_base_le (by decide) (Nat.not_lt.mp hsmall)] at h
    obtain ⟨c, ds, hds⟩ := List.exists_cons_of_ne_nil (@Nat.toDigits_ne_nil (n / 10) 10)
    rw [hds, List.cons_append] at h
    rw [(List.cons.inj h).1] at hds
    have hfront := eq_zero_of_toDigits (n / 10) hds
    omega
termination_by n

theorem toDigits_ne_zero_cons_cons (n : Nat) (c : Char) (cs : List Char) :
    Nat.toDigits 10 n ≠ '0' :: c :: cs := by
  intro h
  obtain rfl := eq_zero_of_toDigits n h
  cases h

theorem pushWhole_of_le {n d : Nat} (hd : d < 10) (h : n * 10 + d ≤ maxSignificand) :
    Scaled.pushWhole ⟨n, 0⟩ d.digitChar = ⟨n * 10 + d, 0⟩ := by
  have hdigit : digitValue d.digitChar = d := Nat.toNat_digitChar_sub_48_of_lt_ten hd
  unfold Scaled.pushWhole
  rw [hdigit, if_pos ⟨rfl, h⟩]

theorem foldl_pushWhole_toDigits (n : Nat) (h : n ≤ maxSignificand) :
    (Nat.toDigits 10 n).foldl Scaled.pushWhole ⟨0, 0⟩ = ⟨n, 0⟩ := by
  by_cases hsmall : n < 10
  · rw [Nat.toDigits_of_lt_base hsmall, List.foldl_cons, List.foldl_nil,
      pushWhole_of_le hsmall (by omega)]
    simp
  · have hdivmod : n / 10 * 10 + n % 10 = n := Nat.div_add_mod' n 10
    rw [Nat.toDigits_of_base_le (by decide) (Nat.not_lt.mp hsmall), List.foldl_append,
      foldl_pushWhole_toDigits (n / 10) (by omega), List.foldl_cons, List.foldl_nil,
      pushWhole_of_le (Nat.mod_lt n (by decide)) (by omega), hdivmod]
termination_by n

end Sideload.Decimal
