/-! # Reading a decimal as a double

A literal is a significand of at most 64 bits and a power of ten (`Scaled`). Digits that no longer
fit are dropped: in front of the point each one still raises the power (`Scaled.pushWhole`), behind
it the rest is ignored (`Scaled.pushFraction`). `Scaled.toFloat?` multiplies or divides the
significand by the power of ten, each of them rounded to a double, with one rounding more for the
result. Powers below `10 ^ -308` are reached by dividing by `10 ^ 308` first; what is too large for
a double has no value. -/

namespace Sideload.Decimal

/-- The greatest significand that is collected digit by digit. -/
def maxSignificand : Nat := Nat.pow 2 64 - 1

/-- `significand · 10 ^ exponent`, part of a literal as far as it has been read. -/
structure Scaled where
  significand : Nat
  exponent : Int
deriving DecidableEq, Repr

/-- The value of a decimal digit. -/
def digitValue (c : Char) : Nat := c.toNat - '0'.toNat

namespace Scaled

/-- One more digit in front of the point. After the first digit that does not fit, all are
dropped. -/
def pushWhole (x : Scaled) (c : Char) : Scaled :=
  let longer := x.significand * 10 + digitValue c
  if x.exponent = 0 ∧ longer ≤ maxSignificand then ⟨longer, 0⟩
  else ⟨x.significand, x.exponent + 1⟩

/-- The digits behind the point, up to the first that does not fit. -/
def pushFraction (x : Scaled) : List Char → Scaled
  | [] => x
  | c :: cs =>
    let longer := x.significand * 10 + digitValue c
    if longer ≤ maxSignificand then pushFraction ⟨longer, x.exponent - 1⟩ cs else x

/-- The double nearest to `10 ^ k`. -/
def powerOfTen (k : Nat) : Float := Float.ofScientific 1 false k

/-- Divide by `10 ^ 308` until the power that is left is within the doubles' range, or nothing is
left of the value. The first argument is the power of ten to divide by. -/
def divide (k : Nat) (x : Float) : Float :=
  if k ≤ 308 then x / powerOfTen k
  else if x == 0 then x
  else divide (k - 308) (x / powerOfTen 308)
termination_by k

/-- The double that a literal stands for, if it is not too large. -/
def toFloat? (x : Scaled) : Option Float :=
  let significand := x.significand.toUInt64.toFloat
  if x.exponent < 0 then some (divide x.exponent.natAbs significand)
  else if x.exponent ≤ 308 then
    let product := significand * powerOfTen x.exponent.natAbs
    if product.isInf then none else some product
  else if x.significand = 0 then some significand
  else none

end Scaled

end Sideload.Decimal
