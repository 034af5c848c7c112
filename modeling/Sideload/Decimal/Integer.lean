/-! # Integers in decimal notation

The one written form of an integer: its digits without leading zeros, after a minus sign if it is
negative. Entity identifiers given as integers are known by this text. -/

namespace Sideload.Decimal

/-- The digits of an integer, after a minus sign if it is negative. -/
def integerChars (n : Int) : List Char :=
  if n < 0 then '-' :: Nat.toDigits 10 n.natAbs else Nat.toDigits 10 n.natAbs

/-- The written form of an integer. -/
def integerText (n : Int) : String := String.ofList (integerChars n)

example : integerText (-120) = "-120" ∧ integerText 0 = "0" := by cbv

end Sideload.Decimal
