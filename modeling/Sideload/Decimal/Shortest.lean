/-! # Shortest decimals

A double stands for every real number that rounds to it, an interval around its own value. Among
the decimals in that interval `shortest` takes one with the fewest digits, and of those the one
nearest to the value; of two equally near ones the even digit wins.

The value is `mantissa · 2 ^ exponent`. It lies on a grid of quarter steps of the last binary
place, on which the ends of the interval lie too, so everything is decided in natural numbers. -/

namespace Sideload

/-- A decimal `digits · 10 ^ exponent`. -/
structure Decimal where
  digits : Nat
  exponent : Int
deriving DecidableEq, Repr

namespace Decimal

/-- A positive value `mantissa · 2 ^ exponent`. -/
structure Binary where
  mantissa : Nat
  exponent : Int

namespace Binary

/-- The value of a finite double without its sign; zero has mantissa zero. -/
def ofFloat (x : Float) : Binary :=
  let bits := x.toBits.toNat
  let field : Nat := bits / Nat.pow 2 52 % Nat.pow 2 11
  let fraction : Nat := bits % Nat.pow 2 52
  if field = 0 then ⟨fraction, -1074⟩ else ⟨Nat.pow 2 52 + fraction, (field : Int) - 1075⟩

/-- A quarter of a step of the last binary place, as a numerator and a denominator. -/
def quarterStep (b : Binary) : Nat × Nat :=
  (Nat.pow 2 (b.exponent - 2).toNat, Nat.pow 2 (2 - b.exponent).toNat)

/-- How many quarter steps the interval reaches below the value: fewer below a power of two,
where the doubles are closer together. -/
def reachBelow (b : Binary) : Nat :=
  if b.mantissa = Nat.pow 2 52 ∧ -1074 < b.exponent then 1 else 2

end Binary

/-- The greatest `e` with `10 ^ e ≤ num / den`, for a positive quotient. -/
def magnitude (num den : Nat) : Int :=
  if den ≤ num then ((Nat.toDigits 10 (num / den)).length : Int) - 1
  else -(Nat.toDigits 10 ((den - 1) / num)).length

/-- The decimal with exponent `k` that lies in the interval and is nearest to the value. -/
def onGrid? (b : Binary) (k : Int) : Option Decimal :=
  let (a, d) := b.quarterStep
  let unit := a * Nat.pow 10 (-k).toNat
  let step := d * Nat.pow 10 k.toNat
  let value := 4 * b.mantissa * unit
  let low := (4 * b.mantissa - b.reachBelow) * unit
  let high := (4 * b.mantissa + 2) * unit
  let isInside (c : Nat) : Bool :=
    if b.mantissa % 2 = 0 then low ≤ c * step && c * step ≤ high
    else low < c * step && c * step < high
  let below := value / step
  let above := below + 1
  let toBelow := value - below * step
  let toAbove := above * step - value
  match isInside below, isInside above with
  | false, false => none
  | true, false => some ⟨below, k⟩
  | false, true => some ⟨above, k⟩
  | true, true =>
    if toBelow < toAbove then some ⟨below, k⟩
    else if toAbove < toBelow then some ⟨above, k⟩
    else if below % 2 = 0 then some ⟨below, k⟩
    else some ⟨above, k⟩

/-- The shortest decimal for a positive value. Seventeen digits are enough for every double. -/
def shortest (b : Binary) : Decimal :=
  let (a, d) := b.quarterStep
  let top := magnitude (4 * b.mantissa * a) d
  ((List.range 17).findSome? fun (i : Nat) => onGrid? b (top - (i : Int))).getD ⟨0, 0⟩

/-- The digits without trailing zeros, and the power of ten of the first digit. -/
def scientific (x : Decimal) : List Char × Int :=
  let ds := Nat.toDigits 10 x.digits
  ((ds.reverse.dropWhile (· = '0')).reverse, x.exponent + ds.length - 1)

example : shortest ⟨1, -1074⟩ = ⟨5, -324⟩ := by decide +kernel
example : shortest ⟨5404319552844595, -54⟩ = ⟨3, -1⟩ := by decide +kernel

end Decimal

end Sideload
