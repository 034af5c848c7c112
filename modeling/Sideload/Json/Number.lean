import Sideload.Decimal.Integer
import Sideload.Decimal.Scaled
import Sideload.Decimal.Shortest
import Sideload.Json.Basic

/-! # JSON numbers as text

`Number.read` takes a literal from the front of a text, `Number.chars` writes a number. An integer
literal that fits in 64 bits, with or without a sign, is an integer; every other literal is a
double, `-0` too. Doubles are written with their shortest digits, and always so that they read as
doubles: with a point, or with an exponent. -/

namespace Sideload.Json

/-- Why a text is not JSON: it ends where more has to follow, or something else stands there. -/
inductive Fault where
  | cutShort
  | malformed
deriving DecidableEq, Repr

/-- The fault in words. -/
def Fault.message : Fault → String
  | .cutShort => "the text ends too early"
  | .malformed => "the text is malformed"

namespace Number

/-! ### Reading -/

/-- At least one digit from the front of a text, and what follows the digits. -/
def readDigits : List Char → Except Fault (List Char × List Char)
  | [] => .error .cutShort
  | c :: cs =>
    if c.isDigit then .ok (c :: cs.takeWhile Char.isDigit, cs.dropWhile Char.isDigit)
    else .error .malformed

/-- The digits in front of the point. A zero stands alone. -/
def readWhole (cs : List Char) : Except Fault (List Char × List Char) :=
  match readDigits cs with
  | .ok ('0' :: _ :: _, _) => .error .malformed
  | found => found

/-- The digits behind the point, none if there is no point. -/
def readFraction : List Char → Except Fault (List Char × List Char)
  | '.' :: cs => readDigits cs
  | cs => .ok ([], cs)

/-- The value of a row of digits. -/
def natValue (digits : List Char) : Nat :=
  digits.foldl (fun n c => n * 10 + Decimal.digitValue c) 0

/-- A text without the sign in front of it. -/
def dropSign : List Char → List Char
  | '-' :: cs => cs
  | '+' :: cs => cs
  | cs => cs

/-- The exponent, if one is written. -/
def readExponent (cs : List Char) : Except Fault (Option Int × List Char) :=
  match cs with
  | [] => .ok (none, [])
  | c :: signed =>
    if c = 'e' ∨ c = 'E' then
      match readDigits (dropSign signed) with
      | .ok (digits, rest) =>
        let n : Int := natValue digits
        .ok (some (if signed.head? = some '-' then -n else n), rest)
      | .error fault => .error fault
    else .ok (none, cs)

/-- The integer of a sign and a row of digits, if it fits; minus zero is no integer. -/
def integer? (isNegative : Bool) (whole : Decimal.Scaled) : Option Int :=
  if whole.exponent ≠ 0 then none
  else if isNegative then
    if whole.significand = 0 ∨ Nat.pow 2 63 < whole.significand then none
    else some (-whole.significand)
  else some whole.significand

/-- The number that a literal stands for; there is none if it is too large for a double. -/
def ofParts (isNegative : Bool) (whole fraction : List Char) (exponent : Option Int) :
    Except Fault Number :=
  let front := whole.foldl Decimal.Scaled.pushWhole ⟨0, 0⟩
  match fraction, exponent, integer? isNegative front with
  | [], none, some n => .ok (.integer n)
  | _, _, _ =>
    let scaled := front.pushFraction fraction
    match (Decimal.Scaled.mk scaled.significand (scaled.exponent + exponent.getD 0)).toFloat? with
    | some x => .ok (.double (if isNegative then -x else x))
    | none => .error .malformed

/-- A number literal without its sign from the front of a text, and what follows it. -/
def readUnsigned (isNegative : Bool) (cs : List Char) : Except Fault (Number × List Char) :=
  match readWhole cs with
  | .error fault => .error fault
  | .ok (whole, cs) =>
    match readFraction cs with
    | .error fault => .error fault
    | .ok (fraction, cs) =>
      match readExponent cs with
      | .error fault => .error fault
      | .ok (exponent, cs) => (ofParts isNegative whole fraction exponent).map ((·, cs))

/-- A number literal from the front of a text, and what follows it. -/
def read : List Char → Except Fault (Number × List Char)
  | '-' :: cs => readUnsigned true cs
  | cs => readUnsigned false cs

/-! ### What is left is shorter -/

theorem length_readDigits {cs digits rest : List Char} (h : readDigits cs = .ok (digits, rest)) :
    rest.length < cs.length := by
  unfold readDigits at h
  split at h
  · simp at h
  · rename_i c cs
    split at h
    · simp only [Except.ok.injEq, Prod.mk.injEq] at h
      have := (List.dropWhile_sublist (l := cs) Char.isDigit).length_le
      rw [← h.2]; simp only [List.length_cons]; omega
    · simp at h

theorem length_readWhole {cs digits rest : List Char} (h : readWhole cs = .ok (digits, rest)) :
    rest.length < cs.length := by
  unfold readWhole at h
  split at h
  · simp at h
  · exact length_readDigits h

theorem length_readFraction {cs digits rest : List Char}
    (h : readFraction cs = .ok (digits, rest)) : rest.length ≤ cs.length := by
  unfold readFraction at h
  split at h
  · have := length_readDigits h
    simp only [List.length_cons]; omega
  · simp only [Except.ok.injEq, Prod.mk.injEq] at h
    exact h.2 ▸ Nat.le_refl _

theorem length_dropSign (cs : List Char) : (dropSign cs).length ≤ cs.length := by
  unfold dropSign
  split <;> simp

theorem length_readExponent {cs rest : List Char} {e : Option Int}
    (h : readExponent cs = .ok (e, rest)) : rest.length ≤ cs.length := by
  unfold readExponent at h
  split at h
  · simp only [Except.ok.injEq, Prod.mk.injEq] at h
    exact h.2 ▸ Nat.le_refl _
  · rename_i c signed
    split at h
    · split at h
      · rename_i digits r heq
        have := length_readDigits heq
        have := length_dropSign signed
        simp only [Except.ok.injEq, Prod.mk.injEq] at h
        rw [← h.2]; simp only [List.length_cons]; omega
      · simp at h
    · simp only [Except.ok.injEq, Prod.mk.injEq] at h
      exact h.2 ▸ Nat.le_refl _

theorem length_readUnsigned {isNegative : Bool} {cs rest : List Char} {n : Number}
    (h : readUnsigned isNegative cs = .ok (n, rest)) : rest.length < cs.length := by
  unfold readUnsigned at h
  split at h
  · simp at h
  · rename_i hw
    split at h
    · simp at h
    · rename_i hf
      split at h
      · simp at h
      · rename_i exponent r he
        have := length_readWhole hw
        have := length_readFraction hf
        have := length_readExponent he
        generalize ofParts _ _ _ _ = number at h
        cases number with
        | error fault => simp [Except.map] at h
        | ok n' =>
          simp only [Except.map, Except.ok.injEq, Prod.mk.injEq] at h
          rw [← h.2]; omega

theorem length_read {cs rest : List Char} {n : Number} (h : read cs = .ok (n, rest)) :
    rest.length < cs.length := by
  unfold read at h
  split at h
  · have := length_readUnsigned h
    simp only [List.length_cons]; omega
  · exact length_readUnsigned h

/-! ### Writing -/

/-- The powers of ten of a first digit that stands in positional notation. -/
def isPositional (power : Int) : Bool := -5 ≤ power && power < 16

/-- Digits whose first one counts `10 ^ power`, with a point among or beside them. -/
def positional (digits : List Char) (power : Int) : List Char :=
  if power < 0 then '0' :: '.' :: List.replicate (power.natAbs - 1) '0' ++ digits
  else
    let places := power.natAbs + 1
    let fraction := digits.drop places
    digits.take places ++ List.replicate (places - digits.length) '0' ++
      '.' :: (if fraction.isEmpty then ['0'] else fraction)

/-- Digits with a point after the first, and a signed exponent. -/
def exponential (digits : List Char) (power : Int) : List Char :=
  let fraction := digits.drop 1
  digits.take 1 ++ (if fraction.isEmpty then [] else '.' :: fraction) ++
    'e' :: (if power < 0 then '-' else '+') :: Nat.toDigits 10 power.natAbs

/-- A double is positional from `10 ^ -5` up to `10 ^ 16`, and has an exponent elsewhere. -/
def doubleChars (x : Float) : List Char :=
  let sign := if x.toBits ≥ 0x8000000000000000 then ['-'] else []
  let value := Decimal.Binary.ofFloat x
  if value.mantissa = 0 then sign ++ ['0', '.', '0']
  else
    let (digits, power) := (Decimal.shortest value).scientific
    sign ++ if isPositional power then positional digits power else exponential digits power

/-- The written form of a number. -/
def chars : Number → List Char
  | integer n => Decimal.integerChars n
  | double x => doubleChars x

example : chars (.double 2.5e-8) = "2.5e-8".toList := by decide +kernel
example : chars (.double 1e15) = "1000000000000000.0".toList := by decide +kernel

end Number

end Sideload.Json
