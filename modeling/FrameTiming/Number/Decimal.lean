/-! # Decimal approximations

Two ways to write a binary number in decimal: with a fixed unit in the last place, and with the
fewest digits that still single out the number. Both work on exact natural numbers.
-/

namespace FrameTiming.Number

/-! ## Rounding a quotient -/

inductive Tie where
  | toEven
  | up
deriving DecidableEq, Repr

/-- Whether a quotient `below + remainder / divisor` goes to `below + 1`. -/
def Tie.roundsUp (tie : Tie) (below remainder divisor : Nat) : Bool :=
  if 2 * remainder = divisor then
    match tie with
    | .toEven => below % 2 = 1
    | .up => true
  else
    divisor < 2 * remainder

def roundDiv (dividend divisor : Nat) (tie : Tie) : Nat :=
  let below := dividend / divisor
  if tie.roundsUp below (dividend % divisor) divisor then below + 1 else below

example : roundDiv 5 2 .toEven = 2 ∧ roundDiv 7 2 .toEven = 4 ∧ roundDiv 5 2 .up = 3 := by decide

/-! ## Decimals -/

structure Decimal where
  significand : Nat
  exponent : Int
deriving DecidableEq, Repr

namespace Decimal

def digits (decimal : Decimal) : List Char :=
  Nat.toDigits 10 decimal.significand

def scientificExponent (decimal : Decimal) : Int :=
  decimal.digits.length - 1 + decimal.exponent

def stripped (decimal : Decimal) : Decimal :=
  if 0 < decimal.significand ∧ decimal.significand % 10 = 0 then
    stripped ⟨decimal.significand / 10, decimal.exponent + 1⟩
  else
    decimal
termination_by decimal.significand
decreasing_by omega

def toFloat (decimal : Decimal) : Float :=
  Float.ofScientific decimal.significand (decimal.exponent < 0) decimal.exponent.natAbs

example : (⟨125, -2⟩ : Decimal).scientificExponent = 0 := by decide
example : (⟨1, 309⟩ : Decimal).toFloat.toBits = 0x7ff0000000000000 := by decide +kernel

end Decimal

/-! ## Binary numbers -/

/-- A positive number `mantissa * 2 ^ exponent`, with the neighbours it has in its binary format. -/
structure Binary where
  mantissa : Nat
  exponent : Int
  /-- The next smaller number is half as far away as the next larger one. -/
  closerBelow : Bool

namespace Binary

def numerator (binary : Binary) : Nat :=
  binary.mantissa <<< binary.exponent.toNat

def denominator (binary : Binary) : Nat :=
  1 <<< (-binary.exponent).toNat

/-- The number of places before the decimal point: the value is below `10 ^ place` and at least a
tenth of it. Counts the digits of the value scaled up to a whole number. -/
def place (binary : Binary) : Int :=
  let scale := binary.exponent.natAbs
  (Nat.toDigits 10 (binary.numerator * Nat.pow 10 scale / binary.denominator)).length - scale

def roundTo (binary : Binary) (unit : Int) (tie : Tie) : Decimal where
  significand := roundDiv (binary.numerator * Nat.pow 10 (-unit).toNat)
    (binary.denominator * Nat.pow 10 unit.toNat) tie
  exponent := unit

/-- The multiples of `10 ^ unit` on both sides of the value that read back as the value, the nearer
one if there are two. Lengths are measured in quarters of the last binary place: the numbers that
read back reach half a place up and half a place down, or a quarter where the neighbour is closer,
and the ends belong to them when the mantissa is even. -/
def candidate? (binary : Binary) (tie : Tie) (unit : Int) : Option Decimal :=
  let quarter := Nat.pow 10 (-unit).toNat <<< (binary.exponent - 2).toNat
  let step := Nat.pow 10 unit.toNat <<< (2 - binary.exponent).toNat
  let value := 4 * binary.mantissa * quarter
  let reachDown := if binary.closerBelow then quarter else 2 * quarter
  let reachUp := 2 * quarter
  let below := value / step
  let remainder := value % step
  let within (distance reach : Nat) : Bool :=
    if binary.mantissa % 2 = 0 then distance ≤ reach else distance < reach
  let downReadsBack := within remainder reachDown
  let upReadsBack := within (step - remainder) reachUp
  if downReadsBack && (!upReadsBack || !tie.roundsUp below remainder step) then
    some ⟨below, unit⟩
  else if upReadsBack then
    some ⟨below + 1, unit⟩
  else
    none

/-- The decimal with the fewest digits that reads back as the value, and of those the nearest.
Seventeen digits always suffice. -/
def shortest (binary : Binary) (tie : Tie) : Decimal :=
  let place := binary.place
  let units := (List.range 17).map fun (finer : Nat) => place - 1 - finer
  ((units.findSome? (binary.candidate? tie)).getD (binary.roundTo (place - 17) tie)).stripped

end Binary

/-! ## Floating-point numbers taken apart -/

inductive Shape where
  | nan
  | infinite (negative : Bool)
  | zero (negative : Bool)
  | finite (negative : Bool) (magnitude : Binary)

/-- The sign and magnitude of a number. Normal numbers have a mantissa of 53 bits; the smallest of
them, except at the lower end of the range, is closer to its lower neighbour. -/
def shape (value : Float) : Shape :=
  match value.toModel.unpack with
  | .notANumber => .nan
  | .infinity sign => .infinite (sign == .negative)
  | .zero sign => .zero (sign == .negative)
  | .finite sign mantissa exponent _ =>
      .finite (sign == .negative)
        ⟨mantissa, exponent, mantissa = 0x10000000000000 && decide (-1074 < exponent)⟩

end FrameTiming.Number
