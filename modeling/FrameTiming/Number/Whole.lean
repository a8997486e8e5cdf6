/-! # Whole numbers around a floating-point number

Rounding down, up and to nearest, as natural numbers. A negative number or NaN gives 0 and a number
of `2 ^ 64` or more the largest word, so a position computed from data is always a position.
-/

namespace FrameTiming.Number

def floorNat (value : Float) : Nat :=
  value.toUInt64.toNat

def ceilNat (value : Float) : Nat :=
  let below := value.toUInt64
  if below.toFloat < value then below.toNat + 1 else below.toNat

/-- The nearest whole number; a half goes up. -/
def roundNat (value : Float) : Nat :=
  let below := value.toUInt64
  if value - below.toFloat ≥ 0.5 then below.toNat + 1 else below.toNat

example : floorNat 2.75 = 2 ∧ ceilNat 2.75 = 3 ∧ ceilNat 2.0 = 2 := by decide +kernel
example : roundNat 2.5 = 3 ∧ roundNat 0.49999999999999994 = 0 := by decide +kernel
example : floorNat (-1.5) = 0 ∧ ceilNat (-1.5) = 0 ∧ roundNat (0.0 / 0.0) = 0 := by decide +kernel

/-- The sum from left to right, starting at negative zero: nothing adds up to `-0.0`. -/
def sum (values : List Float) : Float :=
  values.foldl (· + ·) (-0.0)

end FrameTiming.Number
