import FrameTiming.Number.Order
import FrameTiming.Proofs.Number.Packed

/-! # Order of numbers

The total order sorts numbers by value, and tells apart only the two zeros where values are the same.
-/

namespace FrameTiming.Number

open Float.Model (Format UnpackedFloat)
open Float.Model.UnpackedFloat (Sign unpack unpackSign unpackExponent unpackMantissa)

/-! ## Patterns -/

/-- How many of the smallest units the fields of a pattern stand for. -/
def fieldUnits (exponent mantissa : ℕ) : ℕ :=
  if exponent = 0 then mantissa else (2 ^ 52 + mantissa) * 2 ^ (exponent - 1)

/-- How many of the smallest units a pattern without its sign bit stands for. -/
def patternUnits (pattern : ℕ) : ℕ :=
  fieldUnits (pattern / 2 ^ 52) (pattern % 2 ^ 52)

theorem fieldUnits_lt_mantissa_succ (exponent mantissa : ℕ) :
    fieldUnits exponent mantissa < fieldUnits exponent (mantissa + 1) := by
  unfold fieldUnits
  split_ifs with subnormal
  · exact Nat.lt_succ_self mantissa
  · exact Nat.mul_lt_mul_of_pos_right (by omega) (by positivity)

theorem fieldUnits_lt_exponent_succ (exponent : ℕ) {mantissa : ℕ} (within : mantissa < 2 ^ 52) :
    fieldUnits exponent mantissa < fieldUnits (exponent + 1) 0 := by
  unfold fieldUnits
  rw [if_neg exponent.succ_ne_zero, Nat.add_sub_cancel, Nat.add_zero]
  split_ifs with subnormal
  · rw [subnormal, pow_zero, mul_one]
    exact within
  · calc (2 ^ 52 + mantissa) * 2 ^ (exponent - 1) < 2 ^ 53 * 2 ^ (exponent - 1) :=
          Nat.mul_lt_mul_of_pos_right (by omega) (by positivity)
      _ = 2 ^ 52 * 2 ^ exponent := by
          rw [← pow_add, ← pow_add]
          congr 1
          omega

theorem patternUnits_strictMono : StrictMono patternUnits := by
  apply strictMono_nat_of_lt_succ
  intro pattern
  unfold patternUnits
  by_cases carry : pattern % 2 ^ 52 + 1 = 2 ^ 52
  · have quotient : (pattern + 1) / 2 ^ 52 = pattern / 2 ^ 52 + 1 := by omega
    have remainder : (pattern + 1) % 2 ^ 52 = 0 := by omega
    rw [quotient, remainder]
    exact fieldUnits_lt_exponent_succ _ (Nat.mod_lt _ (by positivity))
  · have quotient : (pattern + 1) / 2 ^ 52 = pattern / 2 ^ 52 := by omega
    have remainder : (pattern + 1) % 2 ^ 52 = pattern % 2 ^ 52 + 1 := by omega
    rw [quotient, remainder]
    exact fieldUnits_lt_mantissa_succ _ _

theorem toNat_unpackMantissa (bits : BitVec 64) :
    (@unpackMantissa .binary64 bits).toNat = bits.toNat % 2 ^ 52 := by
  simp [unpackMantissa]

theorem toNat_unpackExponent (bits : BitVec 64) :
    (@unpackExponent .binary64 bits).toNat = bits.toNat / 2 ^ 52 % 2 ^ 11 := by
  simp [unpackExponent, Nat.shiftRight_eq_div_pow]

theorem ofBitVec_unpackSign (bits : BitVec 64) :
    Sign.ofBitVec (@unpackSign .binary64 bits) =
      if bits.toNat < 2 ^ 63 then .positive else .negative := by
  have bound : bits.toNat < 2 ^ 64 := bits.isLt
  have bit : (@unpackSign .binary64 bits).toNat = bits.toNat / 2 ^ 63 % 2 := by
    simp [unpackSign, Nat.shiftRight_eq_div_pow]
  have clear : @unpackSign .binary64 bits = 0#1 ↔ bits.toNat < 2 ^ 63 := by
    rw [← BitVec.toNat_inj, bit, BitVec.toNat_zero]
    omega
  unfold Sign.ofBitVec
  split_ifs with zero small small
  · rfl
  · exact absurd (clear.mp zero) small
  · exact absurd (clear.mpr small) zero
  · rfl

theorem fieldUnits_value {exponent : ℕ} (normal : exponent ≠ 0) (mantissa : ℕ) :
    (fieldUnits exponent mantissa : ℚ) * 2 ^ (-1074 : ℤ) =
      (2 ^ 52 + mantissa) * 2 ^ ((exponent : ℤ) - 1075) := by
  have steps : ((exponent - 1 : ℕ) : ℤ) + -1074 = (exponent : ℤ) - 1075 := by omega
  rw [fieldUnits, if_neg normal, Nat.cast_mul, Nat.cast_pow, Nat.cast_ofNat, mul_assoc,
    ← zpow_natCast 2 (exponent - 1), ← zpow_add₀ (by norm_num), steps]
  push_cast
  rfl

/-- The sign of a number and its pattern without the sign bit say what it stands for. -/
theorem value_eq_withSign_units {number : Float} (comparable : number.isNaN = false) :
    value number = withSign (if number.toBits.toNat < 2 ^ 63 then .positive else .negative)
      (patternUnits (number.toBits.toNat % 2 ^ 63) * 2 ^ (-1074 : ℤ)) := by
  have unpacked : number.toModel.unpack = unpack .binary64 number.toModel.toBits.toBitVec := rfl
  have pattern : number.toBits.toNat = number.toModel.toBits.toBitVec.toNat := rfl
  rw [isNaN_eq, unpacked] at comparable
  rw [value, unpacked, pattern, ← ofBitVec_unpackSign]
  generalize number.toModel.toBits.toBitVec = bits at comparable ⊢
  have mantissaBits : bits.toNat % 2 ^ 63 % 2 ^ 52 =
      (@unpackMantissa .binary64 bits).toNat := by
    rw [toNat_unpackMantissa]
    omega
  have exponentBits : bits.toNat % 2 ^ 63 / 2 ^ 52 =
      (@unpackExponent .binary64 bits).toNat := by
    rw [toNat_unpackExponent]
    omega
  rw [patternUnits, mantissaBits, exponentBits]
  unfold unpack at comparable ⊢
  dsimp only at comparable ⊢
  split_ifs at comparable ⊢ with largest infinite smallest zero
  · have limit : overflowLimit = (2 ^ 52 + (0 : ℕ)) * 2 ^ (((2047 : ℕ) : ℤ) - 1075) := by
      unfold overflowLimit
      rw [Nat.cast_zero, add_zero, ← zpow_natCast, ← zpow_add₀ (by norm_num)]
      norm_num
    rw [largest, infinite]
    change withSign _ overflowLimit = _
    rw [limit, ← fieldUnits_value (by norm_num)]
    rfl
  · cases comparable
  · rw [smallest, zero]
    simp [fieldUnits]
  · rw [smallest]
    rfl
  · have nonzero : (@unpackExponent .binary64 bits).toNat ≠ 0 :=
      fun equal => smallest (BitVec.eq_of_toNat_eq equal)
    have filled : (1#1 ++ @unpackMantissa .binary64 bits).toNat =
        2 ^ 52 + (@unpackMantissa .binary64 bits).toNat := toNat_one_append _
    rw [fieldUnits_value nonzero]
    simp only [filled, binary64_exponentBias]
    push_cast
    rfl

/-! ## The total order -/

variable {left right : Float}

theorem orderKey_eq (number : Float) :
    orderKey number =
      if number.toBits.toNat < 2 ^ 63 then (number.toBits.toNat : ℤ)
      else 2 ^ 63 - 1 - number.toBits.toNat := by
  norm_num [orderKey]

theorem orderKey_injective (same : orderKey left = orderKey right) : left = right := by
  have leftBound := left.toBits.toNat_lt
  have rightBound := right.toBits.toNat_lt
  apply Float.toBits_inj.mp
  apply UInt64.toNat_inj.mp
  rw [orderKey_eq, orderKey_eq] at same
  split_ifs at same <;> omega

/-- A number before another one in the total order is smaller, unless both are zero. -/
theorem value_lt_of_orderKey_lt (leftComparable : left.isNaN = false)
    (rightComparable : right.isNaN = false) (before : orderKey left < orderKey right) :
    value left < value right ∨ value left = 0 ∧ value right = 0 := by
  have leftBound := left.toBits.toNat_lt
  have rightBound := right.toBits.toNat_lt
  have ordered : ∀ {first second : ℕ}, first < second →
      (patternUnits first : ℚ) * 2 ^ (-1074 : ℤ) < patternUnits second * 2 ^ (-1074 : ℤ) := by
    intro first second less
    have cast : (patternUnits first : ℚ) < patternUnits second := by
      exact_mod_cast patternUnits_strictMono less
    exact mul_lt_mul_of_pos_right cast (by positivity)
  rw [value_eq_withSign_units leftComparable, value_eq_withSign_units rightComparable]
  rw [orderKey_eq, orderKey_eq] at before
  split_ifs at before ⊢ with leftPositive rightPositive rightPositive
  · exact .inl (ordered (by omega))
  · omega
  · -- A number with the sign bit is below one without, but for zeros.
    rcases Nat.eq_zero_or_pos (left.toBits.toNat % 2 ^ 63) with leftZero | leftSome
    · rcases Nat.eq_zero_or_pos (right.toBits.toNat % 2 ^ 63) with rightZero | rightSome
      · rw [leftZero, rightZero]
        exact .inr (by simp [patternUnits, fieldUnits])
      · have some := ordered rightSome
        rw [leftZero]
        left
        simpa [patternUnits, fieldUnits, withSign] using some
    · have some := ordered leftSome
      have nonnegative :
          (0 : ℚ) ≤ patternUnits (right.toBits.toNat % 2 ^ 63) * 2 ^ (-1074 : ℤ) := by positivity
      have none : (patternUnits 0 : ℚ) * 2 ^ (-1074 : ℤ) = 0 := by simp [patternUnits, fieldUnits]
      left
      rw [withSign, withSign]
      linarith
  · exact .inl (neg_lt_neg (ordered (by omega)))

theorem value_le_of_totalLe (leftComparable : left.isNaN = false)
    (rightComparable : right.isNaN = false) (before : totalLe left right = true) :
    value left ≤ value right := by
  rcases (of_decide_eq_true before).lt_or_eq with less | same
  · rcases value_lt_of_orderKey_lt leftComparable rightComparable less with strict | ⟨zero, alsoZero⟩
    · exact strict.le
    · rw [zero, alsoZero]
  · rw [orderKey_injective same]

/-- Numbers of one value that is not zero are one and the same. -/
theorem eq_of_value_eq (leftComparable : left.isNaN = false) (rightComparable : right.isNaN = false)
    (same : value left = value right) (nonzero : value left ≠ 0) : left = right := by
  rcases lt_trichotomy (orderKey left) (orderKey right) with before | equal | after
  · rcases value_lt_of_orderKey_lt leftComparable rightComparable before with less | zeros
    · exact absurd same less.ne
    · exact absurd zeros.1 nonzero
  · exact orderKey_injective equal
  · rcases value_lt_of_orderKey_lt rightComparable leftComparable after with less | zeros
    · exact absurd same less.ne'
    · exact absurd zeros.2 nonzero

/-! ## Sorting -/

theorem pairwise_sortAscending (values : List Float) :
    (sortAscending values).Pairwise fun left right => totalLe left right :=
  List.pairwise_mergeSort totalLe_trans totalLe_total values

/-- Sorting depends on the numbers alone, not on the order they come in. -/
theorem sortAscending_eq_of_perm {first second : List Float} (permutation : first.Perm second) :
    sortAscending first = sortAscending second := by
  have same := ((sortAscending_perm first).trans permutation).trans (sortAscending_perm second).symm
  refine same.eq_of_pairwise ?_ (pairwise_sortAscending first) (pairwise_sortAscending second)
  intro _ _ _ _ forwards backwards
  exact orderKey_injective (le_antisymm (of_decide_eq_true forwards) (of_decide_eq_true backwards))

end FrameTiming.Number
