import FrameTiming.Proofs.Number.Arithmetic
import FrameTiming.Proofs.Number.Order

/-! # Whole numbers around a double

From `2 ^ 53` on every double is whole, and below it every whole number is a double, so the whole
numbers around a double are found exactly.
-/

namespace FrameTiming.Number

open Float.Model (Format)

/-- A double counts the smallest units. -/
theorem exists_units (number : Float) : ∃ units : ℤ, value number = units * 2 ^ (-1074 : ℤ) := by
  cases comparable : number.isNaN with
  | true => exact ⟨0, by rw [value_of_isNaN comparable]; simp⟩
  | false =>
      rw [value_eq_withSign_units comparable]
      split_ifs
      · exact ⟨patternUnits (number.toBits.toNat % 2 ^ 63), rfl⟩
      · refine ⟨-patternUnits (number.toBits.toNat % 2 ^ 63), ?_⟩
        rw [withSign, Int.cast_neg, Int.cast_natCast, neg_mul]

/-- A large double is whole. -/
theorem floor_of_large {number : Float} (finite : number.isFinite = true)
    (large : 2 ^ 53 ≤ value number) : (⌊value number⌋₊ : ℚ) = value number := by
  rcases denotes_of_isFinite finite with ⟨denotes, -⟩
  generalize value number = result at denotes large ⊢
  generalize number.toModel.unpack = unpacked at denotes
  cases denotes with
  | zero => norm_num at large
  | finite sign mantissa exponent positive canonical =>
      cases sign with
      | negative =>
          have magnitude : (0 : ℚ) ≤ mantissa * 2 ^ exponent := by positivity
          rw [withSign] at large
          linarith
      | positive =>
          rcases Denotes.mantissa_lt positive canonical with ⟨fits, -⟩
          rw [binary64_mantissaBits] at fits
          have cast : (mantissa : ℚ) < 2 ^ 53 := by exact_mod_cast fits
          rw [withSign] at large ⊢
          have whole : 0 ≤ exponent := by
            by_contra negative
            have scale : (2 : ℚ) ^ exponent ≤ 1 :=
              zpow_le_one_of_nonpos₀ (by norm_num) (by omega)
            have below : (mantissa : ℚ) * 2 ^ exponent ≤ mantissa :=
              mul_le_of_le_one_right (by positivity) scale
            linarith
          rcases Int.eq_ofNat_of_zero_le whole with ⟨steps, rfl⟩
          have natural :
              (mantissa : ℚ) * 2 ^ ((steps : ℕ) : ℤ) = ((mantissa * 2 ^ steps : ℕ) : ℚ) := by
            push_cast
            rw [zpow_natCast]
          rw [natural, Nat.floor_natCast]

theorem nearest_floor {number : Float} (finite : number.isFinite = true) :
    nearest ⌊value number⌋₊ = ⌊value number⌋₊ := by
  rcases le_total (2 ^ 53) (value number) with large | small
  · rw [floor_of_large finite large, nearest_value]
  · apply nearest_natCast
    have floor := Nat.floor_mono small
    rwa [show (2 ^ 53 : ℚ) = ((2 ^ 53 : ℕ) : ℚ) by norm_num, Nat.floor_natCast] at floor

/-- What is left behind the whole part needs no more mantissa. -/
theorem representable_fraction {format : Format} {mantissa : ℕ} {exponent : ℤ}
    (fits : mantissa < 2 ^ format.mantissaBits) (least : format.minExponent ≤ exponent) :
    Representable format
      ((mantissa : ℚ) * 2 ^ exponent - ⌊(mantissa : ℚ) * 2 ^ exponent⌋₊) := by
  rcases exponent.eq_nat_or_neg with ⟨steps, rfl | rfl⟩
  · have whole : (mantissa : ℚ) * 2 ^ (steps : ℤ) = ((mantissa * 2 ^ steps : ℕ) : ℚ) := by
      push_cast
      rw [zpow_natCast]
    refine ⟨0, steps, by positivity, least, ?_⟩
    rw [whole, Nat.floor_natCast]
    simp
  · have quotient : (mantissa : ℚ) * 2 ^ (-steps : ℤ) = mantissa / (2 ^ steps : ℕ) := by
      rw [zpow_neg, zpow_natCast, Nat.cast_pow, Nat.cast_ofNat, div_eq_mul_inv]
    refine ⟨mantissa % 2 ^ steps, -steps, (Nat.mod_le _ _).trans_lt fits, least, ?_⟩
    have parts : (2 ^ steps * (mantissa / 2 ^ steps : ℕ) + (mantissa % 2 ^ steps : ℕ) : ℚ) =
        mantissa := by
      exact_mod_cast Nat.div_add_mod mantissa (2 ^ steps)
    rw [quotient, Nat.floor_div_eq_div, zpow_neg, zpow_natCast, Nat.cast_pow, Nat.cast_ofNat,
      ← div_eq_mul_inv, eq_div_iff (by positivity), sub_mul, div_mul_cancel₀ _ (by positivity)]
    linarith

/-- What a double has behind its whole part is a double. -/
theorem nearest_fraction {number : Float} (finite : number.isFinite = true)
    (nonnegative : 0 ≤ value number) :
    nearest (value number - ⌊value number⌋₊) = value number - ⌊value number⌋₊ := by
  have fraction : value number - ⌊value number⌋₊ ≤ overflowLimit := by
    have above := Nat.lt_floor_add_one (value number)
    have limit : (1 : ℚ) ≤ overflowLimit := by
      unfold overflowLimit
      exact one_le_zpow₀ (by norm_num) (by norm_num)
    linarith
  refine nearest_representable ?_ fraction
  rcases denotes_of_isFinite finite with ⟨denotes, -⟩
  generalize value number = result at denotes nonnegative ⊢
  generalize number.toModel.unpack = unpacked at denotes
  cases denotes with
  | zero => exact ⟨0, 0, by positivity, minExponent_nonpos _, by simp⟩
  | finite sign mantissa exponent positive canonical =>
      rcases Denotes.mantissa_lt positive canonical with ⟨fits, least⟩
      cases sign with
      | negative =>
          have magnitude : (0 : ℚ) < mantissa * 2 ^ exponent := by positivity
          rw [withSign] at nonnegative
          linarith
      | positive =>
          rw [withSign]
          exact representable_fraction fits least

theorem value_half : value 0.5 = 1 / 2 := by
  have unpacked : (0.5 : Float).toModel.unpack =
      .finite .positive 4503599627370496 (-53) (by decide) := rfl
  rw [value, unpacked]
  norm_num [withSign]

variable {number : Float}

theorem floorNat_eq (comparable : number.isNaN = false) (word : value number < 2 ^ 64) :
    floorNat number = ⌊value number⌋₊ := by
  have small : ⌊value number⌋₊ < 2 ^ 64 := by
    rw [Nat.floor_lt' (by norm_num)]
    exact_mod_cast word
  rw [floorNat, toNat_toUInt64 comparable]
  omega

theorem isFinite_of_lt_word (comparable : number.isNaN = false) (nonnegative : 0 ≤ value number)
    (word : value number < 2 ^ 64) : number.isFinite = true := by
  rw [isFinite_iff comparable, abs_of_nonneg nonnegative, ← nearest_value number]
  exact nearest_lt_overflowLimit (by exact_mod_cast word.le)

theorem ceilNat_eq (comparable : number.isNaN = false) (nonnegative : 0 ≤ value number)
    (word : value number < 2 ^ 64) : ceilNat number = ⌈value number⌉₊ := by
  have finite := isFinite_of_lt_word comparable nonnegative word
  have floor : number.toUInt64.toNat = ⌊value number⌋₊ := floorNat_eq comparable word
  have below := (value_ofUInt64 number.toUInt64).1
  rw [floor, nearest_floor finite] at below
  have least := Nat.floor_le nonnegative
  have most := Nat.lt_floor_add_one (value number)
  unfold ceilNat
  dsimp only
  rw [floor]
  by_cases fraction : number.toUInt64.toFloat < number
  · rw [if_pos fraction]
    rw [lt_iff_value_lt (value_ofUInt64 _).2 comparable, below] at fraction
    symm
    rw [Nat.ceil_eq_iff (by omega), Nat.add_sub_cancel]
    push_cast
    exact ⟨fraction, most.le⟩
  · rw [if_neg fraction]
    rw [lt_iff_value_lt (value_ofUInt64 _).2 comparable, below, not_lt] at fraction
    have whole : value number = ⌊value number⌋₊ := le_antisymm fraction least
    conv_rhs => rw [whole, Nat.ceil_natCast]

theorem roundNat_eq (comparable : number.isNaN = false) (nonnegative : 0 ≤ value number)
    (word : value number < 2 ^ 64) : roundNat number = ⌊value number + 1 / 2⌋₊ := by
  have finite := isFinite_of_lt_word comparable nonnegative word
  have floor : number.toUInt64.toNat = ⌊value number⌋₊ := floorNat_eq comparable word
  rcases value_ofUInt64 number.toUInt64 with ⟨below, belowComparable⟩
  rw [floor, nearest_floor finite] at below
  have least := Nat.floor_le nonnegative
  have most := Nat.lt_floor_add_one (value number)
  have belowFinite : number.toUInt64.toFloat.isFinite = true := isFinite_toFloat _
  rcases value_sub finite belowFinite with ⟨difference, differenceComparable⟩
  rw [below, nearest_fraction finite nonnegative] at difference
  have half : (number - number.toUInt64.toFloat ≥ 0.5) ↔
      1 / 2 ≤ value number - ⌊value number⌋₊ := by
    rw [ge_iff_le, le_iff_value_le rfl differenceComparable, value_half, difference]
  unfold roundNat
  dsimp only
  rw [floor]
  symm
  by_cases up : 1 / 2 ≤ value number - ⌊value number⌋₊
  · rw [if_pos (half.mpr up), Nat.floor_eq_iff (by linarith)]
    push_cast
    constructor <;> linarith
  · rw [if_neg (mt half.mp up), Nat.floor_eq_iff (by linarith)]
    constructor <;> linarith

end FrameTiming.Number
