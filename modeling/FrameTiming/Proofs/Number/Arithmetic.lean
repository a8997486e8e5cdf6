import FrameTiming.Number.Whole
import FrameTiming.Proofs.Number.Packed

/-! # Floating-point arithmetic

An operation on finite numbers gives the number nearest to the exact result, and an infinity where
that is too large. Conversion from whole numbers rounds the same way; conversion to whole numbers
cuts off.
-/

namespace FrameTiming.Number

open Float.Model (Format totalExponent UnpackedFloat)
open Float.Model.UnpackedFloat (Sign roundWithAccuracy decreaseExponent shiftToExponent)

/-! ## The nearest number -/

/-- The value of the double that is nearest to a number. -/
def nearest (number : ℚ) : ℚ :=
  saturated (rounded .binary64 number)

theorem nearest_mono : Monotone nearest :=
  saturated_mono.comp (rounded_mono .binary64)

theorem saturated_neg (number : ℚ) : saturated (-number) = -saturated number := by
  have positive := overflowLimit_pos
  rcases le_total |number| overflowLimit with within | beyond
  · rw [saturated_of_abs_le within, saturated_of_abs_le (by rwa [abs_neg])]
  · rcases le_total 0 number with nonnegative | negative
    · rw [abs_of_nonneg nonnegative] at beyond
      have down := saturated_withSign_of_le .negative beyond
      have up := saturated_withSign_of_le .positive beyond
      simp only [withSign] at down up
      rw [down, up]
    · rw [abs_of_nonpos negative] at beyond
      have down := saturated_withSign_of_le .negative beyond
      have up := saturated_withSign_of_le .positive beyond
      simp only [withSign, neg_neg] at down up
      rw [down, up, neg_neg]

theorem nearest_neg (number : ℚ) : nearest (-number) = -nearest number := by
  rw [nearest, rounded_neg, saturated_neg, nearest]

@[simp] theorem nearest_zero : nearest 0 = 0 := by
  rw [nearest, rounded_zero, saturated_of_abs_le (by simpa using overflowLimit_pos.le)]

theorem nearest_nonneg {number : ℚ} (nonnegative : 0 ≤ number) : 0 ≤ nearest number := by
  rw [← nearest_zero]
  exact nearest_mono nonnegative

theorem abs_nearest_le (number : ℚ) : |nearest number| ≤ overflowLimit :=
  abs_saturated_le _

theorem nearest_representable {number : ℚ} (exact : Representable .binary64 number)
    (within : number ≤ overflowLimit) : nearest number = number := by
  have nonnegative : 0 ≤ number := by
    rcases exact with ⟨mantissa, exponent, -, -, rfl⟩
    positivity
  rw [nearest, rounded_representable exact,
    saturated_of_abs_le (by rwa [abs_of_nonneg nonnegative])]

theorem representable_overflowLimit : Representable .binary64 overflowLimit := by
  refine ⟨1, 1024, ?_, ?_, ?_⟩
  · rw [binary64_mantissaBits]
    norm_num
  · rw [binary64_minExponent]
    norm_num
  · rw [overflowLimit, Nat.cast_one, one_mul]

theorem nearest_overflowLimit : nearest overflowLimit = overflowLimit :=
  nearest_representable representable_overflowLimit le_rfl

theorem nearest_nearest {number : ℚ} (nonnegative : 0 ≤ number) :
    nearest (nearest number) = nearest number := by
  have representable := representable_roundedMagnitude .binary64 number
  rw [← rounded_of_nonneg .binary64 nonnegative] at representable
  have limit := overflowLimit_pos
  have result := rounded_nonneg .binary64 nonnegative
  rcases le_total (rounded .binary64 number) overflowLimit with within | beyond
  · have same : nearest number = rounded .binary64 number := by
      rw [nearest, saturated_of_abs_le (by rwa [abs_of_nonneg result])]
    rw [same, nearest_representable representable within]
  · have same : nearest number = overflowLimit := saturated_withSign_of_le .positive beyond
    rw [same, nearest_overflowLimit]

/-- A double is the nearest one to its value. -/
theorem nearest_value (number : Float) : nearest (value number) = value number := by
  by_cases finite : number.isFinite = true
  · rcases denotes_of_isFinite finite with ⟨denotes, below⟩
    rw [nearest, denotes.rounded_eq, saturated_of_abs_le below.le]
  · cases comparable : number.isNaN with
    | false =>
        rcases unpack_eq_infinity comparable finite with ⟨sign, -, limit⟩
        rw [limit]
        cases sign with
        | positive => exact nearest_overflowLimit
        | negative => rw [withSign, nearest_neg, nearest_overflowLimit]
    | true => rw [value_of_isNaN comparable, nearest_zero]

theorem nearest_le_value {exact : ℚ} {bound : Float} (within : exact ≤ value bound) :
    nearest exact ≤ value bound := by
  rw [← nearest_value bound]
  exact nearest_mono within

/-- Whole numbers of up to 53 bits are doubles. -/
theorem nearest_natCast {number : ℕ} (exact : number ≤ 2 ^ 53) : nearest number = number := by
  have cast : (number : ℚ) ≤ 2 ^ (53 : ℤ) := by exact_mod_cast exact
  have within : (number : ℚ) ≤ overflowLimit := by
    unfold overflowLimit
    exact cast.trans (zpow_le_zpow_right₀ (by norm_num) (by norm_num))
  have representable : Representable .binary64 number := by
    rcases exact.lt_or_eq with fits | power
    · refine ⟨number, 0, fits, by decide, ?_⟩
      rw [zpow_zero, mul_one]
    · refine ⟨1, 53, by decide, by decide, ?_⟩
      rw [power]
      norm_num
  exact nearest_representable representable within

/-- Nothing but zero and what is smaller than the smallest double becomes zero. -/
theorem abs_lt_of_nearest_eq_zero {number : ℚ} (zero : nearest number = 0) :
    |number| < 2 ^ (-1074 : ℤ) := by
  have least : (0 : ℚ) < 2 ^ (-1074 : ℤ) := by positivity
  have limit : (2 : ℚ) ^ (-1074 : ℤ) ≤ overflowLimit := by
    unfold overflowLimit
    exact zpow_le_zpow_right₀ (by norm_num) (by norm_num)
  have representable : Representable .binary64 (2 ^ (-1074 : ℤ)) := by
    refine ⟨1, -1074, by decide, by decide, ?_⟩
    rw [Nat.cast_one, one_mul]
  have positive : ∀ {other : ℚ}, 2 ^ (-1074 : ℤ) ≤ other → 0 < nearest other := by
    intro other large
    calc (0 : ℚ) < 2 ^ (-1074 : ℤ) := least
      _ = nearest (2 ^ (-1074 : ℤ)) := (nearest_representable representable limit).symm
      _ ≤ nearest other := nearest_mono large
  by_contra large
  rcases le_abs.mp (not_lt.mp large) with above | below
  · exact (positive above).ne' zero
  · have negated := positive below
    rw [nearest_neg, zero, neg_zero] at negated
    exact lt_irrefl _ negated

theorem nearest_lt_overflowLimit {number : ℚ} (word : number ≤ 2 ^ (64 : ℤ)) :
    nearest number < overflowLimit := by
  have limit : (2 : ℚ) ^ (64 : ℤ) < overflowLimit := by
    unfold overflowLimit
    exact zpow_lt_zpow_right₀ (by norm_num) (by norm_num)
  have representable : Representable .binary64 (2 ^ (64 : ℤ)) := by
    refine ⟨1, 64, by decide, by decide, ?_⟩
    rw [Nat.cast_one, one_mul]
  calc nearest number ≤ nearest (2 ^ (64 : ℤ)) := nearest_mono word
    _ = 2 ^ (64 : ℤ) := nearest_representable representable limit.le
    _ < overflowLimit := limit

theorem abs_nearest_lt_overflowLimit {number : ℚ} (word : |number| ≤ 2 ^ (64 : ℤ)) :
    |nearest number| < overflowLimit := by
  rcases abs_le.mp word with ⟨least, most⟩
  have below := nearest_lt_overflowLimit most
  have above : nearest (-number) < overflowLimit := nearest_lt_overflowLimit (by linarith)
  rw [nearest_neg] at above
  exact abs_lt.mpr ⟨by linarith, below⟩

/-- Rounding up adds less than one part in `2 ^ 53`. -/
theorem nearest_le_add {number : ℚ} (large : 1 ≤ number) :
    nearest number ≤ number + number / 2 ^ 53 := by
  have positive : 0 < number := by linarith
  have limit := overflowLimit_pos
  have log : 0 ≤ Int.log 2 number :=
    (Int.zpow_le_iff_le_log (by norm_num) positive).mp (by simpa using large)
  have above : Format.binary64.minExponent < unitExponent .binary64 number := by
    rw [binary64_minExponent, unitExponent_eq_max, binary64_mantissaBits]
    omega
  have rounding := roundedMagnitude_le .binary64 positive above
  rw [binary64_mantissaBits] at rounding
  rw [nearest, rounded_of_nonneg .binary64 positive.le, saturated]
  apply max_le
  · have share : 0 ≤ number / 2 ^ 53 := by positivity
    linarith
  · exact (min_le_left _ _).trans rounding

@[simp] theorem nearest_one : nearest 1 = 1 := by
  exact_mod_cast nearest_natCast (show 1 ≤ 2 ^ 53 by norm_num)

/-! ## Operations -/

variable {left right : Float}

theorem value_add (leftFinite : left.isFinite = true) (rightFinite : right.isFinite = true) :
    value (left + right) = nearest (value left + value right) ∧ (left + right).isNaN = false :=
  value_pack ((denotes_of_isFinite leftFinite).1.add (denotes_of_isFinite rightFinite).1)

theorem value_sub (leftFinite : left.isFinite = true) (rightFinite : right.isFinite = true) :
    value (left - right) = nearest (value left - value right) ∧ (left - right).isNaN = false :=
  value_pack ((denotes_of_isFinite leftFinite).1.sub (denotes_of_isFinite rightFinite).1)

theorem value_mul (leftFinite : left.isFinite = true) (rightFinite : right.isFinite = true) :
    value (left * right) = nearest (value left * value right) ∧ (left * right).isNaN = false :=
  value_pack ((denotes_of_isFinite leftFinite).1.mul (denotes_of_isFinite rightFinite).1)

theorem value_div (leftFinite : left.isFinite = true) (rightFinite : right.isFinite = true)
    (nonzero : value right ≠ 0) :
    value (left / right) = nearest (value left / value right) ∧ (left / right).isNaN = false :=
  value_pack ((denotes_of_isFinite leftFinite).1.div (denotes_of_isFinite rightFinite).1 nonzero)

theorem unpack_eq_of_value_eq_limit (comparable : left.isNaN = false)
    (infinite : value left = overflowLimit) : left.toModel.unpack = .infinity .positive := by
  have limit := overflowLimit_pos
  have notFinite : ¬left.isFinite = true := by
    rw [isFinite_iff comparable, infinite, abs_of_pos limit]
    exact lt_irrefl _
  rcases unpack_eq_infinity comparable notFinite with ⟨sign, unpacked, same⟩
  cases sign with
  | positive => exact unpacked
  | negative =>
      rw [infinite, withSign] at same
      linarith

theorem value_of_unpack_eq_infinity (unpacked : left.toModel.unpack = .infinity .positive) :
    value left = overflowLimit ∧ left.isNaN = false := by
  constructor
  · rw [value, unpacked]
    rfl
  · rw [isNaN_eq, unpacked]
    rfl

/-- A positive share of infinity is infinite. -/
theorem value_mul_of_infinite (comparable : left.isNaN = false)
    (infinite : value left = overflowLimit) (rightFinite : right.isFinite = true)
    (positive : 0 < value right) :
    value (left * right) = overflowLimit ∧ (left * right).isNaN = false := by
  rcases denotes_of_isFinite rightFinite with ⟨denotes, -⟩
  have product : left.toModel.unpack.mul .binary64 right.toModel.unpack = .infinity .positive := by
    rw [unpack_eq_of_value_eq_limit comparable infinite]
    generalize value right = factor at denotes positive
    generalize right.toModel.unpack = unpacked at denotes ⊢
    cases denotes with
    | zero => exact absurd positive (lt_irrefl 0)
    | finite sign mantissa exponent mantissaPositive canonical =>
        cases sign with
        | positive => rfl
        | negative =>
            have magnitude : (0 : ℚ) ≤ mantissa * 2 ^ exponent := by positivity
            rw [withSign] at positive
            linarith
  apply value_of_unpack_eq_infinity
  change (Float.Model.pack (left.toModel.unpack.mul .binary64 right.toModel.unpack)).unpack = _
  rw [product]
  exact unpack_packedInfinity .positive

theorem value_add_of_infinite (leftFinite : left.isFinite = true)
    (comparable : right.isNaN = false) (infinite : value right = overflowLimit) :
    value (left + right) = overflowLimit ∧ (left + right).isNaN = false := by
  rcases denotes_of_isFinite leftFinite with ⟨denotes, -⟩
  have sum : left.toModel.unpack.add .binary64 right.toModel.unpack = .infinity .positive := by
    rw [unpack_eq_of_value_eq_limit comparable infinite]
    generalize value left = summand at denotes
    generalize left.toModel.unpack = unpacked at denotes ⊢
    cases denotes <;> rfl
  apply value_of_unpack_eq_infinity
  change (Float.Model.pack (left.toModel.unpack.add .binary64 right.toModel.unpack)).unpack = _
  rw [sum]
  exact unpack_packedInfinity .positive

/-! ## Conversion from whole numbers -/

theorem value_ofUInt64 (number : UInt64) :
    value number.toFloat = nearest number.toNat ∧ number.toFloat.isNaN = false := by
  have denotes := denotes_ofInt .binary64 (number.toNat : ℤ)
  rw [Int.cast_natCast] at denotes
  exact value_pack denotes

theorem isFinite_toFloat (number : UInt64) : number.toFloat.isFinite = true := by
  rcases value_ofUInt64 number with ⟨converted, comparable⟩
  have word : (number.toNat : ℚ) ≤ 2 ^ (64 : ℤ) := by exact_mod_cast number.toNat_lt.le
  rw [isFinite_iff comparable, converted, abs_of_nonneg (nearest_nonneg (by positivity))]
  exact nearest_lt_overflowLimit word

theorem value_one : value (Float.ofBits 0x3FF0000000000000) = 1 := by
  have unpacked : (Float.ofBits 0x3FF0000000000000).toModel.unpack =
      .finite .positive (2 ^ 52) (-52) (by decide) := rfl
  rw [value, unpacked]
  norm_num [withSign]

theorem value_ofNat (number : ℕ) :
    value (Float.ofNat number) = nearest number ∧ (Float.ofNat number).isNaN = false := by
  by_cases small : number < 2 ^ 53
  · have unfolded : Float.ofNat number =
        number.toUInt64.toFloat * Float.ofBits 0x3FF0000000000000 := by
      change Float.ofScientific number false 0 = _
      rw [Float.ofScientific, dif_pos ⟨small, by decide⟩]
      rfl
    have word : number.toUInt64.toNat = number := by
      rw [Nat.toUInt64_eq, UInt64.toNat_ofNat', Nat.mod_eq_of_lt (by omega)]
    have product := value_mul (isFinite_toFloat number.toUInt64)
      (show (Float.ofBits 0x3FF0000000000000).isFinite = true from rfl)
    rw [unfolded, product.1, product.2, value_one, mul_one, (value_ofUInt64 _).1, word,
      nearest_natCast small.le, nearest_natCast small.le]
    exact ⟨rfl, rfl⟩
  · -- The mantissa is lengthened until it is fine enough and then rounded once.
    have unfolded : Float.ofNat number = .ofModel (.pack (roundWithAccuracy .binary64 .positive
        (number <<< 53 * 1) (-53) .exact)) := by
      change Float.ofScientific number false 0 = _
      rw [Float.ofScientific, dif_neg fun both => small both.1]
      change Float.ofModel (.pack (Float.Model.UnpackedFloat.ofScientific .binary64 number 0)) = _
      rw [Float.Model.UnpackedFloat.ofScientific, dif_neg (by omega), if_neg (by decide),
        if_neg (by simp), if_pos (by decide)]
      rfl
    have exact : ((number * 2 ^ 53 : ℕ) + 0) * (2 : ℚ) ^ (-53 : ℤ) = number := by
      rw [Nat.cast_mul, Nat.cast_pow, Nat.cast_ofNat, add_zero, mul_assoc, ← zpow_natCast,
        ← zpow_add₀ (by norm_num)]
      norm_num
    have log := @log2_mul_two_pow number (by omega) 53
    rw [mul_one, Nat.shiftLeft_eq] at unfolded
    generalize number * 2 ^ 53 = mantissa at unfolded exact log
    have fine : -53 ≤ Format.binary64.targetExponent (totalExponent mantissa (-53)) := by
      rw [binary64_targetExponent, log]
      omega
    have denotes := denotes_roundWithAccuracy .binary64 .positive mantissa leavesOut_exact fine
    rw [exact, withSign, ← rounded_of_nonneg .binary64 (by positivity)] at denotes
    rw [unfolded]
    exact value_pack denotes

theorem value_neg {number : Float} (comparable : number.isNaN = false) :
    value (-number) = -value number ∧ (-number).isNaN = false := by
  by_cases finite : number.isFinite = true
  · rcases denotes_of_isFinite finite with ⟨denotes, below⟩
    have negated := value_pack denotes.neg
    rwa [saturated_neg, saturated_of_abs_le below.le] at negated
  · rcases unpack_eq_infinity comparable finite with ⟨sign, unpacked, limit⟩
    have negated : (-number).toModel.unpack = .infinity (-sign) := by
      change (Float.Model.pack number.toModel.unpack.neg).unpack = .infinity (-sign)
      rw [unpacked]
      exact unpack_packedInfinity (-sign)
    constructor
    · rw [limit, value, negated]
      cases sign
      · exact (neg_neg _).symm
      · rfl
    · rw [isNaN_eq, negated]
      rfl

theorem value_ofInt (number : ℤ) :
    value (Float.ofInt number) = nearest number ∧ (Float.ofInt number).isNaN = false := by
  cases number with
  | ofNat magnitude =>
      rw [Int.ofNat_eq_natCast, Int.cast_natCast]
      exact value_ofNat magnitude
  | negSucc magnitude =>
      rcases value_ofNat (magnitude + 1) with ⟨converted, comparable⟩
      rw [Int.cast_negSucc, nearest_neg, ← converted]
      exact value_neg comparable

theorem isFinite_ofInt {number : ℤ} (word : |number| ≤ 2 ^ 64) :
    (Float.ofInt number).isFinite = true := by
  rcases value_ofInt number with ⟨converted, comparable⟩
  have cast : |(number : ℚ)| ≤ 2 ^ (64 : ℤ) := by exact_mod_cast word
  rw [isFinite_iff comparable, converted]
  exact abs_nearest_lt_overflowLimit cast

/-! ## Conversion to whole numbers -/

/-- Of a finite number the digits behind the point are dropped. -/
theorem toNat_roundToInt (sign : Sign) (mantissa : ℕ) (exponent : ℤ) :
    (Float.Model.UnpackedFloat.roundToInt sign mantissa exponent).toNat =
      ⌊withSign sign (mantissa * 2 ^ exponent)⌋₊ := by
  have downwards : (decreaseExponent mantissa exponent 0).2 ≤ 0 := by
    change exponent - (exponent - 0).toNat ≤ 0
    omega
  have same : ((decreaseExponent mantissa exponent 0).1 : ℚ) *
      2 ^ (decreaseExponent mantissa exponent 0).2 = mantissa * 2 ^ exponent := by
    change ((mantissa <<< (exponent - 0).toNat : ℕ) : ℚ) * 2 ^ (exponent - (exponent - 0).toNat) = _
    rw [Nat.shiftLeft_eq, Nat.cast_mul, Nat.cast_pow, Nat.cast_ofNat, mul_assoc, ← zpow_natCast,
      ← zpow_add₀ (by norm_num), add_sub_cancel]
  have floor := (shiftToExponent_approximates (decreaseExponent mantissa exponent 0).1
    leavesOut_exact downwards).1.floor
  rw [add_zero, same, zpow_zero, div_one] at floor
  cases sign with
  | positive =>
      rw [withSign, floor]
      rfl
  | negative =>
      have nonpositive : withSign .negative (mantissa * 2 ^ exponent) ≤ 0 := by
        rw [withSign, neg_nonpos]
        positivity
      rw [Nat.floor_of_nonpos nonpositive]
      exact Int.toNat_of_nonpos (Int.neg_nonpos_of_nonneg (Int.natCast_nonneg _))

theorem toNat_ofNatClamp (number : ℕ) :
    (UInt64.ofNatClamp number).toNat = min number (2 ^ 64 - 1) := by
  have size : UInt64.size = 2 ^ 64 := rfl
  unfold UInt64.ofNatClamp
  split <;> rw [UInt64.toNat_ofNatLT] <;> omega

theorem toNat_toUInt64 {number : Float} (comparable : number.isNaN = false) :
    number.toUInt64.toNat = min ⌊value number⌋₊ (2 ^ 64 - 1) := by
  rw [isNaN_eq] at comparable
  have unfolded : number.toUInt64 =
      UInt64.ofNatClamp (number.toModel.unpack.toInt 0 (UInt64.size - 1)).toNat := rfl
  rw [unfolded, toNat_ofNatClamp, value]
  generalize number.toModel.unpack = unpacked at comparable ⊢
  cases unpacked with
  | notANumber => cases comparable
  | zero => simp [Float.Model.UnpackedFloat.toInt]
  | finite sign mantissa exponent positive =>
      change min (Float.Model.UnpackedFloat.roundToInt sign mantissa exponent).toNat _ = _
      rw [toNat_roundToInt]
  | infinity sign =>
      cases sign with
      | negative =>
          have nonpositive : withSign .negative overflowLimit ≤ 0 :=
            neg_nonpos.mpr overflowLimit_pos.le
          change min (0 : ℤ).toNat _ = _
          rw [Nat.floor_of_nonpos nonpositive]
          rfl
      | positive =>
          have large : 2 ^ 64 - 1 ≤ ⌊withSign .positive overflowLimit⌋₊ := by
            apply Nat.le_floor
            have power : (2 : ℚ) ^ (64 : ℤ) ≤ 2 ^ (1024 : ℤ) :=
              zpow_le_zpow_right₀ (by norm_num) (by norm_num)
            rw [withSign, overflowLimit]
            refine le_trans ?_ power
            norm_num
          change min ((UInt64.size : ℤ) - 1).toNat _ = _
          rw [min_eq_right large]
          rfl

end FrameTiming.Number
