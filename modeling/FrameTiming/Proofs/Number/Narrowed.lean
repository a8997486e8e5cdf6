import FrameTiming.Proofs.Number.Arithmetic
import FrameTiming.Proofs.Number.Magnitude
import FrameTiming.Proofs.Number.Single

/-! # Narrowing

Single precision keeps the order of the numbers that it is given, though it may make different ones
equal: it moves a number by no more than half a unit in the last place.
-/

namespace FrameTiming.Number

open Float.Model (Format UnpackedFloat)
open Float.Model.UnpackedFloat (Sign)

/-! ## Rounding errors -/

theorem abs_nearestEven_sub_le {number : ℚ} (nonnegative : 0 ≤ number) :
    |(nearestEven number : ℚ) - number| ≤ 1 / 2 := by
  have most := nearestEven_le_add_half nonnegative
  have below := Nat.floor_le nonnegative
  have above := Nat.lt_floor_add_one number
  have least : number - 1 / 2 ≤ nearestEven number := by
    unfold nearestEven
    dsimp only
    split_ifs <;> push_cast <;> linarith
  rw [abs_le]
  constructor <;> linarith

theorem half_unit_le (format : Format) {number : ℚ} (positive : 0 < number) :
    2 ^ unitExponent format number / 2 ≤
      number / 2 ^ format.mantissaBits + 2 ^ (format.minExponent - 1) := by
  have share : 0 ≤ number / 2 ^ format.mantissaBits := by positivity
  have smallest : (0 : ℚ) < 2 ^ (format.minExponent - 1) := by positivity
  rcases (minExponent_le_unitExponent format number).eq_or_lt with same | above
  · have half : (2 : ℚ) ^ format.minExponent / 2 = 2 ^ (format.minExponent - 1) := by
      rw [zpow_sub_one₀ (by norm_num), div_eq_mul_inv]
    rw [← same, half]
    linarith
  · have bits := two_le_mantissaBits format
    have full := two_pow_mul_unit_le format positive above
    have power : (2 : ℚ) ^ format.mantissaBits = 2 ^ (format.mantissaBits - 1) * 2 := by
      rw [← pow_succ, Nat.sub_add_cancel (by omega)]
    have unit : 2 ^ unitExponent format number / 2 ≤ number / 2 ^ format.mantissaBits := by
      rw [div_le_div_iff₀ (by norm_num) (by positivity), power]
      linarith
    linarith

/-- Rounding moves a number by one part of those that the mantissa tells apart, or by half of the
smallest unit. -/
theorem abs_rounded_sub_le (format : Format) (number : ℚ) :
    |rounded format number - number| ≤
      |number| / 2 ^ format.mantissaBits + 2 ^ (format.minExponent - 1) := by
  have magnitude : ∀ {size : ℚ}, 0 < size → |roundedMagnitude format size - size| ≤
      size / 2 ^ format.mantissaBits + 2 ^ (format.minExponent - 1) := by
    intro size positive
    have unit : (0 : ℚ) < 2 ^ unitExponent format size := by positivity
    have steps := abs_nearestEven_sub_le (div_nonneg positive.le unit.le)
    have moved : roundedMagnitude format size - size =
        (nearestEven (size / 2 ^ unitExponent format size) - size / 2 ^ unitExponent format size) *
          2 ^ unitExponent format size := by
      rw [roundedMagnitude, sub_mul, div_mul_cancel₀ _ unit.ne']
    rw [moved, abs_mul, abs_of_pos unit]
    calc _ ≤ 1 / 2 * (2 : ℚ) ^ unitExponent format size :=
          mul_le_mul_of_nonneg_right steps unit.le
      _ = 2 ^ unitExponent format size / 2 := by ring
      _ ≤ _ := half_unit_le format positive
  rcases lt_trichotomy number 0 with negative | rfl | positive
  · have opposite := magnitude (neg_pos.mpr negative)
    rwa [← rounded_of_nonneg format (by linarith), rounded_neg, neg_sub_neg, abs_sub_comm,
      ← abs_of_neg negative] at opposite
  · simp only [rounded_zero, sub_self, abs_zero, zero_div, zero_add]
    positivity
  · rw [rounded_of_nonneg format positive.le, abs_of_pos positive]
    exact magnitude positive

/-- The double nearest to a number that a word may reach is such a number, too, and close to it. -/
theorem nearest_spec_of_word {number : ℚ} (nonnegative : 0 ≤ number) (word : number ≤ 2 ^ 64) :
    nearest number ≤ 2 ^ 64 ∧ |nearest number - number| ≤ number / 2 ^ 53 + 2 ^ (-1075 : ℤ) := by
  have size : |rounded .binary64 number| ≤ 2 ^ 64 := by
    apply abs_rounded_le_two_pow
    rwa [abs_of_nonneg nonnegative]
  have limit := size.trans (two_pow_lt_overflowLimit (show 64 < 1024 by norm_num)).le
  have error := abs_rounded_sub_le .binary64 number
  rw [abs_of_nonneg nonnegative, binary64_mantissaBits, binary64_minExponent] at error
  rw [nearest, saturated_of_abs_le limit]
  exact ⟨(abs_le.mp size).2, error⟩

theorem binary32_minExponent : Format.binary32.minExponent = -149 := by
  decide

/-- Rounding to double precision and then to single precision moves a number by one part in
`2 ^ 23`, or by the smallest unit. -/
theorem abs_rounded_rounded_sub_le (number : ℚ) :
    |rounded .binary32 (rounded .binary64 number) - number| ≤
      |number| / 2 ^ 23 + 2 ^ (-149 : ℤ) := by
  have doubleError := abs_rounded_sub_le .binary64 number
  have doubleSize := (abs_sub_abs_le_abs_sub (rounded .binary64 number) number).trans doubleError
  have singleError := abs_rounded_sub_le .binary32 (rounded .binary64 number)
  have triangle := abs_sub_le (rounded .binary32 (rounded .binary64 number))
    (rounded .binary64 number) number
  have double : (2 : ℚ) ^ (-1074 - 1 : ℤ) ≤ 2 ^ (-152 : ℤ) :=
    zpow_le_zpow_right₀ (by norm_num) (by norm_num)
  have single : (2 : ℚ) ^ (-149 - 1 : ℤ) = 2 ^ (-152 : ℤ) * 4 := by norm_num
  have both : (2 : ℚ) ^ (-149 : ℤ) = 2 ^ (-152 : ℤ) * 8 := by norm_num
  have nonnegative := abs_nonneg number
  have positive : (0 : ℚ) < 2 ^ (-152 : ℤ) := by positivity
  rw [binary64_mantissaBits, binary64_minExponent] at doubleError doubleSize
  rw [show Format.binary32.mantissaBits = 24 from rfl, binary32_minExponent, single] at singleError
  rw [both]
  generalize (2 : ℚ) ^ (-152 : ℤ) = unit at double singleError positive ⊢
  generalize (2 : ℚ) ^ (-1074 - 1 : ℤ) = finest at doubleError doubleSize double
  linarith

/-! ## Single precision -/

/-- What the nearest single-precision number stands for, an infinity for the limit. -/
def nearestSingle (number : ℚ) : ℚ :=
  max (-2 ^ 128) (min (rounded .binary32 number) (2 ^ 128))

theorem nearestSingle_mono : Monotone nearestSingle := by
  intro smaller larger order
  exact max_le_max_left _ (min_le_min_right _ (rounded_mono .binary32 order))

theorem nearestSingle_of_abs_le {number : ℚ} (within : |rounded .binary32 number| ≤ 2 ^ 128) :
    nearestSingle number = rounded .binary32 number := by
  rcases abs_le.mp within with ⟨least, most⟩
  rw [nearestSingle, min_eq_left most, max_eq_right least]

theorem nearestSingle_of_le_abs {number : ℚ} (sign : Sign) {magnitude : ℚ}
    (same : rounded .binary32 number = withSign sign magnitude) (beyond : 2 ^ 128 ≤ magnitude) :
    nearestSingle number = withSign sign (2 ^ 128) := by
  rw [nearestSingle, same]
  cases sign with
  | positive => rw [withSign, withSign, min_eq_right beyond, max_eq_right (by norm_num)]
  | negative =>
      rw [withSign, withSign, min_eq_left (by linarith), max_eq_left (by linarith)]

/-- A number of single precision, and what it stands for: an infinity for the limit. -/
inductive Reads (number : Float32) : ℚ → Prop
  | finite {height : ℚ} (single : Single number height) (below : |height| < 2 ^ 128) :
      Reads number height
  | infinite (sign : Sign) (unpacked : number.toModel.unpack = .infinity sign) :
      Reads number (withSign sign (2 ^ 128))

/-- Numbers of single precision are compared like what they stand for. -/
theorem Reads.lt_iff {left right : Float32} {first second : ℚ} (leftReads : Reads left first)
    (rightReads : Reads right second) : left < right ↔ first < second := by
  have unfolded : left < right ↔
      (left.toModel.unpack.compare right.toModel.unpack == some .lt) = true := by
    change decide (left.toModel < right.toModel) = true ↔ _
    rw [decide_eq_true_iff]
    rfl
  have compared : left.toModel.unpack.compare right.toModel.unpack =
      some (compare first second) := by
    cases leftReads with
    | finite leftSingle leftBelow =>
        cases rightReads with
        | finite rightSingle => exact Denotes.compare leftSingle rightSingle
        | infinite sign unpacked =>
            rw [unpacked]
            exact (compare_infinity leftSingle leftBelow sign).1
    | infinite sign unpacked =>
        rw [unpacked]
        cases rightReads with
        | finite rightSingle rightBelow => exact (compare_infinity rightSingle rightBelow sign).2
        | infinite rightSign rightUnpacked =>
            rw [rightUnpacked]
            exact compare_infinities (by norm_num) sign rightSign
  rw [unfolded, compared, beq_iff_eq, Option.some.injEq]
  exact compare_lt_iff_lt

theorem reads_narrow_of_finite {number : Float} (finite : number.isFinite = true) :
    Reads (narrow number) (nearestSingle (value number)) := by
  rcases lt_or_ge |rounded .binary32 (value number)| (2 ^ 128) with below | beyond
  · rw [nearestSingle_of_abs_le below.le]
    exact .finite (single_narrow finite below) below
  · have denotes := (denotes_of_isFinite finite).1.converted .binary32
    have packed : (narrow number).toModel.unpack = UnpackedFloat.unpack .binary32
        (UnpackedFloat.pack .binary32 (converted .binary32 number.toModel.unpack)) := rfl
    generalize converted .binary32 number.toModel.unpack = unpacked at denotes packed
    generalize same : rounded .binary32 (value number) = result at denotes beyond
    cases denotes with
    | zero => norm_num at beyond
    | finite sign mantissa exponent positive canonical =>
        rw [abs_withSign sign (by positivity)] at beyond
        rw [nearestSingle_of_le_abs sign same beyond]
        apply Reads.infinite
        rw [packed]
        apply unpack_pack_of_lt
        by_contra fits
        have small := (magnitude_lt_limit_iff (by decide) positive canonical).mpr (not_lt.mp fits)
        rw [limit_binary32] at small
        linarith

/-- Infinities stay infinite. -/
theorem reads_narrow {number : Float} (comparable : number.isNaN = false) :
    Reads (narrow number) (nearestSingle (value number)) := by
  by_cases finite : number.isFinite = true
  · exact reads_narrow_of_finite finite
  · rcases unpack_eq_infinity comparable finite with ⟨sign, unpacked, limit⟩
    have large : (2 : ℚ) ^ 128 ≤ overflowLimit := (two_pow_lt_overflowLimit (by norm_num)).le
    have exact : rounded .binary32 (value number) = withSign sign overflowLimit := by
      have representable : Representable .binary32 overflowLimit := by
        refine ⟨1, 1024, by decide, by decide, ?_⟩
        rw [overflowLimit, Nat.cast_one, one_mul]
      rw [limit, rounded_withSign .binary32 sign overflowLimit_pos.le,
        roundedMagnitude_representable representable]
    rw [nearestSingle_of_le_abs sign exact large]
    apply Reads.infinite
    have packed : (narrow number).toModel.unpack = UnpackedFloat.unpack .binary32
        (UnpackedFloat.pack .binary32 (converted .binary32 number.toModel.unpack)) := rfl
    rw [packed, unpacked]
    exact unpack_packedInfinity sign

theorem not_lt_self (number : Float32) : ¬number < number := by
  intro less
  have compared : number.toModel.unpack.compare number.toModel.unpack = some .lt := by
    have decided : decide (number.toModel < number.toModel) = true := less
    exact eq_of_beq (of_decide_eq_true decided)
  generalize number.toModel.unpack = unpacked at compared
  cases unpacked with
  | notANumber => cases compared
  | zero sign => cases compared
  | infinity sign => cases sign <;> cases compared
  | finite sign mantissa exponent =>
      cases sign <;> simp [UnpackedFloat.compare] at compared

/-! ## Distances from a center -/

/-- What single precision makes of the distance of a number from a center, where that is finite. -/
def offset (center : Float) (height : ℚ) : ℚ :=
  if center.isFinite then nearestSingle (nearest (height - value center)) else 0

theorem offset_mono (center : Float) : Monotone (offset center) := by
  intro smaller larger order
  unfold offset
  split
  · exact nearestSingle_mono (nearest_mono (sub_le_sub_right order _))
  · exact le_rfl

/-- The two roundings of a distance leave it nearly as it is, far from the end of single
precision. -/
theorem abs_offset_sub_le {center : Float} {height reach : ℚ} (finite : center.isFinite = true)
    (within : |height - value center| ≤ reach) (small : reach ≤ 2 ^ 127) :
    |offset center height - (height - value center)| ≤ reach / 2 ^ 23 + 2 ^ (-149 : ℤ) := by
  rw [offset, if_pos finite]
  generalize height - value center = distance at within
  have double := abs_rounded_le_two_pow .binary64 (within.trans small)
  have single := abs_rounded_le_two_pow .binary32 double
  have limit : (2 : ℚ) ^ 127 ≤ overflowLimit := (two_pow_lt_overflowLimit (by norm_num)).le
  have power : (2 : ℚ) ^ 127 ≤ 2 ^ 128 := pow_le_pow_right₀ (by norm_num) (by norm_num)
  rw [nearest, saturated_of_abs_le (double.trans limit),
    nearestSingle_of_abs_le (single.trans power)]
  have part : |distance| / 2 ^ 23 ≤ reach / 2 ^ 23 :=
    div_le_div_of_nonneg_right within (by positivity)
  exact (abs_rounded_rounded_sub_le distance).trans (add_le_add_left part _)

section Centers

variable {left right center : Float}

theorem unpacked_sub_infinity {unpacked : UnpackedFloat} (finite : unpacked.isFinite = true)
    (sign : Sign) : unpacked.sub .binary64 (.infinity sign) = .infinity (-sign) := by
  cases unpacked with
  | zero => rfl
  | finite => rfl
  | infinity => cases finite
  | notANumber => cases finite

/-- All numbers are at the same distance from what is not finite. -/
theorem sub_eq_sub_of_not_finite (leftFinite : left.isFinite = true)
    (rightFinite : right.isFinite = true) (infinite : ¬center.isFinite = true) :
    left - center = right - center := by
  have same : left.toModel.unpack.sub .binary64 center.toModel.unpack =
      right.toModel.unpack.sub .binary64 center.toModel.unpack := by
    rw [isFinite_eq] at leftFinite rightFinite infinite
    generalize center.toModel.unpack = centerUnpacked at infinite ⊢
    cases centerUnpacked with
    | zero => exact absurd rfl infinite
    | finite => exact absurd rfl infinite
    | infinity sign =>
        rw [unpacked_sub_infinity leftFinite, unpacked_sub_infinity rightFinite]
    | notANumber =>
        have incomparable (unpacked : UnpackedFloat) :
            unpacked.sub .binary64 .notANumber = .notANumber := by cases unpacked <;> rfl
        rw [incomparable, incomparable]
  exact congrArg (fun unpacked => Float.ofModel (.pack unpacked)) same

/-- Narrowed distances are compared like offsets. -/
theorem narrow_sub_lt_iff (leftFinite : left.isFinite = true)
    (rightFinite : right.isFinite = true) (center : Float) :
    narrow (left - center) < narrow (right - center) ↔
      offset center (value left) < offset center (value right) := by
  by_cases finite : center.isFinite = true
  · rcases value_sub leftFinite finite with ⟨leftValue, leftComparable⟩
    rcases value_sub rightFinite finite with ⟨rightValue, rightComparable⟩
    rw [(reads_narrow leftComparable).lt_iff (reads_narrow rightComparable), leftValue, rightValue,
      offset, offset, if_pos finite, if_pos finite]
  · rw [sub_eq_sub_of_not_finite leftFinite rightFinite finite, offset, offset, if_neg finite,
      if_neg finite]
    exact iff_of_false (not_lt_self _) (lt_irrefl 0)

end Centers

end FrameTiming.Number
