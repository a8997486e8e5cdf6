import FrameTiming.Proofs.Number.Magnitude
import Mathlib.Data.Nat.Sqrt

/-! # Roots and absolute values

A root is found as a whole number of so many bits that rounding it once gives a number of the
format. Roots and absolute values of finite numbers are finite.
-/

namespace FrameTiming.Number

open Float.Model (Format totalExponent UnpackedFloat)
open Float.Model.UnpackedFloat (Sign Accuracy sqrtCore)

/-! ## Absolute values -/

theorem Denotes.abs {format : Format} {unpacked : UnpackedFloat} {number : ℚ}
    (denotes : Denotes format unpacked number) : Denotes format unpacked.abs |number| := by
  cases denotes with
  | zero sign =>
      rw [abs_zero]
      exact .zero .positive
  | finite sign mantissa exponent positive canonical =>
      rw [abs_withSign sign (by positivity)]
      exact .finite .positive mantissa exponent positive canonical

theorem value_abs {number : Float} (finite : number.isFinite = true) :
    number.abs.isFinite = true ∧ value number.abs = |value number| := by
  rcases denotes_of_isFinite finite with ⟨denotes, below⟩
  have packed := value_pack denotes.abs
  rw [saturated_of_abs_le (by rw [abs_abs]; exact below.le)] at packed
  refine ⟨(isFinite_iff packed.2).mpr ?_, packed.1⟩
  rwa [packed.1, abs_abs]

/-! ## Roots -/

section Roots

variable (format : Format) (mantissa : ℕ) (exponent : ℤ)

def rootExponent : ℤ :=
  min (exponent / 2) (format.targetExponent ((totalExponent mantissa exponent + 1) / 2))

/-- The mantissa of a number, lengthened until its root has enough bits. -/
def radicand : ℕ :=
  mantissa * 2 ^ (exponent - 2 * rootExponent format mantissa exponent).toNat

theorem radicand_value : (radicand format mantissa exponent : ℚ) *
    2 ^ (2 * rootExponent format mantissa exponent) = mantissa * 2 ^ exponent := by
  have order : 2 * rootExponent format mantissa exponent ≤ exponent := by
    unfold rootExponent
    omega
  have amount : ((exponent - 2 * rootExponent format mantissa exponent).toNat : ℤ) =
      exponent - 2 * rootExponent format mantissa exponent := Int.toNat_of_nonneg (by linarith)
  rw [radicand]
  push_cast
  rw [mul_assoc, ← zpow_natCast, amount, ← zpow_add₀ (by norm_num), sub_add_cancel]

variable {mantissa} (positive : 0 < mantissa)
include positive

/-- The root has as many bits as the mantissa of the format or is in the smallest unit. -/
theorem rootExponent_le : rootExponent format mantissa exponent ≤ format.targetExponent
    (totalExponent (radicand format mantissa exponent).sqrt
      (rootExponent format mantissa exponent)) := by
  rw [targetExponent_eq_max]
  rcases le_or_gt (rootExponent format mantissa exponent) format.minExponent with small | above
  · exact small.trans (le_max_right _ _)
  · have bits := two_le_mantissaBits format
    have fine : rootExponent format mantissa exponent ≤
        max (((mantissa.log2 : ℤ) + 1 + exponent + 1) / 2 - format.mantissaBits)
          format.minExponent := min_le_right _ _
    have log : (radicand format mantissa exponent).log2 =
        mantissa.log2 + (exponent - 2 * rootExponent format mantissa exponent).toNat :=
      log2_mul_two_pow positive _
    have some : radicand format mantissa exponent ≠ 0 :=
      (Nat.mul_pos positive (Nat.two_pow_pos _)).ne'
    have large : 2 ^ (2 * (format.mantissaBits - 1)) ≤ radicand format mantissa exponent := by
      rw [← Nat.le_log2 some, log]
      omega
    have root : 2 ^ (format.mantissaBits - 1) ≤ (radicand format mantissa exponent).sqrt := by
      rwa [Nat.le_sqrt', ← pow_mul, Nat.mul_comm]
    have filled := (Nat.le_log2 ((Nat.two_pow_pos _).trans_le root).ne').mpr root
    omega

/-- The root is rounded once, from less than one unit above the whole number that was found. -/
theorem denotes_sqrt : ∃ part : ℚ, 0 ≤ part ∧ part < 1 ∧
    Denotes format (UnpackedFloat.sqrt format (.finite .positive mantissa exponent positive))
      (roundedMagnitude format (((radicand format mantissa exponent).sqrt + part) *
        2 ^ rootExponent format mantissa exponent)) := by
  let root := (radicand format mantissa exponent).sqrt
  let rest := radicand format mantissa exponent - root * root
  let accuracy : Accuracy := if rest = 0 then .exact else .inexact (if rest ≤ root then .lt else .gt)
  have leaves : ∃ part, LeavesOut accuracy part := by
    simp only [accuracy]
    split_ifs
    · exact ⟨0, rfl⟩
    · exact ⟨1 / 4, by norm_num [LeavesOut]⟩
    · exact ⟨3 / 4, by norm_num [LeavesOut]⟩
  rcases leaves with ⟨part, leaves⟩
  have unfolded : UnpackedFloat.sqrt format (.finite .positive mantissa exponent positive) =
      UnpackedFloat.roundWithAccuracy format .positive root
        (rootExponent format mantissa exponent) accuracy := by
    simp only [accuracy, rest, root, radicand, ← Nat.shiftLeft_eq]
    rfl
  refine ⟨part, leaves.bounds.1, leaves.bounds.2, ?_⟩
  rw [unfolded]
  exact denotes_roundWithAccuracy format .positive root leaves
    (rootExponent_le format exponent positive)

omit positive

/-- The root of a number below a square lies below what is squared, or less than a unit above. -/
theorem root_le {exponent : ℤ} {power : ℕ} {part : ℚ} (small : exponent ≤ 2 * power)
    (below : (mantissa * 2 ^ exponent : ℚ) < (2 ^ power) ^ 2) (most : part < 1) :
    ((radicand format mantissa exponent).sqrt + part) * 2 ^ rootExponent format mantissa exponent ≤
      2 ^ (power + 1) := by
  have radicandValue := radicand_value format mantissa exponent
  have order : rootExponent format mantissa exponent ≤ power := by
    refine (min_le_left _ _).trans ?_
    omega
  have root : ((radicand format mantissa exponent).sqrt : ℚ) ^ 2 ≤
      radicand format mantissa exponent := by
    exact_mod_cast Nat.sqrt_le' _
  generalize rootExponent format mantissa exponent = place at radicandValue order ⊢
  generalize radicand format mantissa exponent = number at radicandValue root ⊢
  have square : ((number.sqrt : ℚ) * 2 ^ place) ^ 2 < (2 ^ power) ^ 2 := by
    calc ((number.sqrt : ℚ) * 2 ^ place) ^ 2 = (number.sqrt : ℚ) ^ 2 * 2 ^ (2 * place) := by
          rw [mul_pow, mul_comm 2 place, zpow_mul]
          norm_cast
      _ ≤ (number : ℚ) * 2 ^ (2 * place) := mul_le_mul_of_nonneg_right root (by positivity)
      _ = (mantissa : ℚ) * 2 ^ exponent := radicandValue
      _ < (2 ^ power) ^ 2 := below
  have whole := lt_of_pow_lt_pow_left₀ 2 (by positivity) square
  have unit : (2 : ℚ) ^ place ≤ 2 ^ power := by
    rw [← zpow_natCast]
    exact zpow_le_zpow_right₀ (by norm_num) order
  have rest : part * 2 ^ place ≤ 2 ^ place := mul_le_of_le_one_left (by positivity) most.le
  rw [add_mul, pow_succ]
  linarith

end Roots

/-- The root of a double from zero on is such a double. -/
theorem isFinite_sqrt {number : Float} (least : 0 ≤ number) (finite : number.isFinite = true) :
    number.sqrt.isFinite = true ∧ 0 ≤ number.sqrt := by
  have rooted : ∃ (height : ℚ) (power : ℕ), Denotes .binary64
      (UnpackedFloat.sqrt .binary64 number.toModel.unpack) height ∧ 0 ≤ height ∧
        height ≤ 2 ^ power ∧ power < 1024 := by
    have nonnegative := (zero_le_iff.mp least).2
    rcases denotes_of_isFinite finite with ⟨denotes, below⟩
    generalize value number = height at nonnegative denotes below
    generalize number.toModel.unpack = unpacked at denotes
    cases denotes with
    | zero sign => exact ⟨0, 0, .zero sign, le_rfl, by simp, by norm_num⟩
    | finite sign mantissa exponent positive canonical =>
        have magnitude : (0 : ℚ) < mantissa * 2 ^ exponent := by positivity
        rw [abs_withSign sign magnitude.le] at below
        cases sign with
        | negative =>
            rw [withSign] at nonnegative
            linarith
        | positive =>
            rcases denotes_sqrt .binary64 exponent positive with ⟨part, some, most, root⟩
            have small := (magnitude_lt_overflowLimit_iff positive canonical).mp below
            have square : overflowLimit = (2 ^ 512) ^ 2 := by
              rw [overflowLimit, ← pow_mul, ← zpow_natCast]
              rfl
            rw [square] at below
            have bound := root_le .binary64 (by omega) below most
            have exact := roundedMagnitude_representable (representable_two_pow .binary64 (512 + 1))
            refine ⟨_, 512 + 1, root, roundedMagnitude_nonneg _ _, ?_, by norm_num⟩
            rw [← exact]
            exact roundedMagnitude_mono .binary64 (mul_nonneg
              (add_nonneg (Nat.cast_nonneg _) some) (zpow_nonneg zero_le_two _)) bound
  rcases rooted with ⟨height, power, denotes, nonnegative, bound, low⟩
  have within : |height| < overflowLimit := by
    rw [abs_of_nonneg nonnegative]
    exact bound.trans_lt (two_pow_lt_overflowLimit low)
  have packed : value number.sqrt = saturated height ∧ number.sqrt.isNaN = false :=
    value_pack denotes
  rw [saturated_of_abs_le within.le] at packed
  constructor
  · exact (isFinite_iff packed.2).mpr (by rwa [packed.1])
  · exact zero_le_iff.mpr ⟨packed.2, by rwa [packed.1]⟩

theorem zero_le_sqrt {number : Float} (least : 0 ≤ number) : 0 ≤ number.sqrt := by
  by_cases finite : number.isFinite = true
  · exact (isFinite_sqrt least finite).2
  · apply zero_le_of_unpack
    change (Float.Model.pack (UnpackedFloat.sqrt .binary64 number.toModel.unpack)).unpack = _
    rw [unpack_of_infinite least finite]
    exact unpack_packedInfinity .positive

end FrameTiming.Number
