import FrameTiming.Proofs.Number.Rounding

/-! # Rounding of mantissas

An unpacked number is a sign, a mantissa and an exponent. `Denotes` says which rational number a
canonical one stands for. Shifting a mantissa keeps apart what it leaves out, so that the rounded
mantissa is the one of the rounded number.
-/

namespace FrameTiming.Number

open Float.Model (Format totalExponent UnpackedFloat)
open Float.Model.UnpackedFloat (Sign Accuracy ExtendedMantissa shiftToExponent roundWithAccuracy
  decreaseExponent)

/-! ## What a mantissa leaves out -/

/-- The part of a unit that an accuracy stands for. -/
def LeavesOut : Accuracy → ℚ → Prop
  | .exact, part => part = 0
  | .inexact .lt, part => 0 < part ∧ part < 1 / 2
  | .inexact .eq, part => part = 1 / 2
  | .inexact .gt, part => 1 / 2 < part ∧ part < 1

theorem leavesOut_exact : LeavesOut .exact 0 :=
  rfl

theorem LeavesOut.bounds {accuracy : Accuracy} {part : ℚ} (leaves : LeavesOut accuracy part) :
    0 ≤ part ∧ part < 1 := by
  rcases accuracy with _ | (_ | _ | _) <;> simp only [LeavesOut] at leaves <;>
    constructor <;> linarith

/-- A mantissa with its residual bits stands for a number. -/
def Approximates (extended : ExtendedMantissa) (number : ℚ) : Prop :=
  LeavesOut extended.accuracy (number - extended.mantissa)

theorem Approximates.floor {extended : ExtendedMantissa} {number : ℚ}
    (approximates : Approximates extended number) : ⌊number⌋₊ = extended.mantissa := by
  have bounds := LeavesOut.bounds approximates
  have natural : (0 : ℚ) ≤ extended.mantissa := by positivity
  rw [Nat.floor_eq_iff (by linarith)]
  constructor <;> linarith

theorem Approximates.roundedMantissa {extended : ExtendedMantissa} {number : ℚ}
    (approximates : Approximates extended number) :
    extended.roundedMantissa = nearestEven number := by
  have below := approximates.floor
  unfold Approximates at approximates
  unfold nearestEven ExtendedMantissa.roundedMantissa
  rw [below]
  dsimp only
  generalize extended.accuracy = accuracy at approximates ⊢
  rcases accuracy with _ | (_ | _ | _) <;>
    simp only [LeavesOut, Accuracy.roundToNearestEven] at approximates ⊢
  · rw [if_pos (by linarith)]
  · rw [if_pos (by linarith)]
  · rw [if_neg (by linarith), if_neg (by linarith)]
  · rw [if_neg (by linarith), if_pos (by linarith)]

theorem approximates_ofMantissaAndAccuracy (mantissa : ℕ) {accuracy : Accuracy} {part : ℚ}
    (leaves : LeavesOut accuracy part) :
    Approximates (.ofMantissaAndAccuracy mantissa accuracy) (mantissa + part) := by
  rcases accuracy with _ | (_ | _ | _) <;>
    simpa [Approximates, ExtendedMantissa.ofMantissaAndAccuracy, ExtendedMantissa.accuracy]
      using leaves

theorem Approximates.shiftRightOne {extended : ExtendedMantissa} {number : ℚ}
    (approximates : Approximates extended number) :
    Approximates extended.shiftRightOne (number / 2) := by
  rcases extended with ⟨mantissa, roundBit, stickyBit⟩
  have halves : (mantissa : ℚ) = 2 * (mantissa / 2 : ℕ) + (mantissa % 2 : ℕ) := by
    exact_mod_cast (Nat.div_add_mod mantissa 2).symm
  rcases Nat.mod_two_eq_zero_or_one mantissa with parity | parity <;>
    cases roundBit <;> cases stickyBit <;>
    simp [Approximates, ExtendedMantissa.accuracy, ExtendedMantissa.shiftRightOne, LeavesOut,
      parity] at approximates halves ⊢ <;>
    first | linarith | (constructor <;> linarith)

theorem Approximates.shiftRight {extended : ExtendedMantissa} {number : ℚ}
    (approximates : Approximates extended number) (amount : ℕ) :
    Approximates (extended >>> amount) (number / 2 ^ amount) := by
  change Approximates (amount.repeat ExtendedMantissa.shiftRightOne extended) (number / 2 ^ amount)
  induction amount with
  | zero => simpa [Nat.repeat] using approximates
  | succ amount induction =>
      rw [Nat.repeat, pow_succ, ← div_div]
      exact induction.shiftRightOne

/-- Shifting to a larger exponent loses nothing but what the residual bits keep. -/
theorem shiftToExponent_approximates (mantissa : ℕ) {exponent target : ℤ} {accuracy : Accuracy}
    {part : ℚ} (leaves : LeavesOut accuracy part) (upwards : exponent ≤ target) :
    Approximates (shiftToExponent mantissa exponent accuracy target).1
        ((mantissa + part) * 2 ^ exponent / 2 ^ target) ∧
      (shiftToExponent mantissa exponent accuracy target).2 = target := by
  have amount : ((target - exponent).toNat : ℤ) = target - exponent :=
    Int.toNat_of_nonneg (by linarith)
  constructor
  · have shifted := (approximates_ofMantissaAndAccuracy mantissa leaves).shiftRight
      (target - exponent).toNat
    have scale : (mantissa + part) / 2 ^ (target - exponent).toNat =
        (mantissa + part) * 2 ^ exponent / 2 ^ target := by
      rw [← zpow_natCast, amount, zpow_sub₀ (by norm_num), div_div_eq_mul_div]
    rwa [scale] at shifted
  · simp only [shiftToExponent, amount]
    ring

theorem shiftToExponent_downwards (mantissa : ℕ) {exponent target : ℤ}
    (downwards : target ≤ exponent) :
    shiftToExponent mantissa exponent .exact target = (⟨mantissa, false, false⟩, exponent) := by
  have none : (target - exponent).toNat = 0 := Int.toNat_of_nonpos (by linarith)
  simp only [shiftToExponent, none, Nat.cast_zero, add_zero]
  rfl

/-! ## Canonical numbers -/

/-- A magnitude with a sign. -/
def withSign : Sign → ℚ → ℚ
  | .positive, magnitude => magnitude
  | .negative, magnitude => -magnitude

/-- The canonical number of a format for a rational number. The exponent may be too large to fit. -/
inductive Denotes (format : Format) : UnpackedFloat → ℚ → Prop
  | zero (sign : Sign) : Denotes format (.zero sign) 0
  | finite (sign : Sign) (mantissa : ℕ) (exponent : ℤ) (positive : 0 < mantissa)
      (canonical : exponent = format.targetExponent (totalExponent mantissa exponent)) :
      Denotes format (.finite sign mantissa exponent positive)
        (withSign sign (mantissa * 2 ^ exponent))

@[simp] theorem withSign_zero (sign : Sign) : withSign sign 0 = 0 := by
  cases sign <;> simp [withSign]

theorem rounded_withSign (format : Format) (sign : Sign) {magnitude : ℚ}
    (nonnegative : 0 ≤ magnitude) :
    rounded format (withSign sign magnitude) =
      withSign sign (roundedMagnitude format magnitude) := by
  cases sign with
  | positive => exact rounded_of_nonneg format nonnegative
  | negative =>
      change rounded format (-magnitude) = -roundedMagnitude format magnitude
      rw [rounded_neg, rounded_of_nonneg format nonnegative]

theorem targetExponent_eq_max (format : Format) (mantissa : ℕ) (exponent : ℤ) :
    format.targetExponent (totalExponent mantissa exponent) =
      max ((mantissa.log2 : ℤ) + 1 + exponent - format.mantissaBits) format.minExponent :=
  rfl

/-- The mantissa alone decides which unit a number has. -/
theorem unitExponent_eq_of_mantissa_pos (format : Format) {mantissa : ℕ} (exponent : ℤ) {part : ℚ}
    (positive : 0 < mantissa) (least : 0 ≤ part) (most : part < 1) :
    unitExponent format ((mantissa + part) * 2 ^ exponent) =
      format.targetExponent (totalExponent mantissa exponent) := by
  have whole : (1 : ℚ) ≤ mantissa := by exact_mod_cast positive
  have number : 0 < (mantissa + part) * (2 : ℚ) ^ exponent := by positivity
  have below : (2 : ℚ) ^ ((mantissa.log2 : ℤ) + exponent) ≤ (mantissa + part) * 2 ^ exponent := by
    rw [zpow_add₀ (by norm_num), zpow_natCast]
    have bits : (2 : ℚ) ^ mantissa.log2 ≤ mantissa := by
      exact_mod_cast Nat.log2_self_le positive.ne'
    gcongr
    linarith
  have above :
      (mantissa + part) * 2 ^ exponent < (2 : ℚ) ^ ((mantissa.log2 : ℤ) + exponent + 1) := by
    rw [add_right_comm, zpow_add₀ (by norm_num)]
    have bits : (mantissa : ℚ) + 1 ≤ 2 ^ ((mantissa.log2 : ℤ) + 1) := by
      exact_mod_cast Nat.lt_log2_self (n := mantissa)
    gcongr
    linarith
  have log : Int.log 2 ((mantissa + part) * (2 : ℚ) ^ exponent) = mantissa.log2 + exponent := by
    apply le_antisymm
    · have lt := (Int.lt_zpow_iff_log_lt (b := 2) (by norm_num) number).mp (by exact_mod_cast above)
      omega
    · exact (Int.zpow_le_iff_le_log (b := 2) (by norm_num) number).mp (by exact_mod_cast below)
  rw [unitExponent, log, totalExponent]
  congr 1
  ring

/-- A mantissa that is fine enough, or is in the smallest unit, decides which unit a number has. -/
theorem unitExponent_eq (format : Format) {mantissa : ℕ} {exponent : ℤ} {part : ℚ}
    (least : 0 ≤ part) (most : part < 1)
    (positive : 0 < (mantissa + part) * (2 : ℚ) ^ exponent)
    (fine : exponent ≤ format.targetExponent (totalExponent mantissa exponent)) :
    unitExponent format ((mantissa + part) * 2 ^ exponent) =
      format.targetExponent (totalExponent mantissa exponent) := by
  rcases Nat.eq_zero_or_pos mantissa with rfl | mantissaPositive
  · have bits := two_le_mantissaBits format
    have small : ((0 : ℕ) + part) * 2 ^ exponent < (2 : ℚ) ^ exponent := by
      rw [Nat.cast_zero, zero_add]
      exact mul_lt_of_lt_one_left (by positivity) most
    have log :=
      (Int.lt_zpow_iff_log_lt (b := 2) (by norm_num) positive).mp (by exact_mod_cast small)
    rw [targetExponent_eq_max, Nat.log2_zero] at fine ⊢
    rw [unitExponent_eq_max]
    omega
  · exact unitExponent_eq_of_mantissa_pos format exponent mantissaPositive least most

theorem Denotes.mantissa_lt {format : Format} {mantissa : ℕ} {exponent : ℤ}
    (positive : 0 < mantissa)
    (canonical : exponent = format.targetExponent (totalExponent mantissa exponent)) :
    mantissa < 2 ^ format.mantissaBits ∧ format.minExponent ≤ exponent := by
  rw [targetExponent_eq_max] at canonical
  constructor
  · rw [← Nat.log2_lt positive.ne']
    omega
  · omega

/-- Rounding leaves a number alone that the format has. -/
theorem Denotes.rounded_eq {format : Format} {unpacked : UnpackedFloat} {number : ℚ}
    (denotes : Denotes format unpacked number) : rounded format number = number := by
  cases denotes with
  | zero => exact rounded_zero format
  | finite sign mantissa exponent positive canonical =>
      have fits := Denotes.mantissa_lt positive canonical
      rw [rounded_withSign format sign (by positivity),
        roundedMagnitude_representable ⟨mantissa, exponent, fits.1, fits.2, rfl⟩]

/-! ## Rounding -/

/-- A mantissa of the format is canonical if it fills all its places or is in the smallest unit. -/
theorem eq_targetExponent (format : Format) {mantissa : ℕ} {exponent : ℤ} (positive : 0 < mantissa)
    (fits : mantissa < 2 ^ format.mantissaBits) (least : format.minExponent ≤ exponent)
    (full : format.minExponent < exponent → 2 ^ (format.mantissaBits - 1) ≤ mantissa) :
    exponent = format.targetExponent (totalExponent mantissa exponent) := by
  have bits := two_le_mantissaBits format
  have log : mantissa.log2 < format.mantissaBits := (Nat.log2_lt positive.ne').mpr fits
  rw [targetExponent_eq_max]
  rcases least.lt_or_eq with above | smallest
  · have filled := (Nat.le_log2 positive.ne').mpr (full above)
    omega
  · omega

/-- A mantissa that is one place too long is halved. -/
theorem mantissa_shiftToExponent_overlong (format : Format) (exponent : ℤ) :
    (shiftToExponent (2 ^ format.mantissaBits) exponent .exact (exponent + 1)).1.mantissa =
      2 ^ (format.mantissaBits - 1) := by
  have bits := two_le_mantissaBits format
  have floor := (shiftToExponent_approximates (2 ^ format.mantissaBits) leavesOut_exact
    (exponent.le_add_one le_rfl)).1.floor
  have half : (2 : ℚ) ^ format.mantissaBits = 2 ^ (format.mantissaBits - 1) * 2 := by
    rw [← pow_succ, Nat.sub_add_cancel (by omega)]
  have number : (((2 ^ format.mantissaBits : ℕ) : ℚ) + 0) * 2 ^ exponent / 2 ^ (exponent + 1) =
      ((2 ^ (format.mantissaBits - 1) : ℕ) : ℚ) := by
    rw [add_zero, zpow_add₀ (by norm_num)]
    push_cast
    rw [half]
    field_simp
  rw [number, Nat.floor_natCast] at floor
  exact floor.symm

/-- A rounded mantissa of a unit gives a canonical number, with one more shift if it is too long. -/
theorem denotes_shiftToTargetExponent (format : Format) (sign : Sign) {mantissa : ℕ} {exponent : ℤ}
    (within : mantissa ≤ 2 ^ format.mantissaBits) (least : format.minExponent ≤ exponent)
    (full : format.minExponent < exponent → 2 ^ (format.mantissaBits - 1) ≤ mantissa) :
    let shifted := Float.Model.UnpackedFloat.shiftToTargetExponent format mantissa exponent .exact
    Denotes format
      (if none : shifted.1.mantissa = 0 then .zero sign
        else .finite sign shifted.1.mantissa shifted.2 (Nat.pos_of_ne_zero none))
      (withSign sign (mantissa * 2 ^ exponent)) := by
  intro shifted
  have bits := two_le_mantissaBits format
  rcases Nat.eq_zero_or_pos mantissa with rfl | positive
  · have same : shifted = (⟨0, false, false⟩, exponent) := by
      apply shiftToExponent_downwards
      rw [targetExponent_eq_max, Nat.log2_zero]
      omega
    rw [same]
    simpa using Denotes.zero sign
  rcases within.lt_or_eq with fits | overlong
  · have canonical := eq_targetExponent format positive fits least full
    have same : shifted = (⟨mantissa, false, false⟩, exponent) :=
      shiftToExponent_downwards mantissa canonical.ge
    rw [same, dif_neg positive.ne']
    exact .finite sign mantissa exponent positive canonical
  · have target : format.targetExponent (totalExponent mantissa exponent) = exponent + 1 := by
      rw [overlong, targetExponent_eq_max, Nat.log2_two_pow]
      omega
    have moved :
        shifted = shiftToExponent (2 ^ format.mantissaBits) exponent .exact (exponent + 1) := by
      rw [← target, ← overlong]
      rfl
    have halved : shifted.1.mantissa = 2 ^ (format.mantissaBits - 1) := by
      rw [moved, mantissa_shiftToExponent_overlong]
    have up : shifted.2 = exponent + 1 := by
      rw [moved, (shiftToExponent_approximates _ leavesOut_exact (exponent.le_add_one le_rfl)).2]
    have halfPositive : 0 < 2 ^ (format.mantissaBits - 1) := by positivity
    have value : (mantissa : ℚ) * 2 ^ exponent =
        ((2 ^ (format.mantissaBits - 1) : ℕ) : ℚ) * 2 ^ (exponent + 1) := by
      have split : format.mantissaBits = format.mantissaBits - 1 + 1 := by omega
      rw [overlong, zpow_add₀ (by norm_num), split, pow_succ, Nat.add_sub_cancel]
      push_cast
      ring
    rw [dif_neg (by omega), value]
    simp only [halved, up]
    apply Denotes.finite sign _ _ halfPositive
    apply eq_targetExponent format halfPositive _ (by omega) fun _ => le_rfl
    exact Nat.pow_lt_pow_right (by norm_num) (by omega)

/-- Rounding gives the canonical number nearest to the one that the mantissa and its accuracy stand
for, provided the mantissa is fine enough. -/
theorem denotes_roundWithAccuracy (format : Format) (sign : Sign) (mantissa : ℕ) {exponent : ℤ}
    {accuracy : Accuracy} {part : ℚ} (leaves : LeavesOut accuracy part)
    (fine : exponent ≤ format.targetExponent (totalExponent mantissa exponent)) :
    Denotes format (roundWithAccuracy format sign mantissa exponent accuracy)
      (withSign sign (roundedMagnitude format ((mantissa + part) * 2 ^ exponent))) := by
  have bounds := leaves.bounds
  have shift := shiftToExponent_approximates mantissa leaves fine
  generalize number : ((mantissa : ℚ) + part) * 2 ^ exponent = value at shift ⊢
  have natural : (0 : ℚ) ≤ mantissa := by positivity
  have nonnegative : 0 ≤ value := by
    rw [← number]
    exact mul_nonneg (by linarith) (by positivity)
  -- Zero has no unit of its own, so only other numbers are compared with theirs.
  have unit : 0 < value → unitExponent format value =
      format.targetExponent (totalExponent mantissa exponent) := by
    intro positive
    rw [← number] at positive ⊢
    exact unitExponent_eq format bounds.1 bounds.2 positive fine
  have smallest : value = 0 →
      format.targetExponent (totalExponent mantissa exponent) = format.minExponent := by
    intro none
    have bits := two_le_mantissaBits format
    have zero : mantissa = 0 := by
      rcases mul_eq_zero.mp (number.trans none) with sum | power
      · have cast : (mantissa : ℚ) = 0 := by linarith
        exact_mod_cast cast
      · exact absurd power (by positivity)
    rw [zero, targetExponent_eq_max, Nat.log2_zero] at fine ⊢
    omega
  have least : format.minExponent ≤ format.targetExponent (totalExponent mantissa exponent) :=
    le_max_right _ _
  have unfolded : roundWithAccuracy format sign mantissa exponent accuracy =
      let shifted := Float.Model.UnpackedFloat.shiftToTargetExponent format
        (shiftToExponent mantissa exponent accuracy
          (format.targetExponent (totalExponent mantissa exponent))).1.roundedMantissa
        (shiftToExponent mantissa exponent accuracy
          (format.targetExponent (totalExponent mantissa exponent))).2 .exact
      if none : shifted.1.mantissa = 0 then .zero sign
      else .finite sign shifted.1.mantissa shifted.2 (Nat.pos_of_ne_zero none) := rfl
  rw [unfolded, shift.2, shift.1.roundedMantissa]
  generalize format.targetExponent (totalExponent mantissa exponent) = target at *
  have magnitude :
      roundedMagnitude format value = nearestEven (value / 2 ^ target) * 2 ^ target := by
    rcases nonnegative.eq_or_lt with rfl | positive
    · have none : nearestEven 0 = 0 := nearestEven_natCast 0
      simp [none]
    · rw [roundedMagnitude, unit positive]
  rw [magnitude]
  apply denotes_shiftToTargetExponent format sign _ least
  · intro above
    have positive : 0 < value := by
      apply lt_of_le_of_ne nonnegative
      intro none
      exact above.ne (smallest none.symm).symm
    apply le_nearestEven_of_le
    rw [le_div_iff₀ (by positivity), ← unit positive]
    exact_mod_cast two_pow_mul_unit_le format positive (by rwa [unit positive])
  · apply nearestEven_le_of_le
    rw [div_le_iff₀ (by positivity)]
    rcases nonnegative.eq_or_lt with rfl | positive
    · positivity
    · rw [← unit positive]
      exact_mod_cast (lt_two_pow_mul_unit format value).le

theorem decreaseExponent_value (mantissa : ℕ) {exponent target : ℤ}
    (downwards : target ≤ exponent) :
    ((decreaseExponent mantissa exponent target).1 : ℚ) * 2 ^ target = mantissa * 2 ^ exponent := by
  have amount : ((exponent - target).toNat : ℤ) = exponent - target :=
    Int.toNat_of_nonneg (by linarith)
  have shifted : (decreaseExponent mantissa exponent target).1 =
      mantissa * 2 ^ (exponent - target).toNat := Nat.shiftLeft_eq ..
  rw [shifted]
  push_cast
  rw [← zpow_natCast, amount, mul_assoc, ← zpow_add₀ (by norm_num), sub_add_cancel]

theorem log2_mul_two_pow {number : ℕ} (positive : 0 < number) (amount : ℕ) :
    (number * 2 ^ amount).log2 = number.log2 + amount := by
  have bits := (Nat.log2_eq_iff positive.ne').mp rfl
  rw [Nat.log2_eq_iff (by positivity), pow_add, add_right_comm, pow_add _ _ amount]
  constructor
  · exact Nat.mul_le_mul_right _ bits.1
  · exact Nat.mul_lt_mul_of_pos_right bits.2 (by positivity)

theorem denotes_round (format : Format) (sign : Sign) {mantissa : ℕ} (exponent : ℤ)
    (positive : 0 < mantissa) :
    Denotes format (Float.Model.UnpackedFloat.round format sign mantissa exponent)
      (withSign sign (roundedMagnitude format (mantissa * 2 ^ exponent))) := by
  have total : ∀ amount : ℕ, totalExponent (mantissa * 2 ^ amount) (exponent - amount) =
      totalExponent mantissa exponent := by
    intro amount
    rw [totalExponent, log2_mul_two_pow positive, totalExponent]
    push_cast
    ring
  let amount := (exponent - format.targetExponent (totalExponent mantissa exponent)).toNat
  have unfolded : Float.Model.UnpackedFloat.round format sign mantissa exponent =
      roundWithAccuracy format sign (mantissa * 2 ^ amount) (exponent - amount) .exact := by
    rw [← Nat.shiftLeft_eq]
    rfl
  have value : ((mantissa * 2 ^ amount : ℕ) + 0) * (2 : ℚ) ^ (exponent - amount) =
      mantissa * 2 ^ exponent := by
    push_cast
    rw [add_zero, mul_assoc, ← zpow_natCast, ← zpow_add₀ (by norm_num), add_sub_cancel]
  rw [unfolded, ← value]
  apply denotes_roundWithAccuracy format sign _ leavesOut_exact
  rw [total]
  omega

theorem denotes_normalize (format : Format) (mantissa exponent : ℤ) (zeroSign : Sign) :
    Denotes format (Float.Model.UnpackedFloat.normalize format mantissa exponent zeroSign)
      (rounded format (mantissa * 2 ^ exponent)) := by
  unfold Float.Model.UnpackedFloat.normalize
  rcases lt_trichotomy mantissa 0 with negative | rfl | positive
  · have order : compare mantissa 0 = .lt := compare_lt_iff_lt.mpr negative
    have magnitude : (mantissa : ℚ) * 2 ^ exponent =
        withSign .negative ((-mantissa).toNat * 2 ^ exponent) := by
      have cast : (((-mantissa).toNat : ℤ) : ℚ) = -mantissa := by
        rw [Int.toNat_of_nonneg (by omega)]
        push_cast
        rfl
      rw [← Int.cast_natCast, cast, withSign]
      ring
    rw [order, magnitude, rounded_withSign format .negative (by positivity)]
    exact denotes_round format .negative exponent (by omega)
  · have order : compare (0 : ℤ) 0 = .eq := rfl
    rw [order]
    simpa using Denotes.zero zeroSign
  · have order : compare mantissa 0 = .gt := compare_gt_iff_gt.mpr positive
    have magnitude : (mantissa : ℚ) * 2 ^ exponent =
        withSign .positive (mantissa.toNat * 2 ^ exponent) := by
      have cast : ((mantissa.toNat : ℤ) : ℚ) = mantissa := by
        rw [Int.toNat_of_nonneg (by omega)]
      rw [← Int.cast_natCast, cast, withSign]
    rw [order, magnitude, rounded_withSign format .positive (by positivity)]
    exact denotes_round format .positive exponent (by omega)

end FrameTiming.Number
