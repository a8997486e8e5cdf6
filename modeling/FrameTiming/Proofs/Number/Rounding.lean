import Mathlib

/-! # Rounding to a format

The numbers of a format are whole multiples of a unit, and the unit grows with the number. `rounded`
takes a rational number to the nearest one, a tie to the even multiple. The exponent has no upper end
here: what is too large for the format is rounded as if it were not.
-/

namespace FrameTiming.Number

open Float.Model (Format)

/-! ## Whole numbers -/

/-- The nearest whole number, of two the even one. -/
def nearestEven (number : ℚ) : ℕ :=
  let below := ⌊number⌋₊
  if number - below < 1 / 2 then below
  else if 1 / 2 < number - below then below + 1
  else below + below % 2

theorem floor_le_nearestEven (number : ℚ) : ⌊number⌋₊ ≤ nearestEven number := by
  unfold nearestEven
  dsimp only
  split_ifs <;> omega

theorem nearestEven_le_floor_add_one (number : ℚ) : nearestEven number ≤ ⌊number⌋₊ + 1 := by
  unfold nearestEven
  dsimp only
  split_ifs <;> omega

@[simp] theorem nearestEven_natCast (number : ℕ) : nearestEven number = number := by
  simp [nearestEven]

theorem nearestEven_mono {smaller larger : ℚ} (order : smaller ≤ larger) :
    nearestEven smaller ≤ nearestEven larger := by
  rcases (Nat.floor_mono order).lt_or_eq with apart | same
  · calc nearestEven smaller ≤ ⌊smaller⌋₊ + 1 := nearestEven_le_floor_add_one smaller
      _ ≤ ⌊larger⌋₊ := apart
      _ ≤ nearestEven larger := floor_le_nearestEven larger
  · -- Both lie over the same whole number, so the larger one goes up if the smaller one does.
    unfold nearestEven
    rw [same]
    dsimp only
    split_ifs <;> first | omega | (exfalso; linarith)

theorem nearestEven_le_of_le {number : ℚ} {bound : ℕ} (within : number ≤ bound) :
    nearestEven number ≤ bound := by
  simpa using nearestEven_mono within

theorem le_nearestEven_of_le {number : ℚ} {bound : ℕ} (within : (bound : ℚ) ≤ number) :
    bound ≤ nearestEven number := by
  simpa using nearestEven_mono within

theorem nearestEven_le_add_half {number : ℚ} (nonnegative : 0 ≤ number) :
    (nearestEven number : ℚ) ≤ number + 1 / 2 := by
  have below := Nat.floor_le nonnegative
  have parity : ((⌊number⌋₊ % 2 : ℕ) : ℚ) ≤ 1 := by
    exact_mod_cast Nat.le_of_lt_succ (Nat.mod_lt _ two_pos)
  unfold nearestEven
  dsimp only
  split_ifs <;> push_cast <;> linarith

/-! ## Units -/

/-- The exponent of the unit whose multiples lie around a number. -/
def unitExponent (format : Format) (number : ℚ) : ℤ :=
  format.targetExponent (Int.log 2 number + 1)

/-- A number of the format, its exponent unbounded above. -/
def Representable (format : Format) (number : ℚ) : Prop :=
  ∃ (mantissa : ℕ) (exponent : ℤ), mantissa < 2 ^ format.mantissaBits ∧
    format.minExponent ≤ exponent ∧ number = mantissa * 2 ^ exponent

theorem two_le_mantissaBits (format : Format) : 2 ≤ format.mantissaBits := by
  have bits := format.hm
  simp only [Format.mantissaBits]
  omega

theorem minExponent_nonpos (format : Format) : format.minExponent ≤ 0 := by
  have bits := two_le_mantissaBits format
  have exponents : (1 : ℤ) ≤ 2 ^ (format.exponentBits - 1) := one_le_pow₀ (by norm_num)
  unfold Format.minExponent
  omega

theorem unitExponent_eq_max (format : Format) (number : ℚ) :
    unitExponent format number =
      max (Int.log 2 number + 1 - format.mantissaBits) format.minExponent :=
  rfl

theorem minExponent_le_unitExponent (format : Format) (number : ℚ) :
    format.minExponent ≤ unitExponent format number :=
  le_max_right _ _

theorem unitExponent_mono (format : Format) {smaller larger : ℚ} (positive : 0 < smaller)
    (order : smaller ≤ larger) : unitExponent format smaller ≤ unitExponent format larger := by
  have logs := Int.log_mono_right (b := 2) positive order
  rw [unitExponent_eq_max, unitExponent_eq_max]
  omega

/-- A number takes up no more units than its mantissa has values. -/
theorem lt_two_pow_mul_unit (format : Format) (number : ℚ) :
    number < 2 ^ format.mantissaBits * 2 ^ unitExponent format number := by
  have exponent : Int.log 2 number + 1 ≤ format.mantissaBits + unitExponent format number := by
    rw [unitExponent_eq_max]
    omega
  calc number < 2 ^ (Int.log 2 number + 1) := by
        exact_mod_cast Int.lt_zpow_succ_log_self (by norm_num : 1 < 2) number
    _ ≤ 2 ^ (format.mantissaBits + unitExponent format number) :=
        zpow_le_zpow_right₀ (by norm_num) exponent
    _ = 2 ^ format.mantissaBits * 2 ^ unitExponent format number := by
        rw [zpow_add₀ (by norm_num), zpow_natCast]

/-- Above the smallest unit a number fills the mantissa. -/
theorem two_pow_mul_unit_le (format : Format) {number : ℚ} (positive : 0 < number)
    (above : format.minExponent < unitExponent format number) :
    2 ^ (format.mantissaBits - 1) * 2 ^ unitExponent format number ≤ number := by
  have bits : 1 ≤ format.mantissaBits := Nat.le_add_right _ _
  have exponent : ((format.mantissaBits - 1 : ℕ) : ℤ) + unitExponent format number =
      Int.log 2 number := by
    rw [unitExponent_eq_max] at above ⊢
    omega
  rw [← zpow_natCast, ← zpow_add₀ (by norm_num), exponent]
  exact_mod_cast Int.zpow_log_le_self (by norm_num : 1 < 2) positive

/-- Of a representable number the unit is no larger than the one it is written in. -/
theorem unitExponent_le {format : Format} {mantissa : ℕ} {exponent : ℤ} (positive : 0 < mantissa)
    (fits : mantissa < 2 ^ format.mantissaBits) (least : format.minExponent ≤ exponent) :
    unitExponent format (mantissa * 2 ^ exponent) ≤ exponent := by
  have value : (0 : ℚ) < mantissa * 2 ^ exponent := by positivity
  have small : (mantissa * 2 ^ exponent : ℚ) < 2 ^ (format.mantissaBits + exponent) := by
    rw [zpow_add₀ (by norm_num), zpow_natCast]
    have cast : (mantissa : ℚ) < 2 ^ format.mantissaBits := by exact_mod_cast fits
    exact mul_lt_mul_of_pos_right cast (by positivity)
  have log : Int.log 2 (mantissa * 2 ^ exponent : ℚ) < format.mantissaBits + exponent :=
    (Int.lt_zpow_iff_log_lt (by norm_num) value).mp (by exact_mod_cast small)
  rw [unitExponent_eq_max]
  omega

/-! ## Magnitudes -/

/-- The number of the format nearest to a number that is not negative. -/
def roundedMagnitude (format : Format) (number : ℚ) : ℚ :=
  nearestEven (number / 2 ^ unitExponent format number) * 2 ^ unitExponent format number

theorem roundedMagnitude_nonneg (format : Format) (number : ℚ) :
    0 ≤ roundedMagnitude format number := by
  unfold roundedMagnitude
  positivity

@[simp] theorem roundedMagnitude_zero (format : Format) : roundedMagnitude format 0 = 0 := by
  have none : nearestEven 0 = 0 := nearestEven_natCast 0
  simp [roundedMagnitude, none]

/-- A whole multiple of the unit or of a larger one is left as it is. -/
theorem roundedMagnitude_multiple (format : Format) {number : ℚ} (mantissa : ℕ) {exponent : ℤ}
    (coarser : unitExponent format number ≤ exponent) (same : number = mantissa * 2 ^ exponent) :
    roundedMagnitude format number = number := by
  rcases Int.eq_ofNat_of_zero_le (sub_nonneg.mpr coarser) with ⟨steps, split⟩
  have units : number / 2 ^ unitExponent format number = ((mantissa * 2 ^ steps : ℕ) : ℚ) := by
    rw [div_eq_iff (by positivity)]
    conv_lhs => rw [same, ← sub_add_cancel exponent (unitExponent format number), split,
      zpow_add₀ (by norm_num)]
    push_cast
    rw [zpow_natCast, mul_assoc]
  unfold roundedMagnitude
  rw [units, nearestEven_natCast, ← units, div_mul_cancel₀ _ (by positivity)]

theorem roundedMagnitude_representable {format : Format} {number : ℚ}
    (exact : Representable format number) : roundedMagnitude format number = number := by
  rcases exact with ⟨mantissa, exponent, fits, least, rfl⟩
  rcases Nat.eq_zero_or_pos mantissa with rfl | positive
  · simp
  · exact roundedMagnitude_multiple format mantissa (unitExponent_le positive fits least) rfl

theorem nearestEven_div_unit_le (format : Format) (number : ℚ) :
    nearestEven (number / 2 ^ unitExponent format number) ≤ 2 ^ format.mantissaBits := by
  apply nearestEven_le_of_le
  rw [div_le_iff₀ (by positivity)]
  exact_mod_cast (lt_two_pow_mul_unit format number).le

theorem roundedMagnitude_mono (format : Format) {smaller larger : ℚ} (nonnegative : 0 ≤ smaller)
    (order : smaller ≤ larger) :
    roundedMagnitude format smaller ≤ roundedMagnitude format larger := by
  rcases nonnegative.eq_or_lt with rfl | positive
  · simpa using roundedMagnitude_nonneg format larger
  rcases (unitExponent_mono format positive order).eq_or_lt with same | apart
  · unfold roundedMagnitude
    rw [same]
    have steps : nearestEven (smaller / 2 ^ unitExponent format larger) ≤
        nearestEven (larger / 2 ^ unitExponent format larger) :=
      nearestEven_mono (div_le_div_of_nonneg_right order (by positivity))
    gcongr
  · -- The smallest number with the larger unit lies in between and is a multiple of both units.
    have above := (minExponent_le_unitExponent format smaller).trans_lt apart
    have bits : 1 ≤ format.mantissaBits := Nat.le_add_right _ _
    rcases Int.eq_ofNat_of_zero_le (Int.sub_nonneg_of_le (Int.add_one_le_of_lt apart)) with
      ⟨steps, split⟩
    have lowerHalf : (2 : ℚ) ^ format.mantissaBits * 2 ^ unitExponent format smaller * 2 ^ steps =
        2 ^ (format.mantissaBits - 1) * 2 ^ unitExponent format larger := by
      have exponents : (format.mantissaBits : ℤ) + unitExponent format smaller + steps =
          ((format.mantissaBits - 1 : ℕ) : ℤ) + unitExponent format larger := by omega
      rw [← zpow_natCast, ← zpow_natCast, ← zpow_natCast, ← zpow_add₀ (by norm_num),
        ← zpow_add₀ (by norm_num), ← zpow_add₀ (by norm_num), exponents]
    calc roundedMagnitude format smaller
        ≤ 2 ^ format.mantissaBits * 2 ^ unitExponent format smaller := by
          unfold roundedMagnitude
          have cast : (nearestEven (smaller / 2 ^ unitExponent format smaller) : ℚ) ≤
              2 ^ format.mantissaBits := by exact_mod_cast nearestEven_div_unit_le format smaller
          gcongr
      _ ≤ 2 ^ format.mantissaBits * 2 ^ unitExponent format smaller * 2 ^ steps :=
          le_mul_of_one_le_right (by positivity) (one_le_pow₀ (by norm_num))
      _ = 2 ^ (format.mantissaBits - 1) * 2 ^ unitExponent format larger := lowerHalf
      _ ≤ roundedMagnitude format larger := by
          unfold roundedMagnitude
          have within : 2 ^ (format.mantissaBits - 1) ≤
              nearestEven (larger / 2 ^ unitExponent format larger) := by
            apply le_nearestEven_of_le
            rw [le_div_iff₀ (by positivity)]
            exact_mod_cast two_pow_mul_unit_le format (positive.trans_le order) above
          have cast : (2 : ℚ) ^ (format.mantissaBits - 1) ≤
              nearestEven (larger / 2 ^ unitExponent format larger) := by exact_mod_cast within
          gcongr

theorem representable_roundedMagnitude (format : Format) (number : ℚ) :
    Representable format (roundedMagnitude format number) := by
  have bits := two_le_mantissaBits format
  have least := minExponent_le_unitExponent format number
  rcases (nearestEven_div_unit_le format number).lt_or_eq with fits | overlong
  · exact ⟨_, _, fits, least, rfl⟩
  · refine ⟨2 ^ (format.mantissaBits - 1), unitExponent format number + 1, ?_, by omega, ?_⟩
    · exact Nat.pow_lt_pow_right (by norm_num) (by omega)
    · rw [roundedMagnitude, overlong, zpow_add₀ (by norm_num), zpow_one, Nat.cast_pow, Nat.cast_pow,
        Nat.cast_ofNat, ← Nat.sub_add_cancel (show 1 ≤ format.mantissaBits by omega), pow_succ,
        Nat.add_sub_cancel]
      ring

/-- Where the mantissa is full, rounding up adds no more than half a unit of its last place. -/
theorem roundedMagnitude_le (format : Format) {number : ℚ} (positive : 0 < number)
    (above : format.minExponent < unitExponent format number) :
    roundedMagnitude format number ≤ number + number / 2 ^ format.mantissaBits := by
  have bits := two_le_mantissaBits format
  have full := two_pow_mul_unit_le format positive above
  have unit : (0 : ℚ) < 2 ^ unitExponent format number := by positivity
  have half := nearestEven_le_add_half (div_nonneg positive.le unit.le)
  have power : (2 : ℚ) ^ format.mantissaBits = 2 ^ (format.mantissaBits - 1) * 2 := by
    rw [← pow_succ, Nat.sub_add_cancel (by omega)]
  have unitLe : 2 ^ unitExponent format number / 2 ≤ number / 2 ^ format.mantissaBits := by
    rw [div_le_div_iff₀ (by norm_num) (by positivity), power]
    linarith
  calc roundedMagnitude format number
      ≤ (number / 2 ^ unitExponent format number + 1 / 2) * 2 ^ unitExponent format number :=
        mul_le_mul_of_nonneg_right half unit.le
    _ = number + 2 ^ unitExponent format number / 2 := by
        rw [add_mul, div_mul_cancel₀ _ unit.ne']
        ring
    _ ≤ number + number / 2 ^ format.mantissaBits := by linarith

/-! ## Numbers -/

/-- The number of the format nearest to a number. -/
def rounded (format : Format) (number : ℚ) : ℚ :=
  if number < 0 then -roundedMagnitude format (-number) else roundedMagnitude format number

theorem rounded_of_nonneg (format : Format) {number : ℚ} (nonnegative : 0 ≤ number) :
    rounded format number = roundedMagnitude format number :=
  if_neg nonnegative.not_gt

@[simp] theorem rounded_zero (format : Format) : rounded format 0 = 0 := by
  simp [rounded]

theorem rounded_neg (format : Format) (number : ℚ) :
    rounded format (-number) = -rounded format number := by
  rcases lt_trichotomy number 0 with negative | rfl | positive
  · rw [rounded_of_nonneg format (by linarith), rounded, if_pos negative, neg_neg]
  · simp
  · rw [rounded_of_nonneg format positive.le, rounded, if_pos (by linarith), neg_neg]

theorem rounded_nonneg (format : Format) {number : ℚ} (nonnegative : 0 ≤ number) :
    0 ≤ rounded format number := by
  rw [rounded_of_nonneg format nonnegative]
  exact roundedMagnitude_nonneg format number

theorem rounded_mono (format : Format) : Monotone (rounded format) := by
  intro smaller larger order
  rcases lt_or_ge smaller 0 with negative | nonnegative
  · rcases lt_or_ge larger 0 with bothNegative | split
    · rw [rounded, if_pos negative, rounded, if_pos bothNegative]
      exact neg_le_neg (roundedMagnitude_mono format (by linarith) (by linarith))
    · rw [rounded, if_pos negative, rounded_of_nonneg format split]
      have left := roundedMagnitude_nonneg format (-smaller)
      have right := roundedMagnitude_nonneg format larger
      linarith
  · rw [rounded_of_nonneg format nonnegative, rounded_of_nonneg format (nonnegative.trans order)]
    exact roundedMagnitude_mono format nonnegative order

theorem rounded_representable {format : Format} {number : ℚ} (exact : Representable format number) :
    rounded format number = number := by
  have nonnegative : 0 ≤ number := by
    rcases exact with ⟨mantissa, exponent, -, -, rfl⟩
    positivity
  rw [rounded_of_nonneg format nonnegative, roundedMagnitude_representable exact]

end FrameTiming.Number
