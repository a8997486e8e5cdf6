import FrameTiming.Proofs.Number.Unpacked

/-! # Rounded arithmetic

Every operation on canonical numbers gives the canonical number of the rounded exact result, and
comparing them compares what they stand for.
-/

namespace FrameTiming.Number

open Float.Model (Format totalExponent UnpackedFloat)
open Float.Model.UnpackedFloat (Sign roundWithAccuracy decreaseExponent accuracyOfFraction)

/-! ## Signs -/

theorem withSign_mul (left right : Sign) (first second : ℚ) :
    withSign left first * withSign right second = withSign (left * right) (first * second) := by
  cases left <;> cases right
  · exact neg_mul_neg first second
  · exact neg_mul first second
  · exact mul_neg first second
  · rfl

theorem withSign_mul_right (sign : Sign) (magnitude factor : ℚ) :
    withSign sign magnitude * factor = withSign sign (magnitude * factor) := by
  cases sign
  · exact neg_mul magnitude factor
  · rfl

theorem withSign_div (left right : Sign) (first second : ℚ) :
    withSign left first / withSign right second = withSign (left / right) (first / second) := by
  cases left <;> cases right
  · exact neg_div_neg_eq first second
  · exact neg_div second first
  · exact div_neg first
  · rfl

theorem cast_apply (sign : Sign) (number : ℕ) :
    ((sign.apply number : ℤ) : ℚ) = withSign sign number := by
  cases sign
  · exact Int.cast_neg (number : ℤ)
  · rfl

/-! ## Sums -/

theorem Denotes.neg {format : Format} {unpacked : UnpackedFloat} {number : ℚ}
    (denotes : Denotes format unpacked number) : Denotes format unpacked.neg (-number) := by
  cases denotes with
  | zero sign =>
      rw [neg_zero]
      exact .zero (-sign)
  | finite sign mantissa exponent positive canonical =>
      have flipped : -withSign sign (mantissa * 2 ^ exponent) =
          withSign (-sign) (mantissa * 2 ^ exponent) := by
        cases sign
        · exact neg_neg _
        · rfl
      rw [flipped]
      exact .finite (-sign) mantissa exponent positive canonical

theorem Denotes.add {format : Format} {left right : UnpackedFloat} {first second : ℚ}
    (denotesLeft : Denotes format left first) (denotesRight : Denotes format right second) :
    Denotes format (left.add format right) (rounded format (first + second)) := by
  cases denotesLeft with
  | zero leftSign =>
      rw [zero_add, denotesRight.rounded_eq]
      cases denotesRight with
      | zero rightSign => cases leftSign <;> cases rightSign <;> exact .zero _
      | finite rightSign mantissa exponent positive canonical =>
          exact .finite rightSign mantissa exponent positive canonical
  | finite leftSign leftMantissa leftExponent leftPositive leftCanonical =>
      cases denotesRight with
      | zero rightSign =>
          have same := Denotes.finite leftSign leftMantissa leftExponent leftPositive leftCanonical
          rw [add_zero, same.rounded_eq]
          exact same
      | finite rightSign rightMantissa rightExponent rightPositive rightCanonical =>
          let common := min leftExponent rightExponent
          let leftSteps := (decreaseExponent leftMantissa leftExponent common).1
          let rightSteps := (decreaseExponent rightMantissa rightExponent common).1
          have sum : withSign leftSign (leftMantissa * 2 ^ leftExponent) +
              withSign rightSign (rightMantissa * 2 ^ rightExponent) =
              ((leftSign.apply leftSteps + rightSign.apply rightSteps : ℤ) : ℚ) * 2 ^ common := by
            rw [Int.cast_add, add_mul, cast_apply, cast_apply, withSign_mul_right, withSign_mul_right,
              decreaseExponent_value leftMantissa (min_le_left _ _),
              decreaseExponent_value rightMantissa (min_le_right _ _)]
          rw [sum]
          exact denotes_normalize format _ common .positive

/-- Subtraction is addition of the negation, signs of zeros and infinities included. -/
theorem unpacked_sub_eq_add_neg (format : Format) (left right : UnpackedFloat) :
    left.sub format right = left.add format right.neg := by
  rcases left with leftSign | _ | leftSign | ⟨leftSign, leftMantissa, leftExponent, leftPositive⟩ <;>
    rcases right with rightSign | _ | rightSign |
      ⟨rightSign, rightMantissa, rightExponent, rightPositive⟩
  case finite.finite =>
    have opposite : ∀ number : ℤ, (-rightSign).apply number = -rightSign.apply number := by
      intro number
      cases rightSign
      · exact (neg_neg number).symm
      · rfl
    simp only [UnpackedFloat.sub, UnpackedFloat.add, UnpackedFloat.neg, opposite, sub_eq_add_neg]
  all_goals rfl

theorem Denotes.sub {format : Format} {left right : UnpackedFloat} {first second : ℚ}
    (denotesLeft : Denotes format left first) (denotesRight : Denotes format right second) :
    Denotes format (left.sub format right) (rounded format (first - second)) := by
  rw [unpacked_sub_eq_add_neg, sub_eq_add_neg]
  exact denotesLeft.add denotesRight.neg

/-! ## Products and quotients -/

theorem Denotes.mul {format : Format} {left right : UnpackedFloat} {first second : ℚ}
    (denotesLeft : Denotes format left first) (denotesRight : Denotes format right second) :
    Denotes format (left.mul format right) (rounded format (first * second)) := by
  cases denotesLeft with
  | zero leftSign =>
      rw [zero_mul, rounded_zero]
      cases denotesRight with
      | zero rightSign => exact .zero (leftSign * rightSign)
      | finite rightSign => exact .zero (leftSign * rightSign)
  | finite leftSign leftMantissa leftExponent leftPositive leftCanonical =>
      cases denotesRight with
      | zero rightSign =>
          rw [mul_zero, rounded_zero]
          exact .zero (leftSign * rightSign)
      | finite rightSign rightMantissa rightExponent rightPositive rightCanonical =>
          have product : withSign leftSign (leftMantissa * 2 ^ leftExponent) *
              withSign rightSign (rightMantissa * 2 ^ rightExponent) =
              withSign (leftSign * rightSign)
                (((leftMantissa * rightMantissa : ℕ) + 0) * 2 ^ (leftExponent + rightExponent)) := by
            rw [withSign_mul, zpow_add₀ (by norm_num)]
            push_cast
            congr 1
            ring
          rw [product, rounded_withSign format _ (by positivity)]
          apply denotes_roundWithAccuracy format _ _ leavesOut_exact
          have least := minExponent_nonpos format
          have bits : leftMantissa.log2 + rightMantissa.log2 ≤
              (leftMantissa * rightMantissa).log2 := by
            rw [Nat.le_log2 (by positivity), pow_add]
            exact Nat.mul_le_mul (Nat.log2_self_le leftPositive.ne')
              (Nat.log2_self_le rightPositive.ne')
          rw [targetExponent_eq_max] at leftCanonical rightCanonical ⊢
          omega

theorem leavesOut_accuracyOfFraction {numerator denominator : ℕ}
    (proper : numerator < denominator) :
    LeavesOut (accuracyOfFraction numerator denominator) (numerator / denominator) := by
  have positive : (0 : ℚ) < denominator := by
    exact_mod_cast (Nat.zero_le numerator).trans_lt proper
  have cast : (numerator : ℚ) < denominator := by exact_mod_cast proper
  unfold accuracyOfFraction
  rcases Nat.eq_zero_or_pos numerator with rfl | some
  · simp [LeavesOut]
  have castSome : (0 : ℚ) < numerator := by exact_mod_cast some
  rw [if_neg some.ne']
  rcases lt_trichotomy (2 * numerator) denominator with less | half | more
  · have castLess : (2 * numerator : ℚ) < denominator := by exact_mod_cast less
    rw [compare_lt_iff_lt.mpr less]
    constructor
    · positivity
    · rw [div_lt_iff₀ positive]
      linarith
  · have castHalf : (2 * numerator : ℚ) = denominator := by exact_mod_cast half
    rw [compare_eq_iff_eq.mpr half, LeavesOut, div_eq_iff positive.ne']
    linarith
  · have castMore : (denominator : ℚ) < 2 * numerator := by exact_mod_cast more
    rw [compare_gt_iff_gt.mpr more]
    constructor
    · rw [lt_div_iff₀ positive]
      linarith
    · rw [div_lt_iff₀ positive]
      linarith

/-- A dividend that was shifted far enough leaves a quotient of many bits. -/
theorem le_log2_quotient {dividend divisor count amount : ℕ} (dividendPositive : 0 < dividend)
    (divisorPositive : 0 < divisor) (enough : divisor.log2 + 1 + count ≤ dividend.log2 + amount) :
    count ≤ (dividend * 2 ^ amount / divisor).log2 := by
  have large : 2 ^ count ≤ dividend * 2 ^ amount / divisor := by
    rw [Nat.le_div_iff_mul_le divisorPositive]
    calc 2 ^ count * divisor ≤ 2 ^ count * 2 ^ (divisor.log2 + 1) :=
          Nat.mul_le_mul_left _ Nat.lt_log2_self.le
      _ = 2 ^ (divisor.log2 + 1 + count) := by rw [← pow_add, add_comm]
      _ ≤ 2 ^ (dividend.log2 + amount) := Nat.pow_le_pow_right (by norm_num) enough
      _ = 2 ^ dividend.log2 * 2 ^ amount := pow_add _ _ _
      _ ≤ dividend * 2 ^ amount :=
          Nat.mul_le_mul_right _ (Nat.log2_self_le dividendPositive.ne')
  have positive : 0 < dividend * 2 ^ amount / divisor :=
    (by positivity : 0 < 2 ^ count).trans_le large
  exact (Nat.le_log2 positive.ne').mpr large

theorem Denotes.div {format : Format} {left right : UnpackedFloat} {first second : ℚ}
    (denotesLeft : Denotes format left first) (denotesRight : Denotes format right second)
    (nonzero : second ≠ 0) :
    Denotes format (left.div format right) (rounded format (first / second)) := by
  cases denotesRight with
  | zero => exact absurd rfl nonzero
  | finite rightSign rightMantissa rightExponent rightPositive rightCanonical =>
      cases denotesLeft with
      | zero leftSign =>
          rw [zero_div, rounded_zero]
          exact .zero (leftSign / rightSign)
      | finite leftSign leftMantissa leftExponent leftPositive leftCanonical =>
          let target := min (leftExponent - rightExponent) (format.targetExponent
            (totalExponent leftMantissa leftExponent - totalExponent rightMantissa rightExponent))
          let amount := (leftExponent - rightExponent - target).toNat
          let scaled := leftMantissa * 2 ^ amount
          have steps : (amount : ℤ) = leftExponent - rightExponent - target :=
            Int.toNat_of_nonneg (sub_nonneg.mpr (min_le_left _ _))
          have divisor : (0 : ℚ) < rightMantissa := by exact_mod_cast rightPositive
          have quotient : withSign leftSign (leftMantissa * 2 ^ leftExponent) /
              withSign rightSign (rightMantissa * 2 ^ rightExponent) =
              withSign (leftSign / rightSign) (((scaled / rightMantissa : ℕ) +
                (scaled % rightMantissa : ℕ) / rightMantissa) * 2 ^ target) := by
            have whole : ((scaled / rightMantissa : ℕ) : ℚ) +
                (scaled % rightMantissa : ℕ) / rightMantissa = scaled / rightMantissa := by
              rw [eq_div_iff divisor.ne', add_mul, div_mul_cancel₀ _ divisor.ne', mul_comm]
              exact_mod_cast Nat.div_add_mod scaled rightMantissa
            have power : (2 : ℚ) ^ leftExponent = 2 ^ amount * 2 ^ target * 2 ^ rightExponent := by
              rw [← zpow_natCast, steps, ← zpow_add₀ (by norm_num), ← zpow_add₀ (by norm_num)]
              congr 1
              ring
            rw [withSign_div, whole, power]
            congr 1
            simp only [scaled]
            push_cast
            field_simp
          rw [quotient, rounded_withSign format _ (by positivity)]
          have leaves := leavesOut_accuracyOfFraction (Nat.mod_lt scaled rightPositive)
          have unfolded : UnpackedFloat.div format (.finite leftSign leftMantissa leftExponent
              leftPositive) (.finite rightSign rightMantissa rightExponent rightPositive) =
              roundWithAccuracy format (leftSign / rightSign) (scaled / rightMantissa) target
                (accuracyOfFraction (scaled % rightMantissa)
                  rightMantissa) := by
            simp only [scaled, ← Nat.shiftLeft_eq]
            rfl
          rw [unfolded]
          apply denotes_roundWithAccuracy format _ _ leaves
          have least : target ≤ max ((leftMantissa.log2 : ℤ) + 1 + leftExponent -
              (rightMantissa.log2 + 1 + rightExponent) - format.mantissaBits) format.minExponent :=
            min_le_right _ _
          have bits := two_le_mantissaBits format
          rw [targetExponent_eq_max]
          rcases le_or_gt target format.minExponent with small | above
          · exact small.trans (le_max_right _ _)
          · have enough : format.mantissaBits - 1 ≤ (scaled / rightMantissa).log2 :=
              le_log2_quotient leftPositive rightPositive (by omega)
            omega

/-! ## Conversion and comparison -/

theorem denotes_ofInt (format : Format) (number : ℤ) :
    Denotes format (Float.Model.UnpackedFloat.ofInt format number) (rounded format number) := by
  have denotes := denotes_normalize format number 0 .positive
  rwa [zpow_zero, mul_one] at denotes

theorem canonical_lt {format : Format} {leftMantissa rightMantissa : ℕ}
    {leftExponent rightExponent : ℤ} (leftPositive : 0 < leftMantissa)
    (rightPositive : 0 < rightMantissa)
    (leftCanonical : leftExponent = format.targetExponent (totalExponent leftMantissa leftExponent))
    (rightCanonical :
      rightExponent = format.targetExponent (totalExponent rightMantissa rightExponent))
    (less : leftExponent < rightExponent) :
    (leftMantissa * 2 ^ leftExponent : ℚ) < rightMantissa * 2 ^ rightExponent := by
  rcases Denotes.mantissa_lt leftPositive leftCanonical with ⟨leftFits, leftLeast⟩
  have leftCast : (leftMantissa : ℚ) < 2 ^ format.mantissaBits := by exact_mod_cast leftFits
  have exponents :
      (format.mantissaBits : ℤ) + leftExponent ≤ rightMantissa.log2 + rightExponent := by
    rw [targetExponent_eq_max] at rightCanonical
    omega
  have rightBits : (2 : ℚ) ^ rightMantissa.log2 ≤ rightMantissa := by
    exact_mod_cast Nat.log2_self_le rightPositive.ne'
  calc (leftMantissa * 2 ^ leftExponent : ℚ) < 2 ^ format.mantissaBits * 2 ^ leftExponent :=
        mul_lt_mul_of_pos_right leftCast (by positivity)
    _ = 2 ^ ((format.mantissaBits : ℤ) + leftExponent) := by
        rw [zpow_add₀ (by norm_num), zpow_natCast]
    _ ≤ 2 ^ ((rightMantissa.log2 : ℤ) + rightExponent) :=
        zpow_le_zpow_right₀ (by norm_num) exponents
    _ = 2 ^ rightMantissa.log2 * 2 ^ rightExponent := by
        rw [zpow_add₀ (by norm_num), zpow_natCast]
    _ ≤ rightMantissa * 2 ^ rightExponent := mul_le_mul_of_nonneg_right rightBits (by positivity)

/-- Of canonical numbers the exponents decide first, then the mantissas. -/
theorem compare_canonical {format : Format} {leftMantissa rightMantissa : ℕ}
    {leftExponent rightExponent : ℤ} (leftPositive : 0 < leftMantissa)
    (rightPositive : 0 < rightMantissa)
    (leftCanonical : leftExponent = format.targetExponent (totalExponent leftMantissa leftExponent))
    (rightCanonical :
      rightExponent = format.targetExponent (totalExponent rightMantissa rightExponent)) :
    (compare leftExponent rightExponent).then (compare leftMantissa rightMantissa) =
      compare (leftMantissa * 2 ^ leftExponent : ℚ) (rightMantissa * 2 ^ rightExponent) := by
  rcases lt_trichotomy leftExponent rightExponent with less | rfl | greater
  · rw [compare_lt_iff_lt.mpr less, compare_lt_iff_lt.mpr (canonical_lt leftPositive rightPositive
      leftCanonical rightCanonical less)]
    rfl
  · rw [compare_eq_iff_eq.mpr rfl, Ordering.then]
    have scale : (0 : ℚ) < 2 ^ leftExponent := by positivity
    rcases lt_trichotomy leftMantissa rightMantissa with less | rfl | greater
    · have cast : (leftMantissa : ℚ) < rightMantissa := by exact_mod_cast less
      rw [compare_lt_iff_lt.mpr less, compare_lt_iff_lt.mpr (mul_lt_mul_of_pos_right cast scale)]
    · rw [compare_eq_iff_eq.mpr rfl, compare_eq_iff_eq.mpr rfl]
    · have cast : (rightMantissa : ℚ) < leftMantissa := by exact_mod_cast greater
      rw [compare_gt_iff_gt.mpr greater, compare_gt_iff_gt.mpr (mul_lt_mul_of_pos_right cast scale)]
  · rw [compare_gt_iff_gt.mpr greater, compare_gt_iff_gt.mpr (canonical_lt rightPositive leftPositive
      rightCanonical leftCanonical greater)]
    rfl

theorem compare_neg_neg (left right : ℚ) :
    compare (-left) (-right) = (compare left right).swap := by
  rcases lt_trichotomy left right with less | rfl | greater
  · rw [compare_lt_iff_lt.mpr less, compare_gt_iff_gt.mpr (neg_lt_neg less)]
    rfl
  · rw [compare_eq_iff_eq.mpr rfl, compare_eq_iff_eq.mpr rfl]
    rfl
  · rw [compare_gt_iff_gt.mpr greater, compare_lt_iff_lt.mpr (neg_lt_neg greater)]
    rfl

theorem Denotes.compare {format : Format} {left right : UnpackedFloat} {first second : ℚ}
    (denotesLeft : Denotes format left first) (denotesRight : Denotes format right second) :
    left.compare right = some (compare first second) := by
  cases denotesLeft with
  | zero leftSign =>
      cases denotesRight with
      | zero rightSign =>
          rw [compare_eq_iff_eq.mpr rfl]
          rfl
      | finite rightSign mantissa exponent positive canonical =>
          have magnitude : (0 : ℚ) < mantissa * 2 ^ exponent := by positivity
          cases rightSign with
          | positive =>
              rw [withSign, compare_lt_iff_lt.mpr magnitude]
              rfl
          | negative =>
              rw [withSign, compare_gt_iff_gt.mpr (neg_lt_zero.mpr magnitude)]
              rfl
  | finite leftSign leftMantissa leftExponent leftPositive leftCanonical =>
      have leftMagnitude : (0 : ℚ) < leftMantissa * 2 ^ leftExponent := by positivity
      cases denotesRight with
      | zero rightSign =>
          cases leftSign with
          | positive =>
              rw [withSign, compare_gt_iff_gt.mpr leftMagnitude]
              rfl
          | negative =>
              rw [withSign, compare_lt_iff_lt.mpr (neg_lt_zero.mpr leftMagnitude)]
              rfl
      | finite rightSign rightMantissa rightExponent rightPositive rightCanonical =>
          have rightMagnitude : (0 : ℚ) < rightMantissa * 2 ^ rightExponent := by positivity
          have magnitudes := compare_canonical leftPositive rightPositive leftCanonical rightCanonical
          cases leftSign <;> cases rightSign
          · rw [withSign, withSign, compare_neg_neg, ← magnitudes]
            rfl
          · rw [withSign, withSign, compare_lt_iff_lt.mpr (by linarith)]
            rfl
          · rw [withSign, withSign, compare_gt_iff_gt.mpr (by linarith)]
            rfl
          · rw [withSign, withSign, ← magnitudes]
            rfl

end FrameTiming.Number
