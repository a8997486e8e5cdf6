import FrameTiming.Proofs.Number.Operations

/-! # Bit patterns

What a `Float` stands for. A pattern without its sign bit counts the numbers of the format from zero
on, so patterns are ordered like what they stand for.
-/

namespace FrameTiming.Number

open Float.Model (Format totalExponent UnpackedFloat)
open Float.Model.UnpackedFloat (Sign pack unpack packComponents unpackExponent unpackMantissa
  unpackSign_packComponents unpackExponent_packComponents unpackMantissa_packComponents
  unpack_packedZero)

/-! ## Packing -/

/-- A normal number has a one in front of its stored mantissa. -/
theorem toNat_one_append {width : ℕ} (mantissa : BitVec width) :
    (1#1 ++ mantissa).toNat = 2 ^ width + mantissa.toNat := by
  rw [BitVec.toNat_append, ← Nat.shiftLeft_add_eq_or_of_lt mantissa.isLt, Nat.shiftLeft_eq]
  exact congrArg (· + _) (one_mul _)

section Formats

variable {format : Format}

/-- The largest exponent of a finite number. -/
def largestExponent (format : Format) : ℤ :=
  2 ^ format.exponentBits - 2 - (format.exponentBias + format.mantissaBitsWithoutImplicit)

theorem unpack_packComponents_normal (sign : Sign) {exponent : BitVec format.exponentBits}
    (mantissa : BitVec format.mantissaBitsWithoutImplicit) (finite : exponent ≠ -1#_)
    (normal : exponent ≠ 0#_) :
    unpack format (packComponents format sign exponent mantissa) =
      .finite sign (2 ^ format.mantissaBitsWithoutImplicit + mantissa.toNat)
        (exponent.toNat - (format.exponentBias + format.mantissaBitsWithoutImplicit))
        (by positivity) := by
  simp only [unpack, unpackExponent_packComponents, unpackMantissa_packComponents,
    unpackSign_packComponents, Sign.ofBitVec_toBitVec]
  rw [if_neg finite, if_neg normal]
  simp only [toNat_one_append]

theorem unpack_packComponents_subnormal (sign : Sign)
    {mantissa : BitVec format.mantissaBitsWithoutImplicit} (nonzero : mantissa ≠ 0#_) :
    unpack format (packComponents format sign 0#_ mantissa) =
      .finite sign mantissa.toNat
        (-(format.exponentBias + format.mantissaBitsWithoutImplicit) + 1) (by
          simpa [BitVec.toNat_pos, BitVec.pos_iff_ne_zero] using nonzero) := by
  have notLargest : 0#(format.exponentBits) ≠ -1#_ := by
    intro same
    have power := Nat.one_lt_two_pow format.he.ne'
    have toNat := congrArg BitVec.toNat same
    rw [BitVec.neg_one_eq_allOnes, BitVec.toNat_allOnes, BitVec.toNat_zero] at toNat
    omega
  simp only [unpack, unpackExponent_packComponents, unpackMantissa_packComponents,
    unpackSign_packComponents, Sign.ofBitVec_toBitVec]
  rw [if_neg notLargest, if_pos trivial, dif_neg nonzero]
  simp

theorem minExponent_eq (format : Format) :
    format.minExponent = -(format.exponentBias + format.mantissaBitsWithoutImplicit) + 1 := by
  have power : 1 ≤ 2 ^ (format.exponentBits - 1) := Nat.one_le_two_pow
  rw [Format.minExponent, Format.exponentBias, Format.mantissaBits]
  push_cast [power]
  ring

/-- Packing keeps a canonical number whose exponent is not too large. -/
theorem unpack_pack_of_le (sign : Sign) {mantissa : ℕ} {exponent : ℤ} (positive : 0 < mantissa)
    (canonical : exponent = format.targetExponent (totalExponent mantissa exponent))
    (within : exponent ≤ largestExponent format) :
    unpack format (pack format (.finite sign mantissa exponent positive)) =
      .finite sign mantissa exponent positive := by
  rcases Denotes.mantissa_lt positive canonical with ⟨fits, least⟩
  rw [targetExponent_eq_max] at canonical
  rw [minExponent_eq] at least canonical
  have bits : format.mantissaBits = format.mantissaBitsWithoutImplicit + 1 := Nat.add_comm _ _
  rw [bits] at canonical fits
  rw [largestExponent] at within
  have power : ((2 ^ format.exponentBits : ℕ) : ℤ) = 2 ^ format.exponentBits := by push_cast; rfl
  rw [← power] at within
  generalize biased : (exponent + format.exponentBias + format.mantissaBitsWithoutImplicit).toNat =
    stored
  have finite : ¬2 ^ format.exponentBits ≤ stored + 1 := by omega
  have storedBits : (BitVec.ofNat format.exponentBits stored).toNat = stored := by
    rw [BitVec.toNat_ofNat, Nat.mod_eq_of_lt (by omega)]
  simp only [pack, biased]
  rw [if_neg finite, bits]
  by_cases normal : mantissa.log2 + 1 = format.mantissaBitsWithoutImplicit + 1
  · have filled := (Nat.le_log2 (k := format.mantissaBitsWithoutImplicit) positive.ne').mp (by omega)
    have mantissaBits : 2 ^ format.mantissaBitsWithoutImplicit +
        (BitVec.ofNat format.mantissaBitsWithoutImplicit mantissa).toNat = mantissa := by
      rw [BitVec.toNat_ofNat, Nat.mod_eq_sub_mod filled, Nat.mod_eq_of_lt (by omega)]
      omega
    rw [if_pos normal, unpack_packComponents_normal]
    · simp only [mantissaBits, storedBits]
      congr 1
      omega
    · intro largest
      have same := congrArg BitVec.toNat largest
      rw [storedBits, BitVec.neg_one_eq_allOnes, BitVec.toNat_allOnes] at same
      omega
    · intro zero
      have same := congrArg BitVec.toNat zero
      rw [storedBits, BitVec.toNat_zero] at same
      omega
  · have short : mantissa < 2 ^ format.mantissaBitsWithoutImplicit := by
      rw [← Nat.log2_lt positive.ne']
      have log := (Nat.log2_lt positive.ne').mpr fits
      omega
    have mantissaBits :
        (BitVec.ofNat format.mantissaBitsWithoutImplicit mantissa).toNat = mantissa := by
      rw [BitVec.toNat_ofNat, Nat.mod_eq_of_lt short]
    have log := (Nat.log2_lt positive.ne').mpr short
    have smallest : exponent =
        -(format.exponentBias + format.mantissaBitsWithoutImplicit) + 1 := by omega
    rw [if_neg normal, unpack_packComponents_subnormal]
    · simp only [mantissaBits, smallest]
    · intro zero
      have same := congrArg BitVec.toNat zero
      rw [mantissaBits, BitVec.toNat_zero] at same
      omega

/-- Where the finite numbers of a format end. -/
def limit (format : Format) : ℚ :=
  2 ^ (largestExponent format + format.mantissaBits)

/-- A canonical number is below the limit of its format exactly if its exponent fits. -/
theorem magnitude_lt_limit_iff (wide : format.minExponent ≤ largestExponent format) {mantissa : ℕ}
    {exponent : ℤ} (positive : 0 < mantissa)
    (canonical : exponent = format.targetExponent (totalExponent mantissa exponent)) :
    (mantissa * 2 ^ exponent : ℚ) < limit format ↔ exponent ≤ largestExponent format := by
  have bits := two_le_mantissaBits format
  rcases Denotes.mantissa_lt positive canonical with ⟨fits, least⟩
  rw [targetExponent_eq_max] at canonical
  constructor
  · intro below
    by_contra above
    have filled : 2 ^ (format.mantissaBits - 1) ≤ mantissa :=
      (Nat.le_log2 positive.ne').mp (by omega)
    have cast : (2 : ℚ) ^ ((format.mantissaBits - 1 : ℕ) : ℤ) ≤ mantissa := by
      exact_mod_cast filled
    have large : limit format ≤ mantissa * 2 ^ exponent := by
      calc limit format
          = 2 ^ ((format.mantissaBits - 1 : ℕ) : ℤ) * 2 ^ (largestExponent format + 1) := by
            rw [limit, ← zpow_add₀ (by norm_num)]
            congr 1
            omega
        _ ≤ mantissa * 2 ^ exponent :=
            mul_le_mul cast (zpow_le_zpow_right₀ (by norm_num) (by omega)) (by positivity)
              (by positivity)
    linarith
  · intro within
    have cast : (mantissa : ℚ) < 2 ^ (format.mantissaBits : ℤ) := by exact_mod_cast fits
    calc (mantissa * 2 ^ exponent : ℚ) < 2 ^ (format.mantissaBits : ℤ) * 2 ^ exponent :=
          mul_lt_mul_of_pos_right cast (by positivity)
      _ ≤ 2 ^ (format.mantissaBits : ℤ) * 2 ^ largestExponent format :=
          mul_le_mul_of_nonneg_left (zpow_le_zpow_right₀ (by norm_num) within) (by positivity)
      _ = limit format := by
          rw [limit, ← zpow_add₀ (by norm_num), add_comm]

@[simp] theorem unpack_packedInfinity (sign : Sign) :
    unpack format (Float.Model.UnpackedFloat.packedInfinity format sign) = .infinity sign := by
  simp [unpack, Float.Model.UnpackedFloat.packedInfinity]

theorem unpack_pack_of_lt (sign : Sign) {mantissa : ℕ} {exponent : ℤ} (positive : 0 < mantissa)
    (overflow : largestExponent format < exponent) :
    unpack format (pack format (.finite sign mantissa exponent positive)) = .infinity sign := by
  rw [largestExponent] at overflow
  have power : ((2 ^ format.exponentBits : ℕ) : ℤ) = 2 ^ format.exponentBits := by push_cast; rfl
  rw [← power] at overflow
  simp only [pack]
  rw [if_pos (by omega), unpack_packedInfinity]

end Formats

theorem binary64_mantissaBits : Format.binary64.mantissaBits = 53 :=
  rfl

theorem binary64_minExponent : Format.binary64.minExponent = -1074 := by
  decide

theorem binary64_largestExponent : largestExponent .binary64 = 971 := by
  decide

theorem binary64_targetExponent (mantissa : ℕ) (exponent : ℤ) :
    Format.binary64.targetExponent (totalExponent mantissa exponent) =
      max ((mantissa.log2 : ℤ) + 1 + exponent - 53) (-1074) := by
  rw [targetExponent_eq_max, binary64_mantissaBits, binary64_minExponent]
  rfl

theorem binary64_exponentBias : Format.binary64.exponentBias = 1023 :=
  rfl

/-! ## Values -/

/-- Where the finite numbers of the format end. -/
@[irreducible] def overflowLimit : ℚ := 2 ^ (1024 : ℤ)

theorem limit_binary64 : limit .binary64 = overflowLimit := by
  rw [limit, overflowLimit, binary64_largestExponent, binary64_mantissaBits]
  norm_num

/-- What a number stands for: an infinity for the limit it has passed, NaN for nothing. -/
def value (number : Float) : ℚ :=
  match number.toModel.unpack with
  | .finite sign mantissa exponent _ => withSign sign (mantissa * 2 ^ exponent)
  | .infinity sign => withSign sign overflowLimit
  | .zero _ => 0
  | .notANumber => 0

theorem isNaN_eq (number : Float) : number.isNaN = number.toModel.unpack.isNaN :=
  rfl

theorem isFinite_eq (number : Float) : number.isFinite = number.toModel.unpack.isFinite :=
  rfl

/-- A number kept between the two infinities. -/
def saturated (number : ℚ) : ℚ :=
  max (-overflowLimit) (min number overflowLimit)

theorem overflowLimit_pos : 0 < overflowLimit := by
  unfold overflowLimit
  positivity

theorem saturated_mono : Monotone saturated := by
  intro smaller larger order
  exact max_le_max_left _ (min_le_min_right _ order)

theorem saturated_of_abs_le {number : ℚ} (within : |number| ≤ overflowLimit) :
    saturated number = number := by
  rcases abs_le.mp within with ⟨least, most⟩
  rw [saturated, min_eq_left most, max_eq_right least]

theorem abs_saturated_le (number : ℚ) : |saturated number| ≤ overflowLimit := by
  have positive := overflowLimit_pos
  rw [abs_le]
  constructor
  · exact le_max_left _ _
  · exact max_le (by linarith) (min_le_right _ _)

theorem abs_withSign (sign : Sign) {magnitude : ℚ} (nonnegative : 0 ≤ magnitude) :
    |withSign sign magnitude| = magnitude := by
  cases sign
  · rw [withSign, abs_neg, abs_of_nonneg nonnegative]
  · rw [withSign, abs_of_nonneg nonnegative]

theorem saturated_withSign_of_le (sign : Sign) {magnitude : ℚ} (large : overflowLimit ≤ magnitude) :
    saturated (withSign sign magnitude) = withSign sign overflowLimit := by
  have positive := overflowLimit_pos
  cases sign
  · rw [withSign, saturated, withSign, min_eq_left (by linarith), max_eq_left (by linarith)]
  · rw [withSign, saturated, withSign, min_eq_right large, max_eq_right (by linarith)]

/-- A canonical number is below the limit exactly if its exponent fits. -/
theorem magnitude_lt_overflowLimit_iff {mantissa : ℕ} {exponent : ℤ} (positive : 0 < mantissa)
    (canonical : exponent = Format.binary64.targetExponent (totalExponent mantissa exponent)) :
    (mantissa * 2 ^ exponent : ℚ) < overflowLimit ↔ exponent ≤ 971 := by
  rw [← limit_binary64, ← binary64_largestExponent]
  exact magnitude_lt_limit_iff (by decide) positive canonical

/-- Packing keeps a canonical number below the limit. -/
theorem Denotes.unpack_pack {format : Format} (wide : format.minExponent ≤ largestExponent format)
    {unpacked : UnpackedFloat} {number : ℚ} (denotes : Denotes format unpacked number)
    (below : |number| < limit format) : unpack format (pack format unpacked) = unpacked := by
  cases denotes with
  | zero sign => exact unpack_packedZero
  | finite sign mantissa exponent positive canonical =>
      rw [abs_withSign sign (by positivity)] at below
      exact unpack_pack_of_le sign positive canonical
        ((magnitude_lt_limit_iff wide positive canonical).mp below)

/-- Packing keeps what a canonical number stands for unless it is too large. -/
theorem value_pack {unpacked : UnpackedFloat} {number : ℚ}
    (denotes : Denotes .binary64 unpacked number) :
    value (.ofModel (.pack unpacked)) = saturated number ∧
      (Float.ofModel (.pack unpacked)).isNaN = false := by
  cases denotes with
  | zero sign =>
      have packed : (Float.ofModel (.pack (.zero sign))).toModel.unpack = .zero sign :=
        unpack_packedZero
      have limit := overflowLimit_pos
      constructor
      · rw [value, packed, saturated_of_abs_le (by simpa using limit.le)]
      · rw [isNaN_eq, packed]
        rfl
  | finite sign mantissa exponent positive canonical =>
      have magnitude : |withSign sign (mantissa * 2 ^ exponent)| = mantissa * 2 ^ exponent :=
        abs_withSign sign (by positivity)
      have fits := magnitude_lt_overflowLimit_iff positive canonical
      rcases le_or_gt exponent 971 with within | beyond
      · have packed :
            (Float.ofModel (.pack (.finite sign mantissa exponent positive))).toModel.unpack =
              .finite sign mantissa exponent positive :=
          unpack_pack_of_le sign positive canonical (by rwa [binary64_largestExponent])
        constructor
        · rw [value, packed, saturated_of_abs_le (by rw [magnitude]; exact (fits.mpr within).le)]
        · rw [isNaN_eq, packed]
          rfl
      · have packed :
            (Float.ofModel (.pack (.finite sign mantissa exponent positive))).toModel.unpack =
              .infinity sign :=
          unpack_pack_of_lt sign positive (by rwa [binary64_largestExponent])
        have large : overflowLimit ≤ mantissa * 2 ^ exponent :=
          le_of_not_gt fun below => absurd (fits.mp below) (by omega)
        constructor
        · rw [value, packed, saturated_withSign_of_le sign large]
        · rw [isNaN_eq, packed]
          rfl

/-- What is read from a pattern is canonical and small enough. -/
theorem canonical_of_unpack {bits : BitVec 64} {sign : Sign} {mantissa : ℕ} {exponent : ℤ}
    {positive : 0 < mantissa}
    (unpacked : unpack .binary64 bits = .finite sign mantissa exponent positive) :
    exponent = Format.binary64.targetExponent (totalExponent mantissa exponent) ∧
      exponent ≤ 971 := by
  unfold unpack at unpacked
  dsimp only at unpacked
  have mantissaBound : (@unpackMantissa .binary64 bits).toNat < 2 ^ 52 := BitVec.isLt _
  have exponentBound : (@unpackExponent .binary64 bits).toNat < 2 ^ 11 := BitVec.isLt _
  split_ifs at unpacked with largest infinite smallest zero
  · simp only [UnpackedFloat.finite.injEq, smallest, binary64_exponentBias] at unpacked
    rcases unpacked with ⟨-, rfl, rfl⟩
    have bits := (Nat.log2_lt positive.ne').mpr mantissaBound
    rw [binary64_targetExponent, BitVec.toNat_zero]
    omega
  · simp only [UnpackedFloat.finite.injEq, binary64_exponentBias] at unpacked
    rcases unpacked with ⟨-, same, rfl⟩
    have notLargest : (@unpackExponent .binary64 bits).toNat ≠ 2047 :=
      fun equal => largest (BitVec.eq_of_toNat_eq equal)
    have notSmallest : (@unpackExponent .binary64 bits).toNat ≠ 0 :=
      fun equal => smallest (BitVec.eq_of_toNat_eq equal)
    have filled : mantissa = 2 ^ 52 + (@unpackMantissa .binary64 bits).toNat :=
      same.symm.trans (toNat_one_append _)
    have log : mantissa.log2 = 52 := by
      rw [Nat.log2_eq_iff positive.ne']
      omega
    rw [binary64_targetExponent, log]
    omega

theorem denotes_of_isFinite {number : Float} (finite : number.isFinite = true) :
    Denotes .binary64 number.toModel.unpack (value number) ∧ |value number| < overflowLimit := by
  rw [isFinite_eq] at finite
  unfold value
  generalize same : number.toModel.unpack = unpacked at finite ⊢
  cases unpacked with
  | infinity sign => cases finite
  | notANumber => cases finite
  | zero sign =>
      refine ⟨.zero sign, ?_⟩
      rw [abs_zero]
      exact overflowLimit_pos
  | finite sign mantissa exponent positive =>
      rcases canonical_of_unpack same with ⟨canonical, within⟩
      refine ⟨.finite sign mantissa exponent positive canonical, ?_⟩
      rw [abs_withSign sign (by positivity)]
      exact (magnitude_lt_overflowLimit_iff positive canonical).mpr within

/-- What is no NaN is finite or an infinity, and that shows in its value. -/
theorem isFinite_iff {number : Float} (comparable : number.isNaN = false) :
    number.isFinite = true ↔ |value number| < overflowLimit := by
  constructor
  · exact fun finite => (denotes_of_isFinite finite).2
  · intro below
    rw [isNaN_eq] at comparable
    rw [isFinite_eq]
    unfold value at below
    generalize number.toModel.unpack = unpacked at comparable below ⊢
    cases unpacked with
    | infinity sign =>
        rw [abs_withSign sign overflowLimit_pos.le] at below
        exact absurd below (lt_irrefl _)
    | notANumber => cases comparable
    | zero => rfl
    | finite => rfl

theorem isNaN_of_isFinite {number : Float} (finite : number.isFinite = true) :
    number.isNaN = false := by
  rw [isFinite_eq] at finite
  rw [isNaN_eq]
  generalize number.toModel.unpack = unpacked at finite ⊢
  cases unpacked with
  | infinity sign => rfl
  | notANumber => cases finite
  | zero => rfl
  | finite => rfl

/-- A number is its infinity exactly if its value is the limit. -/
theorem unpack_eq_infinity {number : Float} (comparable : number.isNaN = false)
    (infinite : ¬number.isFinite = true) :
    ∃ sign, number.toModel.unpack = .infinity sign ∧
      value number = withSign sign overflowLimit := by
  rw [isNaN_eq] at comparable
  rw [isFinite_eq] at infinite
  unfold value
  generalize number.toModel.unpack = unpacked at comparable infinite ⊢
  cases unpacked with
  | infinity sign => exact ⟨sign, rfl, rfl⟩
  | notANumber => cases comparable
  | zero => exact absurd rfl infinite
  | finite => exact absurd rfl infinite

theorem value_of_isNaN {number : Float} (incomparable : number.isNaN = true) :
    value number = 0 := by
  rw [isNaN_eq] at incomparable
  unfold value
  generalize number.toModel.unpack = unpacked at incomparable ⊢
  cases unpacked with
  | notANumber => rfl
  | infinity => cases incomparable
  | zero => cases incomparable
  | finite => cases incomparable

/-! ## Comparison -/

/-- An infinity is compared like any bound that the numbers of a format stay below. -/
theorem compare_infinity {format : Format} {unpacked : UnpackedFloat} {number bound : ℚ}
    (denotes : Denotes format unpacked number) (below : |number| < bound) (sign : Sign) :
    unpacked.compare (.infinity sign) = some (compare number (withSign sign bound)) ∧
      (UnpackedFloat.infinity sign).compare unpacked =
        some (compare (withSign sign bound) number) := by
  rcases abs_lt.mp below with ⟨least, most⟩
  cases sign with
  | positive =>
      rw [withSign, compare_lt_iff_lt.mpr most, compare_gt_iff_gt.mpr most]
      cases denotes <;> exact ⟨rfl, rfl⟩
  | negative =>
      rw [withSign, compare_lt_iff_lt.mpr least, compare_gt_iff_gt.mpr least]
      cases denotes <;> exact ⟨rfl, rfl⟩

theorem compare_infinities {bound : ℚ} (positive : 0 < bound) (left right : Sign) :
    (UnpackedFloat.infinity left).compare (.infinity right) =
      some (compare (withSign left bound) (withSign right bound)) := by
  cases left <;> cases right
  · rw [compare_eq_iff_eq.mpr rfl]
    rfl
  · rw [withSign, withSign, compare_lt_iff_lt.mpr (by linarith)]
    rfl
  · rw [withSign, withSign, compare_gt_iff_gt.mpr (by linarith)]
    rfl
  · rw [compare_eq_iff_eq.mpr rfl]
    rfl

/-- Numbers other than NaN are compared like their values. -/
theorem unpacked_compare_eq {left right : Float} (leftComparable : left.isNaN = false)
    (rightComparable : right.isNaN = false) :
    left.toModel.unpack.compare right.toModel.unpack =
      some (compare (value left) (value right)) := by
  by_cases leftFinite : left.isFinite = true
  · rcases denotes_of_isFinite leftFinite with ⟨leftDenotes, leftBelow⟩
    by_cases rightFinite : right.isFinite = true
    · exact leftDenotes.compare (denotes_of_isFinite rightFinite).1
    · rcases unpack_eq_infinity rightComparable rightFinite with ⟨sign, unpacked, rightValue⟩
      rw [unpacked, rightValue]
      exact (compare_infinity leftDenotes leftBelow sign).1
  · rcases unpack_eq_infinity leftComparable leftFinite with ⟨sign, unpacked, leftValue⟩
    rw [unpacked, leftValue]
    by_cases rightFinite : right.isFinite = true
    · rcases denotes_of_isFinite rightFinite with ⟨rightDenotes, rightBelow⟩
      exact (compare_infinity rightDenotes rightBelow sign).2
    · rcases unpack_eq_infinity rightComparable rightFinite with
        ⟨rightSign, rightUnpacked, rightValue⟩
      rw [rightUnpacked, rightValue]
      exact compare_infinities overflowLimit_pos sign rightSign

theorem comparable_of_le {left right : Float} (ordered : left ≤ right) :
    left.isNaN = false ∧ right.isNaN = false := by
  have comparison : (left.toModel.unpack.compare right.toModel.unpack).any (·.isLE) = true := by
    have decided : decide (left.toModel ≤ right.toModel) = true := ordered
    exact of_decide_eq_true decided
  rw [isNaN_eq, isNaN_eq]
  generalize left.toModel.unpack = leftUnpacked at comparison ⊢
  generalize right.toModel.unpack = rightUnpacked at comparison ⊢
  cases leftUnpacked with
  | notANumber => cases comparison
  | infinity sign =>
      cases rightUnpacked <;> first | exact ⟨rfl, rfl⟩ | (cases sign <;> cases comparison)
  | zero sign => cases rightUnpacked <;> first | exact ⟨rfl, rfl⟩ | cases comparison
  | finite sign =>
      cases rightUnpacked <;> first | exact ⟨rfl, rfl⟩ | (cases sign <;> cases comparison)

theorem le_iff_value_le {left right : Float} (leftComparable : left.isNaN = false)
    (rightComparable : right.isNaN = false) : left ≤ right ↔ value left ≤ value right := by
  have unfolded : left ≤ right ↔
      (left.toModel.unpack.compare right.toModel.unpack).any (·.isLE) = true := by
    change decide (left.toModel ≤ right.toModel) = true ↔ _
    rw [decide_eq_true_iff]
    rfl
  rw [unfolded, unpacked_compare_eq leftComparable rightComparable, Option.any_some,
    Ordering.isLE_iff_ne_gt, compare_gt_iff_gt, not_lt]

theorem ordered_trans {left middle right : Float} (before : left ≤ middle)
    (after : middle ≤ right) :
    left ≤ right := by
  have leftComparable := (comparable_of_le before).1
  have middleComparable := (comparable_of_le before).2
  have rightComparable := (comparable_of_le after).2
  rw [le_iff_value_le leftComparable rightComparable]
  exact ((le_iff_value_le leftComparable middleComparable).mp before).trans
    ((le_iff_value_le middleComparable rightComparable).mp after)

theorem lt_iff_value_lt {left right : Float} (leftComparable : left.isNaN = false)
    (rightComparable : right.isNaN = false) : left < right ↔ value left < value right := by
  have unfolded : left < right ↔
      (left.toModel.unpack.compare right.toModel.unpack == some .lt) = true := by
    change decide (left.toModel < right.toModel) = true ↔ _
    rw [decide_eq_true_iff]
    rfl
  rw [unfolded, unpacked_compare_eq leftComparable rightComparable, beq_iff_eq, Option.some.injEq]
  exact compare_lt_iff_lt

end FrameTiming.Number
