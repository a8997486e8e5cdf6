import FrameTiming.Proofs.Number.Arithmetic
import FrameTiming.Proofs.Number.Order

/-! # Numbers from zero on

Sums, products and quotients of numbers from zero to infinity are such numbers again. Without the
negative zero, they are told apart by their order.
-/

namespace FrameTiming.Number

open Float.Model (UnpackedFloat Format)
open Float.Model.UnpackedFloat (Sign Accuracy roundWithAccuracy)

variable {left right number : Float}

/-! ## Comparison -/

theorem ordered_of_lt (less : left < right) : left ≤ right := by
  have compared : left.toModel.unpack.compare right.toModel.unpack = some .lt := by
    have decided : decide (left.toModel < right.toModel) = true := less
    exact eq_of_beq (of_decide_eq_true decided)
  change decide (left.toModel ≤ right.toModel) = true
  rw [decide_eq_true_iff]
  change (left.toModel.unpack.compare right.toModel.unpack).any (·.isLE) = true
  rw [compared]
  rfl

theorem lt_of_lt_of_ordered {middle : Float} (less : left < middle) (order : middle ≤ right) :
    left < right := by
  have leftComparable := (comparable_of_le (ordered_of_lt less)).1
  rcases comparable_of_le order with ⟨middleComparable, rightComparable⟩
  rw [lt_iff_value_lt leftComparable middleComparable] at less
  rw [le_iff_value_le middleComparable rightComparable] at order
  exact (lt_iff_value_lt leftComparable rightComparable).mpr (less.trans_le order)

theorem lt_of_ordered_of_lt {middle : Float} (order : left ≤ middle) (less : middle < right) :
    left < right := by
  have rightComparable := (comparable_of_le (ordered_of_lt less)).2
  rcases comparable_of_le order with ⟨leftComparable, middleComparable⟩
  rw [lt_iff_value_lt middleComparable rightComparable] at less
  rw [le_iff_value_le leftComparable middleComparable] at order
  exact (lt_iff_value_lt leftComparable rightComparable).mpr (order.trans_lt less)

theorem ordered_of_not_lt (leftComparable : left.isNaN = false) (rightComparable : right.isNaN = false)
    (notLess : ¬left < right) : right ≤ left := by
  rw [lt_iff_value_lt leftComparable rightComparable, not_lt] at notLess
  exact (le_iff_value_le rightComparable leftComparable).mpr notLess

theorem not_ordered_of_lt (less : left < right) : ¬right ≤ left := by
  intro order
  have again := lt_of_lt_of_ordered less order
  have comparable := (comparable_of_le order).2
  exact lt_irrefl (value left) ((lt_iff_value_lt comparable comparable).mp again)

/-! ## Comparison with zero -/

theorem value_zero : value 0 = 0 := by
  change value (Float.ofNat 0) = 0
  rw [(value_ofNat 0).1, Nat.cast_zero, nearest_zero]

theorem value_negative_zero : value (-0.0) = 0 := by
  have unpacked : (-0.0 : Float).toModel.unpack = .zero .negative := rfl
  rw [value, unpacked]

theorem zero_le_iff : 0 ≤ number ↔ number.isNaN = false ∧ 0 ≤ value number := by
  have zero := (value_ofNat 0).2
  constructor
  · intro least
    have comparable := (comparable_of_le least).2
    refine ⟨comparable, ?_⟩
    rw [← value_zero]
    exact (le_iff_value_le zero comparable).mp least
  · rintro ⟨comparable, least⟩
    rw [← value_zero] at least
    exact (le_iff_value_le zero comparable).mpr least

theorem zero_lt_iff : 0 < number ↔ number.isNaN = false ∧ 0 < value number := by
  have zero := (value_ofNat 0).2
  constructor
  · intro positive
    have comparable := (comparable_of_le (ordered_of_lt positive)).2
    refine ⟨comparable, ?_⟩
    rw [← value_zero]
    exact (lt_iff_value_lt zero comparable).mp positive
  · rintro ⟨comparable, positive⟩
    rw [← value_zero] at positive
    exact (lt_iff_value_lt zero comparable).mpr positive

theorem unpack_of_infinite (least : 0 ≤ number) (infinite : ¬number.isFinite = true) :
    number.toModel.unpack = .infinity .positive := by
  rcases zero_le_iff.mp least with ⟨comparable, nonnegative⟩
  rcases unpack_eq_infinity comparable infinite with ⟨sign, unpacked, same⟩
  cases sign with
  | positive => exact unpacked
  | negative =>
      have limit := overflowLimit_pos
      rw [same, withSign] at nonnegative
      linarith

theorem zero_le_of_unpack (unpacked : number.toModel.unpack = .infinity .positive) :
    0 ≤ number := by
  rcases value_of_unpack_eq_infinity unpacked with ⟨limit, comparable⟩
  rw [zero_le_iff, limit]
  exact ⟨comparable, overflowLimit_pos.le⟩

/-- A positive number that is finite has no sign in its unpacked form either. -/
theorem unpack_of_positive (positive : 0 < number) (finite : number.isFinite = true) :
    ∃ mantissa exponent filled, number.toModel.unpack = .finite .positive mantissa exponent filled := by
  have above := (zero_lt_iff.mp positive).2
  have denotes := (denotes_of_isFinite finite).1
  generalize value number = height at above denotes
  generalize number.toModel.unpack = unpacked at denotes
  cases denotes with
  | zero => exact absurd above (lt_irrefl 0)
  | finite sign mantissa exponent filled =>
      cases sign with
      | positive => exact ⟨mantissa, exponent, filled, rfl⟩
      | negative =>
          have magnitude : (0 : ℚ) ≤ mantissa * 2 ^ exponent := by positivity
          rw [withSign] at above
          linarith

/-! ## Operations -/

theorem unpack_add_of_infinite (leftLeast : 0 ≤ left) (infinite : ¬left.isFinite = true)
    (rightLeast : 0 ≤ right) : (left + right).toModel.unpack = .infinity .positive := by
  change (Float.Model.pack (left.toModel.unpack.add .binary64 right.toModel.unpack)).unpack = _
  rw [unpack_of_infinite leftLeast infinite]
  by_cases finite : right.isFinite = true
  · have denotes := (denotes_of_isFinite finite).1
    generalize value right = height at denotes
    generalize right.toModel.unpack = unpacked at denotes ⊢
    cases denotes <;> exact unpack_packedInfinity .positive
  · rw [unpack_of_infinite rightLeast finite]
    exact unpack_packedInfinity .positive

theorem zero_le_add (leftLeast : 0 ≤ left) (rightLeast : 0 ≤ right) : 0 ≤ left + right := by
  by_cases leftFinite : left.isFinite = true
  · by_cases rightFinite : right.isFinite = true
    · rcases value_add leftFinite rightFinite with ⟨sum, comparable⟩
      rw [zero_le_iff] at leftLeast rightLeast ⊢
      rw [sum]
      exact ⟨comparable, nearest_nonneg (add_nonneg leftLeast.2 rightLeast.2)⟩
    · rcases value_of_unpack_eq_infinity (unpack_of_infinite rightLeast rightFinite) with
        ⟨limit, comparable⟩
      rcases value_add_of_infinite leftFinite comparable limit with ⟨sum, sumComparable⟩
      rw [zero_le_iff, sum]
      exact ⟨sumComparable, overflowLimit_pos.le⟩
  · exact zero_le_of_unpack (unpack_add_of_infinite leftLeast leftFinite rightLeast)

theorem zero_le_mul (least : 0 ≤ left) (positive : 0 < right) (finite : right.isFinite = true) :
    0 ≤ left * right := by
  have above := (zero_lt_iff.mp positive).2
  by_cases leftFinite : left.isFinite = true
  · rcases value_mul leftFinite finite with ⟨product, comparable⟩
    rw [zero_le_iff] at least ⊢
    rw [product]
    exact ⟨comparable, nearest_nonneg (mul_nonneg least.2 above.le)⟩
  · rcases value_of_unpack_eq_infinity (unpack_of_infinite least leftFinite) with
      ⟨limit, comparable⟩
    rcases value_mul_of_infinite comparable limit finite above with ⟨product, productComparable⟩
    rw [zero_le_iff, product]
    exact ⟨productComparable, overflowLimit_pos.le⟩

theorem zero_le_mul_self (positive : 0 < number) : 0 ≤ number * number := by
  by_cases finite : number.isFinite = true
  · exact zero_le_mul (ordered_of_lt positive) positive finite
  · apply zero_le_of_unpack
    change (Float.Model.pack (number.toModel.unpack.mul .binary64 number.toModel.unpack)).unpack = _
    rw [unpack_of_infinite (ordered_of_lt positive) finite]
    exact unpack_packedInfinity .positive

theorem zero_le_div (least : 0 ≤ left) (positive : 0 < right) (finite : right.isFinite = true) :
    0 ≤ left / right := by
  by_cases leftFinite : left.isFinite = true
  · have above := (zero_lt_iff.mp positive).2
    rcases value_div leftFinite finite above.ne' with ⟨quotient, comparable⟩
    rw [zero_le_iff] at least ⊢
    rw [quotient]
    exact ⟨comparable, nearest_nonneg (div_nonneg least.2 above.le)⟩
  · rcases unpack_of_positive positive finite with ⟨mantissa, exponent, filled, unpacked⟩
    apply zero_le_of_unpack
    change (Float.Model.pack (left.toModel.unpack.div .binary64 right.toModel.unpack)).unpack = _
    rw [unpack_of_infinite least leftFinite, unpacked]
    exact unpack_packedInfinity .positive

/-- Nothing is left of a finite number less an infinite one. -/
theorem not_zero_lt_sub_of_infinite (leftFinite : left.isFinite = true) (least : 0 ≤ right)
    (infinite : ¬right.isFinite = true) : ¬0 < left - right := by
  have unpacked : (left - right).toModel.unpack = .infinity .negative := by
    change (Float.Model.pack (left.toModel.unpack.sub .binary64 right.toModel.unpack)).unpack = _
    rw [unpack_of_infinite least infinite]
    have denotes := (denotes_of_isFinite leftFinite).1
    generalize value left = height at denotes
    generalize left.toModel.unpack = leftUnpacked at denotes ⊢
    cases denotes <;> exact unpack_packedInfinity .negative
  rw [zero_lt_iff, value, unpacked]
  rintro ⟨-, positive⟩
  exact absurd positive (not_lt.mpr (neg_nonpos.mpr overflowLimit_pos.le))

/-! ## Conversions -/

theorem zero_le_toFloat (number : UInt64) : 0 ≤ number.toFloat := by
  rw [zero_le_iff, (value_ofUInt64 number).1]
  exact ⟨(value_ofUInt64 number).2, nearest_nonneg (by positivity)⟩

theorem zero_le_ofNat (number : ℕ) : 0 ≤ Float.ofNat number := by
  rw [zero_le_iff, (value_ofNat number).1]
  exact ⟨(value_ofNat number).2, nearest_nonneg (by positivity)⟩

theorem zero_lt_ofNat {number : ℕ} (positive : 0 < number) : 0 < Float.ofNat number := by
  rw [zero_lt_iff, (value_ofNat number).1]
  refine ⟨(value_ofNat number).2, ?_⟩
  have least := nearest_mono (show (1 : ℚ) ≤ number by exact_mod_cast positive)
  rw [nearest_one] at least
  linarith

theorem isFinite_ofNat {number : ℕ} (word : number ≤ 2 ^ 64) :
    (Float.ofNat number).isFinite = true := by
  have cast : (number : ℚ) ≤ 2 ^ (64 : ℤ) := by exact_mod_cast word
  rw [isFinite_iff (value_ofNat number).2, (value_ofNat number).1,
    abs_of_nonneg (nearest_nonneg (by positivity))]
  exact nearest_lt_overflowLimit cast

/-- A sum starts at the negative zero, which is no less than zero. -/
theorem zero_le_sum {numbers : List Float} (least : ∀ number ∈ numbers, 0 ≤ number) :
    0 ≤ sum numbers := by
  have kept : ∀ start : Float, 0 ≤ start → 0 ≤ numbers.foldl (· + ·) start := by
    induction numbers with
    | nil => exact fun _ above => above
    | cons first rest induction =>
        rw [List.forall_mem_cons] at least
        intro start above
        exact induction least.2 _ (zero_le_add above least.1)
  exact kept _ (by decide +kernel)

/-! ## Numbers without a sign -/

/-- Zero, a positive number or infinity, but not the negative zero. -/
def Signless (number : Float) : Prop :=
  number = 0 ∨ 0 < number

theorem Signless.zero_le (signless : Signless number) : 0 ≤ number := by
  rcases signless with rfl | positive
  · decide +kernel
  · exact ordered_of_lt positive

theorem signless_toFloat (number : UInt64) : Signless number.toFloat := by
  by_cases zero : number = 0
  · left
    rw [zero]
    decide +kernel
  · right
    rw [zero_lt_iff, (value_ofUInt64 number).1]
    refine ⟨(value_ofUInt64 number).2, ?_⟩
    have positive : 1 ≤ number.toNat := by
      rw [Nat.one_le_iff_ne_zero]
      exact fun none => zero (UInt64.toNat_inj.mp none)
    have least := nearest_mono (show (1 : ℚ) ≤ number.toNat by exact_mod_cast positive)
    rw [nearest_one] at least
    linarith

/-- There are two zeros. -/
theorem zeros_of_value_eq_zero (comparable : number.isNaN = false) (zero : value number = 0) :
    number = 0 ∨ number = -0.0 := by
  have unit : (0 : ℚ) < 2 ^ (-1074 : ℤ) := by positivity
  have none : patternUnits (number.toBits.toNat % 2 ^ 63) = 0 := by
    rw [value_eq_withSign_units comparable] at zero
    split_ifs at zero <;> simpa [withSign, unit.ne'] using zero
  have blank : number.toBits.toNat % 2 ^ 63 = 0 := by
    by_contra some
    have above := patternUnits_strictMono (Nat.pos_of_ne_zero some)
    omega
  have bound := number.toBits.toNat_lt
  have pattern : number.toBits.toNat = 0 ∨ number.toBits.toNat = 2 ^ 63 := by omega
  refine pattern.imp ?_ ?_ <;> intro same <;> apply Float.toBits_inj.mp <;>
    apply UInt64.toNat_inj.mp <;> rw [same] <;> decide +kernel

theorem nearest_of_limit_le {number : ℚ} (beyond : overflowLimit ≤ number) :
    nearest number = overflowLimit := by
  have least := nearest_mono beyond
  rw [nearest_overflowLimit] at least
  exact (le_of_abs_le (abs_nearest_le _)).antisymm least

/-- From zero on, infinity is added like the number it stands for. -/
theorem value_add_of_zero_le (leftLeast : 0 ≤ left) (rightLeast : 0 ≤ right) :
    value (left + right) = nearest (value left + value right) := by
  by_cases leftFinite : left.isFinite = true
  · by_cases rightFinite : right.isFinite = true
    · exact (value_add leftFinite rightFinite).1
    · rcases value_of_unpack_eq_infinity (unpack_of_infinite rightLeast rightFinite) with
        ⟨limit, comparable⟩
      rw [(value_add_of_infinite leftFinite comparable limit).1, limit]
      exact (nearest_of_limit_le (le_add_of_nonneg_left (zero_le_iff.mp leftLeast).2)).symm
  · rw [(value_of_unpack_eq_infinity (unpack_add_of_infinite leftLeast leftFinite rightLeast)).1,
      (value_of_unpack_eq_infinity (unpack_of_infinite leftLeast leftFinite)).1]
    exact (nearest_of_limit_le (le_add_of_nonneg_right (zero_le_iff.mp rightLeast).2)).symm

/-- A sum of numbers from zero on is no less than any of the two. -/
theorem value_le_add (leftLeast : 0 ≤ left) (rightLeast : 0 ≤ right) :
    value left ≤ value (left + right) ∧ value right ≤ value (left + right) := by
  have leftSum := nearest_mono (le_add_of_nonneg_right (a := value left)
    (zero_le_iff.mp rightLeast).2)
  have rightSum := nearest_mono (le_add_of_nonneg_left (a := value right)
    (zero_le_iff.mp leftLeast).2)
  rw [nearest_value] at leftSum rightSum
  rw [value_add_of_zero_le leftLeast rightLeast]
  exact ⟨leftSum, rightSum⟩

/-- Zero takes the sign from a zero that is added to it. -/
theorem Signless.add (signless : Signless left) (least : 0 ≤ right) : Signless (left + right) := by
  have sum := zero_le_iff.mp (zero_le_add signless.zero_le least)
  have atLeast := value_le_add signless.zero_le least
  rcases signless with rfl | positive
  · rcases zero_le_iff.mp least with ⟨comparable, nonnegative⟩
    rcases nonnegative.eq_or_lt with zero | some
    · left
      rcases zeros_of_value_eq_zero comparable zero.symm with rfl | rfl <;> decide +kernel
    · exact .inr (zero_lt_iff.mpr ⟨sum.1, some.trans_le atLeast.2⟩)
  · exact .inr (zero_lt_iff.mpr ⟨sum.1, (zero_lt_iff.mp positive).2.trans_le atLeast.1⟩)

theorem eq_of_roundWithAccuracy {format : Format} {sign zeroSign : Sign} {mantissa : ℕ}
    {exponent : ℤ} {accuracy : Accuracy}
    (rounded : roundWithAccuracy format sign mantissa exponent accuracy = .zero zeroSign) :
    zeroSign = sign := by
  unfold roundWithAccuracy at rounded
  dsimp only at rounded
  split_ifs at rounded
  exact (UnpackedFloat.zero.inj rounded).symm

theorem signless_pack {unpacked : UnpackedFloat} {height : ℚ}
    (denotes : Denotes .binary64 unpacked height) (nonnegative : 0 ≤ height)
    (zero : ∀ sign, unpacked = .zero sign → sign = .positive) :
    Signless (.ofModel (.pack unpacked)) := by
  rcases value_pack denotes with ⟨packed, comparable⟩
  cases denotes with
  | zero sign =>
      left
      rw [zero sign rfl]
      rfl
  | finite sign mantissa exponent filled canonical =>
      have magnitude : (0 : ℚ) < mantissa * 2 ^ exponent := by positivity
      have positive : 0 < withSign sign (mantissa * 2 ^ exponent) := by
        cases sign with
        | positive => exact magnitude
        | negative =>
            rw [withSign] at nonnegative
            linarith
      right
      rw [zero_lt_iff, packed]
      exact ⟨comparable, lt_max_of_lt_right (lt_min positive overflowLimit_pos)⟩

/-- A quotient that is rounded to zero keeps its sign. -/
theorem Signless.div (signless : Signless left) (leftFinite : left.isFinite = true)
    (positive : 0 < right) (finite : right.isFinite = true) : Signless (left / right) := by
  have above := (zero_lt_iff.mp positive).2
  have least := (zero_le_iff.mp signless.zero_le).2
  have denotes := (denotes_of_isFinite leftFinite).1.div (denotes_of_isFinite finite).1 above.ne'
  apply signless_pack denotes (rounded_nonneg _ (div_nonneg least above.le))
  rcases unpack_of_positive positive finite with ⟨mantissa, exponent, filled, unpacked⟩
  rw [unpacked]
  intro sign zero
  rcases signless with rfl | leftPositive
  · have unpackedZero : (0 : Float).toModel.unpack = .zero .positive := rfl
    rw [unpackedZero] at zero
    exact (UnpackedFloat.zero.inj zero).symm
  · rcases unpack_of_positive leftPositive leftFinite with
      ⟨leftMantissa, leftExponent, leftFilled, leftUnpacked⟩
    rw [leftUnpacked] at zero
    exact eq_of_roundWithAccuracy zero

/-- Numbers without a sign are told apart by their order. -/
theorem Signless.eq_of_le_of_le (leftSignless : Signless left) (rightSignless : Signless right)
    (forwards : left ≤ right) (backwards : right ≤ left) : left = right := by
  have leftComparable := (comparable_of_le forwards).1
  have rightComparable := (comparable_of_le forwards).2
  have same := le_antisymm ((le_iff_value_le leftComparable rightComparable).mp forwards)
    ((le_iff_value_le rightComparable leftComparable).mp backwards)
  rcases leftSignless with rfl | positive
  · rcases rightSignless with rfl | rightPositive
    · rfl
    · rw [value_zero] at same
      exact absurd same (zero_lt_iff.mp rightPositive).2.ne
  · exact eq_of_value_eq leftComparable rightComparable same (zero_lt_iff.mp positive).2.ne'

theorem Signless.totalLe_iff (leftSignless : Signless left) (rightSignless : Signless right) :
    totalLe left right = true ↔ left ≤ right := by
  have leftComparable := (comparable_of_le leftSignless.zero_le).2
  have rightComparable := (comparable_of_le rightSignless.zero_le).2
  have ordered : ∀ {first second : Float}, first.isNaN = false → second.isNaN = false →
      totalLe first second = true → first ≤ second := by
    intro first second firstComparable secondComparable before
    exact (le_iff_value_le firstComparable secondComparable).mpr
      (value_le_of_totalLe firstComparable secondComparable before)
  constructor
  · exact ordered leftComparable rightComparable
  · intro forwards
    have total := totalLe_total left right
    rw [Bool.or_eq_true] at total
    rcases total with before | after
    · exact before
    · rw [leftSignless.eq_of_le_of_le rightSignless forwards (ordered rightComparable leftComparable after)]
      exact decide_eq_true le_rfl

end FrameTiming.Number
