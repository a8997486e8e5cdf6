import FrameTiming.Proofs.Number.Nonnegative

/-! # Magnitudes of sums and means

Rounding does not take a number past a power of two. A sum of numbers below a power of two grows by
no more than the power with each of them, and it stops growing where the power is half a unit of the
sum: a tie then goes to the even sum. So no mean of such numbers lies past the power, however many
they are.
-/

namespace FrameTiming.Number

open Float.Model (Format UnpackedFloat)

section Formats

variable {format : Format}

/-! ## Bounds that rounding keeps -/

theorem abs_rounded_le {number bound : ℚ} (exact : Representable format bound)
    (within : |number| ≤ bound) : |rounded format number| ≤ bound := by
  rcases abs_le.mp within with ⟨least, most⟩
  have above := rounded_mono format most
  have below := rounded_mono format least
  rw [rounded_neg] at below
  rw [rounded_representable exact] at above below
  exact abs_le.mpr ⟨below, above⟩

/-- Multiples of a power of two are numbers of the format as far as the mantissa goes. -/
theorem representable_mul_two_pow {factor : ℕ} (fits : factor ≤ 2 ^ format.mantissaBits)
    (power : ℕ) : Representable format (factor * 2 ^ power) := by
  have least := minExponent_nonpos format
  rcases fits.lt_or_eq with less | full
  · exact ⟨factor, power, less, by omega, by rw [zpow_natCast]⟩
  · refine ⟨1, format.mantissaBits + power, ?_, by omega, ?_⟩
    · exact Nat.one_lt_two_pow (by have := two_le_mantissaBits format; omega)
    · rw [full, Nat.cast_one, one_mul, zpow_add₀ (by norm_num), zpow_natCast, zpow_natCast]
      norm_num

theorem representable_two_pow (format : Format) (power : ℕ) : Representable format (2 ^ power) := by
  have exact : Representable format ((1 : ℕ) * 2 ^ power) :=
    representable_mul_two_pow Nat.one_le_two_pow power
  rwa [Nat.cast_one, one_mul] at exact

theorem abs_rounded_le_two_pow (format : Format) {number : ℚ} {power : ℕ}
    (within : |number| ≤ 2 ^ power) : |rounded format number| ≤ 2 ^ power :=
  abs_rounded_le (representable_two_pow format power) within

/-! ## Sums -/

/-- How many equal addends show in a sum. The next one is rounded away. -/
def addends (format : Format) (count : ℕ) : ℕ :=
  min count (2 ^ format.mantissaBits)

theorem nearestEven_add_half {whole : ℕ} (even : whole % 2 = 0) :
    nearestEven (whole + 1 / 2) = whole := by
  have floor : ⌊(whole + 1 / 2 : ℚ)⌋₊ = whole := by
    rw [Nat.floor_eq_iff (by positivity)]
    constructor <;> linarith
  unfold nearestEven
  rw [floor, if_neg (by linarith), if_neg (by linarith), even, add_zero]

/-- One more than the mantissa can count lies between two numbers and goes to the even one. -/
theorem rounded_overfull (power : ℕ) :
    rounded format ((2 ^ format.mantissaBits + 1 : ℕ) * 2 ^ power) =
      (2 ^ format.mantissaBits : ℕ) * 2 ^ power := by
  have bits := two_le_mantissaBits format
  have least := minExponent_nonpos format
  have several : 1 < 2 ^ format.mantissaBits := Nat.one_lt_two_pow (by omega)
  have log : (2 ^ format.mantissaBits + 1).log2 = format.mantissaBits := by
    rw [Nat.log2_eq_iff (by omega), pow_succ]
    omega
  have unit : unitExponent format ((2 ^ format.mantissaBits + 1 : ℕ) * 2 ^ power) = power + 1 := by
    have decided := unitExponent_eq_of_mantissa_pos format (power : ℤ)
      (show 0 < 2 ^ format.mantissaBits + 1 by omega) (le_refl (0 : ℚ)) one_pos
    rw [add_zero, zpow_natCast, targetExponent_eq_max, log] at decided
    omega
  have doubled : 2 ^ format.mantissaBits = 2 ^ (format.mantissaBits - 1) * 2 := by
    rw [← pow_succ, Nat.sub_add_cancel (by omega)]
  have cast : (2 : ℚ) ^ format.mantissaBits = 2 ^ (format.mantissaBits - 1) * 2 := by
    exact_mod_cast doubled
  have half : ((2 ^ format.mantissaBits + 1 : ℕ) * 2 ^ power : ℚ) / 2 ^ ((power : ℤ) + 1) =
      ((2 ^ (format.mantissaBits - 1) : ℕ) : ℚ) + 1 / 2 := by
    rw [zpow_add₀ (by norm_num), zpow_natCast, zpow_one]
    push_cast
    rw [cast]
    field_simp
  have even : 2 ^ (format.mantissaBits - 1) % 2 = 0 := by
    have split : format.mantissaBits - 1 = format.mantissaBits - 2 + 1 := by omega
    rw [split, pow_succ, Nat.mul_mod_left]
  rw [rounded_of_nonneg format (by positivity), roundedMagnitude, unit, half,
    nearestEven_add_half even, zpow_add₀ (by norm_num), zpow_natCast, zpow_one]
  push_cast
  rw [cast]
  ring

theorem addends_le (format : Format) (count : ℕ) : addends format count ≤ 2 ^ format.mantissaBits :=
  min_le_right _ _

theorem addends_mono {count other : ℕ} (order : count ≤ other) :
    addends format count ≤ addends format other :=
  min_le_min_right _ order

theorem addends_pos {count : ℕ} (present : 0 < count) : 0 < addends format count :=
  lt_min present (by positivity)

/-- A sum takes in one more number, or it is so large that the number is rounded away. -/
theorem abs_rounded_add_le {sum next : ℚ} {count power : ℕ}
    (sumBound : |sum| ≤ addends format count * 2 ^ power) (nextBound : |next| ≤ 2 ^ power) :
    |rounded format (sum + next)| ≤ addends format (count + 1) * 2 ^ power := by
  have triangle := abs_add_le sum next
  rcases Nat.lt_or_ge count (2 ^ format.mantissaBits) with few | many
  · have before : addends format count = count := min_eq_left few.le
    have after : addends format (count + 1) = count + 1 := min_eq_left few
    rw [before] at sumBound
    rw [after]
    apply abs_rounded_le (representable_mul_two_pow few power)
    push_cast
    linarith
  · have before : addends format count = 2 ^ format.mantissaBits := min_eq_right many
    have after : addends format (count + 1) = 2 ^ format.mantissaBits :=
      min_eq_right (many.trans (Nat.le_succ count))
    rw [before] at sumBound
    rw [after, ← rounded_overfull]
    have within : |sum + next| ≤ (2 ^ format.mantissaBits + 1 : ℕ) * 2 ^ power := by
      push_cast at sumBound ⊢
      linarith
    rcases abs_le.mp within with ⟨least, most⟩
    have below := rounded_mono format least
    rw [rounded_neg] at below
    exact abs_le.mpr ⟨below, rounded_mono format most⟩

/-- A loop that adds numbers below a power of two, each step rounded. `Holds` says what a state of
the loop stands for; it has to be kept only while the sum is as small as it has to be. -/
theorem exists_sum_of_foldl (format : Format) {State Item : Type} (Holds : State → ℚ → Prop)
    {step : State → Item → State} {items : List Item} {power total : ℕ}
    (adds : ∀ item ∈ items, ∃ next : ℚ, |next| ≤ 2 ^ power ∧ ∀ state sum, Holds state sum →
      |rounded format (sum + next)| ≤ addends format total * 2 ^ power →
        Holds (step state item) (rounded format (sum + next)))
    {start : State} {sum : ℚ} (starts : Holds start sum) {count : ℕ}
    (bound : |sum| ≤ addends format count * 2 ^ power) (within : count + items.length ≤ total) :
    ∃ result, Holds (items.foldl step start) result ∧
      |result| ≤ addends format (count + items.length) * 2 ^ power := by
  induction items generalizing start sum count with
  | nil => exact ⟨sum, starts, bound⟩
  | cons first rest induction =>
      rw [List.forall_mem_cons] at adds
      rw [List.length_cons] at within ⊢
      rcases adds.1 with ⟨next, nextBound, kept⟩
      have grown := abs_rounded_add_le bound nextBound
      have small : |rounded format (sum + next)| ≤ addends format total * 2 ^ power := by
        refine grown.trans (mul_le_mul_of_nonneg_right ?_ (by positivity))
        exact_mod_cast addends_mono (by omega)
      rcases induction adds.2 (kept start sum starts small) grown (by omega) with
        ⟨result, holds, resultBound⟩
      refine ⟨result, holds, ?_⟩
      rwa [show count + (rest.length + 1) = count + 1 + rest.length by omega]

/-! ## Means -/

theorem addends_le_rounded {number : ℚ} {count : ℕ} (counted : addends format count ≤ number) :
    addends format count ≤ rounded format number := by
  have exact := representable_mul_two_pow (addends_le format count) 0
  rw [pow_zero, mul_one] at exact
  rw [← rounded_representable exact]
  exact rounded_mono format counted

/-- The mean of numbers below a power of two is not above it, with a count that was rounded. -/
theorem abs_rounded_div_le {sum count : ℚ} {total power : ℕ} (present : 0 < total)
    (counted : addends format total ≤ count) (bound : |sum| ≤ addends format total * 2 ^ power) :
    |rounded format (sum / count)| ≤ 2 ^ power := by
  have some : (0 : ℚ) < addends format total := by exact_mod_cast addends_pos present
  have positive : 0 < count := some.trans_le counted
  apply abs_rounded_le_two_pow
  rw [abs_div, abs_of_pos positive, div_le_iff₀ positive]
  calc |sum| ≤ addends format total * 2 ^ power := bound
    _ ≤ count * 2 ^ power := mul_le_mul_of_nonneg_right counted (by positivity)
    _ = 2 ^ power * count := mul_comm _ _

end Formats

/-! ## Doubles -/

theorem two_pow_lt_overflowLimit {power : ℕ} (low : power < 1024) :
    (2 : ℚ) ^ power < overflowLimit := by
  rw [overflowLimit, ← zpow_natCast]
  exact zpow_lt_zpow_right₀ (by norm_num) (by exact_mod_cast low)

/-- The least whole number that is no double. -/
theorem nearest_overfull : nearest (2 ^ 53 + 1 : ℕ) = (2 ^ 53 : ℕ) := by
  have overfull := @rounded_overfull .binary64 0
  rw [binary64_mantissaBits, pow_zero, mul_one, mul_one] at overfull
  have limit := two_pow_lt_overflowLimit (show 53 < 1024 by norm_num)
  rw [nearest, overfull, saturated_of_abs_le]
  rw [abs_of_nonneg (by positivity)]
  exact_mod_cast limit.le

/-- What was rounded below the limit is finite. -/
theorem isFinite_of_nearest {number : Float} {exact : ℚ} (comparable : number.isNaN = false)
    (same : value number = nearest exact) (small : |rounded .binary64 exact| < overflowLimit) :
    number.isFinite = true ∧ value number = rounded .binary64 exact := by
  have result : value number = rounded .binary64 exact := by
    rw [same, nearest, saturated_of_abs_le small.le]
  exact ⟨(isFinite_iff comparable).mpr (by rwa [result]), result⟩

theorem isFinite_of_two_pow {number : Float} {exact : ℚ} {power : ℕ}
    (comparable : number.isNaN = false) (same : value number = nearest exact)
    (within : |exact| ≤ 2 ^ power) (low : power < 1024) :
    number.isFinite = true ∧ |value number| ≤ 2 ^ power := by
  have bound := abs_rounded_le_two_pow .binary64 within
  rcases isFinite_of_nearest comparable same
    (bound.trans_lt (two_pow_lt_overflowLimit low)) with ⟨finite, result⟩
  exact ⟨finite, by rwa [result]⟩

/-- A count that was rounded is still no less than the addends that it stands for. -/
theorem addends_le_value_ofNat {count : ℕ} (sized : count ≤ 2 ^ 64) :
    (addends .binary64 count : ℚ) ≤ value (Float.ofNat count) := by
  have counted : (addends .binary64 count : ℚ) ≤ count := by
    exact_mod_cast min_le_left count (2 ^ Format.binary64.mantissaBits)
  have small : |(count : ℚ)| ≤ 2 ^ 64 := by
    rw [abs_of_nonneg (by positivity)]
    exact_mod_cast sized
  have limit := (abs_rounded_le_two_pow .binary64 small).trans_lt
    (two_pow_lt_overflowLimit (by norm_num))
  rcases value_ofNat count with ⟨same, comparable⟩
  rw [(isFinite_of_nearest comparable same limit).2]
  exact addends_le_rounded counted

section Lists

variable {numbers : List Float} {power : ℕ}

theorem addends_mul_lt_overflowLimit (low : power ≤ 900) (count : ℕ) :
    (addends .binary64 count * 2 ^ power : ℚ) < overflowLimit := by
  have most : (addends .binary64 count : ℚ) ≤ 2 ^ 53 := by
    exact_mod_cast addends_le .binary64 count
  calc (addends .binary64 count * 2 ^ power : ℚ) ≤ 2 ^ 53 * 2 ^ power :=
        mul_le_mul_of_nonneg_right most (by positivity)
    _ = 2 ^ (53 + power) := (pow_add _ _ _).symm
    _ < overflowLimit := two_pow_lt_overflowLimit (by omega)

theorem isFinite_sum (low : power ≤ 900)
    (each : ∀ number ∈ numbers, number.isFinite = true ∧ |value number| ≤ 2 ^ power) :
    (sum numbers).isFinite = true ∧
      |value (sum numbers)| ≤ addends .binary64 numbers.length * 2 ^ power := by
  have limit := addends_mul_lt_overflowLimit low numbers.length
  have adds : ∀ number ∈ numbers, ∃ next : ℚ, |next| ≤ 2 ^ power ∧ ∀ (state : Float) height,
      (state.isFinite = true ∧ value state = height) →
        |rounded .binary64 (height + next)| ≤ addends .binary64 numbers.length * 2 ^ power →
          (state + number).isFinite = true ∧
            value (state + number) = rounded .binary64 (height + next) := by
    intro number member
    rcases each number member with ⟨finite, bound⟩
    refine ⟨value number, bound, ?_⟩
    rintro state height ⟨stateFinite, rfl⟩ small
    rcases value_add stateFinite finite with ⟨added, comparable⟩
    exact isFinite_of_nearest comparable added (small.trans_lt limit)
  have blank : |(0 : ℚ)| ≤ addends .binary64 0 * 2 ^ power := by
    rw [abs_zero]
    positivity
  rcases exists_sum_of_foldl .binary64
    (fun (state : Float) height => state.isFinite = true ∧ value state = height) adds
    ⟨(rfl : (-0.0 : Float).isFinite = true), value_negative_zero⟩ blank (Nat.zero_add _).le with
    ⟨height, ⟨finite, same⟩, bound⟩
  rw [Nat.zero_add, ← same] at bound
  exact ⟨finite, bound⟩

/-- The mean of numbers below a power of two is finite and not above the power. -/
theorem isFinite_mean (present : numbers ≠ []) (sized : numbers.length ≤ 2 ^ 64) (low : power ≤ 900)
    (each : ∀ number ∈ numbers, number.isFinite = true ∧ |value number| ≤ 2 ^ power) :
    (sum numbers / Float.ofNat numbers.length).isFinite = true ∧
      |value (sum numbers / Float.ofNat numbers.length)| ≤ 2 ^ power := by
  rcases isFinite_sum low each with ⟨sumFinite, sumBound⟩
  have counted := addends_le_value_ofNat sized
  have several := List.length_pos_of_ne_nil present
  have nonzero := (zero_lt_iff.mp (zero_lt_ofNat several)).2.ne'
  rcases value_div sumFinite (isFinite_ofNat sized) nonzero with ⟨quotient, comparable⟩
  have bound := abs_rounded_div_le several counted sumBound
  rcases isFinite_of_nearest comparable quotient
    (bound.trans_lt (two_pow_lt_overflowLimit (by omega))) with ⟨finite, same⟩
  exact ⟨finite, by rwa [same]⟩

end Lists

/-! ## Doubles from zero on -/

/-- A double from zero to a power of two. -/
structure UpTo (power : ℕ) (number : Float) : Prop where
  finite : number.isFinite = true
  least : 0 ≤ value number
  most : value number ≤ 2 ^ power

namespace UpTo

variable {power : ℕ} {number : Float}

theorem abs_le (within : UpTo power number) : |value number| ≤ 2 ^ power := by
  rw [abs_of_nonneg within.least]
  exact within.most

theorem zero_le (within : UpTo power number) : 0 ≤ number :=
  zero_le_iff.mpr ⟨isNaN_of_isFinite within.finite, within.least⟩

theorem mono {larger : ℕ} (within : UpTo power number) (order : power ≤ larger) :
    UpTo larger number where
  finite := within.finite
  least := within.least
  most := within.most.trans (pow_le_pow_right₀ (by norm_num) order)

theorem of_abs_le (finite : number.isFinite = true) (least : 0 ≤ number)
    (within : |value number| ≤ 2 ^ power) : UpTo power number where
  finite := finite
  least := (zero_le_iff.mp least).2
  most := (le_abs_self _).trans within

theorem of_nearest {exact : ℚ} (comparable : number.isNaN = false)
    (same : value number = nearest exact) (least : 0 ≤ exact) (most : exact ≤ 2 ^ power)
    (low : power < 1024) : UpTo power number := by
  rcases isFinite_of_two_pow comparable same (by rwa [abs_of_nonneg least]) low with ⟨finite, bound⟩
  refine ⟨finite, ?_, (le_abs_self _).trans bound⟩
  rw [same]
  exact nearest_nonneg least

theorem mul {other : ℕ} {factor : Float} (within : UpTo power number)
    (factorWithin : UpTo other factor) (low : power + other < 1024) : UpTo (power + other) (number * factor) := by
  rcases value_mul within.finite factorWithin.finite with ⟨product, comparable⟩
  apply of_nearest comparable product (mul_nonneg within.least factorWithin.least) _ low
  rw [pow_add]
  exact mul_le_mul within.most factorWithin.most factorWithin.least (by positivity)

theorem mean {numbers : List Float} (present : numbers ≠ []) (sized : numbers.length ≤ 2 ^ 64)
    (low : power ≤ 900) (each : ∀ number ∈ numbers, UpTo power number) :
    UpTo power (sum numbers / Float.ofNat numbers.length) := by
  rcases isFinite_mean present sized low fun number member =>
    ⟨(each number member).finite, (each number member).abs_le⟩ with ⟨finite, bound⟩
  have total := zero_le_sum fun number member => (each number member).zero_le
  have several := List.length_pos_of_ne_nil present
  exact of_abs_le finite (zero_le_div total (zero_lt_ofNat several) (isFinite_ofNat sized)) bound

end UpTo

end FrameTiming.Number
