import FrameTiming.Metric
import FrameTiming.Proofs.Number.Root
import FrameTiming.Proofs.Number.SumOrder
import FrameTiming.Proofs.PercentileTable

/-! # Finite metrics

Of finite values from zero on, the extremes are among them and the noise is finite. The spread
squares deviations in single precision, so it is finite as long as the squares of all values could be
added up there, whatever the order.
-/

namespace FrameTiming.Metric

open Number
open Float.Model (Format UnpackedFloat)

/-! ## Extremes -/

theorem foldl_keep_mem (surpasses : Float32 → Float32 → Bool) (first : Float × Float32)
    (rest : List (Float × Float32)) :
    rest.foldl (fun best next => if surpasses next.2 best.2 then next else best) first ∈
      first :: rest := by
  induction rest generalizing first with
  | nil => exact List.mem_singleton_self first
  | cons next rest induction =>
      rw [List.foldl_cons]
      split_ifs
      · exact List.mem_cons_of_mem _ (induction next)
      · rcases List.mem_cons.mp (induction first) with same | later
        · rw [same]
          exact List.mem_cons_self
        · exact List.mem_cons_of_mem _ (List.mem_cons_of_mem _ later)

/-- An extreme is one of the values. -/
theorem extreme_mem (surpasses : Float32 → Float32 → Bool) {values : List Float}
    (present : values ≠ []) : extreme surpasses values ∈ values := by
  have paired : values.zip (deviations values) ≠ [] := by
    simpa [deviations, List.zip_eq_nil_iff] using present
  rcases List.exists_cons_of_ne_nil paired with ⟨first, rest, same⟩
  rw [extreme, same]
  dsimp only
  exact (List.of_mem_zip (same ▸ foldl_keep_mem surpasses first rest)).1

/-! ## Variance -/

/-- A variance is the mean of the squares less the square of the mean, every step in single
precision. The numbers and their squares may be added up in any order. -/
structure PopulationVariance (variance : List Float32 → Float32) : Prop where
  computes : ∀ deviations, deviations ≠ [] → ∃ total squares, Sums deviations total ∧
    Sums (deviations.map fun deviation => deviation * deviation) squares ∧
      let count := narrow (Float.ofNat deviations.length)
      variance deviations = squares / count - total / count * (total / count)

theorem populationVariance_sequential : PopulationVariance sequentialVariance where
  computes deviations _ := by
    refine ⟨_, _, sums_foldl deviations, sums_foldl _, ?_⟩
    rw [sequentialVariance, List.foldl_map]

/-- The squares of so many numbers up to a power of two can be added up in single precision, in any
order. Up to `2 ^ 24` squares need to be below `2 ^ 128` together. -/
def SquaresFit (count power : ℕ) : Prop :=
  count * max count (2 ^ 24) * 4 ^ power < 2 ^ 152

instance (count power : ℕ) : Decidable (SquaresFit count power) :=
  inferInstanceAs (Decidable (_ < _))

example : SquaresFit 2 63 ∧ ¬SquaresFit 2 64 := by decide

theorem squaresFit_iff {count power : ℕ} (few : count ≤ 2 ^ 24) :
    SquaresFit count power ↔ count * 4 ^ power < 2 ^ 128 := by
  rw [SquaresFit, max_eq_right few, mul_right_comm, show 2 ^ 152 = 2 ^ 128 * 2 ^ 24 by norm_num]
  exact Nat.mul_lt_mul_right (by positivity)

theorem SquaresFit.mono {count other power larger : ℕ} (fits : SquaresFit count power)
    (order : other ≤ count) (powers : larger ≤ power) : SquaresFit other larger := by
  refine lt_of_le_of_lt ?_ fits
  gcongr
  norm_num

theorem squaresFit_of_le {count power : ℕ} (few : count ≤ 2 ^ 47) (low : power ≤ 28) :
    SquaresFit count power :=
  (show SquaresFit (2 ^ 47) 28 by decide).mono few low

theorem SquaresFit.growth_lt {count power : ℕ} (fits : SquaresFit count power) :
    growth .binary32 count * 2 ^ (2 * power) < 2 ^ 128 := by
  have cast : (count * max (count : ℚ) (2 ^ 24) * 4 ^ power : ℚ) < 2 ^ 152 := by
    exact_mod_cast fits
  have bits : Format.binary32.mantissaBits = 24 := rfl
  have same : growth .binary32 count * 2 ^ 24 = count * max (count : ℚ) (2 ^ 24) := by
    rw [growth, bits, max_mul_of_nonneg _ _ (by positivity), mul_max_of_nonneg _ _ (by positivity),
      div_mul_cancel₀ _ (by positivity), pow_two, max_comm]
  rw [← same] at cast
  rw [pow_mul]
  norm_num at cast ⊢
  linarith

theorem SquaresFit.slack_lt {count power : ℕ} (fits : SquaresFit count power)
    (several : 0 < count) : power + slack count < 64 := by
  have exponents : count.log2 + max count.log2 24 + 2 * power < 152 := by
    apply (Nat.pow_lt_pow_iff_right (one_lt_two)).mp
    calc 2 ^ (count.log2 + max count.log2 24 + 2 * power)
        = 2 ^ count.log2 * 2 ^ max count.log2 24 * 4 ^ power := by
          rw [pow_add, pow_add, pow_mul]
          norm_num
      _ ≤ count * max count (2 ^ 24) * 4 ^ power := by
          have own := Nat.log2_self_le several.ne'
          have larger : 2 ^ max count.log2 24 ≤ max count (2 ^ 24) := by
            rcases le_total count.log2 24 with low | high
            · rw [max_eq_right low]
              exact le_max_right _ _
            · rw [max_eq_left high]
              exact own.trans (le_max_left _ _)
          gcongr
      _ < 2 ^ 152 := fits
  rw [slack]
  omega

section Spread

variable {power : ℕ}

/-- Deviations are no larger than the values. -/
theorem exists_single_deviation {values : List Float} (present : values ≠ [])
    (sized : values.length ≤ 2 ^ 64) (low : power < 128)
    (each : ∀ number ∈ values, UpTo power number) :
    ∀ deviation ∈ deviations values, ∃ height, Single deviation height ∧ |height| ≤ 2 ^ power := by
  intro deviation member
  rcases List.mem_map.mp member with ⟨number, inside, rfl⟩
  have center := UpTo.mean present sized (by omega) each
  have here := each number inside
  have apart : |value number - value (mean values)| ≤ 2 ^ power := by
    rw [abs_le]
    have centerLeast : 0 ≤ value (mean values) := center.least
    have centerMost : value (mean values) ≤ 2 ^ power := center.most
    constructor <;> linarith [here.least, here.most]
  rcases value_sub here.finite center.finite with ⟨difference, comparable⟩
  rcases isFinite_of_two_pow comparable difference apart (by omega) with ⟨finite, bound⟩
  have narrowed := abs_rounded_le_two_pow .binary32 bound
  have limit : (2 : ℚ) ^ power < 2 ^ 128 := pow_lt_pow_right₀ (by norm_num) low
  exact ⟨_, single_narrow finite (narrowed.trans_lt limit), narrowed⟩

theorem exists_single_square {number : Float32} {height : ℚ} (single : Single number height)
    (bound : |height| ≤ 2 ^ power) (low : power < 64) :
    ∃ square, Single (number * number) square ∧ |square| ≤ 2 ^ (2 * power) := by
  have product : |height * height| ≤ 2 ^ (2 * power) := by
    rw [abs_mul, two_mul, pow_add]
    exact mul_le_mul bound bound (abs_nonneg _) (by positivity)
  have productBound := abs_rounded_le_two_pow .binary32 product
  have limit : (2 : ℚ) ^ (2 * power) < 2 ^ 128 := pow_lt_pow_right₀ (by norm_num) (by omega)
  exact ⟨_, single.mul single (productBound.trans_lt limit), productBound⟩

variable {variance : List Float32 → Float32}

/-- The variance of deviations whose squares can be added up. -/
theorem PopulationVariance.exists_single (population : PopulationVariance variance)
    {deviations : List Float32} (present : deviations ≠ []) (sized : deviations.length ≤ 2 ^ 64)
    (fits : SquaresFit deviations.length power)
    (each : ∀ deviation ∈ deviations, ∃ height, Single deviation height ∧ |height| ≤ 2 ^ power) :
    ∃ height, Single (variance deviations) height ∧ |height| ≤ 2 ^ 127 := by
  have low := fits.slack_lt (List.length_pos_of_ne_nil present)
  have squareSmall := fits.growth_lt
  have small : growth .binary32 deviations.length * 2 ^ power < 2 ^ 128 := by
    refine lt_of_le_of_lt (mul_le_mul_of_nonneg_left ?_ (growth_nonneg _ _)) squareSmall
    exact pow_le_pow_right₀ (by norm_num) (by omega)
  have eachSquare : ∀ square ∈ deviations.map (fun deviation => deviation * deviation),
      ∃ height, Single square height ∧ |height| ≤ 2 ^ (2 * power) := by
    intro square member
    rcases List.mem_map.mp member with ⟨deviation, inside, rfl⟩
    rcases each deviation inside with ⟨height, single, bound⟩
    exact exists_single_square single bound (by omega)
  rcases population.computes deviations present with ⟨total, squares, sums, squareSums, same⟩
  rcases sums.exists_mean present sized small (by omega) each with ⟨mean, meanSingle, meanBound⟩
  have squareMean := squareSums.exists_mean (by simpa using present)
  rw [List.length_map] at squareMean
  rcases squareMean sized squareSmall (by omega) eachSquare with
    ⟨meanSquare, meanSquareSingle, meanSquareBound⟩
  rcases exists_single_square meanSingle meanBound low with ⟨square, squareSingle, squareBound⟩
  have most : ∀ exponent : ℕ, exponent ≤ 126 → (2 : ℚ) ^ exponent ≤ 2 ^ 126 :=
    fun exponent order => pow_le_pow_right₀ (by norm_num) order
  have apart : |meanSquare - square| ≤ 2 ^ 127 := by
    have first := meanSquareBound.trans (most _ (by omega))
    have second := squareBound.trans (most _ (by omega))
    refine (abs_sub _ _).trans ?_
    norm_num at first second ⊢
    linarith
  have bound := abs_rounded_le_two_pow .binary32 apart
  rw [same]
  exact ⟨_, meanSquareSingle.sub squareSingle (bound.trans_lt (by norm_num)), bound⟩

/-- The variance of deviations that cancel out while the square of each is too large. -/
theorem PopulationVariance.overflowed (population : PopulationVariance variance)
    {deviations : List Float32} (present : deviations ≠ []) (sized : deviations.length ≤ 2 ^ 64)
    (large : ∀ deviation ∈ deviations, Overflowed (deviation * deviation)) {heights : List ℚ}
    (each : List.Forall₂ Single deviations heights) (balanced : heights.sum = 0)
    (kept : ∀ part : List ℚ, part.Subperm heights →
      rounded .binary32 part.sum = part.sum ∧ |part.sum| < 2 ^ 128) :
    Overflowed (variance deviations) := by
  rcases population.computes deviations present with ⟨total, squares, sums, squareSums, same⟩
  rcases exists_single_count sized with ⟨count, countSingle, counted⟩
  have positive : 0 < count := by
    have one := counted 1 0 (by norm_num) (List.length_pos_of_ne_nil present)
    norm_num at one
    linarith
  have infinite : Overflowed squares :=
    (squareSums.overflowed (List.forall_mem_map.mpr large)).resolve_right fun none =>
      present (List.map_eq_nil_iff.mp none.1)
  have totalSingle := sums.single_sum each kept
  rw [balanced] at totalSingle
  have mean := totalSingle.div countSingle positive.ne' (by norm_num)
  rw [zero_div, rounded_zero] at mean
  have square := mean.mul mean (by norm_num)
  rw [same]
  exact (infinite.div_single countSingle positive).sub_single square

/-- No spread is NaN or below zero, however far apart the values are. -/
theorem zero_le_spread (variance : List Float32 → Float32) {values : List Float}
    (present : values ≠ []) : 0 ≤ spread variance values := by
  rw [spread, if_neg (by simpa using present)]
  dsimp only
  apply zero_le_sqrt
  split_ifs with positive
  · exact ordered_of_lt positive
  · decide +kernel

theorem isFinite_spread (population : PopulationVariance variance) {values : List Float}
    (present : values ≠ []) (sized : values.length ≤ 2 ^ 64) (fits : SquaresFit values.length power)
    (each : ∀ number ∈ values, UpTo power number) : (spread variance values).isFinite = true := by
  have low := fits.slack_lt (List.length_pos_of_ne_nil present)
  have count : (deviations values).length = values.length := List.length_map _
  have some : deviations values ≠ [] := by simpa [deviations] using present
  rcases population.exists_single some (by rwa [count]) (by rwa [count])
    (exists_single_deviation present sized (by omega) each) with ⟨height, single, bound⟩
  rcases single.value_widen with ⟨same, comparable⟩
  have finite := (isFinite_of_two_pow comparable same bound (by norm_num)).1
  rw [spread, if_neg (by simpa using present)]
  dsimp only
  refine (isFinite_sqrt ?_ ?_).1
  · split_ifs with positive
    · exact ordered_of_lt positive
    · decide +kernel
  · split_ifs
    · exact finite
    · rfl

/-- A variance too large for single precision makes the spread infinite. -/
theorem not_isFinite_spread {values : List Float} (present : values ≠ [])
    (infinite : Overflowed (variance (deviations values))) :
    (spread variance values).isFinite = false := by
  have unpacked : (widen (variance (deviations values))).toModel.unpack = .infinity .positive := by
    rw [Overflowed] at infinite
    change UnpackedFloat.unpack .binary64 (UnpackedFloat.pack .binary64
      (converted .binary64 (variance (deviations values)).toModel.unpack)) = _
    rw [infinite]
    exact unpack_packedInfinity .positive
  rcases value_of_unpack_eq_infinity unpacked with ⟨limit, comparable⟩
  have positive : 0 < widen (variance (deviations values)) :=
    zero_lt_iff.mpr ⟨comparable, by rw [limit]; exact overflowLimit_pos⟩
  rw [spread, if_neg (by simpa using present)]
  dsimp only
  rw [if_pos positive, isFinite_eq]
  change (UnpackedFloat.unpack .binary64 (UnpackedFloat.pack .binary64
    (UnpackedFloat.sqrt .binary64 (widen (variance (deviations values))).toModel.unpack))).isFinite = _
  rw [unpacked]
  exact congrArg _ (unpack_packedInfinity .positive)

end Spread

/-! ## Noise -/

theorem value_negligible : value negligible = (2 ^ 52)⁻¹ := by
  have unpacked : negligible.toModel.unpack =
      .finite .positive 4503599627370496 (-104) (by decide) := rfl
  rw [value, unpacked]
  norm_num [withSign]

/-- A bound that is not negligible is large enough to divide by. -/
theorem isFinite_noise {values : List Float} {power : ℕ} (present : values ≠ [])
    (sized : values.length ≤ 2 ^ 64) (small : power ≤ 900)
    (each : ∀ number ∈ values, UpTo power number) :
    ∃ result, noise values = .ok result ∧ result.isFinite = true := by
  rcases ofValues_ordered present sized fun number member => (each number member).finite with
    ⟨smallest, smallestMember, largest, largestMember, -, -, -, ordered⟩
  rcases ordered 5 95 (by decide +kernel) (by decide +kernel) (by decide +kernel)
    (.inl (by decide +kernel)) with ⟨low, high, lowFound, highFound, above, between, below⟩
  have least := each smallest smallestMember
  have most := each largest largestMember
  have lowFinite := isFinite_of_between least.finite most.finite above (ordered_trans between below)
  have highFinite := isFinite_of_between least.finite most.finite (ordered_trans above between)
    below
  rw [le_iff_value_le (isNaN_of_isFinite least.finite) (isNaN_of_isFinite lowFinite)] at above
  rw [le_iff_value_le (isNaN_of_isFinite lowFinite) (isNaN_of_isFinite highFinite)] at between
  rw [le_iff_value_le (isNaN_of_isFinite highFinite) (isNaN_of_isFinite most.finite)] at below
  have lowLeast := least.least.trans above
  have highMost := below.trans most.most
  rw [noise, lowFound, highFound]
  refine ⟨_, rfl, ?_⟩
  split_ifs with tiny
  · rfl
  · rcases value_abs lowFinite with ⟨lowAbsFinite, lowAbs⟩
    rw [lt_iff_value_lt (isNaN_of_isFinite lowAbsFinite) (by rfl), lowAbs, abs_of_nonneg lowLeast,
      value_negligible, not_lt] at tiny
    have positive : 0 < value low := lt_of_lt_of_le (by positivity) tiny
    have apart : |value low - value high| ≤ 2 ^ power := by
      rw [abs_le]
      constructor <;> linarith
    rcases value_sub lowFinite highFinite with ⟨difference, differenceComparable⟩
    rcases isFinite_of_two_pow differenceComparable difference apart (by omega) with
      ⟨differenceFinite, differenceBound⟩
    rcases value_abs differenceFinite with ⟨distanceFinite, distance⟩
    rcases value_div distanceFinite lowFinite positive.ne' with ⟨ratio, ratioComparable⟩
    have ratioExact : |value (low - high).abs / value low| ≤ 2 ^ (power + 52) := by
      rw [abs_div, abs_of_pos positive, distance, abs_abs, div_le_iff₀ positive, pow_add]
      calc |value (low - high)| ≤ 2 ^ power * 2 ^ 52 * (2 ^ 52)⁻¹ := by
            rwa [mul_inv_cancel_right₀ (by norm_num)]
        _ ≤ 2 ^ power * 2 ^ 52 * value low := mul_le_mul_of_nonneg_left tiny (by positivity)
    rcases isFinite_of_two_pow ratioComparable ratio ratioExact (by omega) with
      ⟨ratioFinite, ratioBound⟩
    rcases value_mul ratioFinite (show (100 : Float).isFinite = true from rfl) with
      ⟨percentage, percentageComparable⟩
    have percentageExact : |value ((low - high).abs / low) * value 100| ≤ 2 ^ (power + 52 + 7) := by
      have hundred : value 100 = 100 := Percentile.value_ofNat_hundred
      rw [abs_mul, hundred, pow_add _ _ 7]
      exact mul_le_mul ratioBound (by norm_num) (by norm_num) (by positivity)
    exact (isFinite_of_two_pow percentageComparable percentage percentageExact (by omega)).1

/-! ## Standard metrics -/

/-- Of numbers from zero to a power of two, the standard metrics make finite ones, but for a spread
whose squares cannot be added up. Even that is no NaN. -/
theorem standard_spec {variance : List Float32 → Float32} (population : PopulationVariance variance)
    {metric : Metric} (standard : metric ∈ standardWith variance) {values : List Float} {power : ℕ}
    (present : values ≠ []) (sized : values.length ≤ 2 ^ 64) (low : power ≤ 900)
    (each : ∀ number ∈ values, UpTo power number) {result : Float}
    (reduced : metric.reduce values = .ok result) :
    result.isNaN = false ∧ ((metric.name = (standardDeviation variance).name →
      SquaresFit values.length power) → result.isFinite = true) := by
  simp only [standardWith, List.mem_cons, List.not_mem_nil, or_false] at standard
  rcases standard with rfl | rfl | rfl | rfl
  · have finite := (each (smallest values) (extreme_mem _ present)).finite
    cases reduced
    exact ⟨isNaN_of_isFinite finite, fun _ => finite⟩
  · have finite := (each (largest values) (extreme_mem _ present)).finite
    cases reduced
    exact ⟨isNaN_of_isFinite finite, fun _ => finite⟩
  · have least := zero_le_spread variance present
    cases reduced
    exact ⟨(zero_le_iff.mp least).1, fun fits =>
      isFinite_spread population present sized (fits rfl) each⟩
  · rcases isFinite_noise present sized low each with ⟨noise, found, finite⟩
    have same := found.symm.trans reduced
    cases same
    exact ⟨isNaN_of_isFinite finite, fun _ => finite⟩

end FrameTiming.Metric
