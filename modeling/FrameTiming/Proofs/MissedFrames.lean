import FrameTiming.Proofs.RunBounds

/-! # Missed frames

The share of the frames beyond the target and the mean square of their time beyond it are computed in
two ways. They agree on whether there are such frames at all: two doubles that differ have a
difference, and a nanosecond is so much larger than the steps between doubles that its square does not
vanish, either.
-/

namespace FrameTiming

open Number

/-! ## Small numbers -/

theorem nearest_two_pow {power : ℤ} (least : -1074 ≤ power) (most : power ≤ 1024) :
    nearest (2 ^ power) = 2 ^ power := by
  apply nearest_representable
  · exact ⟨1, power, by decide, least, by rw [Nat.cast_one, one_mul]⟩
  · rw [overflowLimit]
    exact zpow_le_zpow_right₀ (by norm_num) most

theorem two_pow_le_nearest {number : ℚ} {power : ℤ} (above : 2 ^ power ≤ number)
    (least : -1074 ≤ power) (most : power ≤ 1024) : 2 ^ power ≤ nearest number := by
  rw [← nearest_two_pow least most]
  exact nearest_mono above

/-- From a half on, the steps between doubles are multiples of one. -/
theorem exists_steps {number : Float} (finite : number.isFinite = true)
    (half : 1 / 2 ≤ value number) : ∃ steps : ℕ, value number = steps * 2 ^ (-53 : ℤ) := by
  have representable := representable_roundedMagnitude .binary64 (value number)
  rw [← rounded_of_nonneg .binary64 (by linarith), (denotes_of_isFinite finite).1.rounded_eq]
    at representable
  rcases representable with ⟨mantissa, exponent, fits, -, same⟩
  have coarse : -53 ≤ exponent := by
    by_contra fine
    have small : (2 : ℚ) ^ exponent ≤ 2 ^ (-54 : ℤ) :=
      zpow_le_zpow_right₀ (by norm_num) (by omega)
    have bits : (mantissa : ℚ) < 2 ^ 53 := by exact_mod_cast fits
    have product : (mantissa : ℚ) * 2 ^ exponent < 2 ^ 53 * 2 ^ (-54 : ℤ) :=
      mul_lt_mul bits small (by positivity) (by positivity)
    rw [← same] at product
    norm_num at product half
    linarith
  rcases Int.eq_ofNat_of_zero_le (sub_nonneg.mpr coarse) with ⟨shift, split⟩
  refine ⟨mantissa * 2 ^ shift, ?_⟩
  have joined : exponent = (shift : ℤ) + -53 := by omega
  rw [same, joined, zpow_add₀ (by norm_num), zpow_natCast]
  push_cast
  ring

/-! ## The time beyond a target -/

section Excess

variable {duration : UInt64} {target : Float}

theorem isFinite_of_late (least : 0 ≤ target) (late : target < duration.toFloat) :
    target.isFinite = true :=
  isFinite_of_between (rfl : (0 : Float).isFinite = true) (isFinite_toFloat duration) least
    (ordered_of_lt late)

/-- However little a frame is beyond the target, it is so by a step of the target. -/
theorem two_pow_le_excess (least : 0 ≤ target) (late : target < duration.toFloat) :
    2 ^ (-53 : ℤ) ≤ value (duration.toFloat - target) := by
  have finite := isFinite_of_late least late
  have durationFinite := isFinite_toFloat duration
  have order := late
  rw [lt_iff_value_lt (isNaN_of_isFinite finite) (isNaN_of_isFinite durationFinite)] at order
  have nonnegative := (zero_le_iff.mp least).2
  have whole : 1 ≤ value duration.toFloat := by
    have some : 1 ≤ duration.toNat := by
      by_contra none
      have zero : duration.toNat = 0 := by omega
      rw [(value_ofUInt64 duration).1, zero, Nat.cast_zero, nearest_zero] at order
      linarith
    have above := nearest_mono (show (1 : ℚ) ≤ duration.toNat by exact_mod_cast some)
    rwa [nearest_one, ← (value_ofUInt64 duration).1] at above
  have apart : 2 ^ (-53 : ℤ) ≤ value duration.toFloat - value target := by
    rcases lt_or_ge (value target) (1 / 2) with small | large
    · have step : (2 : ℚ) ^ (-53 : ℤ) ≤ 1 / 2 := by norm_num
      exact step.trans (by linarith)
    · rcases exists_steps finite large with ⟨steps, same⟩
      rcases exists_steps durationFinite (by linarith) with ⟨durationSteps, durationSame⟩
      rw [same, durationSame] at order ⊢
      have more : steps < durationSteps := by
        exact_mod_cast lt_of_mul_lt_mul_right order (by positivity)
      have one : (1 : ℚ) ≤ durationSteps - steps := by
        have next : (steps : ℚ) + 1 ≤ durationSteps := by exact_mod_cast more
        linarith
      rw [← sub_mul]
      exact le_mul_of_one_le_left (by positivity) one
  rw [(value_sub durationFinite finite).1]
  exact two_pow_le_nearest apart (by norm_num) (by norm_num)

/-- Both measures see the same frames beyond the target. -/
theorem zero_lt_excess_iff (least : 0 ≤ target) :
    0 < duration.toFloat - target ↔ target < duration.toFloat := by
  constructor
  · intro positive
    by_contra inTime
    have comparable := (zero_le_iff.mp least).1
    by_cases finite : target.isFinite = true
    · rw [lt_iff_value_lt comparable (value_ofUInt64 duration).2, not_lt] at inTime
      have above := (zero_lt_iff.mp positive).2
      have below := nearest_mono (sub_nonpos.mpr inTime)
      rw [(value_sub (isFinite_toFloat duration) finite).1] at above
      rw [nearest_zero] at below
      linarith
    · exact not_zero_lt_sub_of_infinite (isFinite_toFloat duration) least finite positive
  · intro late
    have above := two_pow_le_excess least late
    have positive : (0 : ℚ) < 2 ^ (-53 : ℤ) := by positivity
    refine zero_lt_iff.mpr ⟨?_, positive.trans_le above⟩
    exact (value_sub (isFinite_toFloat duration) (isFinite_of_late least late)).2

theorem penalty_of_late (least : 0 ≤ target) (late : target < duration.toFloat) :
    penalty target duration = (duration.toFloat - target) * (duration.toFloat - target) := by
  rw [penalty]
  exact if_pos ((zero_lt_excess_iff least).mpr late)

theorem penalty_of_not_late (least : 0 ≤ target) (inTime : ¬target < duration.toFloat) :
    penalty target duration = 0 := by
  rw [penalty]
  exact if_neg (mt (zero_lt_excess_iff least).mp inTime)

theorem upTo_excess_of_late (least : 0 ≤ target) (late : target < duration.toFloat) :
    UpTo 64 (duration.toFloat - target) :=
  upTo_excess (upTo_toFloat duration.toNat_lt.le (by norm_num)) (by norm_num) least
    ((zero_lt_excess_iff least).mpr late)

theorem value_penalty_of_late (least : 0 ≤ target) (late : target < duration.toFloat) :
    value (penalty target duration) =
      nearest (nearest (value duration.toFloat - value target) ^ 2) := by
  have finite := (upTo_excess_of_late least late).finite
  rw [penalty_of_late least late, (value_mul finite finite).1, ← sq,
    (value_sub (isFinite_toFloat duration) (isFinite_of_late least late)).1]

/-- The square of the time beyond the target is not rounded away. -/
theorem two_pow_le_penalty (least : 0 ≤ target) (late : target < duration.toFloat) :
    2 ^ (-106 : ℤ) ≤ value (penalty target duration) := by
  have above := two_pow_le_excess least late
  rw [(value_sub (isFinite_toFloat duration) (isFinite_of_late least late)).1] at above
  have square := pow_le_pow_left₀ (by positivity) above 2
  rw [← zpow_natCast, ← zpow_mul] at square
  rw [value_penalty_of_late least late]
  exact two_pow_le_nearest square (by norm_num) (by norm_num)

/-- A longer target is missed by less. -/
theorem penalty_antitone {later : Float} (least : 0 ≤ target) (order : target ≤ later) :
    penalty later duration ≤ penalty target duration := by
  have laterLeast := ordered_trans least order
  by_cases late : later < duration.toFloat
  · have alsoLate := lt_of_ordered_of_lt order late
    have above := upTo_excess_of_late laterLeast late
    have finite := above.finite
    have comparable := (zero_le_iff.mp (zero_le_penalty target duration)).1
    have laterComparable := (zero_le_iff.mp (zero_le_penalty later duration)).1
    have nonnegative := above.least
    rw [(value_sub (isFinite_toFloat duration) (isFinite_of_late laterLeast late)).1] at nonnegative
    rw [le_iff_value_le (comparable_of_le order).1 (comparable_of_le order).2] at order
    rw [le_iff_value_le laterComparable comparable, value_penalty_of_late laterLeast late,
      value_penalty_of_late least alsoLate]
    exact nearest_mono (pow_le_pow_left₀ nonnegative (nearest_mono (sub_le_sub_left order _)) 2)
  · rw [penalty_of_not_late laterLeast late]
    exact zero_le_penalty target duration

end Excess

/-! ## The share of missed frames -/

/-- The percentage that so many of `count` frames are, as it is rounded. -/
def percentOf (late count : ℕ) : ℚ :=
  nearest (nearest (nearest late / nearest count) * 100)

section Share

variable {late other count : ℕ}

theorem one_le_nearest_natCast (present : 0 < count) : 1 ≤ nearest count := by
  have least := nearest_mono (show (1 : ℚ) ≤ count by exact_mod_cast present)
  rwa [nearest_one] at least

theorem nearest_natCast_mono (order : late ≤ count) : nearest late ≤ nearest count :=
  nearest_mono (by exact_mod_cast order)

theorem percentOf_mono (order : late ≤ other) (count : ℕ) :
    percentOf late count ≤ percentOf other count := by
  have least : 0 ≤ nearest count := nearest_nonneg (by positivity)
  have share := nearest_mono (div_le_div_of_nonneg_right (nearest_natCast_mono order) least)
  exact nearest_mono (mul_le_mul_of_nonneg_right share (by norm_num))

theorem percentOf_self (present : 0 < count) : percentOf count count = 100 := by
  have positive := one_le_nearest_natCast present
  have hundred : nearest 100 = 100 := by
    exact_mod_cast nearest_natCast (show 100 ≤ 2 ^ 53 by norm_num)
  rw [percentOf, div_self (by linarith), nearest_one, one_mul, hundred]

/-- No more is lost to a count than to a word. -/
theorem two_pow_le_div_count {number : ℚ} {power : ℤ} (above : 2 ^ power ≤ number)
    (present : 0 < count) (sized : count ≤ 2 ^ 64) : 2 ^ (power - 64) ≤ number / nearest count := by
  have countLeast := one_le_nearest_natCast present
  have countMost := nearest_natCast_mono sized
  rw [Nat.cast_pow, Nat.cast_ofNat, ← zpow_natCast, nearest_two_pow (by norm_num) (by norm_num)]
    at countMost
  rw [le_div_iff₀ (by linarith)]
  calc (2 : ℚ) ^ (power - 64) * nearest count ≤ 2 ^ (power - 64) * 2 ^ ((64 : ℕ) : ℤ) :=
        mul_le_mul_of_nonneg_left countMost (by positivity)
    _ = 2 ^ power := by
        rw [← zpow_add₀ (by norm_num), Nat.cast_ofNat, sub_add_cancel]
    _ ≤ number := above

/-- A frame in a word full of frames still counts. -/
theorem percentOf_pos (some : 0 < late) (sized : count ≤ 2 ^ 64) (present : 0 < count) :
    0 < percentOf late count := by
  have one : (2 : ℚ) ^ (0 : ℤ) ≤ nearest late := by
    rw [zpow_zero]
    exact one_le_nearest_natCast some
  have positive : (0 : ℚ) < 2 ^ (0 - 64 : ℤ) := by positivity
  have share := two_pow_le_nearest (two_pow_le_div_count one present sized) (by norm_num)
    (by norm_num)
  have percent := share.trans (le_mul_of_one_le_right (positive.le.trans share)
    (by norm_num : (1 : ℚ) ≤ 100))
  exact positive.trans_le (two_pow_le_nearest percent (by norm_num) (by norm_num))

/-- Up to `2 ^ 53` frames, a single one in time keeps the percentage below the whole. -/
theorem percentOf_lt_hundred (less : late < count) (exact : count ≤ 2 ^ 53) :
    percentOf late count < 100 := by
  have positive : (0 : ℚ) < count := by exact_mod_cast Nat.zero_lt_of_lt less
  have ratio : (late : ℚ) / count ≤ 1 - 2 ^ (-53 : ℤ) := by
    have next : (late : ℚ) + 1 ≤ count := by exact_mod_cast less
    have few : (count : ℚ) * 2 ^ (-53 : ℤ) ≤ 1 := by
      have cast : (count : ℚ) ≤ 2 ^ 53 := by exact_mod_cast exact
      norm_num
      linarith
    rw [div_le_iff₀ positive]
    linarith
  have share := nearest_mono ratio
  rw [Percentile.nearest_below_one] at share
  have percent := nearest_mono (mul_le_mul_of_nonneg_right share (by norm_num : (0 : ℚ) ≤ 100))
  have error := nearest_le_add (show 1 ≤ (1 - 2 ^ (-53 : ℤ) : ℚ) * 100 by norm_num)
  rw [percentOf, nearest_natCast (less.le.trans exact), nearest_natCast exact]
  refine (percent.trans error).trans_lt ?_
  norm_num

/-- One frame more, and its being in time is rounded away. -/
theorem percentOf_of_beyond : percentOf (2 ^ 53) (2 ^ 53 + 1) = 100 := by
  rw [← percentOf_self (show 0 < 2 ^ 53 by norm_num), percentOf, percentOf, nearest_overfull,
    nearest_natCast le_rfl]

end Share

/-! ## Durations -/

theorem ne_zero_of_pos {number : Float} (positive : 0 < number) : number ≠ 0 := by
  rintro rfl
  exact lt_irrefl _ (value_zero ▸ (zero_lt_iff.mp positive).2)

theorem zero_div_ofNat {count : ℕ} (present : 0 < count) (sized : count ≤ 2 ^ 64) :
    Float.ofNat 0 / Float.ofNat count = 0 := by
  have several := zero_lt_ofNat present
  have finite := isFinite_ofNat sized
  apply ((signless_ofNat 0).div rfl several finite).eq_of_value_eq (.inl rfl)
  rw [(value_div rfl finite (zero_lt_iff.mp several).2.ne').1, Percentile.value_ofNat_zero,
    zero_div, nearest_zero, value_zero]

theorem lateCount_pos_iff {target : Float} {durations : List UInt64} :
    0 < lateCount target durations ↔ ∃ duration ∈ durations, target < duration.toFloat := by
  rw [lateCount, List.countP_pos_iff]
  simp only [decide_eq_true_eq]

theorem lateCount_eq_zero_iff {target : Float} {durations : List UInt64} :
    lateCount target durations = 0 ↔ ∀ duration ∈ durations, ¬target < duration.toFloat := by
  rw [lateCount, List.countP_eq_zero]
  simp only [decide_eq_true_eq]

theorem lateCount_eq_length_iff {target : Float} {durations : List UInt64} :
    lateCount target durations = durations.length ↔
      ∀ duration ∈ durations, target < duration.toFloat := by
  rw [lateCount, List.countP_eq_length]
  simp only [decide_eq_true_eq]

theorem lateCount_antitone {target later : Float} (order : target ≤ later)
    (durations : List UInt64) : lateCount later durations ≤ lateCount target durations := by
  apply List.countP_mono_left
  intro duration _ late
  exact decide_eq_true (lt_of_ordered_of_lt order (of_decide_eq_true late))

section Durations

variable {durations : List UInt64} {target later : Float} (present : durations ≠ [])
  (sized : durations.length ≤ 2 ^ 64)
include present sized

theorem value_missedPercent (target : Float) :
    value (missedPercent durations target) =
      percentOf (lateCount target durations) durations.length := by
  have several := List.length_pos_of_ne_nil present
  have positive := (zero_lt_iff.mp (zero_lt_ofNat several)).2
  have counted := lateCount_le_length target durations
  have hundred : value 100 = 100 := Percentile.value_ofNat_hundred
  rw [missedPercent_eq present, percentOf,
    (value_mul (upTo_share counted several sized).finite (rfl : (100 : Float).isFinite = true)).1,
    (value_div (isFinite_ofNat (counted.trans sized)) (isFinite_ofNat sized) positive.ne').1,
    (value_ofNat _).1, (value_ofNat _).1, hundred]

theorem isNaN_missedPercent (target : Float) : (missedPercent durations target).isNaN = false :=
  isNaN_of_isFinite (upTo_missedPercent present sized target).finite

theorem missedPercent_antitone (order : target ≤ later) :
    missedPercent durations later ≤ missedPercent durations target := by
  rw [le_iff_value_le (isNaN_missedPercent present sized later)
    (isNaN_missedPercent present sized target), value_missedPercent present sized,
    value_missedPercent present sized]
  exact percentOf_mono (lateCount_antitone order durations) _

theorem zero_lt_missedPercent (some : 0 < lateCount target durations) :
    0 < missedPercent durations target := by
  rw [zero_lt_iff, value_missedPercent present sized]
  exact ⟨isNaN_missedPercent present sized target,
    percentOf_pos some sized (List.length_pos_of_ne_nil present)⟩

theorem missedPercent_eq_zero (none : lateCount target durations = 0) :
    missedPercent durations target = 0 := by
  rw [missedPercent_eq present, none, zero_div_ofNat (List.length_pos_of_ne_nil present) sized]
  decide +kernel

theorem missedPercent_eq_zero_iff :
    missedPercent durations target = 0 ↔ lateCount target durations = 0 := by
  refine ⟨fun zero => ?_, missedPercent_eq_zero present sized⟩
  by_contra some
  exact ne_zero_of_pos (zero_lt_missedPercent present sized (Nat.pos_of_ne_zero some)) zero

theorem missedPercent_le_hundred (target : Float) : missedPercent durations target ≤ 100 := by
  have hundred : value 100 = 100 := Percentile.value_ofNat_hundred
  rw [le_iff_value_le (isNaN_missedPercent present sized target) rfl,
    value_missedPercent present sized, hundred,
    ← percentOf_self (List.length_pos_of_ne_nil present)]
  exact percentOf_mono (lateCount_le_length target durations) _

theorem missedPercent_eq_hundred_iff :
    missedPercent durations target = 100 ↔
      percentOf (lateCount target durations) durations.length = 100 := by
  have hundred : value 100 = 100 := Percentile.value_ofNat_hundred
  rw [← value_missedPercent present sized, ← hundred]
  constructor
  · exact congrArg value
  · intro same
    apply eq_of_value_eq (isNaN_missedPercent present sized target) rfl same
    rw [same, hundred]
    norm_num

variable (least : 0 ≤ target)
include least

theorem value_missedScore :
    (missedScore durations target).isNaN = false ∧
      value (missedScore durations target) =
        nearest (value (sum (durations.map (penalty target))) / nearest durations.length) := by
  have several := zero_lt_ofNat (List.length_pos_of_ne_nil present)
  have finite : (sum (durations.map (penalty target))).isFinite = true := by
    refine (isFinite_sum (show 128 ≤ 900 by norm_num) fun number member => ?_).1
    rcases List.mem_map.mp member with ⟨duration, -, rfl⟩
    have within := upTo_penalty duration.toNat_lt.le (by norm_num) least
    exact ⟨within.finite, within.abs_le⟩
  rcases value_div finite (isFinite_ofNat sized) (zero_lt_iff.mp several).2.ne' with
    ⟨quotient, comparable⟩
  rw [(value_ofNat _).1] at quotient
  rw [missedScore_eq present]
  exact ⟨comparable, quotient⟩

theorem missedScore_antitone (order : target ≤ later) :
    missedScore durations later ≤ missedScore durations target := by
  rcases value_missedScore present sized least with ⟨comparable, same⟩
  rcases value_missedScore present sized (ordered_trans least order) with
    ⟨laterComparable, laterSame⟩
  have total : sum (durations.map (penalty later)) ≤ sum (durations.map (penalty target)) :=
    sum_map_ordered fun duration _ =>
      ⟨zero_le_penalty later duration, penalty_antitone least order⟩
  rw [le_iff_value_le (comparable_of_le total).1 (comparable_of_le total).2] at total
  rw [le_iff_value_le laterComparable comparable, same, laterSame]
  exact nearest_mono (div_le_div_of_nonneg_right total (nearest_nonneg (by positivity)))

theorem zero_lt_missedScore (some : 0 < lateCount target durations) :
    0 < missedScore durations target := by
  rcases lateCount_pos_iff.mp some with ⟨duration, member, late⟩
  rcases value_missedScore present sized least with ⟨comparable, same⟩
  have each : ∀ number ∈ durations.map (penalty target), 0 ≤ number := by
    intro number inside
    rcases List.mem_map.mp inside with ⟨other, -, rfl⟩
    exact zero_le_penalty target other
  have total := (two_pow_le_penalty least late).trans
    (value_le_sum each (List.mem_map_of_mem member))
  have score := two_pow_le_nearest
    (two_pow_le_div_count total (List.length_pos_of_ne_nil present) sized) (by norm_num)
    (by norm_num)
  rw [← same] at score
  exact zero_lt_iff.mpr ⟨comparable, lt_of_lt_of_le (by positivity) score⟩

theorem missedScore_eq_zero (none : lateCount target durations = 0) :
    missedScore durations target = 0 := by
  have penalties : durations.map (penalty target) = (durations.map fun _ => 0).map Float.ofNat := by
    rw [List.map_map]
    apply List.map_congr_left
    intro duration member
    have inTime : ¬target < duration.toFloat := by
      intro late
      have some := lateCount_pos_iff.mpr ⟨duration, member, late⟩
      omega
    exact penalty_of_not_late least inTime
  have total : sum (durations.map (penalty target)) = Float.ofNat 0 := by
    rw [penalties, sum_map_ofNat (by simpa using present) (by simp)]
    simp
  rw [missedScore_eq present, total,
    zero_div_ofNat (List.length_pos_of_ne_nil present) sized]

theorem missedScore_eq_zero_iff :
    missedScore durations target = 0 ↔ lateCount target durations = 0 := by
  refine ⟨fun zero => ?_, missedScore_eq_zero present sized least⟩
  by_contra some
  exact ne_zero_of_pos (zero_lt_missedScore present sized least (Nat.pos_of_ne_zero some)) zero

end Durations

/-- One frame in time is overlooked where the number of frames is no double any more. -/
theorem missedPercent_of_beyond {count : ℕ} (beyond : count = 2 ^ 53) :
    missedPercent (0 :: List.replicate count 2) 1 = 100 := by
  have length : (0 :: List.replicate count (2 : UInt64)).length = count + 1 := by
    rw [List.length_cons, List.length_replicate]
  have late : lateCount 1 (0 :: List.replicate count 2) = count := by
    have zeroInTime : decide ((1 : Float) < UInt64.toFloat 0) = false := by decide +kernel
    have twoLate : decide ((1 : Float) < UInt64.toFloat 2) = true := by decide +kernel
    rw [lateCount, List.countP_cons, List.countP_replicate, zeroInTime, twoLate]
    rfl
  have sized : (0 :: List.replicate count (2 : UInt64)).length ≤ 2 ^ 64 := by
    rw [length]
    omega
  apply (missedPercent_eq_hundred_iff (List.cons_ne_nil _ _) sized).mpr
  rw [late, length, beyond, percentOf_of_beyond]

/-! ## Targets -/

theorem Config.targetTime_antitone {config faster : Config} (valid : config.validate = .ok ())
    (fasterValid : faster.validate = .ok ()) (order : config.targetRate ≤ faster.targetRate) :
    faster.targetTime ≤ config.targetTime := by
  rcases targetRate_positive valid with ⟨finite, positive⟩
  rcases targetRate_positive fasterValid with ⟨fasterFinite, fasterPositive⟩
  have second : (0 : Float) ≤ 1e9 := by decide +kernel
  have above := (zero_lt_iff.mp positive).2
  rcases value_div (rfl : (1e9 : Float).isFinite = true) finite above.ne' with ⟨time, comparable⟩
  rcases value_div (rfl : (1e9 : Float).isFinite = true) fasterFinite
    (zero_lt_iff.mp fasterPositive).2.ne' with ⟨fasterTime, fasterComparable⟩
  rw [le_iff_value_le (comparable_of_le order).1 (comparable_of_le order).2] at order
  rw [targetTime, targetTime, le_iff_value_le fasterComparable comparable, time, fasterTime]
  exact nearest_mono (div_le_div_of_nonneg_left (zero_le_iff.mp second).2 above order)

/-- The share of missed frames and the missed score agree on whether frames are beyond the target, the
share is the whole when all are, and neither grows with the target. -/
theorem missed_consistent {durations : List UInt64} (present : durations ≠ [])
    (sized : durations.length ≤ 2 ^ 64) :
    (∀ config : Config, config.validate = .ok () →
      let percent := missedPercent durations config.targetTime
      let score := missedScore durations config.targetTime
      let Late (duration : UInt64) : Prop := config.targetTime < duration.toFloat
      (score = 0 ↔ percent = 0) ∧
        (percent = 0 ↔ ∀ duration ∈ durations, ¬Late duration) ∧
        (¬percent = 0 → 0 < percent ∧ 0 < score) ∧
        percent ≤ 100 ∧
        ((∀ duration ∈ durations, Late duration) → percent = 100) ∧
        (durations.length ≤ 2 ^ 53 → percent = 100 → ∀ duration ∈ durations, Late duration)) ∧
    ∀ config faster : Config, config.validate = .ok () → faster.validate = .ok () →
      (config.targetRate ≤ faster.targetRate → faster.targetTime ≤ config.targetTime) ∧
        (faster.targetTime ≤ config.targetTime →
          missedPercent durations config.targetTime ≤ missedPercent durations faster.targetTime ∧
            missedScore durations config.targetTime ≤ missedScore durations faster.targetTime) := by
  constructor
  · intro config valid percent score Late
    have least := Config.zero_le_targetTime valid
    have percentZero := @missedPercent_eq_zero_iff durations config.targetTime present sized
    have hundred := @missedPercent_eq_hundred_iff durations config.targetTime present sized
    refine ⟨(missedScore_eq_zero_iff present sized least).trans percentZero.symm,
      percentZero.trans lateCount_eq_zero_iff, fun nonzero => ?_,
      missedPercent_le_hundred present sized _, fun all => ?_, fun exact full => ?_⟩
    · have some := Nat.pos_of_ne_zero (mt percentZero.mpr nonzero)
      exact ⟨zero_lt_missedPercent present sized some, zero_lt_missedScore present sized least some⟩
    · refine hundred.mpr ?_
      rw [lateCount_eq_length_iff.mpr all, percentOf_self (List.length_pos_of_ne_nil present)]
    · refine lateCount_eq_length_iff.mp ?_
      by_contra apart
      have less := (lateCount_le_length config.targetTime durations).lt_of_ne apart
      exact (percentOf_lt_hundred less exact).ne (hundred.mp full)
  · intro config faster valid fasterValid
    refine ⟨Config.targetTime_antitone valid fasterValid, fun order => ?_⟩
    exact ⟨missedPercent_antitone present sized order,
      missedScore_antitone present sized (Config.zero_le_targetTime fasterValid) order⟩

private def twoFrames : List UInt64 := [20000000, 30000000]

private def slowTarget : Config := { targetRate := 40 }

/-- Of two frames of 20 and 30 milliseconds the second one alone misses 40 frames per second, and both
miss 60. -/
theorem missed_consistent_of_twoFrames :
    0 < missedPercent twoFrames slowTarget.targetTime ∧
      0 < missedScore twoFrames slowTarget.targetTime ∧
      ¬missedPercent twoFrames slowTarget.targetTime = 100 ∧
      missedPercent twoFrames (Config.targetTime {}) = 100 ∧
      missedScore twoFrames slowTarget.targetTime ≤ missedScore twoFrames (Config.targetTime {}) := by
  have length : twoFrames.length = 2 := rfl
  have present : twoFrames ≠ [] := List.cons_ne_nil _ _
  have consistent := missed_consistent present (by omega)
  have valid : slowTarget.validate = .ok () := by decide +kernel
  have defaultValid : Config.validate {} = .ok () := by decide +kernel
  rcases consistent.1 slowTarget valid with ⟨-, zero, positive, -, -, full⟩
  rcases consistent.1 {} defaultValid with ⟨-, -, -, -, all, -⟩
  rcases consistent.2 slowTarget {} valid defaultValid with ⟨slower, larger⟩
  have some : ¬missedPercent twoFrames slowTarget.targetTime = 0 := by
    intro none
    exact zero.mp none 30000000 (by decide) (by decide +kernel)
  have inTime : ¬slowTarget.targetTime < UInt64.toFloat 20000000 := by decide +kernel
  have late : ∀ duration ∈ twoFrames, Config.targetTime {} < duration.toFloat :=
    List.forall_mem_cons.mpr
      ⟨by decide +kernel, List.forall_mem_singleton.mpr (by decide +kernel)⟩
  exact ⟨(positive some).1, (positive some).2,
    fun hundred => inTime (full (by omega) hundred 20000000 (by decide)), all late,
    (larger (slower (by decide +kernel))).2⟩

end FrameTiming
