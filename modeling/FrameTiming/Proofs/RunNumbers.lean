import FrameTiming.Proofs.Number.Nonnegative
import FrameTiming.Proofs.PercentileTable
import FrameTiming.Proofs.Run
import FrameTiming.Proofs.StateTime
import FrameTiming.Summary

/-! # Numbers of a run

Whatever a run was recorded from and whatever it was compared with, its numbers are no NaN and not
below zero. Its median is finite and has no sign, so medians are told apart by their order.
-/

namespace FrameTiming

open Number

/-! ## Percentiles of ascending values -/

namespace Percentile

/-- A percentile is one of the values, or it is kept between two of them. -/
theorem ofSorted_cases {sorted : Array Float} {percentile : Float} (present : 0 < sorted.size)
    (sized : sorted.size ≤ 2 ^ 64)
    (ascending : ∀ place other (before : place ≤ other) (within : other < sorted.size),
      sorted[place] ≤ sorted[other])
    (comparable : percentile.isNaN = false) (least : 0 ≤ value percentile)
    (below : value percentile < 100) :
    (∃ number ∈ sorted, ofSorted sorted percentile = .ok (some number)) ∨
      ∃ low ∈ sorted, ∃ high ∈ sorted, ∃ weight : Float, low ≤ high ∧ 0 < weight ∧
        weight.isFinite = true ∧
        ofSorted sorted percentile =
          (clamp low high (low + (high - low) * weight)).map some := by
  rcases value_rank comparable least below.le sized with ⟨rankValue, rankComparable⟩
  have nonnegative := position_nonneg least sorted.size
  have within : position (value percentile) sorted.size ≤ (sorted.size - 1 : ℕ) :=
    position_le comparable least below.le (.inl below)
  rw [← rankValue] at nonnegative within
  have floorWithin : ⌊value (rank percentile sorted.size)⌋₊ ≤ sorted.size - 1 := by
    have floor := Nat.floor_mono within
    rwa [Nat.floor_natCast] at floor
  have ceilWithin : ⌈value (rank percentile sorted.size)⌉₊ ≤ sorted.size - 1 :=
    Nat.ceil_le.mpr within
  have word : value (rank percentile sorted.size) < 2 ^ 64 := by
    have size : ((sorted.size - 1 : ℕ) : ℚ) < 2 ^ 64 := by
      exact_mod_cast (show sorted.size - 1 < 2 ^ 64 by omega)
    linarith
  have floorInside : ⌊value (rank percentile sorted.size)⌋₊ < sorted.size := by omega
  have ceilInside : ⌈value (rank percentile sorted.size)⌉₊ < sorted.size := by omega
  unfold ofSorted
  by_cases single : sorted.size ≤ 1
  · left
    rw [if_pos single, Array.getElem?_eq_getElem present]
    exact ⟨_, Array.getElem_mem present, rfl⟩
  · rw [if_neg single]
    dsimp only
    rw [floorNat_eq rankComparable word, ceilNat_eq rankComparable nonnegative word,
      min_eq_left ceilWithin, Array.getElem?_eq_getElem floorInside,
      Array.getElem?_eq_getElem ceilInside]
    dsimp only
    by_cases whole : ⌊value (rank percentile sorted.size)⌋₊ = ⌈value (rank percentile sorted.size)⌉₊
    · left
      rw [if_pos whole]
      exact ⟨_, Array.getElem_mem floorInside, rfl⟩
    · right
      rcases value_weight rankComparable nonnegative word whole with ⟨-, finite, positive, -⟩
      rw [if_neg whole]
      exact ⟨_, Array.getElem_mem floorInside, _, Array.getElem_mem ceilInside, _,
        ascending _ _ (Nat.floor_le_ceil _) ceilInside,
        zero_lt_iff.mpr ⟨isNaN_of_isFinite finite, positive⟩, finite, rfl⟩

/-- A number is kept as it is or becomes one of the bounds. -/
theorem clamp_cases {low high number : Float} (order : low ≤ high) :
    ∃ result, clamp low high number = .ok result ∧
      (result = low ∨ result = high ∨ result = number) := by
  rw [clamp, if_pos order]
  dsimp only
  refine ⟨_, rfl, ?_⟩
  split_ifs <;> simp

/-- Sorted values that are no NaN ascend. -/
theorem ascending_of_comparable {values : List Float}
    (comparable : ∀ number ∈ values, number.isNaN = false) (place other : ℕ)
    (before : place ≤ other) (within : other < (sortAscending values).toArray.size) :
    (sortAscending values).toArray[place] ≤ (sortAscending values).toArray[other] := by
  have inside : ∀ {index} (bound : index < (sortAscending values).length),
      ((sortAscending values)[index]).isNaN = false := by
    intro index bound
    exact comparable _ ((sortAscending_perm values).mem_iff.mp (List.getElem_mem bound))
  have inOrder := pairwise_sortAscending values
  rw [List.pairwise_iff_getElem] at inOrder
  rw [List.size_toArray] at within
  rw [List.getElem_toArray, List.getElem_toArray,
    le_iff_value_le (inside (before.trans_lt within)) (inside within)]
  rcases before.eq_or_lt with rfl | strict
  · exact le_rfl
  · exact value_le_of_totalLe (inside (before.trans_lt within)) (inside within)
      (inOrder place other (before.trans_lt within) within strict)

theorem size_sortAscending (values : List Float) :
    (sortAscending values).toArray.size = values.length := by
  rw [List.size_toArray, (sortAscending_perm values).length_eq]

/-- A percentile of values that are no NaN exists. -/
theorem ofValues_succeeds {values : List Float} {percentile : Float} (present : values ≠ [])
    (sized : values.length ≤ 2 ^ 64) (comparable : ∀ number ∈ values, number.isNaN = false)
    (percentileComparable : percentile.isNaN = false) (least : 0 ≤ value percentile)
    (below : value percentile < 100) :
    ∃ result, ofValues values percentile = .ok (some result) := by
  rcases ofSorted_cases (by rwa [size_sortAscending, List.length_pos_iff])
    (by rwa [size_sortAscending])
    (ascending_of_comparable comparable) percentileComparable least below with
    ⟨number, -, found⟩ | ⟨low, -, high, -, weight, order, -, -, found⟩
  · exact ⟨number, found⟩
  · rcases clamp_cases order with ⟨result, kept, -⟩
    refine ⟨result, ?_⟩
    rw [ofValues, found, kept]
    rfl

/-- More values than a word counts have every percentile, since no rank that is a word lies behind
their end. -/
theorem ofValues_succeeds_of_long {values : List Float} (long : 2 ^ 64 < values.length)
    (comparable : ∀ number ∈ values, number.isNaN = false) (percentile : Float) :
    ∃ result, ofValues values percentile = .ok (some result) := by
  have size := size_sortAscending values
  have several : ¬ (sortAscending values).toArray.size ≤ 1 := by omega
  rw [ofValues, ofSorted, if_neg several]
  dsimp only
  generalize rank percentile (sortAscending values).toArray.size = place
  have word : floorNat place < 2 ^ 64 := place.toUInt64.toNat_lt
  have above : floorNat place ≤ ceilNat place := by
    rw [ceilNat]
    split_ifs
    · exact Nat.le_succ _
    · exact le_rfl
  have lowInside : floorNat place < (sortAscending values).toArray.size := by omega
  have order : floorNat place ≤ min (ceilNat place) ((sortAscending values).toArray.size - 1) := by
    omega
  have highInside : min (ceilNat place) ((sortAscending values).toArray.size - 1) <
      (sortAscending values).toArray.size := by omega
  rw [Array.getElem?_eq_getElem lowInside, Array.getElem?_eq_getElem highInside]
  dsimp only
  split_ifs with whole
  · exact ⟨_, rfl⟩
  · rcases clamp_cases (ascending_of_comparable comparable _ _ order highInside) with
      ⟨result, kept, -⟩
    exact ⟨result, by rw [kept]; rfl⟩

/-- A percentile of finite values without a sign has none. -/
theorem signless_of_ofValues {values : List Float} {percentile result : Float}
    (present : values ≠ []) (sized : values.length ≤ 2 ^ 64)
    (signless : ∀ number ∈ values, Signless number ∧ number.isFinite = true)
    (percentileComparable : percentile.isNaN = false) (least : 0 ≤ value percentile)
    (below : value percentile < 100) (found : ofValues values percentile = .ok (some result)) :
    Signless result := by
  have member : ∀ number ∈ (sortAscending values).toArray,
      Signless number ∧ number.isFinite = true := by
    intro number inside
    exact signless number ((sortAscending_perm values).mem_iff.mp (List.mem_toArray.mp inside))
  have comparable : ∀ number ∈ values, number.isNaN = false :=
    fun number inside => isNaN_of_isFinite (signless number inside).2
  rcases ofSorted_cases (by rwa [size_sortAscending, List.length_pos_iff])
    (by rwa [size_sortAscending])
    (ascending_of_comparable comparable) percentileComparable least below with
    ⟨number, inside, computed⟩ | ⟨low, lowInside, high, highInside, weight, order, positive,
      finite, computed⟩
  · rw [ofValues, computed, Except.ok.injEq, Option.some.injEq] at found
    rw [← found]
    exact (member number inside).1
  · rcases member low lowInside with ⟨lowSignless, lowFinite⟩
    rcases member high highInside with ⟨highSignless, highFinite⟩
    have difference : 0 ≤ high - low := by
      rw [le_iff_value_le (isNaN_of_isFinite lowFinite) (isNaN_of_isFinite highFinite)] at order
      rcases value_sub highFinite lowFinite with ⟨same, differenceComparable⟩
      rw [zero_le_iff, same]
      exact ⟨differenceComparable, nearest_nonneg (by linarith)⟩
    rcases @clamp_cases _ _ (low + (high - low) * weight) order with ⟨kept, clamped, cases⟩
    rw [ofValues, computed, clamped] at found
    cases found
    rcases cases with rfl | rfl | rfl
    · exact lowSignless
    · exact highSignless
    · exact lowSignless.add (zero_le_mul difference positive finite)

end Percentile

/-! ## Tables -/

theorem zero_lt_millisecondLength : 0 < millisecondLength := by decide +kernel

theorem value_ofNat_lt_hundred {index : ℕ} (within : index < percentileCount) :
    value (Float.ofNat index) < 100 := by
  have less := (lt_iff_value_lt (value_ofNat index).2 (value_ofNat 100).2).mp
    (ofNat_lt_hundred within)
  rwa [Percentile.value_ofNat_hundred] at less

/-- In milliseconds a time is no longer than in nanoseconds. -/
theorem isFinite_div_millisecondLength {number : Float} (finite : number.isFinite = true)
    (least : 0 ≤ value number) : (number / millisecondLength).isFinite = true := by
  have positive := (zero_lt_iff.mp zero_lt_millisecondLength).2
  rcases value_div finite (rfl : millisecondLength.isFinite = true) positive.ne' with
    ⟨quotient, comparable⟩
  have smaller : value number / value millisecondLength ≤ value number := by
    rw [value_millisecondLength]
    linarith
  rw [isFinite_iff (isNaN_of_isFinite finite), abs_of_nonneg least] at finite
  rw [isFinite_iff comparable, quotient, abs_of_nonneg (nearest_nonneg (div_nonneg least positive.le))]
  exact (nearest_le_value smaller).trans_lt finite

section Durations

variable {durations : List UInt64} {table : PercentileTable}

theorem ofDurations_nil : PercentileTable.ofDurations [] = .ok none := by
  simp [PercentileTable.ofDurations, sortAscending]

theorem ne_nil_of_ofDurations (built : PercentileTable.ofDurations durations = .ok (some table)) :
    durations ≠ [] := by
  rintro rfl
  rw [ofDurations_nil] at built
  cases built

/-- Durations have all percentiles of a table, however many there are. -/
theorem ofValues_toFloat_succeeds (present : durations ≠ []) {index : ℕ}
    (within : index < percentileCount) : ∃ result,
      Percentile.ofValues (durations.map UInt64.toFloat) (Float.ofNat index) =
        .ok (some result) := by
  have comparable : ∀ number ∈ durations.map UInt64.toFloat, number.isNaN = false := by
    intro number member
    rcases List.mem_map.mp member with ⟨duration, -, rfl⟩
    exact (value_ofUInt64 duration).2
  rcases Nat.lt_or_ge (2 ^ 64) durations.length with long | sized
  · exact Percentile.ofValues_succeeds_of_long (by rwa [List.length_map]) comparable _
  · exact Percentile.ofValues_succeeds (by simpa using present) (by rwa [List.length_map])
      comparable (value_ofNat index).2 (zero_le_iff.mp (zero_le_ofNat index)).2
      (value_ofNat_lt_hundred within)

theorem ofDurations_succeeds (present : durations ≠ []) :
    ∃ table, PercentileTable.ofDurations durations = .ok (some table) := by
  rcases ofDurations_eq_ok present fun _ => ofValues_toFloat_succeeds present with
    ⟨table, built, -⟩
  exact ⟨table, built⟩

/-- The entries of a table are finite and have no sign. -/
theorem entry_of_ofDurations (sized : durations.length ≤ 2 ^ 64)
    (built : PercentileTable.ofDurations durations = .ok (some table)) {index : ℕ}
    (within : index < percentileCount) :
    ∃ entry, table.get? index = some entry ∧ Signless entry ∧ entry.isFinite = true := by
  have present := ne_nil_of_ofDurations built
  have signless : ∀ number ∈ durations.map UInt64.toFloat,
      Signless number ∧ number.isFinite = true := by
    intro number member
    rcases List.mem_map.mp member with ⟨duration, -, rfl⟩
    exact ⟨signless_toFloat duration, isFinite_toFloat duration⟩
  have nonempty : durations.map UInt64.toFloat ≠ [] := by simpa using present
  have word : (durations.map UInt64.toFloat).length ≤ 2 ^ 64 := by simpa using sized
  rcases ofValues_ordered nonempty word fun number member => (signless number member).2 with
    ⟨smallest, smallestMember, largest, largestMember, -, -, -, ordered⟩
  have between : ∀ index < percentileCount, ∃ result,
      Percentile.ofValues (durations.map UInt64.toFloat) (Float.ofNat index) = .ok (some result) ∧
        smallest ≤ result ∧ result ≤ largest := by
    intro index within
    rcases ordered (Float.ofNat index) (Float.ofNat index) (zero_le_ofNat index)
      (ofNat_le_ofNat le_rfl) (ofNat_le_ofNat within.le) (.inl (ofNat_lt_hundred within)) with
      ⟨low, high, lowFound, highFound, above, between, below⟩
    exact ⟨low, lowFound, above, ordered_trans between below⟩
  rcases ofDurations_eq_ok present fun index within =>
    (between index within).imp fun _ found => found.1 with ⟨other, alsoBuilt, entries⟩
  rw [built, Except.ok.injEq, Option.some.injEq] at alsoBuilt
  subst alsoBuilt
  rcases between index within with ⟨result, found, above, below⟩
  rcases entries index within with ⟨same, alsoFound, entry⟩
  rw [found, Except.ok.injEq, Option.some.injEq] at alsoFound
  subst alsoFound
  have finite := isFinite_of_between (signless _ smallestMember).2 (signless _ largestMember).2
    above below
  have resultSignless := Percentile.signless_of_ofValues nonempty word signless (value_ofNat index).2
    (zero_le_iff.mp (zero_le_ofNat index)).2 (value_ofNat_lt_hundred within) found
  exact ⟨_, entry, resultSignless.div finite zero_lt_millisecondLength rfl,
    isFinite_div_millisecondLength finite (zero_le_iff.mp resultSignless.zero_le).2⟩

end Durations

/-! ## Missed frames -/

/-- How many frames are beyond the target. -/
def lateCount (target : Float) (durations : List UInt64) : ℕ :=
  durations.countP fun duration => target < duration.toFloat

theorem lateCount_le_length (target : Float) (durations : List UInt64) :
    lateCount target durations ≤ durations.length :=
  List.countP_le_length

/-- What a frame adds to the missed score: the square of its time beyond the target. -/
def penalty (target : Float) (duration : UInt64) : Float :=
  let excess := duration.toFloat - target
  if 0 < excess then excess * excess else 0

theorem zero_le_penalty (target : Float) (duration : UInt64) : 0 ≤ penalty target duration := by
  unfold penalty
  dsimp only
  split_ifs with late
  · exact zero_le_mul_self late
  · decide +kernel

theorem missedPercent_eq {durations : List UInt64} (present : durations ≠ []) (target : Float) :
    missedPercent durations target =
      Float.ofNat (lateCount target durations) / Float.ofNat durations.length * 100 := by
  rw [missedPercent, if_neg (by simpa using present), lateCount]

theorem missedScore_eq {durations : List UInt64} (present : durations ≠ []) (target : Float) :
    missedScore durations target =
      Number.sum (durations.map (penalty target)) / Float.ofNat durations.length := by
  have unfolded : missedScore durations target = if durations.isEmpty then 0
      else Number.sum (durations.map (penalty target)) / Float.ofNat durations.length := rfl
  rw [unfolded, if_neg (by simpa using present)]

/-! ## Runs -/

/-- A run as the program makes it, from a recording whose frames a word counts. -/
def Run.Recorded (run : Run) : Prop :=
  ∃ config name source recorded, recorded.length ≤ 2 ^ 64 ∧
    Run.ofFrames config name source recorded = .ok run

theorem Stats.ofDurations_eq_ok_iff {name : String} {durations : List UInt64} {target : Float}
    {stats : Stats} :
    Stats.ofDurations name durations target = .ok stats ↔
      ∃ table, PercentileTable.ofDurations durations = .ok (some table) ∧
        stats = ⟨table, Number.sum (durations.map UInt64.toFloat) / millisecondLength,
          Number.sum (durations.map UInt64.toFloat) / Float.ofNat durations.length /
            millisecondLength,
          missedPercent durations target, FrameTiming.missedScore durations target⟩ := by
  unfold Stats.ofDurations
  rcases PercentileTable.ofDurations durations with fault | (_ | table)
  · simp
  · simp
  · simp [eq_comm]

/-- Statistics exist exactly if there are durations, and what is missing otherwise is the run. -/
theorem Stats.ofDurations_succeeds_iff {name : String} {durations : List UInt64} {target : Float} :
    (∃ stats, Stats.ofDurations name durations target = .ok stats) ↔ durations ≠ [] := by
  constructor
  · rintro ⟨stats, computed⟩
    rcases Stats.ofDurations_eq_ok_iff.mp computed with ⟨table, built, -⟩
    exact ne_nil_of_ofDurations built
  · intro present
    rcases FrameTiming.ofDurations_succeeds present with ⟨table, built⟩
    exact ⟨_, Stats.ofDurations_eq_ok_iff.mpr ⟨table, built, rfl⟩⟩

theorem Stats.ofDurations_nil (name : String) (target : Float) :
    Stats.ofDurations name [] target = .error (.emptyRun name) := by
  rw [Stats.ofDurations, FrameTiming.ofDurations_nil]

/-- A run exists exactly if its window has frames in the analysed state. -/
theorem Run.ofFrames_succeeds_iff {config : Config} {name : String} {source : Path}
    {recorded : List Frame} :
    (∃ run, ofFrames config name source recorded = .ok run) ↔
      durationsIn config.stateFilter?
        (Window.apply config.dropFront? config.durationCap? recorded) ≠ [] := by
  rw [← @Stats.ofDurations_succeeds_iff name _ config.targetTime]
  constructor
  · rintro ⟨run, analysed⟩
    rcases ofFrames_eq_ok_iff.mp analysed with ⟨stats, computed, -⟩
    exact ⟨stats, computed⟩
  · rintro ⟨stats, computed⟩
    exact ⟨_, ofFrames_eq_ok_iff.mpr ⟨stats, computed, rfl⟩⟩

theorem Run.ofFrames_eq_emptyRun {config : Config} {name : String} {source : Path}
    {recorded : List Frame}
    (none : durationsIn config.stateFilter?
      (Window.apply config.dropFront? config.durationCap? recorded) = []) :
    ofFrames config name source recorded = .error (.emptyRun name) := by
  have refused := Stats.ofDurations_nil name config.targetTime
  rw [← none] at refused
  exact bind_eq_error_iff.mpr (.inl refused)

namespace Run.Recorded

variable {run : Run} (recorded : run.Recorded)
include recorded

/-- What the statistics of a run are computed from. -/
theorem exists_durations : ∃ (durations : List UInt64) (target : Float) (frames : List Frame),
    durations ≠ [] ∧ durations.length ≤ 2 ^ 64 ∧
      PercentileTable.ofDurations durations = .ok (some run.stats.percentiles) ∧
      run.stats.average = Number.sum (durations.map UInt64.toFloat) / Float.ofNat durations.length /
        millisecondLength ∧
      run.stats.missed = missedPercent durations target ∧
      run.stats.missedScore = FrameTiming.missedScore durations target ∧
      run.stateTime = StateTime.ofFrames frames := by
  rcases recorded with ⟨config, name, source, frames, sized, analysed⟩
  rcases Run.ofFrames_eq_ok_iff.mp analysed with ⟨stats, computed, rfl⟩
  rcases Stats.ofDurations_eq_ok_iff.mp computed with ⟨table, built, rfl⟩
  refine ⟨_, _, _, ne_nil_of_ofDurations built, ?_, built, rfl, rfl, rfl, rfl⟩
  have window := (Window.apply_isInfix config.dropFront? config.durationCap? frames).length_le
  rw [durationsIn, List.length_map]
  exact (List.length_filter_le _ _).trans (window.trans sized)

theorem median_spec : Signless run.stats.median ∧ run.stats.median.isFinite = true := by
  rcases recorded.exists_durations with ⟨durations, target, frames, -, sized, built, -⟩
  rcases entry_of_ofDurations sized built (show 50 < percentileCount by decide) with
    ⟨entry, found, spec⟩
  have same : run.stats.percentiles.get? 50 = some run.stats.median :=
    Vector.getElem?_eq_getElem (by decide)
  rw [same, Option.some.injEq] at found
  rwa [found]

/-- No number that a run has is NaN or below zero, even where a target is. -/
theorem zero_le_series (series : Series) : 0 ≤ series.ofRun run := by
  rcases recorded.exists_durations with
    ⟨durations, target, frames, present, sized, built, average, missed, score, stateTime⟩
  have entry : ∀ {index} (within : index < percentileCount),
      0 ≤ run.stats.percentiles.values[index] := by
    intro index within
    rcases entry_of_ofDurations sized built within with ⟨number, found, signless, -⟩
    rw [PercentileTable.get?, Vector.getElem?_eq_getElem within, Option.some.injEq] at found
    rw [found]
    exact signless.zero_le
  have count : 0 < Float.ofNat durations.length :=
    zero_lt_ofNat (List.length_pos_of_ne_nil present)
  have countFinite := isFinite_ofNat sized
  cases series with
  | average =>
      rw [Series.ofRun, average]
      have total : 0 ≤ Number.sum (durations.map UInt64.toFloat) := by
        apply zero_le_sum
        intro number member
        rcases List.mem_map.mp member with ⟨duration, -, rfl⟩
        exact zero_le_toFloat duration
      exact zero_le_div (zero_le_div total count countFinite) zero_lt_millisecondLength rfl
  | median => exact entry (by decide)
  | p90 => exact entry (by decide)
  | p95 => exact entry (by decide)
  | missedFrames =>
      rw [Series.ofRun, missed, missedPercent_eq present]
      exact zero_le_mul (zero_le_div (zero_le_ofNat _) count countFinite) (by decide +kernel) rfl
  | missedScore =>
      rw [Series.ofRun, score, missedScore_eq present]
      apply zero_le_div _ count countFinite
      apply zero_le_sum
      intro number member
      rcases List.mem_map.mp member with ⟨duration, -, rfl⟩
      exact zero_le_penalty target duration
  | timeInState =>
      rw [Series.ofRun, stateTime]
      by_cases occurs : ∃ frame ∈ frames, frame.state = defaultState
      · rw [StateTime.inState_ofFrames occurs]
        exact zero_le_div (zero_le_toFloat _) zero_lt_millisecondLength rfl
      · rw [StateTime.inState_of_absent occurs]
        decide +kernel

end Run.Recorded

end FrameTiming
