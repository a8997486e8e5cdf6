import FrameTiming.Proofs.Number.Magnitude
import FrameTiming.Proofs.TotalTime

/-! # Bounds on the numbers of a run

A recording lasts a day at most, so its times are below `2 ^ 47` nanoseconds or `2 ^ 28` milliseconds,
and so are all numbers of its run, but for the missed score, which is about squares of times.
-/

namespace FrameTiming

open Number

/-! ## Times -/

theorem upTo_toFloat {number : UInt64} {power : ℕ} (within : number.toNat ≤ 2 ^ power)
    (low : power < 1024) : UpTo power number.toFloat := by
  rcases value_ofUInt64 number with ⟨same, comparable⟩
  exact .of_nearest comparable same (by positivity) (by exact_mod_cast within) low

theorem upTo_milliseconds {number : Float} {power : ℕ} (within : UpTo power number)
    (long : 19 ≤ power) (low : power < 1024) : UpTo (power - 19) (number / millisecondLength) := by
  have length := value_millisecondLength
  have nonzero : value millisecondLength ≠ 0 := by
    rw [length]
    norm_num
  rcases value_div within.finite (rfl : millisecondLength.isFinite = true) nonzero with
    ⟨quotient, comparable⟩
  have least := within.least
  have most := within.most
  rw [length] at quotient
  refine .of_nearest comparable quotient (by positivity) ?_ (by omega)
  rw [div_le_iff₀ (by norm_num)]
  calc value number ≤ 2 ^ power := most
    _ = 2 ^ (power - 19) * 2 ^ 19 := by rw [← pow_add, Nat.sub_add_cancel long]
    _ ≤ 2 ^ (power - 19) * 10 ^ 6 := mul_le_mul_of_nonneg_left (by norm_num) (by positivity)

/-- The time beyond a target from zero on is no longer than the whole time. -/
theorem upTo_excess {duration target : Float} {power : ℕ} (within : UpTo power duration)
    (low : power < 1024) (least : 0 ≤ target) (late : 0 < duration - target) :
    UpTo power (duration - target) := by
  by_cases finite : target.isFinite = true
  · rcases value_sub within.finite finite with ⟨difference, comparable⟩
    have targetLeast := (zero_le_iff.mp least).2
    have most := within.most
    have positive : 0 ≤ value duration - value target := by
      by_contra negative
      have above := (zero_lt_iff.mp late).2
      rw [difference] at above
      have below := nearest_mono (not_le.mp negative).le
      rw [nearest_zero] at below
      linarith
    exact .of_nearest comparable difference positive (by linarith) low
  · exact absurd late (not_zero_lt_sub_of_infinite within.finite least finite)

theorem upTo_penalty {duration : UInt64} {target : Float} {power : ℕ}
    (within : duration.toNat ≤ 2 ^ power) (low : 2 * power ≤ 900) (least : 0 ≤ target) :
    UpTo (2 * power) (penalty target duration) := by
  unfold penalty
  dsimp only
  split_ifs with late
  · have excess := upTo_excess (upTo_toFloat within (by omega)) (by omega) least late
    rw [two_mul]
    exact excess.mul excess (by omega)
  · have zero : value 0 = 0 := value_zero
    exact ⟨rfl, zero.ge, by rw [zero]; positivity⟩

/-! ## Durations -/

theorem upTo_share {part count : ℕ} (order : part ≤ count) (several : 0 < count)
    (sized : count ≤ 2 ^ 64) : UpTo 0 (Float.ofNat part / Float.ofNat count) := by
  have positive := (zero_lt_iff.mp (zero_lt_ofNat several)).2
  have least := (zero_le_iff.mp (zero_le_ofNat part)).2
  have partOrder := ofNat_le_ofNat order
  rw [le_iff_value_le (value_ofNat _).2 (value_ofNat _).2] at partOrder
  rcases value_div (isFinite_ofNat (order.trans sized)) (isFinite_ofNat sized) positive.ne' with
    ⟨quotient, comparable⟩
  apply UpTo.of_nearest comparable quotient (div_nonneg least positive.le) _ (by norm_num)
  rw [pow_zero]
  exact (div_le_one positive).mpr partOrder

section Durations

variable {durations : List UInt64} (present : durations ≠ []) (sized : durations.length ≤ 2 ^ 64)
include present sized

theorem upTo_missedPercent (target : Float) : UpTo 7 (missedPercent durations target) := by
  have hundred : UpTo 7 100 := by
    have same : value 100 = 100 := Percentile.value_ofNat_hundred
    exact ⟨rfl, by rw [same]; norm_num, by rw [same]; norm_num⟩
  have several := List.length_pos_of_ne_nil present
  rw [missedPercent_eq present]
  exact (upTo_share (lateCount_le_length target durations) several sized).mul hundred (by norm_num)

variable {power : ℕ} (short : ∀ duration ∈ durations, duration.toNat ≤ 2 ^ power)
include short

theorem upTo_average (long : 19 ≤ power) (low : power ≤ 900) : UpTo (power - 19)
    (sum (durations.map UInt64.toFloat) / Float.ofNat durations.length / millisecondLength) := by
  have nonempty : durations.map UInt64.toFloat ≠ [] := by simpa using present
  have word : (durations.map UInt64.toFloat).length ≤ 2 ^ 64 := by simpa using sized
  have mean := UpTo.mean nonempty word low fun number member => by
    rcases List.mem_map.mp member with ⟨duration, inside, rfl⟩
    exact upTo_toFloat (short duration inside) (by omega)
  rw [List.length_map] at mean
  exact upTo_milliseconds mean long (by omega)

theorem upTo_missedScore {target : Float} (low : 2 * power ≤ 900) (least : 0 ≤ target) :
    UpTo (2 * power) (FrameTiming.missedScore durations target) := by
  have each : ∀ number ∈ durations.map (penalty target), UpTo (2 * power) number := by
    intro number member
    rcases List.mem_map.mp member with ⟨duration, inside, rfl⟩
    exact upTo_penalty (short duration inside) low least
  have mean := UpTo.mean (by simpa using present) (by simpa using sized) low each
  rw [List.length_map] at mean
  rwa [missedScore_eq present]

theorem upTo_percentile {table : PercentileTable} (long : 19 ≤ power) (low : power < 1024)
    (built : PercentileTable.ofDurations durations = .ok (some table)) {index : ℕ}
    (within : index < percentileCount) : UpTo (power - 19) table.values[index] := by
  rcases entry_of_ofDurations sized built within with ⟨entry, found, signless, finite⟩
  rcases ofDurations_ordered present sized with
    ⟨-, -, longest, longestMember, -, other, alsoBuilt, -, -, ordered⟩
  rw [built, Except.ok.injEq, Option.some.injEq] at alsoBuilt
  subst alsoBuilt
  rcases ordered index index le_rfl within with ⟨-, high, -, highFound, -, below⟩
  have longestBound := upTo_milliseconds (upTo_toFloat (short longest longestMember) low) long low
  have same : table.get? index = some table.values[index] := Vector.getElem?_eq_getElem within
  rw [found, Option.some.injEq] at same highFound
  subst highFound
  rw [le_iff_value_le (isNaN_of_isFinite finite) (isNaN_of_isFinite longestBound.finite)] at below
  rw [← same]
  exact ⟨finite, (zero_le_iff.mp signless.zero_le).2, below.trans longestBound.most⟩

end Durations

/-! ## Runs of accepted logs -/

theorem Config.targetRate_positive {config : Config} (valid : config.validate = .ok ()) :
    config.targetRate.isFinite = true ∧ 0 < config.targetRate := by
  have positive : isPositive config.targetRate = true := by
    by_contra negative
    rw [Bool.not_eq_true] at negative
    simp [validate, fault?, negative] at valid
  rwa [isPositive, Bool.and_eq_true, decide_eq_true_eq] at positive

theorem Config.zero_le_targetTime {config : Config} (valid : config.validate = .ok ()) :
    0 ≤ config.targetTime := by
  rcases targetRate_positive valid with ⟨finite, positive⟩
  exact zero_le_div (by decide +kernel) positive finite

/-- A run of an accepted log, with as many frames as a word counts. -/
def Run.Logged (config : Config) (run : Run) : Prop :=
  ∃ log bytes recorded name source, FrameLog.parse config.logFormat log bytes = .ok recorded ∧
    recorded.length ≤ 2 ^ 64 ∧ Run.ofFrames config name source recorded = .ok run

/-- Numbers of a series are at most two to this power. -/
def Series.power : Series → ℕ
  | .missedScore => 94
  | _ => 28

namespace Run.Logged

variable {config : Config} {run : Run} (logged : run.Logged config)
include logged

theorem recorded : run.Recorded := by
  rcases logged with ⟨-, -, frames, name, source, -, sized, analysed⟩
  exact ⟨config, name, source, frames, sized, analysed⟩

theorem upTo_timeInState : UpTo 28 (run.stateTime.inState defaultState) := by
  rcases logged with ⟨log, bytes, frames, name, source, accepted, -, analysed⟩
  have within := totalDuration_filter_le accepted analysed fun _ => true
  rw [List.filter_true] at within
  rcases Run.ofFrames_eq_ok_iff.mp analysed with ⟨stats, -, rfl⟩
  dsimp only at within ⊢
  generalize Window.apply config.dropFront? config.durationCap? frames = kept at within ⊢
  by_cases occurs : ∃ frame ∈ kept, frame.state = defaultState
  · have part : totalDuration (framesIn defaultState kept) ≤ totalDuration kept :=
      FrameLog.totalDuration_le_of_sublist List.filter_sublist
    have time := toNat_timeIn defaultState within
    have limit : recordingLimit ≤ 2 ^ 47 := by decide
    have below : (timeIn defaultState kept).toNat ≤ 2 ^ 47 := by omega
    rw [StateTime.inState_ofFrames occurs]
    exact upTo_milliseconds (upTo_toFloat below (by norm_num)) (by norm_num) (by norm_num)
  · have zero : value 0 = 0 := value_zero
    rw [StateTime.inState_of_absent occurs]
    exact ⟨rfl, zero.ge, by rw [zero]; norm_num⟩

/-- What the statistics of a run are computed from. None of it lasts longer than a recording. -/
theorem exists_durations : ∃ name durations, durations ≠ [] ∧ durations.length ≤ 2 ^ 64 ∧
    (∀ duration ∈ durations, duration.toNat ≤ 2 ^ 47) ∧
      Stats.ofDurations name durations config.targetTime = .ok run.stats := by
  rcases logged with ⟨log, bytes, frames, name, source, accepted, sized, analysed⟩
  have computed := Run.ofDurations_durationsIn analysed
  refine ⟨name, _, (Stats.total_of_ofDurations computed).2,
    (Run.length_durationsIn_le analysed).trans sized, ?_, computed⟩
  intro duration member
  have limit : recordingLimit ≤ 2 ^ 47 := by decide
  exact (toNat_le_limit_of_logged accepted analysed member).trans limit

theorem upTo_series (valid : config.validate = .ok ()) (series : Series) :
    UpTo series.power (series.ofRun run) := by
  have stateTime := logged.upTo_timeInState
  rcases logged.exists_durations with ⟨name, durations, present, sized, short, computed⟩
  rcases Stats.ofDurations_eq_ok_iff.mp computed with ⟨table, built, same⟩
  cases series with
  | timeInState => exact stateTime
  | average =>
      rw [Series.ofRun, same]
      exact upTo_average present sized short (by decide) (by decide)
  | median =>
      rw [Series.ofRun, same]
      exact upTo_percentile present sized short (by decide) (by decide) built (by decide)
  | p90 =>
      rw [Series.ofRun, same]
      exact upTo_percentile present sized short (by decide) (by decide) built (by decide)
  | p95 =>
      rw [Series.ofRun, same]
      exact upTo_percentile present sized short (by decide) (by decide) built (by decide)
  | missedFrames =>
      rw [Series.ofRun, same]
      exact (upTo_missedPercent present sized config.targetTime).mono (by decide)
  | missedScore =>
      rw [Series.ofRun, same]
      exact upTo_missedScore present sized short (by decide) (Config.zero_le_targetTime valid)

end Run.Logged

end FrameTiming
