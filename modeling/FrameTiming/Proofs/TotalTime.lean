import FrameTiming.Proofs.LogText
import FrameTiming.Proofs.Number.Sum
import FrameTiming.Proofs.RecordedTime
import FrameTiming.Proofs.RunNumbers
import FrameTiming.Proofs.StateTime

/-! # Total time

The total of a run adds floating-point numbers frame by frame, the time in a state adds words and is
converted once. A recording is so short that both are exact, so they agree to the last bit.
-/

namespace FrameTiming

open Number

/-! ## Analysed frames -/

theorem totalDuration_eq_sum (frames : List Frame) :
    totalDuration frames = (frames.map fun frame => frame.duration.toNat).sum := by
  induction frames with
  | nil => rfl
  | cons frame rest induction => simp [induction]

theorem sum_map_toNat_durationsIn (state? : Option StateId) (frames : List Frame) :
    ((Run.durationsIn state? frames).map UInt64.toNat).sum =
      totalDuration (frames.filter fun frame => state?.all (frame.state = ·)) := by
  rw [totalDuration_eq_sum, Run.durationsIn, List.map_map]
  rfl

/-- In a log without states every frame counts for the default state. -/
theorem state_of_parse_durations {source : Path} {bytes : List UInt8} {recorded : List Frame}
    (accepted : FrameLog.parse .durations source bytes = .ok recorded) :
    ∀ frame ∈ recorded, frame.state = defaultState := by
  intro frame member
  rw [← FrameLog.asLogged_of_parse accepted frame member]
  rfl

/-! ## Statistics of durations in another order -/

namespace Stats

theorem total_of_ofDurations {name : String} {durations : List UInt64} {target : Float}
    {stats : Stats} (computed : ofDurations name durations target = .ok stats) :
    stats.total = Number.sum (durations.map UInt64.toFloat) / millisecondLength ∧
      durations ≠ [] := by
  rcases ofDurations_eq_ok_iff.mp computed with ⟨table, built, rfl⟩
  exact ⟨rfl, ne_nil_of_ofDurations built⟩

theorem ofDurations_succeeds_of_perm {name : String} {durations permuted : List UInt64}
    {target : Float} {stats : Stats} (permutation : permuted.Perm durations)
    (computed : ofDurations name durations target = .ok stats) :
    ∃ others, ofDurations name permuted target = .ok others := by
  rcases ofDurations_eq_ok_iff.mp computed with ⟨table, built, -⟩
  have same : PercentileTable.ofDurations permuted = PercentileTable.ofDurations durations := by
    unfold PercentileTable.ofDurations
    rw [sortAscending_eq_of_perm (permutation.map UInt64.toFloat)]
  exact ⟨_, ofDurations_eq_ok_iff.mpr ⟨table, same.trans built, rfl⟩⟩

end Stats

/-! ## Runs of accepted logs -/

section Logged

variable {log source : Path} {bytes : List UInt8} {config : Config} {recorded : List Frame}
  {name : String} {run : Run}

/-- The frames of a run last no longer than a recording may, and neither do some of them. -/
theorem totalDuration_filter_le
    (accepted : FrameLog.parse config.logFormat log bytes = .ok recorded)
    (analysed : Run.ofFrames config name source recorded = .ok run) (kept : Frame → Bool) :
    totalDuration (run.frames.filter kept) ≤ recordingLimit := by
  have part := (List.filter_sublist (p := kept)).trans (Run.frames_isInfix analysed).sublist
  exact (FrameLog.totalDuration_le_of_sublist part).trans
    (FrameLog.totalDuration_le_of_parse accepted)

/-- What the statistics of a run are computed from is no longer than a recording may be. -/
theorem toNat_le_limit_of_logged
    (accepted : FrameLog.parse config.logFormat log bytes = .ok recorded)
    (analysed : Run.ofFrames config name source recorded = .ok run) {duration : UInt64}
    (member : duration ∈ Run.durationsIn config.stateFilter? run.frames) :
    duration.toNat ≤ recordingLimit := by
  have part := List.single_le_sum (fun _ _ => Nat.zero_le _) _
    (List.mem_map_of_mem (f := UInt64.toNat) member)
  rw [sum_map_toNat_durationsIn] at part
  exact part.trans (totalDuration_filter_le accepted analysed _)

/-- The time in a state that occurs is an exact number of nanoseconds, converted once. -/
theorem inState_eq_of_logged
    (accepted : FrameLog.parse config.logFormat log bytes = .ok recorded)
    (analysed : Run.ofFrames config name source recorded = .ok run) {state : StateId}
    (occurs : ∃ frame ∈ run.frames, frame.state = state) :
    run.stateTime.inState state =
      Float.ofNat (totalDuration (framesIn state run.frames)) / millisecondLength := by
  have within := totalDuration_filter_le accepted analysed fun _ => true
  rw [List.filter_true] at within
  rcases Run.ofFrames_eq_ok_iff.mp analysed with ⟨stats, -, rfl⟩
  rw [StateTime.inState_ofFrames occurs, toFloat_eq_ofNat, toNat_timeIn state within]

/-- The total of a run of an accepted log is the exact number of nanoseconds that its analysed frames
last, converted once, whatever their order. So it is the time in the state that is analysed, and in
a log without states that in the default state. -/
theorem totalTime_exact
    (accepted : FrameLog.parse config.logFormat log bytes = .ok recorded)
    (analysed : Run.ofFrames config name source recorded = .ok run) :
    let durations := Run.durationsIn config.stateFilter? run.frames
    (run.stats.total = Float.ofNat (durations.map UInt64.toNat).sum / millisecondLength ∧
      (durations.map UInt64.toNat).sum < 2 ^ 53) ∧
    (∀ permuted, permuted.Perm durations → ∃ stats,
      Stats.ofDurations name permuted config.targetTime = .ok stats ∧
        stats.total = run.stats.total) ∧
    (∀ state, config.stateFilter? = some state →
      run.stats.total = run.stateTime.inState state) ∧
    (config.withState = false → config.stateFilter? = none →
      run.stats.total = run.stateTime.inState defaultState) := by
  intro durations
  have limit : recordingLimit < 2 ^ 53 := by decide
  have short : (durations.map UInt64.toNat).sum < 2 ^ 53 := by
    rw [sum_map_toNat_durationsIn]
    exact (totalDuration_filter_le accepted analysed _).trans_lt limit
  have made : Stats.ofDurations name durations config.targetTime = .ok run.stats := by
    rcases Run.ofFrames_eq_ok_iff.mp analysed with ⟨stats, computed, rfl⟩
    exact computed
  have exact : ∀ {others : List UInt64} {stats : Stats}, others.Perm durations →
      Stats.ofDurations name others config.targetTime = .ok stats →
      stats.total = Float.ofNat (durations.map UInt64.toNat).sum / millisecondLength := by
    intro others stats permutation computed
    rcases Stats.total_of_ofDurations computed with ⟨total, present⟩
    have same := (permutation.map UInt64.toNat).sum_eq
    rw [total, sum_map_toFloat present (by omega), same]
  have total := exact (.refl _) made
  have occurs : ∃ frame ∈ run.frames, config.stateFilter?.all (frame.state = ·) = true := by
    rcases List.exists_mem_of_ne_nil _ (Stats.total_of_ofDurations made).2 with ⟨duration, member⟩
    rcases List.mem_map.mp member with ⟨frame, inState, -⟩
    exact ⟨frame, List.mem_filter.mp inState⟩
  refine ⟨⟨total, short⟩, ?_, ?_, ?_⟩
  · intro permuted permutation
    rcases Stats.ofDurations_succeeds_of_perm permutation made with ⟨stats, computed⟩
    exact ⟨stats, computed, (exact permutation computed).trans total.symm⟩
  · intro state filtered
    rw [filtered] at occurs
    rw [total, sum_map_toNat_durationsIn, filtered,
      inState_eq_of_logged accepted analysed (by simpa using occurs)]
    rfl
  · intro stateless unfiltered
    have untagged := accepted
    rw [Config.logFormat, stateless] at untagged
    have inDefault : ∀ frame ∈ run.frames, frame.state = defaultState := by
      rcases Run.ofFrames_eq_ok_iff.mp analysed with ⟨stats, -, rfl⟩
      intro frame member
      exact state_of_parse_durations untagged frame
        ((Window.apply_isInfix config.dropFront? config.durationCap? recorded).subset member)
    have all : framesIn defaultState run.frames = run.frames :=
      List.filter_eq_self.mpr fun frame member => by simpa using inDefault frame member
    rcases occurs with ⟨frame, member, -⟩
    rw [total, sum_map_toNat_durationsIn, unfiltered,
      inState_eq_of_logged accepted analysed ⟨frame, member, inDefault frame member⟩, all]
    simp

end Logged

/-- A log of three frames in two states. -/
private def twoStateLog : List UInt8 :=
  Text.Utf8.encode "ns,state\n16000000,1\n17000000,2\n15000000,1\n".toList

theorem totalTime_exact_of_twoStates :
    let recorded := [⟨16000000, some 1⟩, ⟨17000000, some 2⟩, ⟨15000000, some 1⟩]
    FrameLog.parse .durationsAndStates ⟨"a.log"⟩ twoStateLog = .ok recorded ∧
      ∃ run, Run.ofFrames { withState := true, stateFilter? := some 1 } "a" ⟨"/a.log"⟩ recorded =
          .ok run ∧
        run.stats.total = Float.ofNat 31000000 / millisecondLength ∧
        run.stats.total = run.stateTime.inState 1 ∧
        ∃ reversed, Stats.ofDurations "a" [15000000, 16000000] (1e9 / 60) = .ok reversed ∧
          reversed.total = run.stats.total := by
  intro recorded
  have accepted : FrameLog.parse (Config.logFormat { withState := true, stateFilter? := some 1 })
      ⟨"a.log"⟩ twoStateLog = .ok recorded := by
    decide +kernel
  rcases (@Run.ofFrames_succeeds_iff { withState := true, stateFilter? := some 1 } "a" ⟨"/a.log"⟩
    recorded).mpr (by decide) with ⟨run, analysed⟩
  have kept : run.frames = recorded := by
    rcases Run.ofFrames_eq_ok_iff.mp analysed with ⟨stats, -, rfl⟩
    rfl
  rcases totalTime_exact accepted analysed with ⟨⟨total, -⟩, anyOrder, inState, -⟩
  rw [kept] at total anyOrder
  rcases anyOrder [15000000, 16000000] (by decide) with ⟨reversed, computed, same⟩
  exact ⟨accepted, run, analysed, total, inState 1 rfl, reversed, computed, same⟩

end FrameTiming
