import FrameTiming.Proofs.Except
import FrameTiming.Run

/-! # How runs come about

A run holds the frames inside the window of its configuration. Since a window keeps a contiguous
part of the frames, counting them tells whether it left any out.
-/

namespace FrameTiming

/-! ## Windows -/

namespace Window

/-- Dropping stops at the first frame whose end time reaches the threshold. -/
theorem dropUntil_eq_drop (threshold : Float) (start : UInt64) (frames : List Frame) :
    dropUntil threshold start frames =
      frames.drop ((endTimes start frames).findIdx fun time => threshold ≤ time.toFloat) := by
  induction frames generalizing start with
  | nil => rfl
  | cons frame rest induction =>
      rw [dropUntil, endTimes, List.findIdx_cons]
      by_cases reached : threshold ≤ (addTime start frame.duration).toFloat
      · simp [reached]
      · simp [reached, induction]

/-- Taking stops behind the first frame whose end time exceeds the threshold. -/
theorem takeThrough_eq_take (threshold : Float) (start : UInt64) (frames : List Frame) :
    takeThrough threshold start frames =
      frames.take ((endTimes start frames).findIdx (fun time => threshold < time.toFloat) + 1) := by
  induction frames generalizing start with
  | nil => rfl
  | cons frame rest induction =>
      rw [takeThrough, endTimes, List.findIdx_cons]
      by_cases exceeded : threshold < (addTime start frame.duration).toFloat
      · simp [exceeded]
      · simp [exceeded, induction]

theorem dropFront_isSuffix (seconds? : Option Float) (frames : List Frame) :
    dropFront seconds? frames <:+ frames := by
  unfold dropFront
  split
  · exact List.suffix_refl frames
  · split
    · rw [dropUntil_eq_drop]
      exact List.drop_suffix _ frames
    · exact List.suffix_refl frames

theorem capDuration_isPrefix (seconds? : Option Float) (frames : List Frame) :
    capDuration seconds? frames <+: frames := by
  unfold capDuration
  split
  · exact List.prefix_refl frames
  · rw [takeThrough_eq_take]
    exact List.take_prefix _ frames

/-- A window keeps a contiguous part of the frames. -/
theorem apply_isInfix (drop? cap? : Option Float) (frames : List Frame) :
    apply drop? cap? frames <:+: frames :=
  (capDuration_isPrefix cap? _).isInfix.trans (dropFront_isSuffix drop? frames).isInfix

end Window

/-! ## Runs -/

namespace Run

/-- Frames make a run exactly if those in the analysed state have statistics. -/
theorem ofFrames_eq_ok_iff {config : Config} {name : String} {source : Path}
    {recorded : List Frame} {run : Run} :
    ofFrames config name source recorded = .ok run ↔
      let frames := Window.apply config.dropFront? config.durationCap? recorded
      let durations := durationsIn config.stateFilter? frames
      ∃ stats, Stats.ofDurations name durations config.targetTime = .ok stats ∧
        run = ⟨name, source, config.logFormat, frames, durations.length,
          frames.length ≠ recorded.length, stats, StateTime.ofFrames frames⟩ := by
  simp only [ofFrames, bind_eq_ok_iff]
  constructor
  · rintro ⟨stats, computed, made⟩
    cases made
    exact ⟨stats, computed, rfl⟩
  · rintro ⟨stats, computed, rfl⟩
    exact ⟨stats, computed, rfl⟩

section Made

variable {config : Config} {name : String} {source : Path} {recorded : List Frame} {run : Run}
  (analysed : ofFrames config name source recorded = .ok run)
include analysed

theorem frames_eq_apply :
    run.frames = Window.apply config.dropFront? config.durationCap? recorded := by
  rcases ofFrames_eq_ok_iff.mp analysed with ⟨stats, -, rfl⟩
  rfl

theorem frames_isInfix : run.frames <:+: recorded := by
  rw [frames_eq_apply analysed]
  exact Window.apply_isInfix _ _ recorded

theorem length_durationsIn_le :
    (durationsIn config.stateFilter? run.frames).length ≤ recorded.length := by
  rw [durationsIn, List.length_map]
  exact Nat.le_trans (List.length_filter_le _ _) (frames_isInfix analysed).length_le

theorem ofDurations_durationsIn :
    Stats.ofDurations name (durationsIn config.stateFilter? run.frames) config.targetTime =
      .ok run.stats := by
  rcases ofFrames_eq_ok_iff.mp analysed with ⟨stats, computed, rfl⟩
  exact computed

/-- A run counts as trimmed exactly if its window left out frames. -/
theorem trimmed_eq_false_iff : run.trimmed = false ↔ run.frames = recorded := by
  rcases ofFrames_eq_ok_iff.mp analysed with ⟨stats, -, rfl⟩
  simp only [ne_eq, decide_not, Bool.not_eq_false', decide_eq_true_eq]
  constructor
  · exact (Window.apply_isInfix _ _ recorded).eq_of_length
  · exact congrArg List.length

end Made

end Run

end FrameTiming
