import FrameTiming.Proofs.FrameLog
import FrameTiming.Proofs.Number.Sum
import FrameTiming.Proofs.Run
import FrameTiming.Proofs.RunNumbers
import FrameTiming.Proofs.Series

/-! # Time within a recording

The times that are added up while a recording is analysed are words, and addition stops at the
largest one. For an accepted log it never gets there: every part of the log lasts no longer than
`recordingLimit`, so every sum is the exact one.
-/

namespace FrameTiming

/-! ## Exact times -/

/-- The times at which the frames end are the exact sums of the durations up to there, and none of
them lies beyond a recording. -/
def ExactTimes (frames : List Frame) : Prop :=
  (endTimes 0 frames).map UInt64.toNat =
      (List.range frames.length).map (fun index => totalDuration (frames.take (index + 1))) ∧
    ∀ time ∈ endTimes 0 frames, time.toNat ≤ recordingLimit

/-- Saturation on the way shows in the end only: a sum that went past the limit stays there. -/
theorem addTime_ofNatClamp (elapsed : ℕ) (duration : UInt64) :
    addTime (.ofNatClamp elapsed) duration = .ofNatClamp (elapsed + duration.toNat) := by
  apply UInt64.toNat_inj.mp
  rw [toNat_addTime, Number.toNat_ofNatClamp, Number.toNat_ofNatClamp, UInt64.size]
  omega

theorem endTimes_ofNatClamp (elapsed : ℕ) (frames : List Frame) :
    endTimes (.ofNatClamp elapsed) frames =
      frames.mapIdx fun index _ =>
        .ofNatClamp (elapsed + totalDuration (frames.take (index + 1))) := by
  induction frames generalizing elapsed with
  | nil => rfl
  | cons frame rest induction =>
      simp only [endTimes, addTime_ofNatClamp, induction, List.mapIdx_cons, List.take_succ_cons,
        FrameLog.totalDuration_cons, Nat.add_assoc]
      rfl

theorem ofNatClamp_eq_ofNat {number : ℕ} (fits : number < 2 ^ 64) :
    UInt64.ofNatClamp number = .ofNat number := by
  apply UInt64.toNat_inj.mp
  rw [Number.toNat_ofNatClamp, UInt64.toNat_ofNat_of_lt' fits]
  omega

/-- Times that fit into a word together are added exactly. -/
theorem endTimes_map_toNat {frames : List Frame} (fits : totalDuration frames < 2 ^ 64) :
    (endTimes 0 frames).map UInt64.toNat =
      (List.range frames.length).map fun index => totalDuration (frames.take (index + 1)) := by
  have start : (0 : UInt64) = .ofNatClamp 0 := rfl
  rw [start, endTimes_ofNatClamp]
  apply List.ext_getElem
  · simp
  · intro index _ _
    have part := FrameLog.totalDuration_le_of_sublist (List.take_sublist (index + 1) frames)
    simp only [List.getElem_map, List.getElem_mapIdx, List.getElem_range, Nat.zero_add,
      Number.toNat_ofNatClamp]
    omega

/-- What lasts no longer than a recording is timed exactly. -/
theorem exactTimes_of_totalDuration_le {frames : List Frame}
    (within : totalDuration frames ≤ recordingLimit) : ExactTimes frames := by
  have small : recordingLimit < 2 ^ 64 := by decide
  have exact := @endTimes_map_toNat frames (by omega)
  refine ⟨exact, ?_⟩
  intro time member
  have inTimes := List.mem_map_of_mem (f := UInt64.toNat) member
  rw [exact] at inTimes
  rcases List.mem_map.mp inTimes with ⟨index, -, total⟩
  have part := FrameLog.totalDuration_le_of_sublist (List.take_sublist (index + 1) frames)
  omega

/-! ## Time per state -/

def framesIn (state : StateId) (frames : List Frame) : List Frame :=
  frames.filter fun frame => frame.state = state

private theorem foldl_addTime (start : UInt64) (frames : List Frame) :
    frames.foldl (fun elapsed frame => addTime elapsed frame.duration) start =
      (endTimes start frames).getLastD start := by
  induction frames generalizing start with
  | nil => rfl
  | cons frame rest induction =>
      rw [List.foldl_cons, induction, endTimes, List.getLastD_cons]

/-- The time in a state is the end time of its last frame, were there no others. -/
theorem timeIn_eq_getLastD (state : StateId) (frames : List Frame) :
    timeIn state frames = (endTimes 0 (framesIn state frames)).getLastD 0 :=
  foldl_addTime 0 (framesIn state frames)

private theorem toNat_foldl_addTime (start : UInt64) (frames : List Frame) :
    (frames.foldl (fun elapsed frame => addTime elapsed frame.duration) start).toNat =
      min (start.toNat + totalDuration frames) (UInt64.size - 1) := by
  induction frames generalizing start with
  | nil => exact (min_eq_left (Nat.le_sub_one_of_lt start.toNat_lt)).symm
  | cons frame rest induction =>
      rw [List.foldl_cons, induction, toNat_addTime, FrameLog.totalDuration_cons]
      omega

/-- The time in a state is the sum of the durations of its frames, or the largest time if the sum is
larger than that. -/
theorem toNat_timeIn_eq_min (state : StateId) (frames : List Frame) :
    (timeIn state frames).toNat =
      min (totalDuration (framesIn state frames)) (UInt64.size - 1) := by
  have total := toNat_foldl_addTime 0 (framesIn state frames)
  rwa [UInt64.toNat_zero, Nat.zero_add] at total

theorem toNat_timeIn_of_lt (state : StateId) {frames : List Frame}
    (fits : totalDuration frames < 2 ^ 64) :
    (timeIn state frames).toNat = totalDuration (framesIn state frames) := by
  have part : totalDuration (framesIn state frames) ≤ totalDuration frames :=
    FrameLog.totalDuration_le_of_sublist List.filter_sublist
  rw [toNat_timeIn_eq_min, UInt64.size]
  omega

theorem toNat_timeIn (state : StateId) {frames : List Frame}
    (within : totalDuration frames ≤ recordingLimit) :
    (timeIn state frames).toNat = totalDuration (framesIn state frames) := by
  have small : recordingLimit < 2 ^ 64 := by decide
  exact toNat_timeIn_of_lt state (Nat.lt_of_le_of_lt within small)

/-! ## Seconds -/

theorem length_endTimes (start : UInt64) (frames : List Frame) :
    (endTimes start frames).length = frames.length := by
  induction frames generalizing start with
  | nil => rfl
  | cons frame rest induction => simp [endTimes, induction]

theorem Timepoint.ofFrames_map_time (frames : List Frame) :
    (Timepoint.ofFrames frames).map Timepoint.time = endTimes 0 frames := by
  have times := List.map_fst_zip (Nat.le_of_eq (length_endTimes 0 frames))
  simpa [Timepoint.ofFrames, List.zip, List.map_zipWith] using times

theorem Timepoint.ofFrames_eq_mapIdx (frames : List Frame) :
    Timepoint.ofFrames frames = frames.mapIdx fun index frame =>
      ⟨.ofNatClamp (totalDuration (frames.take (index + 1))), frame.state⟩ := by
  have start : (0 : UInt64) = .ofNatClamp 0 := rfl
  rw [Timepoint.ofFrames, start, endTimes_ofNatClamp]
  apply List.ext_getElem <;> simp

/-- Where the sums fit into a word, they are the exact ones. -/
theorem Timepoint.ofFrames_of_lt {frames : List Frame} (fits : totalDuration frames < 2 ^ 64) :
    Timepoint.ofFrames frames = frames.mapIdx fun index frame =>
      ⟨.ofNat (totalDuration (frames.take (index + 1))), frame.state⟩ := by
  rw [ofFrames_eq_mapIdx]
  apply List.ext_getElem
  · simp
  · intro index _ _
    have part := FrameLog.totalDuration_le_of_sublist (List.take_sublist (index + 1) frames)
    rw [List.getElem_mapIdx, List.getElem_mapIdx, ofNatClamp_eq_ofNat (by omega)]

theorem second_le_of_mem_ofFrames {frames : List Frame} (exact : ExactTimes frames)
    {point : Timepoint} (member : point ∈ Timepoint.ofFrames frames) :
    point.second ≤ 86400 := by
  have inTimes := List.mem_map_of_mem (f := Timepoint.time) member
  rw [Timepoint.ofFrames_map_time] at inTimes
  have within := exact.2 _ inTimes
  simp only [Timepoint.second, secondLength, recordingLimit] at *
  omega

/-! ## The whole analysis -/

/-- No sum of times stops short while an accepted log is analysed. What `dropUntil` and
`takeThrough` compare, the end times behind the series and the times per state are the exact sums of
the durations, over the log, what dropping leaves of it, what capping leaves of that, and the frames
of each state; none of them exceeds `recordingLimit`. The run has the time of each state and the
series that come from these exact sums. The series ends with second 86400 at the latest, that of a
log which takes up the limit. -/
theorem recordedTimes_exact {source : Path} {bytes : List UInt8} {config : Config}
    {recorded : List Frame}
    (accepted : FrameLog.parse config.logFormat source bytes = .ok recorded) :
    let dropped := Window.dropFront config.dropFront? recorded
    let kept := Window.apply config.dropFront? config.durationCap? recorded
    (ExactTimes recorded ∧ ∀ threshold, Window.dropUntil threshold 0 recorded =
      recorded.drop ((endTimes 0 recorded).findIdx fun time => threshold ≤ time.toFloat)) ∧
    (ExactTimes dropped ∧ ∀ threshold, Window.takeThrough threshold 0 dropped =
      dropped.take ((endTimes 0 dropped).findIdx (fun time => threshold < time.toFloat) + 1)) ∧
    (ExactTimes kept ∧ (Timepoint.ofFrames kept).map Timepoint.time = endTimes 0 kept) ∧
    (∀ state, ExactTimes (framesIn state kept) ∧
      timeIn state kept = (endTimes 0 (framesIn state kept)).getLastD 0 ∧
      (timeIn state kept).toNat = totalDuration (framesIn state kept)) ∧
    ∀ name run, Run.ofFrames config name source recorded = .ok run →
      run.frames = kept ∧ run.stateTime = StateTime.ofFrames kept ∧
        run.stateTime.entries = (statesOf kept).map (fun state =>
          (state, Float.ofNat (totalDuration (framesIn state kept)) / millisecondLength)) ∧
        run.fps = Bucket.seriesFrom 0 (kept.mapIdx fun index frame =>
          ⟨.ofNat (totalDuration (kept.take (index + 1))), frame.state⟩) ∧
        run.fps.length ≤ 86401 ∧ ∀ bucket ∈ run.fps, 0 ≤ bucket.second ∧ bucket.second ≤ 86400 := by
  intro dropped kept
  have within := FrameLog.totalDuration_le_of_parse accepted
  have partWithin : ∀ part : List Frame, part.Sublist recorded →
      totalDuration part ≤ recordingLimit := fun part sublist =>
    (FrameLog.totalDuration_le_of_sublist sublist).trans within
  have droppedSublist : dropped.Sublist recorded := (Window.dropFront_isSuffix _ _).sublist
  have keptSublist : kept.Sublist recorded := (Window.apply_isInfix _ _ _).sublist
  have keptWithin := partWithin kept keptSublist
  have keptExact := exactTimes_of_totalDuration_le keptWithin
  have limit : recordingLimit < 2 ^ 64 := by decide
  have stateTimes : ∀ state, (timeIn state kept).toNat = totalDuration (framesIn state kept) :=
    fun state => toNat_timeIn state keptWithin
  refine ⟨⟨exactTimes_of_totalDuration_le within, fun _ => Window.dropUntil_eq_drop _ _ _⟩,
    ⟨exactTimes_of_totalDuration_le (partWithin dropped droppedSublist),
      fun _ => Window.takeThrough_eq_take _ _ _⟩,
    ⟨keptExact, Timepoint.ofFrames_map_time kept⟩, ?_, ?_⟩
  · intro state
    have inState : (framesIn state kept).Sublist recorded :=
      List.filter_sublist.trans keptSublist
    exact ⟨exactTimes_of_totalDuration_le (partWithin _ inState), timeIn_eq_getLastD state kept,
      stateTimes state⟩
  · intro name run analysed
    rcases Run.ofFrames_eq_ok_iff.mp analysed with ⟨stats, -, rfl⟩
    have bounds := Bucket.seriesFrom_bounds 0 fun point member =>
      second_le_of_mem_ofFrames keptExact member
    refine ⟨rfl, rfl, ?_, ?_, bounds.1, bounds.2⟩
    · apply List.map_congr_left
      intro state _
      rw [Number.toFloat_eq_ofNat, stateTimes]
    · rw [← Timepoint.ofFrames_of_lt (keptWithin.trans_lt limit)]
      rfl

/-- A log of two states that lasts 24 hours to the nanosecond. -/
private def dayLog : List UInt8 :=
  Text.Utf8.encode "ns,state\n86399999999999,1\n1,-2\n".toList

private def dayFrames : List Frame :=
  [⟨86399999999999, some 1⟩, ⟨1, some (-2)⟩]

/-- The second frame of the day ends in a second of its own, the last one that there can be. -/
theorem recordedTimes_exact_of_day :
    FrameLog.parse .durationsAndStates ⟨"day.log"⟩ dayLog = .ok dayFrames ∧
      ExactTimes dayFrames ∧
      ∃ run, Run.ofFrames { withState := true } "day.log" ⟨"day.log"⟩ dayFrames = .ok run ∧
        run.fps.length = 86401 ∧ run.fps.getLast? = some ⟨86400, 1, -2⟩ ∧
        run.stateTime.entries = [(-2, Float.ofNat 1 / millisecondLength),
          (1, Float.ofNat 86399999999999 / millisecondLength)] := by
  have accepted : FrameLog.parse (Config.logFormat { withState := true }) ⟨"day.log"⟩ dayLog =
      .ok dayFrames := by
    decide +kernel
  rcases recordedTimes_exact accepted with ⟨⟨exact, -⟩, -, -, -, results⟩
  rcases (@Run.ofFrames_succeeds_iff { withState := true } "day.log" ⟨"day.log"⟩ dayFrames).mpr
    (by decide) with ⟨run, made⟩
  rcases results "day.log" run made with ⟨-, -, entries, series, -⟩
  refine ⟨accepted, exact, run, made, ?_⟩
  rw [Bucket.seriesFrom_eq_map 0 _ (show _ = some 86400 from rfl)] at series
  rw [entries, series, List.length_map, List.length_range', List.getLast?_map,
    List.getLast?_range']
  refine ⟨rfl, ?_, ?_⟩
  · decide +kernel
  · decide +kernel

end FrameTiming
