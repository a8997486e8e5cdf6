import FrameTiming.Proofs.EventLog
import FrameTiming.Proofs.Number.Arithmetic
import FrameTiming.Proofs.Number.Order
import FrameTiming.Proofs.Series
import FrameTiming.Proofs.StableSort
import FrameTiming.Timeline

/-! # What a timeline keeps of a log

Every presented frame is counted in one second and every pipeline with a duration is listed once, in
the order of time.
-/

namespace FrameTiming

open Number (nearest value)

/-! ## Presented frames -/

/-- The frames presented in a second. The time before the first event belongs to second 0. -/
def presentedIn (second : ℕ) (log : EventLog) : List TimedEvent :=
  (log.named framePresent).filter fun timed => max timed.elapsed.toInt 0 / secondLength = second

/-- The state of a presented frame, or else whether it had started. -/
def presentedState (timed : TimedEvent) : StateId :=
  match timed.event.number? "state", timed.event.number? "started" with
  | some state, _ => state
  | none, some started => started
  | none, none => 0

theorem Timepoint.ofEvent_state (timed : TimedEvent) :
    (Timepoint.ofEvent timed).state = presentedState timed := by
  unfold Timepoint.ofEvent presentedState
  cases timed.event.number? "state" with
  | some state => rfl
  | none => cases timed.event.number? "started" <;> rfl

theorem Timepoint.ofEvent_second (timed : TimedEvent) :
    ((Timepoint.ofEvent timed).second : ℤ) = max timed.elapsed.toInt 0 / secondLength := by
  have bound := timed.elapsed.toInt_lt
  have word : (UInt64.ofNat timed.elapsed.toInt.toNat).toNat = timed.elapsed.toInt.toNat := by
    rw [UInt64.toNat_ofNat', Nat.mod_eq_of_lt (by omega)]
  rw [Timepoint.second, Timepoint.ofEvent, word, Int.natCast_ediv, Int.toNat_eq_max]

theorem pointsIn_map_ofEvent (second : ℕ) (log : EventLog) :
    Bucket.pointsIn second ((log.named framePresent).map Timepoint.ofEvent) =
      (presentedIn second log).map Timepoint.ofEvent := by
  unfold Bucket.pointsIn presentedIn
  rw [List.filter_map]
  congr 1
  apply List.filter_congr
  intro timed _
  rw [Function.comp_apply, ← Timepoint.ofEvent_second]
  simp

/-- The bucket of a second tells of the frames presented in it. -/
theorem ofSecond_map_ofEvent (second : ℕ) (log : EventLog) :
    Bucket.ofSecond ((log.named framePresent).map Timepoint.ofEvent) second =
      ⟨second, (presentedIn second log).length,
        ((presentedIn second log).getLast?.map presentedState).getD 0⟩ := by
  rw [Bucket.ofSecond, pointsIn_map_ofEvent, List.length_map, List.getLast?_map, Option.map_map]
  have states : Timepoint.state ∘ Timepoint.ofEvent = presentedState :=
    funext Timepoint.ofEvent_state
  rw [states]
  rfl

/-! ## Created pipelines -/

/-- An event that names a pipeline and has a whole duration creates it. -/
inductive Creates (timed : TimedEvent) : PipelineCreation → Prop
  | graphics {duration : Int64} (name : timed.event.name = "create_graphics_pipeline")
      (lasting : timed.event.number? "duration" = some duration) :
      Creates timed
        ⟨Float.ofInt timed.elapsed.toInt / 1e9, Float.ofInt duration.toInt / 1e6, .graphics⟩
  | compute {duration : Int64} (name : timed.event.name = "create_compute_pipeline")
      (lasting : timed.event.number? "duration" = some duration) :
      Creates timed
        ⟨Float.ofInt timed.elapsed.toInt / 1e9, Float.ofInt duration.toInt / 1e6, .compute⟩

theorem ofEvent?_eq_some_iff {timed : TimedEvent} {creation : PipelineCreation} :
    PipelineCreation.ofEvent? timed = some creation ↔ Creates timed creation := by
  constructor
  · intro created
    unfold PipelineCreation.ofEvent? PipelineKind.ofEventName? at created
    cases lasting : timed.event.number? "duration" with
    | none => split at created <;> simp [lasting] at created
    | some duration =>
        split at created
        · rename_i name
          simp only [lasting, Option.bind_eq_bind, Option.bind_some, Option.some.injEq] at created
          subst created
          exact .graphics name lasting
        · rename_i name
          simp only [lasting, Option.bind_eq_bind, Option.bind_some, Option.some.injEq] at created
          subst created
          exact .compute name lasting
        · cases created
  · intro creates
    cases creates with
    | graphics name lasting =>
        simp only [PipelineCreation.ofEvent?, name, lasting]
        rfl
    | compute name lasting =>
        simp only [PipelineCreation.ofEvent?, name, lasting]
        rfl

/-- The pipelines in the order of the file, each with the position of its event. -/
def numberedCreations (log : EventLog) : List (ℕ × PipelineCreation) :=
  log.events.zipIdx.filterMap fun (timed, position) =>
    (PipelineCreation.ofEvent? timed).map fun creation => (position, creation)

theorem mem_numberedCreations {log : EventLog} {position : ℕ} {creation : PipelineCreation} :
    (position, creation) ∈ numberedCreations log ↔
      ∃ timed, log.events[position]? = some timed ∧ Creates timed creation := by
  unfold numberedCreations
  rw [List.mem_filterMap]
  constructor
  · rintro ⟨⟨timed, place⟩, member, created⟩
    rcases Option.map_eq_some_iff.mp created with ⟨value, found, same⟩
    cases same
    exact ⟨timed, List.mk_mem_zipIdx_iff_getElem?.mp member, ofEvent?_eq_some_iff.mp found⟩
  · rintro ⟨timed, found, creates⟩
    refine ⟨(timed, position), List.mk_mem_zipIdx_iff_getElem?.mpr found, ?_⟩
    simp only [ofEvent?_eq_some_iff.mpr creates, Option.map_some]

theorem numberedCreations_increasing (log : EventLog) :
    (numberedCreations log).Pairwise fun before after => before.1 < after.1 := by
  have positions : (log.events.zipIdx.map Prod.snd).Pairwise (· < ·) := by
    rw [List.zipIdx_map_snd]
    exact List.pairwise_lt_range'
  rw [List.pairwise_map] at positions
  apply positions.filterMap
  intro before after less first firstMapped second secondMapped
  rcases Option.map_eq_some_iff.mp firstMapped with ⟨_, -, rfl⟩
  rcases Option.map_eq_some_iff.mp secondMapped with ⟨_, -, rfl⟩
  exact less

theorem map_snd_numberedCreations (log : EventLog) :
    (numberedCreations log).map Prod.snd = log.events.filterMap PipelineCreation.ofEvent? := by
  conv_rhs => rw [← List.zipIdx_map_fst 0 log.events]
  rw [numberedCreations, List.map_filterMap, List.filterMap_map]
  apply List.filterMap_congr
  rintro ⟨timed, position⟩ _
  cases created : PipelineCreation.ofEvent? timed <;> simp [created]

/-! ## Seconds -/

theorem value_inSeconds (time : Int64) :
    value (inSeconds time) = nearest (nearest time.toInt / 10 ^ 9) ∧
      (inSeconds time).isNaN = false := by
  have least := time.le_toInt
  have most := time.toInt_lt
  have word : |time.toInt| ≤ 2 ^ 64 := abs_le.mpr ⟨by omega, by omega⟩
  have unit : (1e9 : Float) = Float.ofNat 1000000000 := by decide +kernel
  have unitValue : value 1e9 = 10 ^ 9 := by
    rw [unit, (Number.value_ofNat _).1, Number.nearest_natCast (by norm_num)]
    norm_num
  have unitFinite : (1e9 : Float).isFinite = true := by decide +kernel
  have quotient := Number.value_div (Number.isFinite_ofInt word) unitFinite
    (by rw [unitValue]; norm_num)
  rw [unitValue, (Number.value_ofInt _).1] at quotient
  exact quotient

/-- Only the first event is at zero: a nanosecond is not lost to rounding. -/
theorem eq_zero_of_value_inSeconds {time : Int64} (zero : value (inSeconds time) = 0) :
    time = 0 := by
  have tiny := Number.abs_lt_of_nearest_eq_zero ((value_inSeconds time).1.symm.trans zero)
  have small : (2 : ℚ) ^ (-1074 : ℤ) ≤ 2 ^ (-30 : ℤ) :=
    zpow_le_zpow_right₀ (by norm_num) (by norm_num)
  have nanosecond : (2 : ℚ) ^ (-30 : ℤ) ≤ 1 / 10 ^ 9 := by norm_num
  have below := tiny.trans_le (small.trans nanosecond)
  rw [abs_div, abs_of_pos (show (0 : ℚ) < 10 ^ 9 by norm_num),
    div_lt_div_iff_of_pos_right (by norm_num)] at below
  apply Int64.toInt_inj.mp
  rw [Int64.toInt_zero]
  by_contra nonzero
  rcases lt_or_gt_of_ne nonzero with before | after
  · have cast : (time.toInt : ℚ) ≤ -1 := by exact_mod_cast Int.le_sub_one_of_lt before
    have rounded := Number.nearest_mono cast
    rw [Number.nearest_neg, Number.nearest_one] at rounded
    have magnitude := neg_le_abs (nearest time.toInt)
    linarith
  · have cast : (1 : ℚ) ≤ time.toInt := by exact_mod_cast after
    have rounded := Number.nearest_mono cast
    rw [Number.nearest_one] at rounded
    have magnitude := le_abs_self (nearest time.toInt)
    linarith

/-- Times of events are sorted by what they are: none is NaN or a negative zero. -/
theorem totalLe_inSeconds_iff (left right : Int64) :
    Number.totalLe (inSeconds left) (inSeconds right) = true ↔
      inSeconds left ≤ inSeconds right := by
  have leftComparable := (value_inSeconds left).2
  have rightComparable := (value_inSeconds right).2
  rw [Number.le_iff_value_le leftComparable rightComparable]
  constructor
  · exact Number.value_le_of_totalLe leftComparable rightComparable
  · intro ordered
    by_contra after
    have before : Number.totalLe (inSeconds right) (inSeconds left) = true := by
      simpa [after] using Number.totalLe_total (inSeconds left) (inSeconds right)
    have reversed := Number.value_le_of_totalLe rightComparable leftComparable before
    have same : value (inSeconds left) = value (inSeconds right) := le_antisymm ordered reversed
    have equal : inSeconds left = inSeconds right := by
      by_cases zero : value (inSeconds left) = 0
      · rw [eq_zero_of_value_inSeconds zero, eq_zero_of_value_inSeconds (same.symm.trans zero)]
      · exact Number.eq_of_value_eq leftComparable rightComparable same zero
    rw [equal] at after before
    exact after before

/-! ## The whole timeline -/

/-- The frames per second: a bucket for each second from the first to the last presented frame. -/
theorem fps_eq_map_of_presented (dataset : String) {log : EventLog}
    (presented : log.named framePresent ≠ []) :
    ∃ first last : ℕ,
      (Timeline.ofEventLog dataset log).fps =
        ((List.range' first (last + 1 - first)).map fun second =>
          ⟨second, (presentedIn second log).length,
            ((presentedIn second log).getLast?.map presentedState).getD 0⟩) ∧
      (∀ timed ∈ log.named framePresent,
        first ≤ (Timepoint.ofEvent timed).second ∧ (Timepoint.ofEvent timed).second ≤ last) ∧
      presentedIn first log ≠ [] ∧ presentedIn last log ≠ [] := by
  have points : (log.named framePresent).map Timepoint.ofEvent ≠ [] := by simpa using presented
  rcases Bucket.exists_seconds_of_ne_nil points with
    ⟨first, last, earliest, latest, within, firstPresent, lastPresent⟩
  rw [pointsIn_map_ofEvent] at firstPresent lastPresent
  refine ⟨first, last, ?_, ?_, by simpa using firstPresent, by simpa using lastPresent⟩
  · change Bucket.ofTimepoints ((log.named framePresent).map Timepoint.ofEvent) = _
    rw [Bucket.ofTimepoints_eq_map _ earliest latest]
    apply List.map_congr_left
    intro second _
    exact ofSecond_map_ofEvent second log
  · intro timed member
    exact within _ (List.mem_map_of_mem member)

theorem sum_length_presentedIn {log : EventLog} {first last : ℕ}
    (within : ∀ timed ∈ log.named framePresent,
      first ≤ (Timepoint.ofEvent timed).second ∧ (Timepoint.ofEvent timed).second ≤ last) :
    ((List.range' first (last + 1 - first)).map fun second =>
      (presentedIn second log).length).sum = (log.named framePresent).length := by
  have lengths : ∀ second, (presentedIn second log).length =
      (Bucket.pointsIn second ((log.named framePresent).map Timepoint.ofEvent)).length := by
    intro second
    rw [pointsIn_map_ofEvent, List.length_map]
  simp only [lengths]
  rw [Bucket.sum_length_pointsIn _ List.nodup_range' _ ?covered, List.length_map]
  case covered =>
    intro point member
    rcases List.mem_map.mp member with ⟨timed, inLog, rfl⟩
    have bounds := within timed inLog
    rw [List.mem_range'_1]
    omega

/-- No second of a presented frame lies behind the second in which the log ends. -/
theorem second_le_of_mem_presentedIn {log : EventLog} {second : ℕ} {timed : TimedEvent}
    (member : timed ∈ presentedIn second log) :
    (second : ℤ) ≤ log.duration.toInt / secondLength := by
  rcases List.mem_filter.mp member with ⟨presented, here⟩
  rcases EventLog.duration_bounds log with ⟨nonnegative, latest, -⟩
  have notLater := latest timed (List.mem_filter.mp presented).1
  rw [← of_decide_eq_true here]
  exact Int.ediv_le_ediv (by decide) (max_le notLater nonnegative)

/-- The pipelines of a timeline are those that events create, each once, by time and then by
position. -/
theorem pipelines_numbered (dataset : String) (log : EventLog) :
    ∃ numbered : List (ℕ × PipelineCreation),
      numbered.map Prod.snd = (Timeline.ofEventLog dataset log).pipelines ∧
      (numbered.map Prod.fst).Nodup ∧
      (∀ position creation, (position, creation) ∈ numbered ↔
        ∃ timed, log.events[position]? = some timed ∧ Creates timed creation) ∧
      numbered.Pairwise fun before after => before.2.seconds ≤ after.2.seconds ∧
        (after.2.seconds ≤ before.2.seconds → before.1 < after.1) := by
  let le : PipelineCreation → PipelineCreation → Bool := fun first second =>
    Number.totalLe first.seconds second.seconds
  let numbered := (numberedCreations log).mergeSort fun before after => le before.2 after.2
  have permutation : numbered.Perm (numberedCreations log) := List.mergeSort_perm _ _
  have inSecondsOf : ∀ entry ∈ numbered, ∃ time, entry.2.seconds = inSeconds time := by
    rintro ⟨position, creation⟩ member
    rcases mem_numberedCreations.mp (permutation.mem_iff.mp member) with ⟨timed, -, creates⟩
    cases creates <;> exact ⟨timed.elapsed, rfl⟩
  refine ⟨numbered, ?_, ?_, ?_, ?_⟩
  · rw [List.map_mergeSort (s := le) (fun _ _ _ _ => rfl), map_snd_numberedCreations]
    rfl
  · have increasing := numberedCreations_increasing log
    rw [(permutation.map Prod.fst).nodup_iff, List.Nodup, List.pairwise_map]
    exact increasing.imp fun less => less.ne
  · intro position creation
    rw [permutation.mem_iff, mem_numberedCreations]
  · have sorted : numbered.Pairwise fun before after =>
        le before.2 after.2 ∧ (le after.2 before.2 → before.1 < after.1) :=
      pairwise_mergeSort_numbered
        (fun first second third => Number.totalLe_trans first.seconds second.seconds third.seconds)
        (fun left right => Number.totalLe_total left.seconds right.seconds)
        (numberedCreations_increasing log)
    apply sorted.imp_of_mem
    rintro before after beforeMem afterMem ⟨ordered, tie⟩
    rcases inSecondsOf before beforeMem with ⟨beforeTime, beforeSeconds⟩
    rcases inSecondsOf after afterMem with ⟨afterTime, afterSeconds⟩
    simp only [le, beforeSeconds, afterSeconds, totalLe_inSeconds_iff] at ordered tie ⊢
    exact ⟨ordered, tie⟩

/-- A timeline loses and invents nothing. Its series has, for consecutive seconds, the number of
frames presented then and the state of the last of them; together they are all the presented frames,
and the series begins and ends with one, within the log and within a day. Its pipelines are those of
the events with a duration, in the order of their time and then of the file. -/
theorem timeline_complete {dataset : String} {bytes : List UInt8} {log : EventLog}
    (accepted : EventLog.parse bytes = .ok log) :
    let timeline := Timeline.ofEventLog dataset log
    ((timeline.fps.map Bucket.frameCount).sum = (log.named framePresent).length ∧
      (∃ first, timeline.fps = (List.range' first timeline.fps.length).map fun second =>
        ⟨second, (presentedIn second log).length,
          ((presentedIn second log).getLast?.map presentedState).getD 0⟩) ∧
      (∀ bucket, timeline.fps.head? = some bucket ∨ timeline.fps.getLast? = some bucket →
        0 < bucket.frameCount) ∧
      (∀ bucket ∈ timeline.fps,
        0 ≤ bucket.second ∧ bucket.second ≤ log.duration.toInt / secondLength) ∧
      timeline.fps.length ≤ 86401) ∧
    ∃ numbered : List (ℕ × PipelineCreation),
      numbered.map Prod.snd = timeline.pipelines ∧
      (numbered.map Prod.fst).Nodup ∧
      (∀ position creation, (position, creation) ∈ numbered ↔
        ∃ timed, log.events[position]? = some timed ∧ Creates timed creation) ∧
      numbered.Pairwise fun before after => before.2.seconds ≤ after.2.seconds ∧
        (after.2.seconds ≤ before.2.seconds → before.1 < after.1) := by
  intro timeline
  refine ⟨?_, pipelines_numbered dataset log⟩
  by_cases presented : log.named framePresent = []
  · have empty : timeline.fps = [] := by
      change Bucket.ofTimepoints ((log.named framePresent).map Timepoint.ofEvent) = []
      rw [presented]
      rfl
    rw [empty, presented]
    simp
  rcases fps_eq_map_of_presented dataset presented with
    ⟨first, last, fps, within, firstPresent, lastPresent⟩
  change timeline.fps = _ at fps
  rcases List.exists_mem_of_ne_nil _ lastPresent with ⟨final, finalMem⟩
  have ends := second_le_of_mem_presentedIn finalMem
  have day : log.duration.toInt / secondLength ≤ 86400 := by
    have limit := EventLog.duration_le_of_parse accepted
    simp only [recordingLimit, secondLength] at limit ⊢
    omega
  have order : first ≤ last := by
    have bounds := within final (List.mem_filter.mp finalMem).1
    omega
  have length : timeline.fps.length = last + 1 - first := by
    rw [fps, List.length_map, List.length_range']
  refine ⟨?_, ⟨first, ?_⟩, ?_, ?_, ?_⟩
  · rw [fps, List.map_map]
    exact sum_length_presentedIn within
  · rw [length]
    exact fps
  · have steps : last + 1 - first = last - first + 1 := by omega
    rw [fps]
    rintro bucket (head | tail)
    · rw [steps, List.range'_succ, List.map_cons, List.head?_cons, Option.some.injEq] at head
      rw [← head]
      exact List.length_pos_of_ne_nil firstPresent
    · rw [steps, List.range'_1_concat, List.map_append, List.map_singleton,
        List.getLast?_concat, Option.some.injEq] at tail
      rw [← tail, Nat.add_sub_cancel' order]
      exact List.length_pos_of_ne_nil lastPresent
  · intro bucket member
    rw [fps] at member
    rcases List.mem_map.mp member with ⟨second, inRange, rfl⟩
    have bounds := List.mem_range'_1.mp inRange
    constructor
    · exact Int.natCast_nonneg second
    · change (second : ℤ) ≤ log.duration.toInt / secondLength
      omega
  · rw [length]
    omega

/-- A frame from before the first event, two from a later second, and a pipeline in between. -/
private def sessionText : List UInt8 :=
  Text.Utf8.encode ("start,timestamp:5\nframe_present,timestamp:-9,started:1\n" ++
    "create_compute_pipeline,timestamp:9,duration:70\n" ++
    "frame_present,timestamp:2000000006,state:3\nframe_present,timestamp:2000000005").toList

private def session : EventLog where
  events :=
    [⟨0, ⟨"start", 5, []⟩⟩,
      ⟨-14, ⟨"frame_present", -9, [("started", .number (.decimal 1))]⟩⟩,
      ⟨4, ⟨"create_compute_pipeline", 9, [("duration", .number (.decimal 70))]⟩⟩,
      ⟨2000000001, ⟨"frame_present", 2000000006, [("state", .number (.decimal 3))]⟩⟩,
      ⟨2000000000, ⟨"frame_present", 2000000005, []⟩⟩]

theorem timeline_complete_of_session :
    EventLog.parse sessionText = .ok session ∧
      ((Timeline.ofEventLog "session" session).fps.map Bucket.frameCount).sum = 3 := by
  have accepted : EventLog.parse sessionText = .ok session := by decide +kernel
  exact ⟨accepted, (timeline_complete accepted).1.1⟩

end FrameTiming
