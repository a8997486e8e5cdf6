import FrameTiming.Proofs.EventLines

/-! # Times in an event log

The times of an accepted log are exact differences of timestamps. None of them exceeds what a
recording may last, and an event further ahead is the reason why a log is refused. Behind the first
event only the words for times set a limit. The duration of a log is the latest of its times.
-/

namespace FrameTiming.EventLog

variable {bytes : List UInt8} {log : EventLog}

/-! ## Distances from the first event -/

/-- Times are differences from the timestamp of the first event. -/
theorem elapsed_of_parse (accepted : parse bytes = .ok log) {first : TimedEvent}
    (starts : log.events.head? = some first) :
    ∀ timed ∈ log.events,
      timed.elapsed.toInt = timed.event.timestamp.toInt - first.event.timestamp.toInt ∧
        timed.elapsed.toInt ≤ recordingLimit := by
  have inRange := (parse_eq_ok_iff.mp accepted).2
  intro timed member
  apply elapsed?_eq_some_iff.mp
  apply inRange _ _ timed member
  simp [startAfter, starts]

theorem elapsed_le_of_parse (accepted : parse bytes = .ok log) :
    ∀ timed ∈ log.events, timed.elapsed.toInt ≤ recordingLimit := by
  intro timed member
  cases starts : log.events.head? with
  | none => simp [List.head?_eq_none_iff.mp starts] at member
  | some first => exact (elapsed_of_parse accepted starts timed member).2

/-- Lines are not refused for a timestamp alone. -/
theorem parse_ne_timestampOutOfRange (line : List Char) (value : Int64) :
    Event.parse line ≠ .error (.timestampOutOfRange value) := by
  have attributes : ∀ fields,
      Event.parseAttributes fields ≠ .error (.timestampOutOfRange value) := by
    intro fields
    induction fields with
    | nil => simp [Event.parseAttributes]
    | cons field rest induction =>
        rw [Event.parseAttributes]
        split
        · simp
        · rwa [Ne, map_eq_error_iff]
  have timestamp : ∀ field, Event.parseTimestamp field ≠ .error (.timestampOutOfRange value) := by
    intro field
    rw [Event.parseTimestamp]
    split
    · simp
    · split
      · split <;> simp
      · simp
  rw [Event.parse]
  split
  · simp
  · dsimp only
    split
    · simp
    · split
      · simp
      · simp [bind_eq_error_iff, attributes, timestamp]

/-- The first event of a log is at its start, so a line that is out of range has one before it. -/
theorem refused_timestampOutOfRange_iff {earlier : List TimedEvent} {value : Int64} :
    Refused (startAfter none earlier) bytes (.timestampOutOfRange value) ↔
      ∃ first event, earlier.head? = some first ∧ lineEvent? bytes = some (.ok event) ∧
        event.timestamp = value ∧
        (recordingLimit < value.toInt - first.event.timestamp.toInt ∨
          value.toInt - first.event.timestamp.toInt < Int64.minValue.toInt) := by
  constructor
  · intro refused
    cases refused with
    | faulty holds =>
        rw [lineEvent?] at holds
        split at holds
        · cases holds
        · split at holds
          · cases holds
          · exact absurd (Option.some.inj holds) (parse_ne_timestampOutOfRange _ _)
    | outOfRange holds distant =>
        rename_i event
        rw [elapsed?_eq_none_iff] at distant
        cases earlier with
        | nil =>
            simp only [startAfter_nil, Option.getD_none, Int.sub_self] at distant
            exact absurd distant (by decide)
        | cons first others =>
            rw [startAfter_cons] at distant
            exact ⟨first, event, rfl, holds, rfl, distant⟩
  · rintro ⟨first, event, starts, holds, rfl, distant⟩
    apply Refused.outOfRange holds
    rw [elapsed?_eq_none_iff]
    simpa [startAfter, starts] using distant

/-- The limit holds in one direction only. In an accepted log every time is the exact distance from
the first event, at most `recordingLimit` ahead of it but as far behind it as a word can tell. A
line is refused for its distance exactly if it lies further ahead or no word can tell it; the error
has its number and its timestamp. -/
theorem span_bounded_ahead (bytes : List UInt8) :
    (∀ log first, parse bytes = .ok log → log.events.head? = some first →
      ∀ timed ∈ log.events,
        timed.elapsed.toInt = timed.event.timestamp.toInt - first.event.timestamp.toInt ∧
          Int64.minValue.toInt ≤ timed.event.timestamp.toInt - first.event.timestamp.toInt ∧
          timed.event.timestamp.toInt - first.event.timestamp.toInt ≤ recordingLimit) ∧
    ∀ number value, parse bytes = .error ⟨number, .timestampOutOfRange value⟩ ↔
      ∃ before line after earlier first event,
        lines bytes = before ++ line :: after ∧ number = before.length + 1 ∧
        Reads none before earlier ∧ earlier.head? = some first ∧
        lineEvent? line = some (.ok event) ∧ event.timestamp = value ∧
        (recordingLimit < value.toInt - first.event.timestamp.toInt ∨
          value.toInt - first.event.timestamp.toInt < Int64.minValue.toInt) := by
  constructor
  · intro log first accepted starts timed member
    rcases elapsed_of_parse accepted starts timed member with ⟨exact, limit⟩
    have least := timed.elapsed.minValue_le_toInt
    rw [exact] at least limit
    exact ⟨exact, least, limit⟩
  · intro number value
    rw [parse_eq_error_iff]
    simp only [refused_timestampOutOfRange_iff]
    constructor
    · rintro ⟨before, line, after, earlier, same, reads, ⟨first, event, distant⟩, position⟩
      exact ⟨before, line, after, earlier, first, event, same, position, reads, distant⟩
    · rintro ⟨before, line, after, earlier, first, event, same, position, reads, distant⟩
      exact ⟨before, line, after, earlier, same, reads, ⟨first, event, distant⟩, position⟩

/-- An event at the limit and one more than 24 hours before the first. -/
private def earlyText : List UInt8 :=
  Text.Utf8.encode
    "a,timestamp:5\nb,timestamp:86400000000005\nc,timestamp:-86400000000001\n".toList

private def earlyLog : EventLog where
  events :=
    [⟨0, ⟨"a", 5, []⟩⟩, ⟨86400000000000, ⟨"b", 86400000000005, []⟩⟩,
      ⟨-86400000000006, ⟨"c", -86400000000001, []⟩⟩]

/-- An event behind the limit on a line behind a blank one. -/
private def lateText : List UInt8 :=
  Text.Utf8.encode "a,timestamp:5\n\nb,timestamp:86400000000006\n".toList

theorem span_bounded_ahead_of_neighbours :
    (parse earlyText = .ok earlyLog ∧
      ∀ timed ∈ earlyLog.events, timed.event.timestamp.toInt - 5 ≤ recordingLimit) ∧
    parse lateText = .error ⟨3, .timestampOutOfRange 86400000000006⟩ ∧
      ∃ before line after, lines lateText = before ++ line :: after ∧ 3 = before.length + 1 ∧
        ∃ event, lineEvent? line = some (.ok event) ∧ event.timestamp = 86400000000006 := by
  have accepted : parse earlyText = .ok earlyLog := by decide +kernel
  have refused : parse lateText = .error ⟨3, .timestampOutOfRange 86400000000006⟩ := by
    decide +kernel
  refine ⟨⟨accepted, ?_⟩, refused, ?_⟩
  · intro timed member
    exact ((span_bounded_ahead earlyText).1 earlyLog _ accepted rfl timed member).2.2
  · rcases ((span_bounded_ahead lateText).2 3 86400000000006).mp refused with
      ⟨before, line, after, earlier, first, event, same, position, -, -, holds, timestamp, -⟩
    exact ⟨before, line, after, same, position, event, holds, timestamp⟩

/-- The limit does not hold behind the first event. -/
theorem span_unbounded_behind :
    ∃ log first timed, parse earlyText = .ok log ∧ log.events.head? = some first ∧
      timed ∈ log.events ∧
      recordingLimit < (timed.event.timestamp.toInt - first.event.timestamp.toInt).natAbs := by
  refine ⟨earlyLog, ⟨0, ⟨"a", 5, []⟩⟩, ⟨-86400000000006, ⟨"c", -86400000000001, []⟩⟩, ?_⟩
  decide +kernel

/-! ## Duration -/

theorem toInt_max (left right : Int64) : (max left right).toInt = max left.toInt right.toInt := by
  change (if left ≤ right then right else left).toInt = _
  by_cases order : left ≤ right
  · rw [if_pos order, Int.max_eq_right (Int64.le_iff_toInt_le.mp order)]
  · have reversed : ¬left.toInt ≤ right.toInt :=
      fun before => order (Int64.le_iff_toInt_le.mpr before)
    rw [if_neg order, Int.max_eq_left (by omega)]

private theorem foldl_max_bounds (start : Int64) (events : List TimedEvent) :
    let latest := events.foldl (fun latest timed => max latest timed.elapsed) start
    start.toInt ≤ latest.toInt ∧ (∀ timed ∈ events, timed.elapsed.toInt ≤ latest.toInt) ∧
      (latest = start ∨ ∃ timed ∈ events, latest = timed.elapsed) := by
  induction events generalizing start with
  | nil => exact ⟨Int.le_refl _, by simp, .inl rfl⟩
  | cons timed rest induction =>
      rcases induction (max start timed.elapsed) with ⟨least, later, source⟩
      rw [toInt_max] at least
      refine ⟨Int.le_trans (Int.le_max_left _ _) least, ?_, ?_⟩
      · intro other member
        rcases List.mem_cons.mp member with rfl | inRest
        · exact Int.le_trans (Int.le_max_right _ _) least
        · exact later other inRest
      · rcases source with same | ⟨other, member, same⟩
        · by_cases order : start ≤ timed.elapsed
          · exact .inr ⟨timed, List.mem_cons_self, same.trans (if_pos order)⟩
          · exact .inl (same.trans (if_neg order))
        · exact .inr ⟨other, List.mem_cons_of_mem _ member, same⟩

/-- The duration of a log is zero or the time of one of its events, and no event comes later. -/
theorem duration_bounds (log : EventLog) :
    0 ≤ log.duration.toInt ∧ (∀ timed ∈ log.events, timed.elapsed.toInt ≤ log.duration.toInt) ∧
      (log.duration = 0 ∨ ∃ timed ∈ log.events, log.duration = timed.elapsed) :=
  foldl_max_bounds 0 log.events

theorem duration_le_of_parse {bytes : List UInt8} {log : EventLog}
    (accepted : parse bytes = .ok log) : log.duration.toInt ≤ recordingLimit := by
  rcases (duration_bounds log).2.2 with zero | ⟨timed, member, same⟩
  · rw [zero]
    decide
  · rw [same]
    exact elapsed_le_of_parse accepted timed member

end FrameTiming.EventLog
