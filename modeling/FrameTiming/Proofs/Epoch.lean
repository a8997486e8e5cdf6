import FrameTiming.Proofs.EventLines
import FrameTiming.Timeline
import Mathlib.Data.List.Forall2
import Mathlib.Data.Option.Basic

/-! # Logs from another epoch

Timestamps count from an arbitrary moment. If it is another moment for all events of a log, the log
is read and refused alike, and shows the same timeline.
-/

namespace FrameTiming

variable {shift : ℤ}

/-! ## Events -/

/-- An event whose timestamp counts from another moment. -/
structure Event.Moved (shift : ℤ) (event moved : Event) : Prop where
  name : moved.name = event.name
  attributes : moved.attributes = event.attributes
  timestamp : moved.timestamp.toInt = event.timestamp.toInt + shift

theorem Event.Moved.number? {event moved : Event} (moves : event.Moved shift moved)
    (key : String) : moved.number? key = event.number? key := by
  simp only [Event.number?, Event.attribute?, moves.attributes]

/-- An event at the same time of a log from another epoch. -/
structure TimedEvent.Moved (shift : ℤ) (timed moved : TimedEvent) : Prop where
  elapsed : moved.elapsed = timed.elapsed
  event : timed.event.Moved shift moved.event

namespace EventLog

theorem elapsed?_moved {start timestamp movedStart movedTimestamp : Int64}
    (startMoves : movedStart.toInt = start.toInt + shift)
    (timestampMoves : movedTimestamp.toInt = timestamp.toInt + shift) :
    elapsed? movedStart movedTimestamp = elapsed? start timestamp := by
  have same : movedTimestamp.toInt - movedStart.toInt = timestamp.toInt - start.toInt := by omega
  unfold elapsed?
  rw [same]

/-! ## Reading -/

/-- Two lines hold nothing, or an event and the same event from another epoch. -/
inductive MovedLine (shift : ℤ) :
    Option (Except EventFault Event) → Option (Except EventFault Event) → Prop
  | blank : MovedLine shift none none
  | event {event moved : Event} (moves : event.Moved shift moved) :
      MovedLine shift (some (.ok event)) (some (.ok moved))

/-- Both logs are read with the same times, or both are refused for the distance of the event on the
same line. -/
inductive MovedOutcome (shift : ℤ) :
    Except EventError (List TimedEvent) → Except EventError (List TimedEvent) → Prop
  | read {events moved : List TimedEvent}
      (moves : List.Forall₂ (TimedEvent.Moved shift) events moved) :
      MovedOutcome shift (.ok events) (.ok moved)
  | refused {number : ℕ} {value moved : Int64} (moves : moved.toInt = value.toInt + shift) :
      MovedOutcome shift (.error ⟨number, .timestampOutOfRange value⟩)
        (.error ⟨number, .timestampOutOfRange moved⟩)

theorem MovedOutcome.cons {outcome moved : Except EventError (List TimedEvent)}
    {timed movedTimed : TimedEvent} (moves : timed.Moved shift movedTimed)
    (others : MovedOutcome shift outcome moved) :
    MovedOutcome shift (outcome.map (timed :: ·)) (moved.map (movedTimed :: ·)) := by
  cases others with
  | read rest => exact .read (.cons moves rest)
  | refused same => exact .refused same

/-- The induction is on both logs at once: the starts are `shift` apart from the first event on. -/
theorem eventsFrom_moved {content moved : List (List UInt8)}
    (same : List.Forall₂ (MovedLine shift) (content.map lineEvent?) (moved.map lineEvent?))
    {start? movedStart? : Option Int64}
    (starts : Option.Rel (fun start movedStart => movedStart.toInt = start.toInt + shift)
      start? movedStart?) (number : ℕ) :
    MovedOutcome shift (eventsFrom number start? content)
      (eventsFrom number movedStart? moved) := by
  rw [List.forall₂_map_left_iff, List.forall₂_map_right_iff] at same
  induction same generalizing start? movedStart? number with
  | nil => exact .read .nil
  | @cons bytes movedBytes rest movedRest line others induction =>
      rw [eventsFrom_cons, eventsFrom_cons]
      generalize lineEvent? bytes = holds at line
      generalize lineEvent? movedBytes = movedHolds at line
      cases line with
      | blank => exact induction starts _
      | @event event movedEvent moves =>
          have begin : (movedStart?.getD movedEvent.timestamp).toInt =
              (start?.getD event.timestamp).toInt + shift := by
            cases starts with
            | none => exact moves.timestamp
            | some apart => exact apart
          dsimp only
          rw [elapsed?_moved begin moves.timestamp]
          cases elapsed? (start?.getD event.timestamp) event.timestamp with
          | none => exact .refused moves.timestamp
          | some elapsed => exact .cons ⟨rfl, moves⟩ (induction (.some begin) _)

/-! ## Timelines -/

variable {log moved : EventLog}

theorem duration_eq_foldl (log : EventLog) :
    log.duration = (log.events.map TimedEvent.elapsed).foldl max 0 := by
  rw [List.foldl_map]
  rfl

/-- What does not depend on the epoch is the same for all events. -/
theorem map_moved {Value : Type} {read : TimedEvent → Value} {events moved : List TimedEvent}
    (moves : List.Forall₂ (TimedEvent.Moved shift) events moved)
    (same : ∀ timed movedTimed, timed.Moved shift movedTimed → read movedTimed = read timed) :
    moved.map read = events.map read := by
  induction moves with
  | nil => rfl
  | cons first others induction => rw [List.map_cons, List.map_cons, same _ _ first, induction]

theorem duration_moved (moves : List.Forall₂ (TimedEvent.Moved shift) log.events moved.events) :
    moved.duration = log.duration := by
  rw [duration_eq_foldl, duration_eq_foldl, map_moved moves fun _ _ moves => moves.elapsed]

end EventLog

theorem Timepoint.ofEvent_moved {timed moved : TimedEvent} (moves : timed.Moved shift moved) :
    Timepoint.ofEvent moved = Timepoint.ofEvent timed := by
  simp only [Timepoint.ofEvent, moves.elapsed, moves.event.number?]

theorem PipelineCreation.ofEvent?_moved {timed moved : TimedEvent}
    (moves : timed.Moved shift moved) :
    PipelineCreation.ofEvent? moved = PipelineCreation.ofEvent? timed := by
  simp only [PipelineCreation.ofEvent?, moves.elapsed, moves.event.name, moves.event.number?]

namespace Timeline

/-- A timeline tells what the events say and when they happen, not their timestamps. -/
theorem ofEventLog_moved {log moved : EventLog}
    (moves : List.Forall₂ (TimedEvent.Moved shift) log.events moved.events) (dataset : String) :
    ofEventLog dataset moved = ofEventLog dataset log := by
  have sameName : ∀ timed movedTimed : TimedEvent, timed.Moved shift movedTimed →
      (decide (timed.event.name = framePresent) = true ↔
        decide (movedTimed.event.name = framePresent) = true) := by
    intro timed movedTimed moves
    rw [moves.event.name]
  have presented : (moved.named framePresent).map Timepoint.ofEvent =
      (log.named framePresent).map Timepoint.ofEvent :=
    EventLog.map_moved (List.rel_filter sameName moves) fun _ _ => Timepoint.ofEvent_moved
  have created : moved.events.map PipelineCreation.ofEvent? =
      log.events.map PipelineCreation.ofEvent? :=
    EventLog.map_moved moves fun _ _ => PipelineCreation.ofEvent?_moved
  have pipelines : moved.events.filterMap PipelineCreation.ofEvent? =
      log.events.filterMap PipelineCreation.ofEvent? := by
    simpa only [List.filterMap_map, Function.id_comp] using congrArg (List.filterMap id) created
  rw [ofEventLog, ofEventLog, EventLog.duration_moved moves, presented, pipelines]

end Timeline

namespace EventLog

/-- The moment from which timestamps count does not matter. If two logs have blank lines at the same
places and the same events, with timestamps that differ by a constant, either both are read or both
are refused, on the same line and for the distance of its event; and if they are read, all times,
the duration and the timeline are the same. -/
theorem epoch_independent {shift : ℤ} {bytes moved : List UInt8}
    (same : List.Forall₂ (MovedLine shift) ((lines bytes).map lineEvent?)
      ((lines moved).map lineEvent?)) :
    ((∃ log, parse bytes = .ok log) ↔ ∃ log, parse moved = .ok log) ∧
    (∀ error, parse bytes = .error error → ∃ number value movedValue,
      error = ⟨number, .timestampOutOfRange value⟩ ∧ movedValue.toInt = value.toInt + shift ∧
        parse moved = .error ⟨number, .timestampOutOfRange movedValue⟩) ∧
    ∀ log movedLog, parse bytes = .ok log → parse moved = .ok movedLog →
      movedLog.events.map TimedEvent.elapsed = log.events.map TimedEvent.elapsed ∧
        movedLog.duration = log.duration ∧
        ∀ dataset, Timeline.ofEventLog dataset movedLog = Timeline.ofEventLog dataset log := by
  have outcome := eventsFrom_moved same .none 1
  simp only [parse]
  generalize eventsFrom 1 none (lines bytes) = read at outcome
  generalize eventsFrom 1 none (lines moved) = movedRead at outcome
  cases outcome with
  | read moves =>
      refine ⟨by simp [Except.map], by simp [Except.map], ?_⟩
      rintro log movedLog ⟨⟩ ⟨⟩
      exact ⟨map_moved moves fun _ _ moves => moves.elapsed, duration_moved moves,
        Timeline.ofEventLog_moved moves⟩
  | refused moves =>
      refine ⟨by simp [Except.map], ?_, by simp [Except.map]⟩
      rintro error ⟨⟩
      exact ⟨_, _, _, rfl, moves, rfl⟩

/-- A log at the beginning of all time. -/
private def earliestText : List UInt8 :=
  Text.Utf8.encode ("a,timestamp:-9223372036854775808,k:1\n\n" ++
    "frame_present,timestamp:-9223372036854775798,state:2\r\n" ++
    "b,timestamp:-9223372036854775807").toList

/-- The same log at the end of all time, in other words. -/
private def latestText : List UInt8 :=
  Text.Utf8.encode ("a , timestamp: 9223372036854775797, k: 1\r\n \t\n" ++
    "frame_present,timestamp:+9223372036854775807,state:02\n" ++
    "b,timestamp:9223372036854775798\n").toList

private def eventsAt (first second third : Int64) : EventLog where
  events :=
    [⟨0, ⟨"a", first, [("k", .number (.decimal 1))]⟩⟩,
      ⟨10, ⟨"frame_present", second, [("state", .number (.decimal 2))]⟩⟩,
      ⟨1, ⟨"b", third, []⟩⟩]

theorem epoch_independent_of_extremes :
    let earliest := eventsAt (-9223372036854775808) (-9223372036854775798) (-9223372036854775807)
    let latest := eventsAt 9223372036854775797 9223372036854775807 9223372036854775798
    parse earliestText = .ok earliest ∧ parse latestText = .ok latest ∧
      ∀ dataset, Timeline.ofEventLog dataset latest = Timeline.ofEventLog dataset earliest := by
  intro earliest latest
  have accepted : parse earliestText = .ok earliest := by decide +kernel
  have movedAccepted : parse latestText = .ok latest := by decide +kernel
  have holds : (lines earliestText).map lineEvent? =
      [some (.ok earliest.events[0].event), none, some (.ok earliest.events[1].event),
        some (.ok earliest.events[2].event)] := by
    decide +kernel
  have movedHolds : (lines latestText).map lineEvent? =
      [some (.ok latest.events[0].event), none, some (.ok latest.events[1].event),
        some (.ok latest.events[2].event)] := by
    decide +kernel
  have same : List.Forall₂ (MovedLine 18446744073709551605) ((lines earliestText).map lineEvent?)
      ((lines latestText).map lineEvent?) := by
    rw [holds, movedHolds]
    exact .cons (.event ⟨rfl, rfl, rfl⟩) (.cons .blank (.cons (.event ⟨rfl, rfl, rfl⟩)
      (.cons (.event ⟨rfl, rfl, rfl⟩) .nil)))
  exact ⟨accepted, movedAccepted, ((epoch_independent same).2.2 _ _ accepted movedAccepted).2.2⟩

end EventLog

end FrameTiming
