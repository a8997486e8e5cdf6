import FrameTiming.Event.Log
import FrameTiming.Proofs.Except
import Mathlib.Data.Int.Notation
import Mathlib.Data.Nat.Notation
import Mathlib.Tactic.SplitIfs

/-! # Event logs line by line

A line is blank, holds an event or has a fault. A log is read up to the first line that is refused,
for a fault of its own or for an event out of range, whatever comes behind that line.
-/

namespace FrameTiming.EventLog

open Text (trim Utf8.decode)

/-! ## Distances -/

theorem elapsed?_eq_some_iff {start timestamp elapsed : Int64} :
    elapsed? start timestamp = some elapsed ↔
      elapsed.toInt = timestamp.toInt - start.toInt ∧ elapsed.toInt ≤ recordingLimit := by
  have limit : recordingLimit < 2 ^ 63 := by decide
  have least := elapsed.minValue_le_toInt
  unfold elapsed?
  dsimp only
  split_ifs with within
  · have exact := Int64.toInt_ofInt_of_le within.1 (by omega)
    rw [Option.some.injEq, ← Int64.toInt_inj, exact]
    omega
  · simp only [false_iff]
    rintro ⟨difference, bounded⟩
    rw [difference] at least bounded
    exact within ⟨least, bounded⟩

theorem elapsed?_eq_none_iff {start timestamp : Int64} :
    elapsed? start timestamp = none ↔
      recordingLimit < timestamp.toInt - start.toInt ∨
        timestamp.toInt - start.toInt < Int64.minValue.toInt := by
  unfold elapsed?
  dsimp only
  split_ifs with within
  · simp only [false_iff]
    omega
  · simp only [true_iff]
    omega

/-! ## One line -/

/-- What a line holds, nothing if it is blank. -/
def lineEvent? (bytes : List UInt8) : Option (Except EventFault Event) :=
  match Utf8.decode bytes with
  | .error _ => some (.error (.unreadable .invalidText))
  | .ok line => if (trim line).isEmpty then none else some (Event.parse line)

/-- What a line adds to a log that starts at `start?`, or else at this line. -/
inductive Accepted (start? : Option Int64) (bytes : List UInt8) : List TimedEvent → Prop
  | blank (holds : lineEvent? bytes = none) : Accepted start? bytes []
  | event {timed : TimedEvent} (holds : lineEvent? bytes = some (.ok timed.event))
      (inRange : elapsed? (start?.getD timed.event.timestamp) timed.event.timestamp =
        some timed.elapsed) :
      Accepted start? bytes [timed]

/-- Why a line is refused in a log that starts at `start?`. -/
inductive Refused (start? : Option Int64) (bytes : List UInt8) : EventFault → Prop
  | faulty {fault : EventFault} (holds : lineEvent? bytes = some (.error fault)) :
      Refused start? bytes fault
  | outOfRange {event : Event} (holds : lineEvent? bytes = some (.ok event))
      (distant : elapsed? (start?.getD event.timestamp) event.timestamp = none) :
      Refused start? bytes (.timestampOutOfRange event.timestamp)

theorem accepted_or_refused (start? : Option Int64) (bytes : List UInt8) :
    (∃ events, Accepted start? bytes events) ∨ ∃ fault, Refused start? bytes fault := by
  cases holds : lineEvent? bytes with
  | none => exact .inl ⟨[], .blank holds⟩
  | some outcome =>
      cases outcome with
      | error fault => exact .inr ⟨fault, .faulty holds⟩
      | ok event =>
          cases distance : elapsed? (start?.getD event.timestamp) event.timestamp with
          | none => exact .inr ⟨_, .outOfRange holds distance⟩
          | some elapsed => exact .inl ⟨[⟨elapsed, event⟩], .event holds distance⟩

/-- The start of a log of which some events have been read. -/
def startAfter (start? : Option Int64) (earlier : List TimedEvent) : Option Int64 :=
  start? <|> earlier.head?.map fun timed => timed.event.timestamp

@[simp] theorem startAfter_nil (start? : Option Int64) : startAfter start? [] = start? := by
  cases start? <;> rfl

@[simp] theorem startAfter_cons (start? : Option Int64) (timed : TimedEvent)
    (others : List TimedEvent) :
    startAfter start? (timed :: others) = some (start?.getD timed.event.timestamp) := by
  cases start? <;> rfl

@[simp] theorem startAfter_append (start? : Option Int64) (earlier later : List TimedEvent) :
    startAfter (startAfter start? earlier) later = startAfter start? (earlier ++ later) := by
  cases earlier <;> simp [startAfter]

variable {number : ℕ} {start? : Option Int64} {bytes : List UInt8} {fault : EventFault}
  {content before : List (List UInt8)} {read events : List TimedEvent}

theorem eventsFrom_cons (number : ℕ) (start? : Option Int64) (bytes : List UInt8)
    (rest : List (List UInt8)) :
    eventsFrom number start? (bytes :: rest) =
      match lineEvent? bytes with
      | none => eventsFrom (number + 1) start? rest
      | some (.error fault) => .error ⟨number, fault⟩
      | some (.ok event) =>
          match elapsed? (start?.getD event.timestamp) event.timestamp with
          | none => .error ⟨number, .timestampOutOfRange event.timestamp⟩
          | some elapsed =>
              (eventsFrom (number + 1) (some (start?.getD event.timestamp)) rest).map
                (⟨elapsed, event⟩ :: ·) := by
  rw [eventsFrom, lineEvent?]
  cases Utf8.decode bytes with
  | error validLength => rfl
  | ok line =>
      dsimp only
      split_ifs with blank
      · rfl
      · cases parsed : Event.parse line with
        | error fault => simp [timedEvent, parsed, bind, Except.bind]
        | ok event =>
            cases distance : elapsed? (start?.getD event.timestamp) event.timestamp <;>
              simp [timedEvent, parsed, distance, bind, Except.bind]

theorem eventsFrom_of_accepted (accepted : Accepted start? bytes read) (number : ℕ)
    (rest : List (List UInt8)) :
    eventsFrom number start? (bytes :: rest) =
      (eventsFrom (number + 1) (startAfter start? read) rest).map (read ++ ·) := by
  rw [eventsFrom_cons]
  cases accepted with
  | blank holds =>
      rw [holds, startAfter_nil]
      cases eventsFrom (number + 1) start? rest <;> rfl
  | event holds inRange =>
      rw [holds, startAfter_cons]
      dsimp only
      rw [inRange]
      rfl

theorem eventsFrom_of_refused (refused : Refused start? bytes fault) (number : ℕ)
    (rest : List (List UInt8)) :
    eventsFrom number start? (bytes :: rest) = .error ⟨number, fault⟩ := by
  rw [eventsFrom_cons]
  cases refused with
  | faulty holds => rw [holds]
  | outOfRange holds distant =>
      rw [holds]
      dsimp only
      rw [distant]

/-! ## Many lines -/

/-- Reading goes on behind lines that were read, with the start that they gave. -/
theorem eventsFrom_append (accepted : eventsFrom number start? before = .ok read)
    (rest : List (List UInt8)) :
    eventsFrom number start? (before ++ rest) =
      (eventsFrom (number + before.length) (startAfter start? read) rest).map (read ++ ·) := by
  induction before generalizing number start? read with
  | nil =>
      cases accepted
      rw [List.nil_append, startAfter_nil]
      cases eventsFrom number start? rest <;> rfl
  | cons bytes before induction =>
      rcases accepted_or_refused start? bytes with ⟨first, line⟩ | ⟨fault, line⟩
      · rw [eventsFrom_of_accepted line, map_eq_ok_iff] at accepted
        rcases accepted with ⟨others, following, rfl⟩
        have position : number + 1 + before.length = number + (before.length + 1) := by omega
        rw [List.cons_append, eventsFrom_of_accepted line, induction following,
          startAfter_append, position, List.length_cons]
        cases eventsFrom (number + (before.length + 1)) (startAfter start? (first ++ others)) rest
        · rfl
        · simp [Except.map]
      · rw [eventsFrom_of_refused line] at accepted
        cases accepted

/-- The lines that are not blank hold these events, and all of them come in range. -/
def Reads (start? : Option Int64) (lines : List (List UInt8)) (events : List TimedEvent) : Prop :=
  lines.filterMap lineEvent? = events.map (fun timed => .ok timed.event) ∧
    ∀ start ∈ startAfter start? events, ∀ timed ∈ events,
      elapsed? start timed.event.timestamp = some timed.elapsed

theorem reads_cons_of_blank (holds : lineEvent? bytes = none) :
    Reads start? (bytes :: content) events ↔ Reads start? content events := by
  simp [Reads, holds]

theorem not_reads_cons_of_fault (holds : lineEvent? bytes = some (.error fault)) :
    ¬Reads start? (bytes :: content) events := by
  rintro ⟨held, -⟩
  rw [List.filterMap_cons_some holds] at held
  rcases List.map_eq_cons_iff.mp held.symm with ⟨first, others, -, same, -⟩
  cases same

theorem reads_cons_of_event {event : Event} (holds : lineEvent? bytes = some (.ok event)) :
    Reads start? (bytes :: content) events ↔
      ∃ elapsed others, elapsed? (start?.getD event.timestamp) event.timestamp = some elapsed ∧
        Reads (some (start?.getD event.timestamp)) content others ∧
        events = ⟨elapsed, event⟩ :: others := by
  rw [Reads, List.filterMap_cons_some holds]
  constructor
  · rintro ⟨held, inRange⟩
    rcases List.map_eq_cons_iff.mp held.symm with ⟨⟨elapsed, first⟩, others, rfl, same, rest⟩
    cases same
    rw [startAfter_cons] at inRange
    have times := List.forall_mem_cons.mp (inRange _ rfl)
    refine ⟨elapsed, others, times.1, ⟨rest.symm, ?_⟩, rfl⟩
    rintro start ⟨⟩
    exact times.2
  · rintro ⟨elapsed, others, inRange, ⟨held, later⟩, rfl⟩
    refine ⟨by rw [held, List.map_cons], ?_⟩
    rw [startAfter_cons]
    rintro start ⟨⟩
    exact List.forall_mem_cons.mpr ⟨inRange, later _ rfl⟩

/-- Lines are read as events exactly if they hold them in range. -/
theorem eventsFrom_eq_ok_iff :
    eventsFrom number start? content = .ok events ↔ Reads start? content events := by
  induction content generalizing number start? events with
  | nil => cases events <;> simp [eventsFrom, Reads]
  | cons bytes rest induction =>
      rcases accepted_or_refused start? bytes with ⟨first, line⟩ | ⟨fault, line⟩
      · rw [eventsFrom_of_accepted line, map_eq_ok_iff]
        cases line with
        | blank holds => simp [induction, reads_cons_of_blank holds]
        | event holds inRange =>
            rw [reads_cons_of_event holds, inRange]
            simp [induction]
      · rw [eventsFrom_of_refused line]
        cases line with
        | faulty holds => simp [not_reads_cons_of_fault holds]
        | outOfRange holds distant => simp [reads_cons_of_event holds, distant]

/-- Lines are refused exactly for the first one that is, whatever follows it. -/
theorem eventsFrom_eq_error_iff {error : EventError} :
    eventsFrom number start? content = .error error ↔
      ∃ before line after earlier, content = before ++ line :: after ∧ Reads start? before earlier ∧
        Refused (startAfter start? earlier) line error.fault ∧
        error.line = number + before.length := by
  constructor
  · intro refused
    induction content generalizing number start? with
    | nil => cases refused
    | cons bytes rest induction =>
        rcases accepted_or_refused start? bytes with ⟨first, line⟩ | ⟨fault, line⟩
        · rw [eventsFrom_of_accepted line, map_eq_error_iff] at refused
          rcases induction refused with ⟨before, final, after, others, rfl, reads, last, position⟩
          have following : eventsFrom (number + 1) (startAfter start? first) before = .ok others :=
            eventsFrom_eq_ok_iff.mpr reads
          refine ⟨bytes :: before, final, after, first ++ others, rfl, ?_, ?_, ?_⟩
          · rw [← eventsFrom_eq_ok_iff, eventsFrom_of_accepted line, following]
            rfl
          · rwa [startAfter_append] at last
          · rw [position, List.length_cons]
            omega
        · rw [eventsFrom_of_refused line] at refused
          cases refused
          refine ⟨[], bytes, rest, [], rfl, ?_, by rwa [startAfter_nil], rfl⟩
          simp [Reads]
  · rintro ⟨before, bytes, after, earlier, rfl, reads, refused, position⟩
    rw [eventsFrom_append (eventsFrom_eq_ok_iff.mpr reads), eventsFrom_of_refused refused,
      ← position]
    rfl

/-! ## Whole logs -/

theorem parse_eq_ok_iff {log : EventLog} :
    parse bytes = .ok log ↔ Reads none (lines bytes) log.events := by
  rw [parse, map_eq_ok_iff]
  simp only [eventsFrom_eq_ok_iff]
  constructor
  · rintro ⟨events, reads, rfl⟩
    exact reads
  · exact fun reads => ⟨log.events, reads, rfl⟩

theorem parse_eq_error_iff {error : EventError} :
    parse bytes = .error error ↔
      ∃ before line after earlier, lines bytes = before ++ line :: after ∧
        Reads none before earlier ∧ Refused (startAfter none earlier) line error.fault ∧
        error.line = before.length + 1 := by
  simp only [parse, map_eq_error_iff, eventsFrom_eq_error_iff, Nat.add_comm 1]

end FrameTiming.EventLog
