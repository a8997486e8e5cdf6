import FrameTiming.Proofs.EventLog
import FrameTiming.Proofs.Text
import Mathlib.Data.List.Induction

/-! # Line ends in an event log

A file is a sequence of lines that are ended by line feeds, the last one perhaps by nothing. A
carriage return in front of a line feed says nothing, nor does a line that is blank, except that it
counts. So which line is refused, and what is read otherwise, can be told from the file itself.
-/

namespace FrameTiming.EventLog

open Text (trim trimEndWhile trim_eq_nil_iff Utf8.decode Utf8.decodeFrom_concat_ascii)

/-! ## Lines in a file -/

/-- A line, which ends at a line feed, as it is read. -/
def withoutReturn (line : List UInt8) : List UInt8 :=
  if line.getLast? = some 0x0d then line.dropLast else line

/-- A file is a last line, perhaps an empty one, behind lines that end at line feeds. -/
theorem lines_induction {motive : List UInt8 → Prop}
    (last : ∀ line, 0x0a ∉ line → motive line)
    (feed : ∀ line rest, 0x0a ∉ line → motive rest → motive (line ++ 0x0a :: rest))
    (bytes : List UInt8) : motive bytes := by
  by_cases broken : 0x0a ∈ bytes
  · rcases List.eq_append_cons_of_mem broken with ⟨line, rest, rfl, unbroken⟩
    exact feed line rest unbroken (lines_induction last feed rest)
  · exact last bytes broken
termination_by bytes.length

theorem lines_cons {byte : UInt8} {rest line : List UInt8} {more : List (List UInt8)}
    (inside : byte ≠ 0x0a) (stays : byte = 0x0d → rest.head? ≠ some 0x0a)
    (following : lines rest = line :: more) :
    lines (byte :: rest) = (byte :: line) :: more := by
  unfold lines
  split
  · contradiction
  · rename_i same
    cases same
    exact absurd rfl (stays rfl)
  · rename_i same
    cases same
    rw [if_neg inside, following]

theorem lines_feed {line : List UInt8} (unbroken : 0x0a ∉ line) (rest : List UInt8) :
    lines (line ++ 0x0a :: rest) = withoutReturn line :: lines rest := by
  induction line with
  | nil => rfl
  | cons byte line induction =>
      rw [List.mem_cons, not_or] at unbroken
      have following := induction unbroken.2
      cases line with
      | nil =>
          by_cases isReturn : byte = 0x0d
          · rw [isReturn]
            rfl
          · have read : lines (byte :: 0x0a :: rest) = [byte] :: lines rest :=
              lines_cons (Ne.symm unbroken.1) (fun same => absurd same isReturn) following
            rw [List.singleton_append, read]
            simp [withoutReturn, isReturn]
      | cons next line =>
          have stays : (next :: line ++ 0x0a :: rest).head? ≠ some 0x0a := by
            simpa using Ne.symm (List.ne_of_not_mem_cons unbroken.2)
          rw [List.cons_append, lines_cons (Ne.symm unbroken.1) (fun _ => stays) following]
          simp only [withoutReturn, List.getLast?_cons_cons, List.dropLast_cons_cons]
          split <;> rfl

theorem lines_of_unbroken {line : List UInt8} (unbroken : 0x0a ∉ line) (present : line ≠ []) :
    lines line = [line] := by
  induction line with
  | nil => exact absurd rfl present
  | cons byte line induction =>
      rw [List.mem_cons, not_or] at unbroken
      cases line with
      | nil =>
          unfold lines
          simp [Ne.symm unbroken.1, lines]
      | cons next line =>
          have stays : (next :: line).head? ≠ some 0x0a := by
            simpa using Ne.symm (List.ne_of_not_mem_cons unbroken.2)
          exact lines_cons (Ne.symm unbroken.1) (fun _ => stays)
            (induction unbroken.2 (List.cons_ne_nil _ _))

/-- No line is left open behind these bytes. -/
def Ended (bytes : List UInt8) : Prop :=
  ∀ byte ∈ bytes.getLast?, byte = 0x0a

theorem ended_feed {line rest : List UInt8} :
    Ended (line ++ 0x0a :: rest) ↔ Ended rest := by
  cases rest using List.reverseRecOn <;> simp [Ended, List.getLast?_cons]

theorem eq_nil_of_ended {line : List UInt8} (unbroken : 0x0a ∉ line) (ended : Ended line) :
    line = [] := by
  cases isLast : line.getLast? with
  | none => exact List.getLast?_eq_none_iff.mp isLast
  | some byte =>
      have member := List.mem_of_getLast? isLast
      rw [ended byte isLast] at member
      exact absurd member unbroken

theorem lines_append {before : List UInt8} (ended : Ended before) (rest : List UInt8) :
    lines (before ++ rest) = lines before ++ lines rest := by
  induction before using lines_induction with
  | last line unbroken =>
      rw [eq_nil_of_ended unbroken ended]
      rfl
  | feed line before unbroken induction =>
      rw [List.append_assoc, List.cons_append, lines_feed unbroken, lines_feed unbroken,
        induction (ended_feed.mp ended), List.cons_append]

/-- There are as many lines as line feeds. -/
theorem length_lines {before : List UInt8} (ended : Ended before) :
    (lines before).length = before.count 0x0a := by
  induction before using lines_induction with
  | last line unbroken =>
      rw [eq_nil_of_ended unbroken ended]
      rfl
  | feed line before unbroken induction =>
      rw [lines_feed unbroken, List.length_cons, induction (ended_feed.mp ended),
        List.count_append, List.count_eq_zero_of_not_mem unbroken, List.count_cons_self,
        Nat.zero_add]

/-! ## Carriage returns -/

theorem lineEvent?_return (bytes : List UInt8) :
    lineEvent? (bytes ++ [0x0d]) = lineEvent? bytes := by
  have decoded : Utf8.decode (bytes ++ [0x0d]) = (Utf8.decode bytes).map (· ++ ['\r']) :=
    Utf8.decodeFrom_concat_ascii 0 bytes (by decide)
  rw [lineEvent?, decoded, lineEvent?]
  cases Utf8.decode bytes with
  | error validLength => rfl
  | ok line =>
      have blank : (trim (line ++ ['\r'])).isEmpty = (trim line).isEmpty := by
        have blankReturn : Text.isBlank '\r' = true := by decide
        rw [Bool.eq_iff_iff, List.isEmpty_iff, List.isEmpty_iff, trim_eq_nil_iff, trim_eq_nil_iff]
        simp [or_imp, forall_and, blankReturn]
      have trimmed : trimEndWhile Event.endsLine (line ++ ['\r']) =
          trimEndWhile Event.endsLine line := by
        simp [trimEndWhile, Event.endsLine]
      have parsed : Event.parse (line ++ ['\r']) = Event.parse line := by
        rw [Event.parse, Event.parse, trimmed]
      simp only [Except.map, blank, parsed]

theorem lineEvent?_withoutReturn (line : List UInt8) :
    lineEvent? (withoutReturn line) = lineEvent? line := by
  rw [withoutReturn]
  split
  · rename_i returns
    rcases List.getLast?_eq_some_iff.mp returns with ⟨front, rfl⟩
    rw [List.dropLast_concat, lineEvent?_return]
  · rfl

/-- Two files that differ only in the line feeds that have a carriage return in front of them. -/
inductive SameButReturns : List UInt8 → List UInt8 → Prop
  | done : SameButReturns [] []
  | kept {bytes other : List UInt8} (byte : UInt8) (rest : SameButReturns bytes other) :
      SameButReturns (byte :: bytes) (byte :: other)
  | added {bytes other : List UInt8} (rest : SameButReturns bytes other) :
      SameButReturns (0x0a :: bytes) (0x0d :: 0x0a :: other)
  | removed {bytes other : List UInt8} (rest : SameButReturns bytes other) :
      SameButReturns (0x0d :: 0x0a :: bytes) (0x0a :: other)

/-- One carriage return in front of a line feed, wherever it is. -/
theorem map_lineEvent?_return (front rest : List UInt8) :
    (lines (front ++ 0x0d :: 0x0a :: rest)).map lineEvent? =
      (lines (front ++ 0x0a :: rest)).map lineEvent? := by
  induction front using lines_induction with
  | last line unbroken =>
      have unbrokenReturn : 0x0a ∉ line ++ [0x0d] := by simp [unbroken]
      have returned := lines_feed unbrokenReturn rest
      rw [List.append_assoc, List.singleton_append] at returned
      rw [returned, lines_feed unbroken, List.map_cons, List.map_cons,
        lineEvent?_withoutReturn, lineEvent?_withoutReturn, lineEvent?_return]
  | feed line front unbroken induction =>
      rw [List.append_assoc, List.append_assoc, List.cons_append, List.cons_append,
        lines_feed unbroken, lines_feed unbroken, List.map_cons, List.map_cons, induction]

theorem SameButReturns.behind {bytes other : List UInt8} (same : SameButReturns bytes other)
    (front : List UInt8) : SameButReturns (front ++ bytes) (front ++ other) := by
  induction front with
  | nil => exact same
  | cons byte front induction => exact .kept byte induction

theorem SameButReturns.map_lineEvent? {bytes other : List UInt8} (same : SameButReturns bytes other)
    (front : List UInt8) :
    (lines (front ++ other)).map lineEvent? = (lines (front ++ bytes)).map lineEvent? := by
  induction same generalizing front with
  | done => rfl
  | kept byte rest induction =>
      have extended := induction (front ++ [byte])
      rwa [List.append_assoc, List.append_assoc] at extended
  | added rest induction | removed rest induction =>
      have extended := induction (front ++ [0x0a])
      rw [List.append_assoc, List.append_assoc] at extended
      rwa [map_lineEvent?_return]

/-! ## What lines hold -/

variable {content other : List (List UInt8)}

/-- A log depends only on what its lines hold. -/
theorem eventsFrom_congr (same : other.map lineEvent? = content.map lineEvent?) (number : ℕ)
    (start? : Option Int64) :
    eventsFrom number start? other = eventsFrom number start? content := by
  induction content generalizing other number start? with
  | nil => rw [List.map_eq_nil_iff.mp same]
  | cons bytes content induction =>
      rcases List.map_eq_cons_iff.mp same with ⟨first, rest, rfl, holds, following⟩
      simp only [eventsFrom_cons, holds, induction following]

/-- The events of a log that starts at `start?`, from what its lines hold except the blank ones. -/
def eventsOf (start? : Option Int64) :
    List (Except EventFault Event) → Except EventFault (List TimedEvent)
  | [] => .ok []
  | .error fault :: _ => .error fault
  | .ok event :: rest =>
      match elapsed? (start?.getD event.timestamp) event.timestamp with
      | none => .error (.timestampOutOfRange event.timestamp)
      | some elapsed =>
          (eventsOf (some (start?.getD event.timestamp)) rest).map (⟨elapsed, event⟩ :: ·)

/-- Blank lines count, and that is all they do. -/
theorem eventsFrom_mapError (number : ℕ) (start? : Option Int64) (content : List (List UInt8)) :
    (eventsFrom number start? content).mapError EventError.fault =
      eventsOf start? (content.filterMap lineEvent?) := by
  induction content generalizing number start? with
  | nil => rfl
  | cons bytes content induction =>
      rw [eventsFrom_cons]
      cases holds : lineEvent? bytes with
      | none => rw [List.filterMap_cons_none holds, ← induction]
      | some outcome =>
          rw [List.filterMap_cons_some holds]
          cases outcome with
          | error fault => rfl
          | ok event =>
              rw [eventsOf]
              dsimp only
              cases elapsed? (start?.getD event.timestamp) event.timestamp with
              | none => rfl
              | some elapsed =>
                  dsimp only
                  rw [← induction (number + 1)]
                  cases eventsFrom (number + 1) (some (start?.getD event.timestamp)) content <;> rfl

theorem parse_mapError (bytes : List UInt8) :
    (parse bytes).mapError EventError.fault =
      (eventsOf none ((lines bytes).filterMap lineEvent?)).map EventLog.mk := by
  rw [← eventsFrom_mapError 1, parse]
  cases eventsFrom 1 none (lines bytes) <;> rfl

/-! ## One line of a file -/

/-- This line of a file, with a carriage return at its end if there is one. -/
structure LineAt (bytes before line after : List UInt8) : Prop where
  whole : bytes = before ++ line ++ after
  starts : Ended before
  unbroken : 0x0a ∉ line
  ends : ∀ byte ∈ after.head?, byte = 0x0a

variable {bytes before line after : List UInt8}

/-- Every line that is read is a line of the file. -/
theorem exists_lineAt {front back : List (List UInt8)} {shown : List UInt8}
    (same : lines bytes = front ++ shown :: back) :
    ∃ before line after, LineAt bytes before line after ∧ lines before = front ∧
      lineEvent? line = lineEvent? shown := by
  induction bytes using lines_induction generalizing front with
  | last line unbroken =>
      by_cases present : line = []
      · rw [present] at same
        simp [lines] at same
      · rw [lines_of_unbroken unbroken present] at same
        rcases List.append_eq_singleton_iff.mp same.symm with ⟨rfl, single⟩ | ⟨_, none⟩
        · cases single
          exact ⟨[], shown, [], ⟨by simp, by simp [Ended], unbroken, by simp⟩, rfl, rfl⟩
        · cases none
  | feed line rest unbroken induction =>
      rw [lines_feed unbroken] at same
      cases front with
      | nil =>
          cases same
          refine ⟨[], line, 0x0a :: rest, ⟨by simp, by simp [Ended], unbroken, by simp⟩, rfl, ?_⟩
          exact (lineEvent?_withoutReturn line).symm
      | cons first front =>
          rcases List.cons_eq_cons.mp same with ⟨rfl, following⟩
          rcases induction following with ⟨before, final, after, found, rfl, holds⟩
          refine ⟨line ++ 0x0a :: before, final, after, ⟨?_, ?_, ?_, ?_⟩, ?_, holds⟩
          · rw [found.whole]
            simp
          · exact ended_feed.mpr found.starts
          · exact found.unbroken
          · exact found.ends
          · exact lines_feed unbroken before

/-- A line of a file is read, unless it is the empty one at its end. -/
theorem LineAt.lines_eq (found : LineAt bytes before line after) :
    (line = [] ∧ after = []) ∨
      ∃ shown, lines bytes = lines before ++ shown :: lines after.tail ∧
        lineEvent? shown = lineEvent? line := by
  rw [found.whole, List.append_assoc, lines_append found.starts]
  cases after with
  | nil =>
      by_cases empty : line = []
      · exact .inl ⟨empty, rfl⟩
      · refine .inr ⟨line, ?_, rfl⟩
        rw [List.append_nil, lines_of_unbroken found.unbroken empty]
        rfl
  | cons byte rest =>
      cases found.ends byte rfl
      refine .inr ⟨withoutReturn line, ?_, lineEvent?_withoutReturn line⟩
      rw [lines_feed found.unbroken, List.tail_cons]

theorem LineAt.filterMap_of_blank (found : LineAt bytes before line after)
    (blank : lineEvent? line = none) :
    (lines (before ++ after.tail)).filterMap lineEvent? = (lines bytes).filterMap lineEvent? := by
  rcases found.lines_eq with ⟨rfl, rfl⟩ | ⟨shown, same, holds⟩
  · rw [found.whole, List.append_nil, List.tail_nil]
  · rw [lines_append found.starts, same, List.filterMap_append, List.filterMap_append,
      List.filterMap_cons_none (holds.trans blank)]

/-- The first line of a file that is refused has this fault. Lines are counted from 1 on, blank ones
as well. -/
def FirstRefused (bytes : List UInt8) (error : EventError) : Prop :=
  ∃ before line after earlier, LineAt bytes before line after ∧ parse before = .ok earlier ∧
    Refused (startAfter none earlier.events) line error.fault ∧
    error.line = before.count 0x0a + 1

theorem Refused.congr {start? : Option Int64} {shown : List UInt8} {fault : EventFault}
    (refused : Refused start? shown fault) (holds : lineEvent? line = lineEvent? shown) :
    Refused start? line fault := by
  cases refused with
  | faulty held => exact .faulty (holds.trans held)
  | outOfRange held distant => exact .outOfRange (holds.trans held) distant

theorem not_refused_nil {start? : Option Int64} {fault : EventFault} :
    ¬Refused start? [] fault := by
  have blank : lineEvent? [] = none := by decide
  intro refused
  cases refused with
  | faulty held => simp [blank] at held
  | outOfRange held => simp [blank] at held

/-- A file is refused exactly for the first line that is. -/
theorem parse_eq_error_iff_firstRefused {error : EventError} :
    parse bytes = .error error ↔ FirstRefused bytes error := by
  rw [parse_eq_error_iff]
  constructor
  · intro refused
    rcases refused with ⟨front, shown, back, events, same, reads, refused, position⟩
    rcases exists_lineAt same with ⟨before, line, after, found, rfl, holds⟩
    refine ⟨before, line, after, ⟨events⟩, found, parse_eq_ok_iff.mpr reads,
      refused.congr holds, ?_⟩
    rw [position, length_lines found.starts]
  · intro refused
    rcases refused with ⟨before, line, after, earlier, found, accepted, refused, position⟩
    rcases found.lines_eq with ⟨rfl, -⟩ | ⟨shown, same, holds⟩
    · exact absurd refused not_refused_nil
    · refine ⟨lines before, shown, lines after.tail, earlier.events, same,
        parse_eq_ok_iff.mp accepted, refused.congr holds, ?_⟩
      rw [position, length_lines found.starts]

/-! ## Files -/

/-- A log has the events of the lines that are not blank, in their order, and the exact distance of
each one from the first. -/
structure Holds (log : EventLog) (bytes : List UInt8) : Prop where
  events : (lines bytes).filterMap lineEvent? = log.events.map fun timed => .ok timed.event
  times : ∀ first ∈ log.events.head?, ∀ timed ∈ log.events,
    timed.elapsed.toInt = timed.event.timestamp.toInt - first.event.timestamp.toInt ∧
      timed.elapsed.toInt ≤ recordingLimit

theorem parse_eq_ok_iff_holds {log : EventLog} : parse bytes = .ok log ↔ log.Holds bytes := by
  rw [parse_eq_ok_iff]
  constructor
  · intro reads
    refine ⟨reads.1, ?_⟩
    intro first starts timed member
    apply elapsed?_eq_some_iff.mp
    apply reads.2 _ _ timed member
    simp [startAfter, Option.mem_def.mp starts]
  · intro holds
    refine ⟨holds.events, ?_⟩
    intro start started timed member
    rcases Option.map_eq_some_iff.mp started with ⟨first, starts, rfl⟩
    exact elapsed?_eq_some_iff.mpr (holds.times first starts timed member)

/-- A file is read line by line. What is read are the events of its lines with their distances from
the first one; the latest of these is the duration. What is refused is refused for its first line
that is no text, is no event or is out of range. Carriage returns in front of line feeds make no
difference at all, and blank lines none but to the number of the line that is refused. -/
theorem lineByLine_exact (bytes : List UInt8) :
    (∀ log, parse bytes = .ok log ↔ log.Holds bytes) ∧
    (∀ log, parse bytes = .ok log →
      (∀ first ∈ log.events.head?, first.elapsed = 0) ∧ 0 ≤ log.duration.toInt ∧
      (∀ timed ∈ log.events, timed.elapsed.toInt ≤ log.duration.toInt) ∧
      (log.events = [] → log.duration = 0) ∧
      (log.events ≠ [] → ∃ timed ∈ log.events, timed.elapsed = log.duration)) ∧
    (∀ error, parse bytes = .error error ↔ FirstRefused bytes error) ∧
    (∀ other, SameButReturns bytes other → parse other = parse bytes) ∧
    (∀ other, (lines other).filterMap lineEvent? = (lines bytes).filterMap lineEvent? →
      (parse other).mapError EventError.fault = (parse bytes).mapError EventError.fault) ∧
    ∀ before line after, LineAt bytes before line after → lineEvent? line = none →
      (parse (before ++ after.tail)).mapError EventError.fault =
        (parse bytes).mapError EventError.fault := by
  have sameHolding : ∀ other, (lines other).filterMap lineEvent? =
      (lines bytes).filterMap lineEvent? →
        (parse other).mapError EventError.fault = (parse bytes).mapError EventError.fault := by
    intro other same
    rw [parse_mapError, parse_mapError, same]
  refine ⟨fun log => parse_eq_ok_iff_holds, ?_, fun error => parse_eq_error_iff_firstRefused, ?_,
    sameHolding, ?_⟩
  · intro log accepted
    have times := (parse_eq_ok_iff_holds.mp accepted).times
    rcases duration_bounds log with ⟨nonneg, latest, source⟩
    have starts : ∀ first ∈ log.events.head?, first.elapsed = 0 := by
      intro first starts
      rw [← Int64.toInt_inj, (times first starts first (List.mem_of_head? starts)).1, Int.sub_self]
      rfl
    refine ⟨starts, nonneg, latest, ?_, ?_⟩
    · intro empty
      rw [duration, empty]
      rfl
    · intro present
      rcases source with zero | ⟨timed, member, same⟩
      · -- The first event has the time zero, too.
        rcases List.exists_cons_of_ne_nil present with ⟨first, others, cons⟩
        refine ⟨first, by simp [cons], ?_⟩
        rw [zero, starts first (by simp [cons])]
      · exact ⟨timed, member, same.symm⟩
  · intro other same
    have following : (lines other).map lineEvent? = (lines bytes).map lineEvent? :=
      same.map_lineEvent? []
    rw [parse, parse, eventsFrom_congr following]
  · intro before line after found blank
    exact sameHolding _ (found.filterMap_of_blank blank)

private def firstText : List UInt8 :=
  Text.Utf8.encode "a,timestamp:5".toList

/-- A blank line and an event before the first one. -/
private def laterText : List UInt8 :=
  Text.Utf8.encode " \nb,timestamp:3\n".toList

/-- There is no timestamp on the third line. -/
private def untimedText : List UInt8 :=
  Text.Utf8.encode "a,timestamp:5\n\nb\r\nc\n".toList

private def backward : EventLog where
  events := [⟨0, ⟨"a", 5, []⟩⟩, ⟨-2, ⟨"b", 3, []⟩⟩]

theorem lineByLine_exact_of_blankLines :
    (parse (firstText ++ 0x0a :: laterText) = .ok backward ∧
      parse (firstText ++ 0x0d :: 0x0a :: laterText) = .ok backward ∧
      ∃ timed ∈ backward.events, timed.elapsed = backward.duration) ∧
    parse untimedText = .error ⟨3, .missingTimestamp⟩ ∧
      FirstRefused untimedText ⟨3, .missingTimestamp⟩ := by
  have accepted : parse (firstText ++ 0x0a :: laterText) = .ok backward := by decide +kernel
  have refused : parse untimedText = .error ⟨3, .missingTimestamp⟩ := by decide +kernel
  have same : SameButReturns (firstText ++ 0x0a :: laterText)
      (firstText ++ 0x0d :: 0x0a :: laterText) := by
    apply SameButReturns.behind
    apply SameButReturns.added
    rw [← List.append_nil laterText]
    exact SameButReturns.done.behind laterText
  rcases lineByLine_exact (firstText ++ 0x0a :: laterText) with ⟨-, lasts, -, returns, -, -⟩
  refine ⟨⟨accepted, (returns _ same).trans accepted, ?_⟩, refused, ?_⟩
  · exact (lasts backward accepted).2.2.2.2 (List.cons_ne_nil _ _)
  · exact ((lineByLine_exact untimedText).2.2.1 _).mp refused

end FrameTiming.EventLog
