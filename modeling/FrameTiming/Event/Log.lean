import FrameTiming.Event
import FrameTiming.Frame
import FrameTiming.Text.Utf8

/-! # Event logs

An event log has one event on every line that is not blank. The first event is time zero; the other
ones know the time elapsed since. A log is read completely or not at all: the first line with a fault
decides.
-/

namespace FrameTiming

open Text (trim Utf8.decode)

/-- An event and the nanoseconds since the first event of its log. -/
structure TimedEvent where
  elapsed : Int64
  event : Event
deriving DecidableEq, Repr

structure EventLog where
  events : List TimedEvent
deriving DecidableEq, Repr

namespace EventLog

def named (log : EventLog) (name : String) : List TimedEvent :=
  log.events.filter fun timed => timed.event.name = name

/-- The latest elapsed time, 0 if no event comes after the first one. -/
def duration (log : EventLog) : Int64 :=
  log.events.foldl (fun latest timed => max latest timed.elapsed) 0

/-! ## Lines -/

/-- The lines of a file. A carriage return right before a line feed belongs to the line end. -/
def lines : List UInt8 → List (List UInt8)
  | [] => []
  | 0x0d :: 0x0a :: rest => [] :: lines rest
  | byte :: rest =>
      if byte = 0x0a then [] :: lines rest
      else match lines rest with
        | [] => [[byte]]
        | line :: more => (byte :: line) :: more

example : lines [0x61, 0x0d, 0x0a, 0x0a, 0x0d, 0x62] = [[0x61], [], [0x0d, 0x62]] := by decide

/-! ## Reading -/

/-- The time between two timestamps, unless it lies too far ahead or is no word. -/
def elapsed? (start timestamp : Int64) : Option Int64 :=
  let elapsed := timestamp.toInt - start.toInt
  if Int64.minValue.toInt ≤ elapsed ∧ elapsed ≤ recordingLimit then
    some (Int64.ofInt elapsed)
  else
    none

def timedEvent (start? : Option Int64) (line : List Char) : Except EventFault TimedEvent := do
  let event ← Event.parse line
  match elapsed? (start?.getD event.timestamp) event.timestamp with
  | some elapsed => .ok ⟨elapsed, event⟩
  | none => .error (.timestampOutOfRange event.timestamp)

def eventsFrom (number : Nat) (start? : Option Int64) :
    List (List UInt8) → Except EventError (List TimedEvent)
  | [] => .ok []
  | bytes :: rest =>
      match Utf8.decode bytes with
      | .error _ => .error ⟨number, .unreadable .invalidText⟩
      | .ok line =>
          if (trim line).isEmpty then
            eventsFrom (number + 1) start? rest
          else
            match timedEvent start? line with
            | .error fault => .error ⟨number, fault⟩
            | .ok timed =>
                let start := start?.getD timed.event.timestamp
                (eventsFrom (number + 1) (some start) rest).map (timed :: ·)

def parse (bytes : List UInt8) : Except EventError EventLog :=
  (eventsFrom 1 none (lines bytes)).map EventLog.mk

def read {m : Type → Type} [Monad m] [Host m] (path : Path) : ExceptT AnalysisError m EventLog := do
  match ← (Host.openFile path : m _) with
  | .error error => throw (.host path error)
  | .ok .directory => throw (.eventLog path ⟨1, .unreadable .isDirectory⟩)
  | .ok (.bytes content) => match parse content with
      | .error error => throw (.eventLog path error)
      | .ok log => return log

end EventLog

end FrameTiming
