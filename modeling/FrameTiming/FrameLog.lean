import FrameTiming.Delimited.Reader
import FrameTiming.Delimited.Writer
import FrameTiming.Frame
import FrameTiming.Number.Literal

/-! # Frame logs

A frame log is a file of delimited records below a line of column names that is not looked at. Each
record is a frame. A log is read completely or not at all: the first record with a fault decides, and
a recording beyond `recordingLimit` is a fault. `text` writes what `parse` reads.
-/

namespace FrameTiming.FrameLog

open Delimited (Record)
open Number (unsigned? signed?)

/-! ## Reading -/

/-- The frame that a record stands for, behind frames that last `elapsed` nanoseconds. Field count,
duration, length of the recording and state are checked in this order. -/
def frame (format : LogFormat) (elapsed : Nat) (record : Record) : Except RecordFault Frame :=
  match format, record.fields with
  | .durations, [durationText] => do
      let duration ← durationOf durationText
      .ok ⟨duration, none⟩
  | .durationsAndStates, [durationText, stateText] => do
      let duration ← durationOf durationText
      match signed? stateText with
      | some state => .ok ⟨duration, some state⟩
      | none => .error (.invalidState (String.ofList stateText))
  | _, fields => .error (.fieldCount format.fieldCount fields.length)
where
  durationOf (text : List Char) : Except RecordFault UInt64 :=
    match unsigned? 10 text with
    | none => .error (.invalidDuration (String.ofList text))
    | some duration =>
        if elapsed + duration.toNat ≤ recordingLimit then .ok duration
        else .error (.tooLong duration (recordingLimit / hourLength))

/-- The frames of a list of records, behind frames that last `elapsed` nanoseconds. `source` only
names the log in errors. -/
def frames (format : LogFormat) (source : Path) (elapsed : Nat) :
    List (Except TableFault Record) → Except AnalysisError (List Frame)
  | [] => .ok []
  | .error fault :: _ => .error (.table source fault)
  | .ok record :: rest =>
      match frame format elapsed record with
      | .error fault => .error (.malformedRecord source record.line fault)
      | .ok frame =>
          (frames format source (elapsed + frame.duration.toNat) rest).map (frame :: ·)

def parse (format : LogFormat) (source : Path) (bytes : List UInt8) :
    Except AnalysisError (List Frame) :=
  frames format source 0 (Delimited.read bytes).tail

/-! ## Writing -/

def fields (format : LogFormat) (frame : Frame) : List String :=
  match format with
  | .durations => [toString frame.duration.toNat]
  | .durationsAndStates => [toString frame.duration.toNat, toString frame.state.toInt]

def text (format : LogFormat) (frames : List Frame) : String :=
  Delimited.text (format.header :: frames.map (fields format))

example : text .durationsAndStates [⟨5, some (-1)⟩, ⟨7, none⟩]
    = "frame_time_ns,state\n5,-1\n7,0\n" := by decide +kernel

example : (parse .durations ⟨"a.log"⟩ (Text.Utf8.encode "ns\n5\n\n+7\n".toList)).toOption
    = some [⟨5, none⟩, ⟨7, none⟩] := by decide +kernel

/-! ## Files -/

def read {m : Type → Type} [Monad m] [Host m] (format : LogFormat) (path : Path) :
    ExceptT AnalysisError m (List Frame) := do
  match ← (Host.openFile path : m _) with
  | .error error => throw (.host path error)
  | .ok .directory => throw (.table path (.host .isDirectory))
  | .ok (.bytes content) => parse format path content

def save {m : Type → Type} [Monad m] [Host m] (format : LogFormat) (frames : List Frame)
    (directory : Path) (name : String) : ExceptT AnalysisError m Path := do
  let path := directory.join ⟨name⟩
  match ← (Host.makeDirectories directory : m _) with
  | .error error => throw (.host directory error)
  | .ok () =>
      match ← (Host.writeFile path (text format frames) : m _) with
      | .error error => throw (.table path (.host error))
      | .ok () => return path

end FrameTiming.FrameLog
