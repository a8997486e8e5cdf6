import FrameTiming.Host
import FrameTiming.Number.Layout

/-! # Errors

Everything that can go wrong, by cause, and the words for it. Errors of a single line or record know
no path; `AnalysisError` puts them into the file they were found in.
-/

namespace FrameTiming

open Number (Layout)

/-! ## Causes -/

inductive RecordFault where
  | fieldCount (expected found : Nat)
  | invalidDuration (text : String)
  /-- The recording would last longer than `hours`. -/
  | tooLong (duration : UInt64) (hours : Nat)
  | invalidState (text : String)
deriving DecidableEq, Repr

def RecordFault.message : RecordFault → String
  | .fieldCount expected found => s!"expected {expected} field(s), found {found}"
  | .invalidDuration text => s!"invalid frame duration '{text}'"
  | .tooLong duration hours => s!"frame duration {duration} runs past {hours} hours of recording"
  | .invalidState text => s!"invalid state '{text}'"

inductive TableFault where
  | host (error : HostError)
  /-- A field is not valid text from byte `index` on. The position is that of its record. -/
  | invalidText (record line byte field index : Nat)
deriving DecidableEq, Repr

def TableFault.message : TableFault → String
  | .host error => error.message
  | .invalidText record line byte field index =>
      s!"CSV parse error: record {record} (line {line}, field: {field}, byte: {byte}): "
        ++ s!"invalid utf-8: invalid UTF-8 in field {field} near byte index {index}"

inductive EventFault where
  | missingName
  | missingTimestamp
  | invalidTimestamp (value : String)
  | timestampOutOfRange (value : Int64)
  | malformedAttribute (field : String)
  | unterminatedQuote
  | unreadable (error : HostError)
deriving DecidableEq, Repr

/-- A fault and the number of its line, counted from one. -/
structure EventError where
  line : Nat
  fault : EventFault
deriving DecidableEq, Repr

def EventFault.message : EventFault → String
  | .missingName => "missing event name"
  | .missingTimestamp => "missing timestamp attribute"
  | .invalidTimestamp value => s!"invalid timestamp '{value}'"
  | .timestampOutOfRange value => s!"timestamp {value} is too far from the first event"
  | .malformedAttribute field => s!"malformed attribute '{field}'"
  | .unterminatedQuote => "unterminated quote"
  | .unreadable error => s!"read failed: {error.message}"

def EventError.message (error : EventError) : String :=
  s!"line {error.line}: {error.fault.message}"

inductive ConfigFault where
  | targetRate (value : Float)
  | dropFront (seconds : Float)
  | durationCap (seconds : Float)
  | stateFilterWithoutState
deriving DecidableEq

/-- Numbers in messages are written in full, a whole number without a fraction. -/
def ConfigFault.layout : Layout where
  tie := .up
  exponential _ := false
  wholeFraction := false
  plusSign := false

example : ConfigFault.layout.text (-5.0) = "-5" ∧ ConfigFault.layout.text 1e-7 = "0.0000001" := by
  decide +kernel

def ConfigFault.message : ConfigFault → String
  | .targetRate value => "target_fps must be positive, got " ++ layout.text value
  | .dropFront seconds => "drop_front_seconds must be non-negative, got " ++ layout.text seconds
  | .durationCap seconds => "duration_cap_seconds must be positive, got " ++ layout.text seconds
  | .stateFilterWithoutState => "state_filter requires with_state"

inductive RenderFault where
  | notStarted (program : Path) (error : HostError)
  | failed (program : Path) (status : ExitStatus) (output : Path)
deriving DecidableEq, Repr

def RenderFault.message : RenderFault → String
  | .notStarted program error => s!"failed to start {program.text}: {error.message}"
  | .failed program status output =>
      s!"{program.text} exited with {status.text} while rendering {output.text}"

inductive PercentileFault where
  | rankBeyondEnd
  | notAscending
deriving DecidableEq, Repr

/-! ## Errors of an analysis -/

inductive AnalysisError where
  | host (path : Path) (error : HostError)
  | table (path : Path) (fault : TableFault)
  | malformedRecord (path : Path) (line : Nat) (fault : RecordFault)
  | emptyRun (name : String)
  | emptyDataset (name : String)
  | invalidConfig (fault : ConfigFault)
  | configSyntax (path : Path)
  | eventLog (path : Path) (error : EventError)
  | render (fault : RenderFault)
  | percentile (fault : PercentileFault)
deriving DecidableEq

namespace AnalysisError

def syntaxMessage : String :=
  "TOML parse error"

def message : AnalysisError → String
  | .host path error => s!"IO error on {path.text}: {error.message}"
  | .table path fault => s!"CSV error in {path.text}: {fault.message}"
  | .malformedRecord path line fault =>
      s!"Malformed record in {path.text} at line {line}: {fault.message}"
  | .emptyRun name => s!"Run {name} has no frames"
  | .emptyDataset name => s!"Dataset {name} has no runs"
  | .invalidConfig fault => s!"Invalid configuration: {fault.message}"
  | .configSyntax path => s!"Failed to parse config {path.text}: {syntaxMessage}"
  | .eventLog path error => s!"Event log {path.text}: {error.message}"
  | .render fault => s!"Renderer failed: {fault.message}"
  | .percentile .rankBeyondEnd => "percentile rank beyond the last value"
  | .percentile .notAscending => "percentile of values that are not in ascending order"

/-- The message and those of the underlying causes, outermost first. -/
def chain (error : AnalysisError) : List String :=
  error.message :: match error with
    | .host _ cause => [cause.message]
    | .table _ cause => [cause.message]
    | .configSyntax _ => [syntaxMessage]
    | .eventLog _ cause => [cause.message]
    | _ => []

end AnalysisError

end FrameTiming
