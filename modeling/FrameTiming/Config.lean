import FrameTiming.Error
import FrameTiming.Frame
import FrameTiming.Text.Utf8
import FrameTiming.Toml.Document

/-! # Configuration

What an analysis looks at and what it compares with. A configuration may come from a TOML file, in
which every key is optional and unknown ones are passed over. `validate` names the first setting that
makes no sense.
-/

namespace FrameTiming

structure Config where
  targetRate : Float := 60
  withState : Bool := false
  /-- Seconds to drop from the front of every recording. -/
  dropFront? : Option Float := none
  durationCap? : Option Float := none
  /-- The state whose frames the statistics are about; all states without it. -/
  stateFilter? : Option StateId := none
  /-- Metrics look at the stable runs only, if there are any. -/
  trimOutliers : Bool := true
  missedScore : Bool := true
deriving DecidableEq

namespace Config

/-- The frame time that is aimed at, in nanoseconds. -/
def targetTime (config : Config) : Float :=
  1e9 / config.targetRate

def logFormat (config : Config) : LogFormat :=
  LogFormat.ofWithState config.withState

/-! ## Validation -/

def isPositive (value : Float) : Bool :=
  value.isFinite && 0 < value

def isNonnegative (value : Float) : Bool :=
  value.isFinite && 0 ≤ value

def fault? (config : Config) : Option ConfigFault :=
  if !isPositive config.targetRate then
    some (.targetRate config.targetRate)
  else if let some seconds := config.dropFront?.filter (!isNonnegative ·) then
    some (.dropFront seconds)
  else if let some seconds := config.durationCap?.filter (!isPositive ·) then
    some (.durationCap seconds)
  else if config.stateFilter?.isSome && !config.withState then
    some .stateFilterWithoutState
  else
    none

def validate (config : Config) : Except AnalysisError Unit :=
  match config.fault? with
  | some fault => .error (.invalidConfig fault)
  | none => .ok ()

/-! ## Files -/

/-- The number that an entry holds; a whole number will do. -/
private def numberOf? : Toml.Value → Option Float
  | .float value => some value
  | .integer value => some (Float.ofInt value.toInt)
  | _ => none

private def stateOf? : Toml.Value → Option StateId
  | .integer value => some value
  | _ => none

private def booleanOf? : Toml.Value → Option Bool
  | .boolean value => some value
  | _ => none

/-- What stands under a key: `default` if nothing does, and nothing at all if it is of another
kind. -/
private def setting? {Setting : Type} (entries : Toml.Entries) (key : String)
    (ofValue? : Toml.Value → Option Setting) (default : Setting) : Option Setting :=
  match entries.lookup key with
  | none => some default
  | some value => ofValue? value

def ofEntries? (entries : Toml.Entries) : Option Config := do
  let standard : Config := {}
  return {
    targetRate := ← setting? entries "target_fps" numberOf? standard.targetRate
    withState := ← setting? entries "with_state" booleanOf? standard.withState
    dropFront? := ← setting? entries "drop_front_seconds" (numberOf? · |>.map some) none
    durationCap? := ← setting? entries "duration_cap_seconds" (numberOf? · |>.map some) none
    stateFilter? := ← setting? entries "state_filter" (stateOf? · |>.map some) none
    trimOutliers := ← setting? entries "outlier_trimming" booleanOf? standard.trimOutliers
    missedScore := ← setting? entries "missed_score" booleanOf? standard.missedScore }

def parse? (text : String) : Option Config :=
  (Toml.parse? text).bind ofEntries?

def read {m : Type → Type} [Monad m] [Host m] (path : Path) : ExceptT AnalysisError m Config := do
  match (← (Host.openFile path : m _)).bind Opened.read with
  | .error error => throw (.host path error)
  | .ok bytes => match Text.Utf8.decode? bytes with
      | none => throw (.host path .invalidText)
      | some text => match parse? text with
          | none => throw (.configSyntax path)
          | some config =>
              let () ← config.validate
              return config

end Config

end FrameTiming
