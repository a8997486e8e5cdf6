import FrameTiming.Config
import FrameTiming.Fps
import FrameTiming.FrameLog
import FrameTiming.StateTime
import FrameTiming.Stats
import FrameTiming.Window

/-! # Runs

A run is one recording under a configuration: the frames inside the window, the statistics of those
in the analysed state, and the time spent in each state. Only the statistics depend on the state
filter.
-/

namespace FrameTiming

structure Run where
  name : String
  source : Path
  format : LogFormat
  frames : List Frame
  analyzed : Nat
  trimmed : Bool
  stats : Stats
  stateTime : StateTime
deriving DecidableEq

namespace Run

def durationsIn (state? : Option StateId) (frames : List Frame) : List UInt64 :=
  (frames.filter fun frame => state?.all (frame.state = ·)).map Frame.duration

/-- Analyses the frames of a log. A run without frames in the analysed state is refused. -/
def ofFrames (config : Config) (name : String) (source : Path) (recorded : List Frame) :
    Except AnalysisError Run := do
  let frames := Window.apply config.dropFront? config.durationCap? recorded
  let durations := durationsIn config.stateFilter? frames
  let stats ← Stats.ofDurations name durations config.targetTime
  return {
    name, source, frames, stats
    format := config.logFormat
    analyzed := durations.length
    trimmed := frames.length ≠ recorded.length
    stateTime := StateTime.ofFrames frames }

def fps (run : Run) : List Bucket :=
  Bucket.ofFrames run.frames

/-! ## Names and files -/

def nameOf (path : Path) : String :=
  let directory? := path.parent?.bind Path.fileName?
  directory?.getD "" ++ "/" ++ path.fileName?.getD ""

example : nameOf ⟨"/logs/first/a.log"⟩ = "first/a.log" ∧ nameOf ⟨"a.log"⟩ = "/a.log" := by
  decide +kernel

def read {m : Type → Type} [Monad m] [Host m] (config : Config) (path : Path) :
    ExceptT AnalysisError m Run := do
  let frames ← FrameLog.read config.logFormat path
  match ← (Host.canonicalPath path : m _) with
  | .error error => throw (.host path error)
  | .ok source => ofFrames config (nameOf source) source frames

/-- The file name for the frames of a run. Slashes of either kind become underscores. -/
def exportName (run : Run) (group : String) (index : Nat) : String :=
  let joined := run.name.toList.map fun char => if char = '/' ∨ char = '\\' then '_' else char
  group ++ "_" ++ toString index ++ "_" ++ String.ofList joined

/-- A log that holds the frames of the run and no others: its source, or, after the window left out
some, a new log in a directory. `index` is the position of the run in its group. -/
def provideLog {m : Type → Type} [Monad m] [Host m] (run : Run) (directory : Path) (group : String)
    (index : Nat) : ExceptT AnalysisError m Path :=
  if run.trimmed then
    FrameLog.save run.format run.frames directory (run.exportName group index)
  else
    return run.source

end Run

end FrameTiming
