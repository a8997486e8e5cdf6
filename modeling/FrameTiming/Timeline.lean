import FrameTiming.Event.Log
import FrameTiming.Fps
import FrameTiming.Number.Order
import FrameTiming.Percentile

/-! # Timelines

What an event log tells over time: the frames presented in each second, and the pipelines created,
with the time their creation took.
-/

namespace FrameTiming

/-! ## Pipelines -/

inductive PipelineKind where
  | graphics
  | compute
deriving DecidableEq, Repr

namespace PipelineKind

def name : PipelineKind → String
  | .graphics => "graphics"
  | .compute => "compute"

def ofEventName? : String → Option PipelineKind
  | "create_graphics_pipeline" => some .graphics
  | "create_compute_pipeline" => some .compute
  | _ => none

end PipelineKind

structure PipelineCreation where
  /-- Seconds since the start of the log. -/
  seconds : Float
  milliseconds : Float
  kind : PipelineKind
deriving DecidableEq

def inSeconds (time : Int64) : Float :=
  Float.ofInt time.toInt / 1e9

/-- The pipeline that an event creates; an event without a duration creates none. -/
def PipelineCreation.ofEvent? (timed : TimedEvent) : Option PipelineCreation := do
  let kind ← PipelineKind.ofEventName? timed.event.name
  let duration ← timed.event.number? "duration"
  some ⟨inSeconds timed.elapsed, Float.ofInt duration.toInt / millisecondLength, kind⟩

/-! ## Frames -/

def framePresent : String := "frame_present"

/-- The timepoint of a presented frame. An event before the start of the log counts for its start;
the state is that of the event, else whether it had started, else the default state. -/
def Timepoint.ofEvent (timed : TimedEvent) : Timepoint where
  time := UInt64.ofNat timed.elapsed.toInt.toNat
  state := (timed.event.number? "state" <|> timed.event.number? "started").getD defaultState

/-! ## Timelines -/

structure Timeline where
  dataset : String
  duration : Float
  fps : List Bucket
  pipelines : List PipelineCreation
deriving DecidableEq

namespace Timeline

def ofEventLog (dataset : String) (log : EventLog) : Timeline where
  dataset := dataset
  duration := inSeconds log.duration
  fps := Bucket.ofTimepoints ((log.named framePresent).map Timepoint.ofEvent)
  pipelines := (log.events.filterMap PipelineCreation.ofEvent?).mergeSort fun first second =>
    Number.totalLe first.seconds second.seconds

def segments (timeline : Timeline) : List Segment :=
  Segment.ofBuckets timeline.fps

/-- The longest creation of a pipeline, 0 if none takes longer than that. -/
def slowestCreation (timeline : Timeline) : Float :=
  timeline.pipelines.foldl (fun slowest creation =>
    if slowest < creation.milliseconds then creation.milliseconds else slowest) 0

end Timeline

end FrameTiming
