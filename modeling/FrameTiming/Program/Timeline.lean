import FrameTiming.CommandLine.Options
import FrameTiming.Program.Failure
import FrameTiming.Renderer
import FrameTiming.Report
import FrameTiming.Table

/-! # The timelines of event logs

For every dataset: read the event log, say in one line what it holds, and write the tables of its
timeline. At the end all tables are drawn.
-/

namespace FrameTiming.Program

open CommandLine (EventGroup TimelineOptions)

variable {m : Type → Type} [Monad m] [Host m]

def timelineLine (timeline : Timeline) : String :=
  timeline.dataset ++ ": " ++ Report.amount timeline.duration ++ " s, "
    ++ toString timeline.fps.length ++ " FPS samples in "
    ++ toString timeline.segments.length ++ " state segments, "
    ++ toString timeline.pipelines.length ++ " pipelines (slowest "
    ++ Report.amount timeline.slowestCreation ++ " ms)\n"

/-- Reads an event log and gives the paths of the tables of its timeline. -/
def tabulateGroup (options : TimelineOptions) (group : EventGroup) :
    ExceptT ProgramFailure m (List Path) := do
  let log ← (EventLog.read group.log).adapt (ProgramFailure.eventLogNotRead group.dataset)
  let timeline := Timeline.ofEventLog group.dataset log
  (Host.print (timelineLine timeline) : m _)
  (timeline.save options.directory).adapt ProgramFailure.analysis

def timeline (options : TimelineOptions) : ExceptT ProgramFailure m Unit := do
  if options.groups.isEmpty then
    throw (.noDatasets "NAME EVENT_LOG")
  let tables ← options.groups.mapM (tabulateGroup options)
  match options.renderer? with
  | none => return ()
  | some program =>
      (Renderer.render program tables.flatten options.output).adapt ProgramFailure.analysis

end FrameTiming.Program
