import FrameTiming.Error
import FrameTiming.Text.Blank

/-! # Failures of a command

A command that fails says what it was doing and why that failed, down to the first cause.
-/

namespace FrameTiming.Program

inductive ProgramFailure where
  | noDatasets (usage : String)
  | configNotLoaded (path : Path) (cause : AnalysisError)
  | optionsInvalid (cause : AnalysisError)
  | workDirectoryNotCreated (path : Path) (cause : HostError)
  | directoryNotCreated (path : Path) (cause : HostError)
  | notSummarized (dataset : String) (cause : AnalysisError)
  | eventLogNotRead (dataset : String) (cause : AnalysisError)
  | analysis (error : AnalysisError)
deriving DecidableEq

namespace ProgramFailure

/-- What happened, and the causes of it, outermost first. -/
def chain : ProgramFailure → List String
  | .noDatasets usage => ["No datasets given; use --dataset " ++ usage]
  | .configNotLoaded path cause => s!"Failed to load config {path.text}" :: cause.chain
  | .optionsInvalid cause => "Invalid analysis options" :: cause.chain
  | .workDirectoryNotCreated path cause =>
      [s!"Failed to create work dir {path.text}", cause.message]
  | .directoryNotCreated path cause => [s!"Failed to create {path.text}", cause.message]
  | .notSummarized dataset cause => s!"Failed to summarize dataset '{dataset}'" :: cause.chain
  | .eventLogNotRead dataset cause =>
      s!"Failed to read event log for dataset '{dataset}'" :: cause.chain
  | .analysis error => error.chain

/-! ## Text -/

/-- A cause with a mark in front of its first line; further lines stand below the first. -/
private def entry (mark message : String) : String :=
  let below := String.ofList ('\n' :: List.replicate mark.length ' ')
  let lines := (Text.splitAll '\n' message.toList).map String.ofList
  "\n" ++ mark ++ below.intercalate lines

private def entries : List String → String
  | [cause] => entry "    " cause
  | causes => String.join (causes.mapIdx fun index cause => entry s!"    {index}: " cause)

def report (failure : ProgramFailure) : String :=
  match failure.chain with
  | [] => "Error: \n"
  | [message] => "Error: " ++ message ++ "\n"
  | message :: causes => "Error: " ++ message ++ "\n\nCaused by:" ++ entries causes ++ "\n"

example : (ProgramFailure.analysis (.host ⟨"a"⟩ .notFound)).report
    = "Error: IO error on a: No such file or directory (os error 2)\n\nCaused by:\n"
      ++ "    No such file or directory (os error 2)\n" := by decide +kernel

end ProgramFailure

end FrameTiming.Program
