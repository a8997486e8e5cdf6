import FrameTiming.CommandLine.Options
import FrameTiming.Document
import FrameTiming.Program.Failure
import FrameTiming.Renderer
import FrameTiming.Report
import FrameTiming.Table

/-! # The analysis of frame logs

For every dataset: load the logs, summarize the runs, write the table of the representative runs,
provide their logs, draw them and report. At the end comes the document, if that is the format asked
for, and the picture of all datasets.
-/

namespace FrameTiming.Program

open CommandLine (AnalyzeOptions LogGroup OutputFormat)

variable {m : Type → Type} [Monad m] [Host m]

/-! ## Configuration -/

/-- The configuration in use: that of the file, changed by the options, and valid. -/
def configFor (options : AnalyzeOptions) : ExceptT ProgramFailure m Config := do
  let base ← match options.config? with
    | none => pure {}
    | some path => (Config.read path).adapt (ProgramFailure.configNotLoaded path)
  let config := options.applyTo base
  match config.validate with
  | .error error => throw (.optionsInvalid error)
  | .ok () => return config

def prepareDirectory (path : Path) (failure : Path → HostError → ProgramFailure) :
    ExceptT ProgramFailure m Unit := do
  match ← (Host.makeDirectories path : m _) with
  | .error error => throw (failure path error)
  | .ok () => return ()

/-! ## Datasets -/

def pictureDirectory (output : Path) : Path :=
  match output.parent? with
  | some directory => if directory.text.isEmpty then ⟨"."⟩ else directory
  | none => ⟨"."⟩

structure Analyzed where
  dataset : Dataset
  summary : Summary
  logs : List Path

def representativeRuns (dataset : Dataset) (summary : Summary) :
    Except AnalysisError (Run × Run × Run) :=
  let run? (ref : RunRef) : Option Run := dataset.runs[ref.index]?
  match run? summary.representatives.low, run? summary.representatives.median,
    run? summary.representatives.high with
  | some low, some median, some high => .ok (low, median, high)
  | _, _, _ => .error (.emptyDataset dataset.name)

/-- Writes what the renderer needs for the representative runs, draws them, and gives their logs. -/
def present (options : AnalyzeOptions) (workDirectory : Path) (dataset : Dataset)
    (summary : Summary) : ExceptT AnalysisError m (List Path) := do
  let name := dataset.name
  let representatives := summary.representatives
  let (low, median, high) ← representativeRuns dataset summary
  Table.save (options.tableDirectory.join ⟨name ++ "_fps.csv"⟩) FpsRow.columns
    ((FpsRow.ofSeries low.fps median.fps high.fps).map FpsRow.fields)
  let lowLog ← low.provideLog workDirectory name representatives.low.index
  let medianLog ← median.provideLog workDirectory name representatives.median.index
  match options.renderer? with
  | none => pure ()
  | some program =>
      let picture := (pictureDirectory options.output).join ⟨name ++ "_frametimes.png"⟩
      Renderer.render program [lowLog, medianLog] picture
  return if representatives.median.index = representatives.low.index then [lowLog]
    else [lowLog, medianLog]

def analyzeGroup (options : AnalyzeOptions) (config : Config) (workDirectory : Path)
    (group : LogGroup) : ExceptT ProgramFailure m Analyzed := do
  let forReaders := decide (options.format = .text)
  let dataset ← (Dataset.load config group.dataset group.logs : m _)
  if options.verbose && forReaders then
    (Host.print (String.join (dataset.runs.map Report.run)) : m _)
  match Summary.ofDataset config Metric.standard dataset with
  | .error error => throw (.notSummarized group.dataset error)
  | .ok summary =>
      let logs ← (present options workDirectory dataset summary).adapt ProgramFailure.analysis
      if forReaders then
        (Host.print (Report.dataset dataset summary) : m _)
      return ⟨dataset, summary, logs⟩

/-! ## Command -/

/-- The command `analyze`. Without a work directory among the options `scratch` is used. -/
def analyze (scratch : Path) (options : AnalyzeOptions) : ExceptT ProgramFailure m Unit := do
  if options.groups.isEmpty then
    throw (.noDatasets "NAME LOG...")
  let config ← configFor options
  let workDirectory := options.workDirectory?.getD scratch
  prepareDirectory workDirectory .workDirectoryNotCreated
  prepareDirectory options.tableDirectory .directoryNotCreated
  let analyzed ← options.groups.mapM (analyzeGroup options config workDirectory)
  if options.format = .json then
    let document := Document.ofDatasets config.withState
      (analyzed.map fun result => (result.dataset, result.summary))
    (Host.print (document.pretty ++ "\n") : m _)
  match options.renderer? with
  | none => return ()
  | some program =>
      (Renderer.render program (analyzed.flatMap Analyzed.logs)
        (options.output.withExtension "png")).adapt ProgramFailure.analysis

end FrameTiming.Program
