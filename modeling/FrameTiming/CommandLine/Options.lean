import FrameTiming.CommandLine.Grammar
import FrameTiming.Config

/-! # Options

The options of the two commands as values. A dataset is given by one occurrence of `--dataset`: its
name and its logs.
-/

namespace FrameTiming.CommandLine

/-! ## Datasets -/

structure LogGroup where
  dataset : String
  logs : List Path
deriving DecidableEq, Repr

structure EventGroup where
  dataset : String
  log : Path
deriving DecidableEq, Repr

def LogGroup.ofValues? : List String → Option LogGroup
  | dataset :: logs => some ⟨dataset, logs.map Path.mk⟩
  | [] => none

def EventGroup.ofValues? : List String → Option EventGroup
  | [dataset, log] => some ⟨dataset, ⟨log⟩⟩
  | _ => none

/-- Later arguments replace all groups, but only if they give some. -/
def updateGroups {Group : Type} (current given : List Group) : List Group :=
  if given.isEmpty then current else given

def datasetOption (arity : Arity) : OptionSpec where
  name := "dataset"
  letter? := some 'd'
  arity := arity
  kind := .text
  repeatable := true

/-! ## Occurrences -/

variable {Key : Type} [DecidableEq Key]

def valuesOf (occurrences : List (Occurrence Key)) (key : Key) : List (List String) :=
  (occurrences.filter (·.key = key)).map (·.values)

def isGiven (occurrences : List (Occurrence Key)) (key : Key) : Bool :=
  occurrences.any (·.key = key)

def value? (occurrences : List (Occurrence Key)) (key : Key) : Option String :=
  (occurrences.find? (·.key = key)).bind (·.values.head?)

def path? (occurrences : List (Occurrence Key)) (key : Key) : Option Path :=
  (value? occurrences key).map Path.mk

def number? (occurrences : List (Occurrence Key)) (key : Key) : Option Float :=
  (value? occurrences key).bind fun value => Number.float? value.toList

/-! ## Analysis -/

inductive OutputFormat where
  | text
  | json
deriving DecidableEq, Repr

namespace OutputFormat

def name : OutputFormat → String
  | .text => "text"
  | .json => "json"

end OutputFormat

inductive AnalyzeKey where
  | dataset
  | output
  | config
  | withState
  | targetRate
  | dropFront
  | durationCap
  | stateFilter
  | allRuns
  | format
  | tableDirectory
  | workDirectory
  | renderer
  | verbose
  | debug
deriving DecidableEq, Repr

def analyzeGrammar : Grammar AnalyzeKey where
  options := [
    (.dataset, datasetOption (.atLeast 2)),
    (.output, { name := "output", letter? := some 'o', arity := .exactly 1, kind := .path }),
    (.config, { name := "config", arity := .exactly 1, kind := .path }),
    (.withState, { name := "with-state", arity := .flag, kind := .text }),
    (.targetRate, { name := "target-fps", arity := .exactly 1, kind := .number }),
    (.dropFront, { name := "drop-front", arity := .exactly 1, kind := .number }),
    (.durationCap, { name := "duration-cap", arity := .exactly 1, kind := .number }),
    (.stateFilter,
      { name := "state-filter", arity := .exactly 1, kind := .word, negativeNumbers := true }),
    (.allRuns, { name := "no-outlier-trimming", arity := .flag, kind := .text }),
    (.format, {
      name := "format"
      arity := .exactly 1
      kind := .oneOf [OutputFormat.text.name, OutputFormat.json.name] }),
    (.tableDirectory, { name := "fps-csv-dir", arity := .exactly 1, kind := .path }),
    (.workDirectory, { name := "work-dir", arity := .exactly 1, kind := .path }),
    (.renderer, { name := "plot-script", arity := .exactly 1, kind := .path }),
    (.verbose, { name := "verbose", letter? := some 'v', arity := .flag, kind := .text }),
    (.debug, { name := "debug", arity := .flag, kind := .text })]

structure AnalyzeOptions where
  groups : List LogGroup
  output : Path
  config? : Option Path
  withState : Bool
  targetRate? : Option Float
  dropFront? : Option Float
  durationCap? : Option Float
  stateFilter? : Option StateId
  allRuns : Bool
  format : OutputFormat
  tableDirectory : Path
  /-- Where logs of trimmed runs go. -/
  workDirectory? : Option Path
  renderer? : Option Path
  verbose : Bool
  /-- Write a trace of the work; it does not change any result. -/
  debug : Bool
deriving DecidableEq

namespace AnalyzeOptions

def ofOccurrences (occurrences : List (Occurrence AnalyzeKey)) : AnalyzeOptions where
  groups := (valuesOf occurrences .dataset).filterMap LogGroup.ofValues?
  output := (path? occurrences .output).getD ⟨"combined.png"⟩
  config? := path? occurrences .config
  withState := isGiven occurrences .withState
  targetRate? := number? occurrences .targetRate
  dropFront? := number? occurrences .dropFront
  durationCap? := number? occurrences .durationCap
  stateFilter? := (value? occurrences .stateFilter).bind fun value => Number.signed? value.toList
  allRuns := isGiven occurrences .allRuns
  format := if value? occurrences .format = some OutputFormat.json.name then .json else .text
  tableDirectory := (path? occurrences .tableDirectory).getD ⟨"."⟩
  workDirectory? := path? occurrences .workDirectory
  renderer? := path? occurrences .renderer
  verbose := isGiven occurrences .verbose
  debug := isGiven occurrences .debug

def applyTo (options : AnalyzeOptions) (base : Config) : Config where
  targetRate := options.targetRate?.getD base.targetRate
  withState := options.withState || base.withState
  dropFront? := options.dropFront? <|> base.dropFront?
  durationCap? := options.durationCap? <|> base.durationCap?
  stateFilter? := options.stateFilter? <|> base.stateFilter?
  trimOutliers := base.trimOutliers && !options.allRuns
  missedScore := base.missedScore

end AnalyzeOptions

/-! ## Timelines -/

inductive TimelineKey where
  | dataset
  | output
  | directory
  | renderer
  | debug
deriving DecidableEq, Repr

def timelineGrammar : Grammar TimelineKey where
  options := [
    (.dataset, datasetOption (.exactly 2)),
    (.output, { name := "output", letter? := some 'o', arity := .exactly 1, kind := .path }),
    (.directory, { name := "out-dir", arity := .exactly 1, kind := .path }),
    (.renderer, { name := "plot-script", arity := .exactly 1, kind := .path }),
    (.debug, { name := "debug", arity := .flag, kind := .text })]

structure TimelineOptions where
  groups : List EventGroup
  output : Path
  directory : Path
  renderer? : Option Path
  debug : Bool
deriving DecidableEq

namespace TimelineOptions

def ofOccurrences (occurrences : List (Occurrence TimelineKey)) : TimelineOptions where
  groups := (valuesOf occurrences .dataset).filterMap EventGroup.ofValues?
  output := (path? occurrences .output).getD ⟨"timeline.png"⟩
  directory := (path? occurrences .directory).getD ⟨"."⟩
  renderer? := path? occurrences .renderer
  debug := isGiven occurrences .debug

end TimelineOptions

end FrameTiming.CommandLine
