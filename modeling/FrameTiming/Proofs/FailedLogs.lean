import FrameTiming.Proofs.FiniteSummary
import FrameTiming.Proofs.OutlierTrimming

/-! # Logs that fail

Each log of a dataset is read and analysed by itself. Those that give no run are set apart, and the
runs of the others are numbered as if there were no others.
-/

namespace FrameTiming

open Host (Machine FileTree)

/-! ## Outcomes -/

namespace Dataset

theorem ofOutcomes_append (name : String)
    (first second : List (Path × Except AnalysisError Run)) :
    ofOutcomes name (first ++ second) =
      ⟨name, (ofOutcomes name first).runs ++ (ofOutcomes name second).runs,
        (ofOutcomes name first).failures ++ (ofOutcomes name second).failures⟩ := by
  simp [ofOutcomes]

variable {name : String} {outcome : Path → Except AnalysisError Run}

/-- The runs are what the succeeding logs give, in their order. -/
theorem map_ok_runs (paths : List Path) :
    (ofOutcomes name (paths.map fun path => (path, outcome path))).runs.map Except.ok =
      (paths.filter fun path => (outcome path).isOk).map outcome := by
  simp only [ofOutcomes, List.filterMap_map, List.map_filterMap, ← List.filterMap_eq_filter]
  apply List.filterMap_congr
  intro path _
  cases made : outcome path <;> simp [made, Except.toOption, Except.isOk, Except.toBool]

/-- The failures are what the failing logs give, in their order. -/
theorem map_error_failures (paths : List Path) :
    (ofOutcomes name (paths.map fun path => (path, outcome path))).failures.map
        (fun failure => (failure.path, .error failure.error)) =
      (paths.filter fun path => !(outcome path).isOk).map fun path => (path, outcome path) := by
  simp only [ofOutcomes, List.filterMap_map, List.map_filterMap, ← List.filterMap_eq_filter]
  apply List.filterMap_congr
  intro path _
  cases made : outcome path <;> simp [made, Except.isOk, Except.toBool]

/-- Without the failing logs there are the same runs and no failures. -/
theorem ofOutcomes_of_succeeding (paths : List Path) :
    ofOutcomes name ((paths.filter fun path => (outcome path).isOk).map
        fun path => (path, outcome path)) =
      ⟨name, (ofOutcomes name (paths.map fun path => (path, outcome path))).runs, []⟩ := by
  rw [mk.injEq]
  refine ⟨rfl, ?_, ?_⟩
  · have injective : Function.Injective (Except.ok : Run → Except AnalysisError Run) :=
      fun _ _ => Except.ok.inj
    apply List.map_injective_iff.mpr injective
    rw [map_ok_runs, map_ok_runs, List.filter_filter]
    simp only [Bool.and_self]
  · have failing := @map_error_failures name outcome
      (paths.filter fun path => (outcome path).isOk)
    rw [List.filter_filter] at failing
    simpa using failing

theorem length_failures (paths : List Path) :
    (ofOutcomes name (paths.map fun path => (path, outcome path))).failures.length =
      (paths.filter fun path => !(outcome path).isOk).length := by
  have listed := congrArg List.length (@map_error_failures name outcome paths)
  rwa [List.length_map, List.length_map] at listed

end Dataset

/-! ## Summaries -/

namespace Summary

/-- Failures are counted in a summary and have no other say in it. -/
theorem ofDataset_of_runs_eq {dataset other : Dataset} (name : dataset.name = other.name)
    (runs : dataset.runs = other.runs) (config : Config) (metrics : List Metric) :
    ofDataset config metrics dataset = (ofDataset config metrics other).map fun summary =>
      { summary with failureCount := dataset.failures.length } := by
  simp only [ofDataset, name, runs]
  cases Representatives.select? ((rankRuns other.runs).map (·.1)) with
  | none => rfl
  | some representatives =>
      dsimp only
      cases Band.ofMedians (((rankRuns other.runs).map (·.1)).map RunRef.median) with
      | error fault => rfl
      | ok band =>
          simp only [liftFault, Except.mapError, bind, Except.bind]
          split <;> rfl

theorem liftFault_ne_emptyDataset {Value : Type} (result : Except PercentileFault Value)
    (name : String) : liftFault result ≠ .error (.emptyDataset name) := by
  cases result <;> simp [liftFault, Except.mapError]

/-- A dataset is refused as empty exactly if it has no runs. -/
theorem ofDataset_eq_emptyDataset_iff {config : Config} {metrics : List Metric}
    {dataset : Dataset} {name : String} :
    ofDataset config metrics dataset = .error (.emptyDataset name) ↔
      dataset.runs = [] ∧ name = dataset.name := by
  constructor
  · intro refused
    by_cases empty : dataset.runs = []
    · rw [ofDataset_of_empty config metrics empty] at refused
      cases refused
      exact ⟨empty, rfl⟩
    · exfalso
      rcases Representatives.select?_succeeds (rankRefs_ne_nil empty) with
        ⟨representatives, selected⟩
      -- With representatives there, only percentiles can be missing.
      simp only [ofDataset, map_fst_rankRuns, selected, bind_eq_error_iff] at refused
      rcases refused with unbounded | ⟨band, -, unreduced | ⟨reduced, -, made⟩⟩
      · exact liftFault_ne_emptyDataset _ _ unbounded
      · exact liftFault_ne_emptyDataset _ _ unreduced
      · cases made
  · rintro ⟨empty, rfl⟩
    exact ofDataset_of_empty config metrics empty

end Summary

/-! ## Loading -/

def Run.outcome (machine : Machine) (config : Config) (path : Path) : Except AnalysisError Run :=
  (machine.perform (Run.read config path)).1

namespace Dataset

def loaded (machine : Machine) (config : Config) (name : String) (paths : List Path) : Dataset :=
  ((load config name paths : StateM Machine Dataset).run machine).1

/-- A word counts the logs and the frames of each of them. -/
structure Counted (machine : Machine) (config : Config) (paths : List Path) : Prop where
  logs : paths.length ≤ 2 ^ 64
  frames : ∀ path ∈ paths, ∀ content recorded, machine.openFile path = .ok (.bytes content) →
    FrameLog.parse config.logFormat path content = .ok recorded → recorded.length ≤ 2 ^ 64

variable (machine : Machine) (config : Config) (name : String) (paths : List Path)

theorem loaded_eq : loaded machine config name paths =
    ofOutcomes name (paths.map fun path => (path, Run.outcome machine config path)) := by
  rw [loaded, run_load]
  rfl

theorem run_load_eq_loaded : (load config name paths : StateM Machine Dataset).run machine =
    (loaded machine config name paths, machine) := by
  rw [loaded, run_load]

theorem runs_loaded_eq_nil_iff : (loaded machine config name paths).runs = [] ↔
    ∀ path ∈ paths, (Run.outcome machine config path).isOk = false := by
  have given := congrArg (· = []) (@map_ok_runs name (Run.outcome machine config) paths)
  simp only [List.map_eq_nil_iff, List.filter_eq_nil_iff, Bool.not_eq_true, eq_iff_iff] at given
  rwa [loaded_eq]

variable {machine config name paths}

theorem exists_summary_loaded (counted : Counted machine config paths)
    {path : Path} (member : path ∈ paths) (read : (Run.outcome machine config path).isOk = true)
    (view : Config) {metrics : List Metric} (answer : ∀ metric ∈ metrics, metric.Answers) :
    ∃ summary, Summary.ofDataset view metrics (loaded machine config name paths) = .ok summary := by
  have logged := logged_of_load (run_load_eq_loaded machine config name paths) counted.logs
    counted.frames
  apply Summary.exists_of_recorded logged.recorded ?_ answer
  intro empty
  have failed := (runs_loaded_eq_nil_iff machine config name paths).mp empty path member
  rw [read] at failed
  cases failed

end Dataset

/-- Loading leaves the machine as it is. The runs are those of the logs that succeed and the failures
those of the logs that fail, both in the order of the logs, so that what is loaded from two lists of
logs in a row is what is loaded from one followed by what is loaded from the other. Leaving out the
logs that fail leaves out the failures and nothing else. The summary then differs in the number of
failures only, which is how many logs fail, and there is one unless all of them fail. -/
theorem failedLogs_apart (machine : Machine) (config : Config) (name : String)
    (paths : List Path) :
    let loaded := Dataset.loaded machine config name
    let outcome := Run.outcome machine config
    let succeeding := paths.filter fun path => (outcome path).isOk
    let failing := paths.filter fun path => !(outcome path).isOk
    (Dataset.load config name paths : StateM Machine Dataset).run machine =
        (loaded paths, machine) ∧
      (loaded paths).name = name ∧
      (loaded paths).runs.map .ok = succeeding.map outcome ∧
      ((loaded paths).failures.map fun failure => (failure.path, .error failure.error)) =
        (failing.map fun path => (path, outcome path)) ∧
      (∀ more, loaded (paths ++ more) =
        ⟨name, (loaded paths).runs ++ (loaded more).runs,
          (loaded paths).failures ++ (loaded more).failures⟩) ∧
      loaded succeeding = ⟨name, (loaded paths).runs, []⟩ ∧
      ∀ view metrics,
        (Summary.ofDataset view metrics (loaded paths) =
          (Summary.ofDataset view metrics (loaded succeeding)).map fun summary =>
            { summary with failureCount := failing.length }) ∧
        (Summary.ofDataset view metrics (loaded paths) = .error (.emptyDataset name) ↔
          ∀ path ∈ paths, (outcome path).isOk = false) ∧
        (Dataset.Counted machine config paths → (∀ metric ∈ metrics, metric.Answers) →
          ((∃ summary, Summary.ofDataset view metrics (loaded paths) = .ok summary) ↔
            ∃ path ∈ paths, (outcome path).isOk = true)) := by
  intro loaded outcome succeeding failing
  have made (logs : List Path) :
      loaded logs = .ofOutcomes name (logs.map fun path => (path, outcome path)) :=
    Dataset.loaded_eq machine config name logs
  have without : loaded succeeding = ⟨name, (loaded paths).runs, []⟩ := by
    rw [made, made]
    exact Dataset.ofOutcomes_of_succeeding paths
  have named : (loaded paths).name = name := by
    rw [made]
    rfl
  have empty := Dataset.runs_loaded_eq_nil_iff machine config name paths
  refine ⟨Dataset.run_load_eq_loaded machine config name paths, named, ?_, ?_, ?_, without, ?_⟩
  · rw [made]
    exact Dataset.map_ok_runs paths
  · rw [made]
    exact Dataset.map_error_failures paths
  · intro more
    rw [made, made, made, List.map_append]
    exact Dataset.ofOutcomes_append name _ _
  · intro view metrics
    refine ⟨?_, ?_, ?_⟩
    · have count : (loaded paths).failures.length = failing.length := by
        rw [made]
        exact Dataset.length_failures paths
      have sameName : (loaded paths).name = (loaded succeeding).name := by rw [without, named]
      have sameRuns : (loaded paths).runs = (loaded succeeding).runs := by rw [without]
      rw [← count]
      exact Summary.ofDataset_of_runs_eq sameName sameRuns view metrics
    · rw [Summary.ofDataset_eq_emptyDataset_iff, named, and_iff_left rfl]
      exact empty
    · intro counted answer
      constructor
      · rintro ⟨summary, summarized⟩
        by_contra! failed
        have refused := Summary.ofDataset_of_empty view metrics
          (empty.mpr fun path member => Bool.eq_false_iff.mpr (failed path member))
        rw [summarized] at refused
        cases refused
      · rintro ⟨path, member, read⟩
        exact Dataset.exists_summary_loaded counted member read view answer

/-- A log of one frame and one with a field too many. -/
def spoiledFiles : FileTree :=
  (FileTree.empty.put ["a.log"] (.file (Text.Utf8.encode "ns\n16000000\n".toList) false)).put
    ["b.log"] (.file (Text.Utf8.encode "ns\n16000000,3\n".toList) false)

/-- Between a log that is not there and one that cannot be read, a log is summarized as if it were
alone. -/
theorem failedLogs_apart_of_spoiled :
    let loaded := Dataset.loaded (Machine.start spoiledFiles []) {} "game"
    ∃ summary, Summary.ofDataset {} Metric.standard
        (loaded [⟨"c.log"⟩, ⟨"a.log"⟩, ⟨"b.log"⟩]) = .ok summary ∧
      summary.failureCount = 2 ∧
      ∃ alone, Summary.ofDataset {} Metric.standard (loaded [⟨"a.log"⟩]) = .ok alone ∧
        summary = { alone with failureCount := 2 } := by
  intro loaded
  let machine := Machine.start spoiledFiles []
  let logs : List Path := [⟨"c.log"⟩, ⟨"a.log"⟩, ⟨"b.log"⟩]
  have succeeding : (logs.filter fun path => (Run.outcome machine {} path).isOk) =
      [⟨"a.log"⟩] := by
    decide +kernel
  have failing : (logs.filter fun path => !(Run.outcome machine {} path).isOk).length = 2 := by
    decide +kernel
  have short : ∀ path ∈ logs,
      ∀ content ∈ ((machine.openFile path).bind Opened.read).toOption,
        ∀ recorded ∈ (FrameLog.parse .durations path content).toOption,
          recorded.length ≤ 2 ^ 64 := by
    decide +kernel
  have counted : Dataset.Counted machine {} logs := by
    constructor
    case logs => decide
    case frames =>
      intro path member content recorded opened accepted
      have parsed : FrameLog.parse .durations path content = .ok recorded := accepted
      apply short path member content
      · rw [opened]
        rfl
      · rw [parsed]
        rfl
  rcases failedLogs_apart machine {} "game" logs with ⟨-, -, -, -, -, -, summaries⟩
  rcases summaries {} Metric.standard with ⟨same, -, exists_iff⟩
  have someSucceeds : ∃ path ∈ logs, (Run.outcome machine {} path).isOk = true :=
    ⟨⟨"a.log"⟩, by decide, by decide +kernel⟩
  rcases (exists_iff counted Metric.answers_standard).mpr someSucceeds with ⟨summary, made⟩
  rw [succeeding, failing, made] at same
  rcases map_eq_ok_iff.mp same.symm with ⟨alone, aloneMade, rfl⟩
  exact ⟨_, made, rfl, alone, aloneMade, rfl⟩

end FrameTiming
