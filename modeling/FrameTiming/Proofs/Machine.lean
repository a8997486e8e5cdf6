import FrameTiming.Dataset
import FrameTiming.Host.Simulation
import FrameTiming.Proofs.FileTree

/-! # Computations on a machine

What reading and writing logs does to a machine, in terms of its file tree.
-/

namespace FrameTiming

open Host (Location Machine FileTree changing)
open Host.FileTree (locationOf)

/-! ## Steps -/

namespace Host.Machine

variable {Service Error Value Result : Type}

theorem perform_bind (machine : Machine) (service : StateM Machine Service)
    (next : Service → ExceptT Error (StateM Machine) Value) :
    machine.perform (do next (← (service : StateM Machine Service))) =
      (service.run machine).2.perform (next (service.run machine).1) :=
  rfl

theorem perform_lift (machine : Machine) (outcome : Except Error Value) :
    machine.perform (liftM outcome : ExceptT Error (StateM Machine) Value) =
      (outcome, machine) := by
  cases outcome <;> rfl

theorem perform_andThen (machine : Machine) (first : ExceptT Error (StateM Machine) Value)
    (next : Value → ExceptT Error (StateM Machine) Result) :
    machine.perform (first >>= next) =
      match machine.perform first with
      | (.ok value, after) => after.perform (next value)
      | (.error error, after) => (.error error, after) := by
  change StateT.run (ExceptT.bindCont next (machine.perform first).1) (machine.perform first).2 = _
  rcases machine.perform first with ⟨error | value, after⟩
  · rfl
  · rfl

variable {machine after : Machine} {result : Result}

/-- A computation that succeeds has succeeded in its first part. -/
theorem exists_of_andThen {first : ExceptT Error (StateM Machine) Value}
    {next : Value → ExceptT Error (StateM Machine) Result}
    (performed : machine.perform (first >>= next) = (.ok result, after)) :
    ∃ value middle, machine.perform first = (.ok value, middle) ∧
      middle.perform (next value) = (.ok result, after) := by
  rw [perform_andThen] at performed
  rcases perform : machine.perform first with ⟨error | value, middle⟩
  · rw [perform] at performed
    cases performed
  · rw [perform] at performed
    exact ⟨value, middle, rfl, performed⟩

/-- Steps over a list succeed one after the other. -/
theorem exists_of_mapM_cons {step : Value → ExceptT Error (StateM Machine) Result} {first : Value}
    {rest : List Value} {results : List Result}
    (performed : machine.perform ((first :: rest).mapM step) = (.ok results, after)) :
    ∃ result middle others, machine.perform (step first) = (.ok result, middle) ∧
      middle.perform (rest.mapM step) = (.ok others, after) ∧ results = result :: others := by
  rw [List.mapM_cons] at performed
  rcases exists_of_andThen performed with ⟨result, middle, head, performed⟩
  rcases exists_of_andThen performed with ⟨others, last, tail, made⟩
  cases made
  exact ⟨result, middle, others, head, tail, rfl⟩

theorem perform_adapt {Other : Type} (machine : Machine)
    (computation : ExceptT Error (StateM Machine) Result) (change : Error → Other) :
    machine.perform (computation.adapt change) =
      ((machine.perform computation).1.mapError change, (machine.perform computation).2) :=
  rfl

theorem perform_of_adapt {Other : Type} {computation : ExceptT Error (StateM Machine) Result}
    {change : Error → Other}
    (performed : machine.perform (computation.adapt change) = (.ok result, after)) :
    machine.perform computation = (.ok result, after) := by
  rw [perform_adapt] at performed
  rcases perform : machine.perform computation with ⟨error | value, last⟩
  · rw [perform] at performed
    cases performed
  · rw [perform] at performed
    cases performed
    rfl

theorem run_openFile (machine : Machine) (path : Path) :
    (Host.openFile path : StateM Machine _).run machine = (machine.openFile path, machine) :=
  rfl

theorem run_canonicalPath (machine : Machine) (path : Path) :
    (Host.canonicalPath path : StateM Machine _).run machine =
      (machine.files.canonicalPath machine.working path, machine) :=
  rfl

theorem run_makeDirectories (machine : Machine) (path : Path) :
    (Host.makeDirectories path : StateM Machine _).run machine =
      changing (·.change fun files working => files.makeDirectories working path) machine :=
  rfl

theorem run_writeFile (machine : Machine) (path : Path) (text : String) :
    (Host.writeFile path text : StateM Machine _).run machine =
      changing (·.writeFile path text) machine :=
  rfl

theorem change_eq_ok_iff {machine after : Machine}
    {operation : FileTree → Location → Except HostError FileTree} :
    machine.change operation = .ok after ↔
      ∃ files, operation machine.files machine.working = .ok files ∧
        after = { machine with files } :=
  map_eq_ok_iff

end Host.Machine

open Host.Machine

variable {machine after : Machine} {path : Path}

/-! ## Reading -/

theorem perform_readLog (machine : Machine) (format : LogFormat) (path : Path) :
    machine.perform (FrameLog.read format path) =
      ((match machine.openFile path with
        | .error error => .error (AnalysisError.host path error)
        | .ok .directory => .error (.table path (.host .isDirectory))
        | .ok (.bytes content) => FrameLog.parse format path content), machine) := by
  rw [FrameLog.read, perform_bind, run_openFile]
  rcases machine.openFile path with error | (content | _)
  · rfl
  · exact perform_lift _ _
  · rfl

theorem perform_readLog_of_openFile {format : LogFormat} {content : List UInt8}
    (opened : machine.openFile path = .ok (.bytes content)) :
    machine.perform (FrameLog.read format path) =
      (FrameLog.parse format path content, machine) := by
  rw [perform_readLog, opened]

theorem perform_readRun (machine : Machine) (config : Config) (path : Path) :
    machine.perform (Run.read config path) =
      ((match (machine.perform (FrameLog.read config.logFormat path)).1 with
        | .error error => .error error
        | .ok recorded =>
            match machine.files.canonicalPath machine.working path with
            | .error error => .error (.host path error)
            | .ok source => Run.ofFrames config (Run.nameOf source) source recorded), machine) := by
  rw [Run.read, perform_andThen, perform_readLog]
  dsimp only
  split
  · rename_i recorded after read
    rcases Prod.mk.inj read with ⟨outcome, rfl⟩
    rw [outcome, perform_bind, run_canonicalPath]
    rcases machine.files.canonicalPath machine.working path with error | source
    · rfl
    · exact perform_lift _ _
  · rename_i error after read
    rcases Prod.mk.inj read with ⟨outcome, rfl⟩
    rw [outcome]

/-- A run is read from the content of a file and remembers its canonical path. -/
theorem readRun_eq_ok {config : Config} {run : Run}
    (read : (machine.perform (Run.read config path)).1 = .ok run) :
    ∃ content recorded source, machine.openFile path = .ok (.bytes content) ∧
      FrameLog.parse config.logFormat path content = .ok recorded ∧
      machine.files.canonicalPath machine.working path = .ok source ∧
      Run.ofFrames config (Run.nameOf source) source recorded = .ok run := by
  rw [perform_readRun, perform_readLog] at read
  rcases opened : machine.openFile path with error | (content | _)
  · simp [opened] at read
  · simp only [opened] at read
    cases parsed : FrameLog.parse config.logFormat path content with
    | error error => simp [parsed] at read
    | ok recorded =>
        simp only [parsed] at read
        cases canonical : machine.files.canonicalPath machine.working path with
        | error error => simp [canonical] at read
        | ok source =>
            simp only [canonical] at read
            exact ⟨content, recorded, source, rfl, parsed, rfl, read⟩
  · simp [opened] at read

/-- Loading a dataset reads its runs one by one and changes nothing. -/
theorem run_load (machine : Machine) (config : Config) (name : String) (paths : List Path) :
    (Dataset.load config name paths : StateM Machine Dataset).run machine =
      (Dataset.ofOutcomes name
        (paths.map fun path => (path, (machine.perform (Run.read config path)).1)), machine) := by
  have outcomes : (paths.mapM fun path => do
      let outcome ← (Run.read config path).run
      return (path, outcome) : StateM Machine _).run machine =
        (paths.map fun path => (path, (machine.perform (Run.read config path)).1), machine) := by
    induction paths with
    | nil => rfl
    | cons path rest induction =>
        have unchanged : (machine.perform (Run.read config path)).2 = machine := by
          rw [perform_readRun]
        rw [List.mapM_cons]
        change (let first := machine.perform (Run.read config path)
          let others := (rest.mapM fun path => do
            let outcome ← (Run.read config path).run
            return (path, outcome) : StateM Machine _).run first.2
          ((path, first.1) :: others.1, others.2)) = _
        dsimp only
        rw [unchanged, induction, List.map_cons]
  rw [Dataset.load, StateT.run_bind, outcomes]
  rfl

theorem read_of_mem_load {config : Config} {name : String} {paths : List Path} {run : Run}
    {dataset : Dataset}
    (loaded : (Dataset.load config name paths : StateM Machine Dataset).run machine =
      (dataset, after)) (member : run ∈ dataset.runs) :
    ∃ path ∈ paths, (machine.perform (Run.read config path)).1 = .ok run := by
  rw [run_load] at loaded
  rcases Prod.mk.inj loaded with ⟨rfl, -⟩
  rw [Dataset.ofOutcomes, List.mem_filterMap] at member
  rcases member with ⟨⟨path, outcome⟩, listed, success⟩
  rcases List.mem_map.mp listed with ⟨read, inPaths, same⟩
  rcases Prod.mk.inj same with ⟨rfl, rfl⟩
  refine ⟨read, inPaths, ?_⟩
  cases outcome : (machine.perform (Run.read config read)).1 with
  | error error => simp [outcome, Except.toOption] at success
  | ok found =>
      rw [outcome] at success
      exact congrArg Except.ok (Option.some.inj success)

/-- Reading a configuration changes nothing. -/
theorem perform_readConfig (machine : Machine) (path : Path) :
    (machine.perform (Config.read path)).2 = machine := by
  rw [Config.read, perform_bind, run_openFile]
  cases (machine.openFile path).bind Opened.read with
  | error error => rfl
  | ok bytes =>
      cases decoded : Text.Utf8.decode? bytes with
      | none =>
          simp only [decoded]
          rfl
      | some text =>
          simp only [decoded]
          cases Config.parse? text with
          | none => rfl
          | some config =>
              dsimp only
              rw [perform_andThen, perform_lift]
              cases config.validate <;> rfl

/-! ## Writing -/

theorem perform_save (machine : Machine) (format : LogFormat) (frames : List Frame)
    (directory : Path) (name : String) :
    machine.perform (FrameLog.save format frames directory name) =
      match machine.change fun files working => files.makeDirectories working directory with
      | .error error => (.error (AnalysisError.host directory error), machine)
      | .ok prepared =>
          match prepared.writeFile (directory.join ⟨name⟩) (FrameLog.text format frames) with
          | .error error => (.error (.table (directory.join ⟨name⟩) (.host error)), prepared)
          | .ok after => (.ok (directory.join ⟨name⟩), after) := by
  rw [FrameLog.save, perform_bind, run_makeDirectories, changing]
  rcases machine.change fun files working => files.makeDirectories working directory with
    error | prepared
  · rfl
  · dsimp only
    rw [perform_bind, run_writeFile, changing]
    rcases prepared.writeFile (directory.join ⟨name⟩) (FrameLog.text format frames) with
      error | after
    · rfl
    · rfl

end FrameTiming
