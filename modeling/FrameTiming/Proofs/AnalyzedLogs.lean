import FrameTiming.Proofs.GroupFiles
import FrameTiming.Proofs.Ranking
import FrameTiming.Proofs.RendererScript

/-! # Logs of a group

The analysis of a group leaves two logs at most for the picture of all datasets. They hold the frames
of their runs, and no log of the group has been changed on the way.
-/

namespace FrameTiming

open Host (Location Machine FileTree)
open Host.FileTree (locationOf)
open Host.Machine (perform_bind perform_lift perform_of_adapt exists_of_andThen)
open CommandLine (AnalyzeOptions LogGroup)

/-! ## One log -/

section Log

variable {machine after : Machine} {run : Run} {directory log path : Path} {group : String}
  {index : ℕ} {config : Config}

/-- A run that lost no frames has its source in the place of the log that it was read from. -/
theorem locationOf_source_of_read (sound : machine.files.Sound)
    (read : (machine.perform (Run.read config path)).1 = .ok run) :
    locationOf machine.working run.source = locationOf machine.working path := by
  rcases readRun_eq_ok read with ⟨content, recorded, source, -, -, canonical, analysed⟩
  rcases Run.ofFrames_eq_ok_iff.mp analysed with ⟨stats, -, rfl⟩
  exact (FileTree.eq_locationOf_of_locate
    (sound.locate_of_canonicalPath canonical machine.working)).symm

theorem provides_of_provideLog
    (performed : machine.perform (run.provideLog directory group index) = (.ok log, after))
    (exported : ∀ log, FrameLog.parse run.format log run.exported = .ok run.frames)
    (source : run.trimmed = false → machine.Provides run run.source) :
    after.Provides run log ∧
      log = if run.trimmed then run.exportPath directory group index else run.source := by
  have step := provideStep_of_perform performed
  generalize outcome : Except.ok log = result at step
  cases step with
  | source whole =>
      cases outcome
      exact ⟨source whole, by simp [whole]⟩
  | failed => cases outcome
  | written trimmed working grows write =>
      cases outcome
      refine ⟨⟨run.exported, ?_, exported _⟩, by simp [trimmed]⟩
      rw [Machine.openFile, working]
      exact FileTree.openFile_of_writeFile write

end Log

/-! ## One group -/

namespace Program

/-- The runs whose logs a dataset adds to the picture of all datasets. -/
def Analyzed.pushed (result : Analyzed) : List Run :=
  let representatives := result.summary.representatives
  runsAt result.dataset.runs (if representatives.median.index = representatives.low.index
    then [representatives.low] else [representatives.low, representatives.median])

end Program

open Program (Analyzed ProgramFailure present representativeRuns pictureDirectory analyzeGroup)

section Group

variable {options : AnalyzeOptions} {workDirectory : Path} {dataset : Dataset} {summary : Summary}
  {machine after : Machine} {logs : List Path}

theorem representativeRuns_eq_ok {low median high : Run}
    (found : representativeRuns dataset summary = .ok (low, median, high)) :
    dataset.runs[summary.representatives.low.index]? = some low ∧
      dataset.runs[summary.representatives.median.index]? = some median := by
  unfold representativeRuns at found
  dsimp only at found
  split at found
  · rename_i lowFound medianFound highFound
    cases found
    exact ⟨lowFound, medianFound⟩
  · cases found

theorem exists_of_present
    (performed : machine.perform (present options workDirectory dataset summary) =
      (.ok logs, after)) :
    ∃ low median high saved lowLog lowDone medianLog medianDone,
      representativeRuns dataset summary = .ok (low, median, high) ∧
      machine.perform (Table.save (options.tableDirectory.join ⟨dataset.name ++ "_fps.csv"⟩)
        FpsRow.columns ((FpsRow.ofSeries low.fps median.fps high.fps).map FpsRow.fields)) =
          (.ok (), saved) ∧
      saved.perform (low.provideLog workDirectory dataset.name summary.representatives.low.index) =
        (.ok lowLog, lowDone) ∧
      lowDone.perform (median.provideLog workDirectory dataset.name
        summary.representatives.median.index) = (.ok medianLog, medianDone) ∧
      (match options.renderer? with
        | none => after = medianDone
        | some program => medianDone.perform (Renderer.render program [lowLog, medianLog]
            ((pictureDirectory options.output).join ⟨dataset.name ++ "_frametimes.png"⟩)) =
              (.ok (), after)) ∧
      logs = if summary.representatives.median.index = summary.representatives.low.index
        then [lowLog] else [lowLog, medianLog] := by
  unfold present at performed
  rcases exists_of_andThen performed with ⟨⟨low, median, high⟩, start, lifted, performed⟩
  rw [perform_lift] at lifted
  rcases Prod.mk.inj lifted with ⟨found, rfl⟩
  rcases exists_of_andThen performed with ⟨_, saved, save, performed⟩
  rcases exists_of_andThen performed with ⟨lowLog, lowDone, provideLow, performed⟩
  rcases exists_of_andThen performed with ⟨medianLog, medianDone, provideMedian, performed⟩
  refine ⟨low, median, high, saved, lowLog, lowDone, medianLog, medianDone, found, save, provideLow,
    provideMedian, ?_⟩
  cases renderer : options.renderer? with
  | none =>
      rw [renderer] at performed
      rcases Prod.mk.inj performed with ⟨made, same⟩
      exact ⟨same.symm, (Except.ok.inj made).symm⟩
  | some program =>
      rw [renderer] at performed
      rcases exists_of_andThen performed with ⟨_, last, rendered, returned⟩
      rcases Prod.mk.inj returned with ⟨made, rfl⟩
      exact ⟨rendered, (Except.ok.inj made).symm⟩

/-- Where a log for the common picture is: in the place of one that was given, or among those that
are written for runs of the group. -/
def ProvidedAt (workDirectory : Path) (working : Location) (group : String) (given : List Path)
    (log : Path) : Prop :=
  (∃ path ∈ given, locationOf working log = locationOf working path) ∨
    ∃ run index, log = Run.exportPath run workDirectory group index

/-- The runs of a dataset that was read on a machine from logs which no file of the group replaces. -/
structure ReadFrom (options : AnalyzeOptions) (workDirectory : Path) (machine : Machine)
    (given : List Path) (dataset : Dataset) : Prop where
  sound : machine.Sound
  read : ∀ run ∈ dataset.runs, ∃ config, ∃ path ∈ given,
    (machine.perform (Run.read config path)).1 = .ok run
  unwritten : ∀ path ∈ given, ¬GroupFile options workDirectory machine.working dataset.name
    (locationOf machine.working path)

namespace ReadFrom

variable {given : List Path} (readFrom : ReadFrom options workDirectory machine given dataset)
  {run : Run} (member : run ∈ dataset.runs)
include readFrom member

theorem exported (log : Path) : FrameLog.parse run.format log run.exported = .ok run.frames := by
  rcases readFrom.read run member with ⟨config, path, -, read⟩
  exact parse_exported_of_read read log

theorem source_place :
    ∃ path ∈ given, locationOf machine.working run.source = locationOf machine.working path := by
  rcases readFrom.read run member with ⟨config, path, inGiven, read⟩
  exact ⟨path, inGiven, locationOf_source_of_read readFrom.sound.files read⟩

theorem not_groupFile_source : ¬GroupFile options workDirectory machine.working dataset.name
    (locationOf machine.working run.source) := by
  rcases readFrom.source_place member with ⟨path, inGiven, same⟩
  rw [same]
  exact readFrom.unwritten path inGiven

theorem provides_source (whole : run.trimmed = false) {later : Machine}
    (writes : WritesOnly (GroupFile options workDirectory machine.working dataset.name) machine
      later) : later.Provides run run.source := by
  rcases readFrom.read run member with ⟨config, path, -, read⟩
  exact writes.provides (source_of_read readFrom.sound.files read whole)
    (readFrom.not_groupFile_source member)

theorem providedAt {log : Path} {index : ℕ} (provided : log =
      if run.trimmed then run.exportPath workDirectory dataset.name index else run.source) :
    ProvidedAt workDirectory machine.working dataset.name given log := by
  rw [provided]
  split_ifs
  · exact .inr ⟨run, index, rfl⟩
  · exact .inl (readFrom.source_place member)

end ReadFrom

/-- Logs of two runs that are provided one after the other hold the frames of either. -/
theorem ReadFrom.provides_of_both {given : List Path}
    (readFrom : ReadFrom options workDirectory machine given dataset) {run other : Run}
    {index otherIndex : ℕ} {log otherLog : Path} {start middle last : Machine}
    (found : dataset.runs[index]? = some run) (otherFound : dataset.runs[otherIndex]? = some other)
    (begun : WritesOnly (GroupFile options workDirectory machine.working dataset.name) machine start)
    (provided : start.perform (run.provideLog workDirectory dataset.name index) = (.ok log, middle))
    (otherProvided : middle.perform (other.provideLog workDirectory dataset.name otherIndex) =
      (.ok otherLog, last)) :
    WritesOnly (GroupFile options workDirectory machine.working dataset.name) machine last ∧
      (last.Provides run log ∧ ProvidedAt workDirectory machine.working dataset.name given log) ∧
      (last.Provides other otherLog ∧
        ProvidedAt workDirectory machine.working dataset.name given otherLog) := by
  have member := List.mem_of_getElem? found
  have otherMember := List.mem_of_getElem? otherFound
  have writes := writesOnly_of_provideLog provided
  rw [begun.working] at writes
  have untilMiddle := begun.trans (writes.mono (by rintro _ rfl; exact .log run _))
  have otherWrites := writesOnly_of_provideLog otherProvided
  rw [untilMiddle.working] at otherWrites
  have untilLast := untilMiddle.trans (otherWrites.mono (by rintro _ rfl; exact .log other _))
  rcases provides_of_provideLog provided (readFrom.exported member)
    fun whole => readFrom.provides_source member whole begun with ⟨provides, path⟩
  rcases provides_of_provideLog otherProvided (readFrom.exported otherMember)
    fun whole => readFrom.provides_source otherMember whole untilMiddle with
    ⟨otherProvides, otherPath⟩
  refine ⟨untilLast, ⟨?_, readFrom.providedAt member path⟩, otherProvides,
    readFrom.providedAt otherMember otherPath⟩
  by_cases same : index = otherIndex
  · -- The second log is the first one, written once more.
    subst same
    rw [found, Option.some.injEq] at otherFound
    rwa [path, otherFound, ← otherPath]
  · apply otherWrites.provides provides
    rw [untilMiddle.working, path]
    intro overwritten
    split_ifs at overwritten
    · exact same (index_eq_of_locationOf_eq overwritten)
    · apply readFrom.not_groupFile_source member
      rw [overwritten]
      exact .log other _

/-- The logs of a dataset hold the frames of their runs when its picture has been drawn. -/
theorem provides_of_present {given : List Path} {start : Machine}
    (readFrom : ReadFrom options workDirectory machine given dataset)
    (begun : WritesOnly (GroupFile options workDirectory machine.working dataset.name) machine start)
    (careful : ∀ program, options.renderer? = some program → ∀ later,
      WritesOnly (GroupFile options workDirectory machine.working dataset.name) machine later →
        Renderer.Careful program later)
    (performed : start.perform (present options workDirectory dataset summary) =
      (.ok logs, after)) :
    WritesOnly (GroupFile options workDirectory machine.working dataset.name) machine after ∧
      List.Forall₂ (fun log run => run ∈ dataset.runs ∧ after.Provides run log ∧
        ProvidedAt workDirectory machine.working dataset.name given log) logs
        (Analyzed.pushed ⟨dataset, summary, logs⟩) := by
  rcases exists_of_present performed with ⟨low, median, high, saved, lowLog, lowDone, medianLog,
    medianDone, found, save, provideLow, provideMedian, rendered, made⟩
  rcases representativeRuns_eq_ok found with ⟨lowFound, medianFound⟩
  have tableWrites := writesOnly_of_saveTable save
  rw [begun.working] at tableWrites
  have untilTable := begun.trans (tableWrites.mono (by rintro _ rfl; exact .table))
  rcases readFrom.provides_of_both lowFound medianFound untilTable provideLow provideMedian with
    ⟨untilMedian, lowProvided, medianProvided⟩
  have drawn : WritesOnly (· = locationOf machine.working ((pictureDirectory options.output).join
      ⟨dataset.name ++ "_frametimes.png"⟩)) medianDone after := by
    cases renderer : options.renderer? with
    | none =>
        rw [renderer] at rendered
        rw [rendered]
        exact .refl _ medianDone
    | some program =>
        rw [renderer] at rendered
        have writes := (careful program renderer medianDone untilMedian).writesOnly rendered
        rwa [untilMedian.working] at writes
  have kept : ∀ log run, medianDone.Provides run log ∧
      ProvidedAt workDirectory machine.working dataset.name given log →
      after.Provides run log ∧ ProvidedAt workDirectory machine.working dataset.name given log := by
    rintro log run ⟨provides, place⟩
    refine ⟨drawn.provides provides ?_, place⟩
    rw [untilMedian.working]
    rcases place with ⟨path, inGiven, same⟩ | ⟨other, index, rfl⟩
    · rw [same]
      intro picture
      apply readFrom.unwritten path inGiven
      rw [picture]
      exact .picture
    · exact locationOf_exportPath_ne_own (by decide) rfl (by decide) other index
  refine ⟨untilMedian.trans (drawn.mono (by rintro _ rfl; exact .picture)), ?_⟩
  have lowEntry := And.intro (List.mem_of_getElem? lowFound) (kept lowLog low lowProvided)
  have medianEntry := And.intro (List.mem_of_getElem? medianFound)
    (kept medianLog median medianProvided)
  rw [Analyzed.pushed, made]
  dsimp only
  split_ifs
  · simp [runsAt, lowFound, lowEntry]
  · simp [runsAt, lowFound, medianFound, lowEntry, medianEntry]

theorem exists_of_analyzeGroup {config : Config} {group : LogGroup} {result : Analyzed}
    (performed : machine.perform (analyzeGroup options config workDirectory group) =
      (.ok result, after)) :
    (Dataset.load config group.dataset group.logs : StateM Machine Dataset).run machine =
        (result.dataset, machine) ∧
      Summary.ofDataset config Metric.standard result.dataset = .ok result.summary ∧
      ∃ start done, (∀ written, WritesOnly written machine start) ∧
        start.perform (present options workDirectory result.dataset result.summary) =
          (.ok result.logs, done) ∧
        ∀ written, WritesOnly written done after := by
  rw [analyzeGroup, perform_bind, run_load] at performed
  generalize loaded : Dataset.ofOutcomes group.dataset (group.logs.map fun path =>
    (path, (machine.perform (Run.read config path)).1)) = dataset at performed
  dsimp only at performed
  rcases exists_of_printing performed with ⟨start, quiet, performed⟩
  cases summarized : Summary.ofDataset config Metric.standard dataset with
  | error error =>
      rw [summarized] at performed
      cases performed
  | ok summary =>
      rw [summarized] at performed
      rcases exists_of_andThen performed with ⟨logs, done, adapted, performed⟩
      rcases exists_of_printing performed with ⟨last, alsoQuiet, returned⟩
      cases returned
      refine ⟨?_, summarized, start, done, quiet, perform_of_adapt adapted, alsoQuiet⟩
      rw [run_load, loaded]

/-- A log that a group adds to the picture of all datasets, and its run. -/
structure GroupLog (workDirectory : Path) (config : Config) (group : LogGroup) (machine : Machine)
    (log : Path) (run : Run) : Prop where
  read : ∃ path ∈ group.logs, (machine.perform (Run.read config path)).1 = .ok run
  place : ProvidedAt workDirectory machine.working group.dataset group.logs log
  provides : machine.Provides run log

/-- The logs of a group hold the frames of their runs when it has been analysed. -/
theorem groupLogs_of_analyzeGroup {config : Config} {group : LogGroup} {result : Analyzed}
    (sound : machine.Sound)
    (unwritten : ∀ path ∈ group.logs, ¬GroupFile options workDirectory machine.working group.dataset
      (locationOf machine.working path))
    (careful : ∀ program, options.renderer? = some program → ∀ later,
      WritesOnly (GroupFile options workDirectory machine.working group.dataset) machine later →
        Renderer.Careful program later)
    (performed : machine.perform (analyzeGroup options config workDirectory group) =
      (.ok result, after)) :
    WritesOnly (GroupFile options workDirectory machine.working group.dataset) machine after ∧
      Summary.ofDataset config Metric.standard result.dataset = .ok result.summary ∧
      List.Forall₂ (GroupLog workDirectory config group after) result.logs result.pushed := by
  rcases exists_of_analyzeGroup performed with
    ⟨loaded, summarized, start, done, quiet, presented, alsoQuiet⟩
  have named : result.dataset.name = group.dataset := by
    rw [run_load] at loaded
    rw [← (Prod.mk.inj loaded).1]
    rfl
  rw [← named] at unwritten careful
  have readFrom : ReadFrom options workDirectory machine group.logs result.dataset := by
    refine ⟨sound, ?_, unwritten⟩
    intro run member
    rcases read_of_mem_load loaded member with ⟨path, inLogs, read⟩
    exact ⟨config, path, inLogs, read⟩
  rcases provides_of_present readFrom (quiet _) careful presented with ⟨writes, provided⟩
  have whole := writes.trans (alsoQuiet _)
  rw [named] at whole provided unwritten
  refine ⟨whole, summarized, provided.imp ?_⟩
  rintro log run ⟨member, provides, place⟩
  rcases read_of_mem_load loaded member with ⟨path, inLogs, read⟩
  rw [← whole.working] at place
  exact ⟨⟨path, inLogs, whole.readRun read (unwritten path inLogs)⟩, place,
    (alsoQuiet fun _ => False).provides provides id⟩

end Group

end FrameTiming
