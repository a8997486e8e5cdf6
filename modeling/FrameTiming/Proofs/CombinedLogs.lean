import FrameTiming.Proofs.AnalyzedLogs

/-! # Logs of all groups

The picture of all datasets is drawn last, from logs that were provided while one group after the
other was analysed. They are still what they were, as long as groups keep out of each other's way.
-/

namespace FrameTiming

open Host (Location Machine FileTree)
open Host.FileTree (locationOf)
open Host.Machine (perform_andThen perform_adapt exists_of_andThen exists_of_mapM_cons)
open CommandLine (AnalyzeOptions LogGroup)
open Program (Analyzed ProgramFailure analyzeGroup)

/-! ## Groups in a row -/

section Groups

variable {options : AnalyzeOptions} {workDirectory : Path} {config : Config}
  {machine later after : Machine}

def GroupFiles (options : AnalyzeOptions) (workDirectory : Path) (working : Location)
    (groups : List LogGroup) (location : Location) : Prop :=
  ∃ group ∈ groups, GroupFile options workDirectory working group.dataset location

/-- No other groups write where a log of a group is, or where it was read from. -/
theorem GroupLog.kept {group : LogGroup} {others : List LogGroup} {log : Path} {run : Run}
    (groupLog : GroupLog workDirectory config group machine log run)
    (writes : WritesOnly (GroupFiles options workDirectory machine.working others) machine later)
    (apart : ∀ other ∈ others, Apart group.dataset other.dataset)
    (unwritten : ∀ path ∈ group.logs,
      ¬GroupFiles options workDirectory machine.working others (locationOf machine.working path)) :
    GroupLog workDirectory config group later log run := by
  rcases groupLog.read with ⟨source, inLogs, read⟩
  refine ⟨⟨source, inLogs, writes.readRun read (unwritten source inLogs)⟩,
    writes.working ▸ groupLog.place, writes.provides groupLog.provides ?_⟩
  rcases groupLog.place with ⟨path, inLogs, same⟩ | ⟨written, index, rfl⟩
  · rw [same]
    exact unwritten path inLogs
  · rintro ⟨other, inOthers, file⟩
    exact not_groupFile_exportPath (apart other inOthers) written index file

/-- The logs of all groups hold the frames of their runs when all have been analysed. -/
theorem groupLogs_of_groups {groups all : List LogGroup} {results : List Analyzed}
    (sound : machine.Sound) (subset : groups ⊆ all)
    (apart : groups.Pairwise fun first second => Apart first.dataset second.dataset)
    (unwritten : ∀ group ∈ groups, ∀ path ∈ group.logs,
      ¬GroupFiles options workDirectory machine.working groups (locationOf machine.working path))
    (careful : ∀ program, options.renderer? = some program → ∀ later,
      WritesOnly (GroupFiles options workDirectory machine.working all) machine later →
        Renderer.Careful program later)
    (performed : machine.perform (groups.mapM (analyzeGroup options config workDirectory)) =
      (.ok results, after)) :
    WritesOnly (GroupFiles options workDirectory machine.working groups) machine after ∧
      List.Forall₂ (fun group result =>
        Summary.ofDataset config Metric.standard result.dataset = .ok result.summary ∧
        List.Forall₂ (GroupLog workDirectory config group after) result.logs result.pushed)
        groups results := by
  induction groups generalizing machine results with
  | nil =>
      cases performed
      exact ⟨.refl _ _, .nil⟩
  | cons group rest induction =>
      rcases exists_of_mapM_cons performed with ⟨result, middle, others, first, following, rfl⟩
      rw [List.cons_subset] at subset
      rw [List.pairwise_cons] at apart
      rw [List.forall_mem_cons] at unwritten
      have own : ∀ location, GroupFile options workDirectory machine.working group.dataset location →
          GroupFiles options workDirectory machine.working all location :=
        fun _ file => ⟨group, subset.1, file⟩
      have ofRest : ∀ location, GroupFiles options workDirectory machine.working rest location →
          GroupFiles options workDirectory machine.working (group :: rest) location :=
        fun _ ⟨other, inRest, file⟩ => ⟨other, List.mem_cons_of_mem _ inRest, file⟩
      rcases groupLogs_of_analyzeGroup sound
        (fun path inLogs file => unwritten.1 path inLogs ⟨group, List.mem_cons_self, file⟩)
        (fun program renderer later writes => careful program renderer later (writes.mono own))
        first with ⟨headWrites, summarized, headLogs⟩
      have begun := headWrites.mono own
      rw [← headWrites.working] at unwritten careful begun ofRest
      rcases induction (headWrites.sound sound) subset.2 apart.2
        (fun other inRest path inLogs file => unwritten.2 other inRest path inLogs (ofRest _ file))
        (fun program renderer later writes => careful program renderer later (begun.trans writes))
        following with ⟨restWrites, restLogs⟩
      have kept := headLogs.imp fun log run groupLog => groupLog.kept restWrites apart.1
        fun path inLogs file => unwritten.1 path inLogs (ofRest _ file)
      rw [headWrites.working] at restWrites ofRest
      refine ⟨?_, .cons ⟨summarized, kept⟩ restLogs⟩
      exact (headWrites.mono fun _ file => ⟨group, List.mem_cons_self, file⟩).trans
        (restWrites.mono ofRest)

end Groups

/-! ## The command -/

namespace Program

section Parts

variable {m : Type → Type} [Monad m] [Host m]

def analyzeGroups (scratch : Path) (options : AnalyzeOptions) :
    ExceptT ProgramFailure m (List Analyzed) := do
  if options.groups.isEmpty then
    throw (.noDatasets "NAME LOG...")
  let config ← configFor options
  let workDirectory := options.workDirectory?.getD scratch
  prepareDirectory workDirectory .workDirectoryNotCreated
  prepareDirectory options.tableDirectory .directoryNotCreated
  let analyzed ← options.groups.mapM (analyzeGroup options config workDirectory)
  if options.format = .json then
    let document := Document.ofDatasets config.withState
      (analyzed.map fun result => (result.dataset, result.summary))
    (Host.print (document.pretty ++ "\n") : m _)
  return analyzed

def drawAll (options : AnalyzeOptions) (analyzed : List Analyzed) : ExceptT ProgramFailure m Unit :=
  match options.renderer? with
  | none => return ()
  | some program =>
      (Renderer.render program (analyzed.flatMap Analyzed.logs)
        (options.output.withExtension "png")).adapt ProgramFailure.analysis

theorem analyze_eq [LawfulMonad m] (scratch : Path) (options : AnalyzeOptions) :
    (analyze scratch options : ExceptT ProgramFailure m Unit) =
      analyzeGroups scratch options >>= drawAll options := by
  unfold analyze analyzeGroups
  by_cases none : options.groups.isEmpty = true
  · simp only [none, if_true, ExceptT.bind_throw]
  · by_cases json : options.format = .json
    · simp only [none, json, if_true, if_false, Bool.false_eq_true, bind_assoc, pure_bind]
      rfl
    · simp only [none, json, if_false, Bool.false_eq_true, bind_assoc, pure_bind]
      rfl

end Parts

variable {machine after : Machine} {scratch : Path} {options : AnalyzeOptions}
  {analyzed : List Analyzed}

theorem perform_configFor (machine : Machine) (options : AnalyzeOptions) :
    (machine.perform (configFor options)).2 = machine := by
  unfold configFor
  cases options.config? with
  | none =>
      simp only [pure_bind]
      split <;> rfl
  | some path =>
      rw [perform_andThen, perform_adapt]
      have unchanged := perform_readConfig machine path
      rcases performed : machine.perform (Config.read path) with ⟨error | base, last⟩
      all_goals
        rw [performed] at unchanged
        cases unchanged
      · rfl
      · dsimp only [Except.mapError]
        split <;> rfl

theorem exists_of_analyzeGroups
    (performed : machine.perform (analyzeGroups scratch options) = (.ok analyzed, after)) :
    ∃ config start done, machine.perform (configFor options) = (.ok config, machine) ∧
      (∀ written, WritesOnly written machine start) ∧
      start.perform (options.groups.mapM
        (analyzeGroup options config (options.workDirectory?.getD scratch))) = (.ok analyzed, done) ∧
      ∀ written, WritesOnly written done after := by
  unfold analyzeGroups at performed
  by_cases none : options.groups.isEmpty = true
  · rw [if_pos none] at performed
    cases performed
  · rw [if_neg none] at performed
    rcases exists_of_andThen performed with ⟨config, configured, configuring, performed⟩
    rcases exists_of_andThen performed with ⟨_, prepared, prepareWork, performed⟩
    rcases exists_of_andThen performed with ⟨_, start, prepareTable, performed⟩
    rcases exists_of_andThen performed with ⟨results, done, analysed, performed⟩
    have unchanged := perform_configFor machine options
    rw [configuring] at unchanged
    dsimp only at unchanged
    rw [unchanged] at configuring prepareWork
    refine ⟨config, start, done, configuring, fun written =>
      (writesOnly_of_prepareDirectory prepareWork written).trans
        (writesOnly_of_prepareDirectory prepareTable written), ?_⟩
    split_ifs at performed
    · rcases exists_of_andThen performed with ⟨_, printed, printing, returned⟩
      cases returned
      cases printing
      exact ⟨analysed, writesOnly_print done _⟩
    · cases performed
      exact ⟨analysed, fun _ => .refl _ _⟩

/-- If no group is called like another one, even with a number behind, then logs of different runs
go to different locations, and the picture of all datasets is drawn from logs that each hold the
frames of the representative run that they were provided for. -/
theorem combinedLogs_valid (machine : Machine) (scratch : Path) (options : AnalyzeOptions)
    (sound : machine.Sound)
    (apart : options.groups.Pairwise fun first second => Apart first.dataset second.dataset)
    (unwritten : ∀ group ∈ options.groups, ∀ path ∈ group.logs,
      ¬GroupFiles options (options.workDirectory?.getD scratch) machine.working options.groups
        (locationOf machine.working path))
    (careful : ∀ program, options.renderer? = some program → ∀ later,
      WritesOnly (GroupFiles options (options.workDirectory?.getD scratch) machine.working
        options.groups) machine later → Renderer.Careful program later) :
    (options.groups.Pairwise fun first second => ∀ (run other : Run) (index otherIndex : ℕ),
      locationOf machine.working
          (run.exportPath (options.workDirectory?.getD scratch) first.dataset index) ≠
        locationOf machine.working
          (other.exportPath (options.workDirectory?.getD scratch) second.dataset otherIndex)) ∧
    (∀ group ∈ options.groups, ∀ (run other : Run) (index otherIndex : ℕ), index ≠ otherIndex →
      locationOf machine.working
          (run.exportPath (options.workDirectory?.getD scratch) group.dataset index) ≠
        locationOf machine.working
          (other.exportPath (options.workDirectory?.getD scratch) group.dataset otherIndex)) ∧
    ∀ analyzed ready, machine.perform (analyzeGroups scratch options) = (.ok analyzed, ready) →
      machine.perform (analyze scratch options) = ready.perform (drawAll options analyzed) ∧
      ∃ config, machine.perform (configFor options) = (.ok config, machine) ∧
        List.Forall₂ (fun group result =>
          Summary.ofDataset config Metric.standard result.dataset = .ok result.summary ∧
          List.Forall₂ (fun log run =>
            (∃ path ∈ group.logs, (ready.perform (Run.read config path)).1 = .ok run) ∧
            ready.perform (FrameLog.read run.format log) = (.ok run.frames, ready))
            result.logs result.pushed)
          options.groups analyzed := by
  refine ⟨?_, ?_, ?_⟩
  · refine apart.imp fun {first second} apart run other index otherIndex same => ?_
    have file : GroupFile options (options.workDirectory?.getD scratch) machine.working
      second.dataset _ := .log other otherIndex
    rw [← same] at file
    exact not_groupFile_exportPath apart run index file
  · intro group _ run other index otherIndex differs same
    exact differs (index_eq_of_locationOf_eq same)
  · intro analyzed ready performed
    refine ⟨by rw [analyze_eq, perform_andThen, performed], ?_⟩
    rcases exists_of_analyzeGroups performed with
      ⟨config, start, done, configured, begun, analysed, ended⟩
    refine ⟨config, configured, ?_⟩
    have working := (begun fun _ => False).working
    rw [← working] at unwritten careful
    rcases groupLogs_of_groups ((begun fun _ => False).sound sound) (List.Subset.refl _) apart
      unwritten (fun program renderer later writes =>
        careful program renderer later ((begun _).trans writes)) analysed with ⟨-, logs⟩
    refine logs.imp fun group result ⟨summarized, provided⟩ => ⟨summarized, ?_⟩
    refine provided.imp fun log run groupLog => ⟨?_, ?_⟩
    · rcases groupLog.read with ⟨path, inLogs, read⟩
      exact ⟨path, inLogs, (ended fun _ => False).readRun read id⟩
    · exact ((ended fun _ => False).provides groupLog.provides id).perform

end Program

/-! ## Two groups -/

/-- A renderer that puts its inputs one behind the other. -/
def collage : List UInt8 :=
  Text.Utf8.encode "#!/bin/sh\ncat \"$@\" > \"$OUTFILE\"\n".toList

/-- Two logs of one name, a shell and a renderer. -/
def studio : FileTree :=
  ((twinFiles.put ["bin"] .directory).put ["bin", "sh"] (.file [] true)).put ["draw.sh"]
    (.file collage true)

theorem sound_studio : studio.Sound := by
  change (FileTree.put _ ([] ++ ["draw.sh"]) _).Sound
  refine .put ?_ rfl (by decide) (.inl (by decide))
  change (FileTree.put _ (["bin"] ++ ["sh"]) _).Sound
  refine .put ?_ rfl (by decide) (.inl (by decide))
  change (FileTree.put _ ([] ++ ["bin"]) _).Sound
  exact .put sound_twinFiles rfl (by decide) (.inr rfl)

theorem scriptAt_studio : Renderer.ScriptAt (Machine.start studio []) ⟨"./draw.sh"⟩ collage where
  slash := by decide
  noOption := by decide
  found := by decide +kernel
  ordinary := by decide +kernel
  interpreter := by decide +kernel
  shell := ⟨[], by decide +kernel⟩

/-- Whatever groups are analysed, the renderer goes on drawing its picture and nothing else. -/
theorem careful_studio {options : AnalyzeOptions} {workDirectory : Path} {groups : List LogGroup}
    {later : Machine} (writes : WritesOnly (GroupFiles options workDirectory [] groups)
      (Machine.start studio []) later) : Renderer.Careful ⟨"./draw.sh"⟩ later := by
  have unwritten : ∀ (place : Location) (name : String), '_' ∉ name.toList →
      ¬GroupFiles options workDirectory [] groups (place ++ [name]) :=
    fun place name plain ⟨group, _, file⟩ => not_groupFile_of_plain plain file
  have script := scriptAt_studio.kept writes (unwritten [] "draw.sh" (by decide))
    (unwritten ["bin"] "sh" (by decide))
  exact script.careful (by decide +kernel)

/-- Both logs without their first second, each in a group of its own. -/
def comparison (first second : String) : AnalyzeOptions where
  groups := [⟨first, [⟨"a/r/run.log"⟩]⟩, ⟨second, [⟨"b/r/run.log"⟩]⟩]
  output := ⟨"combined.png"⟩
  config? := none
  withState := false
  targetRate? := none
  dropFront? := some 1
  durationCap? := none
  stateFilter? := none
  allRuns := false
  format := .text
  tableDirectory := ⟨"."⟩
  workDirectory? := some ⟨"out"⟩
  renderer? := some ⟨"./draw.sh"⟩
  verbose := false
  debug := false

/-- The logs that a comparison hands to its last picture, with the formats and the frames of the runs
that they were provided for. -/
def handedOver (first second : String) :
    Option (List (List Path × List (LogFormat × List Frame))) :=
  let outcome := (Machine.start studio []).perform
    (Program.analyzeGroups ⟨"scratch"⟩ (comparison first second))
  outcome.1.toOption.map fun analyzed => analyzed.map fun result =>
    (result.logs, result.pushed.map fun run => (run.format, run.frames))

namespace Program

theorem combinedLogs_valid_of_distinct :
    let ready := ((Machine.start studio []).perform
      (analyzeGroups ⟨"scratch"⟩ (comparison "base" "new"))).2
    (ready.perform (FrameLog.read .durations ⟨"out/base_0_r_run.log"⟩)).1 =
        .ok [⟨600000000, none⟩] ∧
      (ready.perform (FrameLog.read .durations ⟨"out/new_0_r_run.log"⟩)).1 =
        .ok [⟨700000000, none⟩] := by
  intro ready
  have unwritten : ∀ group ∈ (comparison "base" "new").groups, ∀ path ∈ group.logs,
      ¬GroupFiles (comparison "base" "new") ⟨"out"⟩ [] (comparison "base" "new").groups
        (locationOf [] path) := by
    have named : ∀ group ∈ (comparison "base" "new").groups, ∀ path ∈ group.logs,
        (locationOf [] path) = (locationOf [] path).dropLast ++ ["run.log"] := by
      decide +kernel
    intro group inGroups path inLogs ⟨other, _, file⟩
    rw [named group inGroups path inLogs] at file
    exact not_groupFile_of_plain (by decide) file
  have valid := combinedLogs_valid (Machine.start studio []) ⟨"scratch"⟩ (comparison "base" "new")
    ⟨sound_studio, rfl⟩ (by decide) unwritten fun program renderer later writes => by
      cases renderer
      exact careful_studio writes
  have handed : handedOver "base" "new" = some [
      ([⟨"out/base_0_r_run.log"⟩], [(.durations, [⟨600000000, none⟩])]),
      ([⟨"out/new_0_r_run.log"⟩], [(.durations, [⟨700000000, none⟩])])] := by
    decide +kernel
  rcases performed : (Machine.start studio []).perform
    (analyzeGroups ⟨"scratch"⟩ (comparison "base" "new")) with ⟨error | analyzed, last⟩
  · simp [handedOver, performed, Except.toOption] at handed
  · have same : last = ready := (congrArg Prod.snd performed).symm
    rcases valid.2.2 analyzed last performed with ⟨-, config, -, reads⟩
    have entries : List.Forall₂
        (fun (_ : LogGroup) (entry : List Path × List (LogFormat × List Frame)) =>
          List.Forall₂ (fun (log : Path) (run : LogFormat × List Frame) =>
            last.perform (FrameLog.read run.1 log) = (.ok run.2, last)) entry.1 entry.2)
        (comparison "base" "new").groups (analyzed.map fun result =>
          (result.logs, result.pushed.map fun run => (run.format, run.frames))) := by
      refine List.forall₂_map_right_iff.mpr (reads.imp fun group result valid => ?_)
      exact List.forall₂_map_right_iff.mpr (valid.2.imp fun log run read => read.2)
    simp only [handedOver, performed, Except.toOption, Option.map_some, Option.some.injEq] at handed
    rw [handed, same] at entries
    simp only [comparison, List.forall₂_cons, List.forall₂_nil_left_iff, and_true] at entries
    exact ⟨congrArg Prod.fst entries.1, congrArg Prod.fst entries.2⟩

/-- Two groups of one name share the place of a log. The picture shows one run twice, and the other
one not at all. -/
theorem combinedLogs_overwritten :
    let ready := ((Machine.start studio []).perform
      (analyzeGroups ⟨"scratch"⟩ (comparison "base" "base"))).2
    handedOver "base" "base" = some [
        ([⟨"out/base_0_r_run.log"⟩], [(.durations, [⟨600000000, none⟩])]),
        ([⟨"out/base_0_r_run.log"⟩], [(.durations, [⟨700000000, none⟩])])] ∧
      (ready.perform (FrameLog.read .durations ⟨"out/base_0_r_run.log"⟩)).1 =
        .ok [⟨700000000, none⟩] ∧
      ((Machine.start studio []).perform
        (analyze ⟨"scratch"⟩ (comparison "base" "base"))).2.openFile ⟨"combined.png"⟩ =
          .ok (.bytes (Text.Utf8.encode
            "frame_time_ns\n700000000\nframe_time_ns\n700000000\n".toList)) := by
  decide +kernel

end Program

end FrameTiming
