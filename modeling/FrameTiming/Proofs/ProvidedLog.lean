import FrameTiming.Proofs.LogText
import FrameTiming.Proofs.Machine
import FrameTiming.Proofs.Run

/-! # Logs that are provided for runs

A run that left frames out is written to a log of its own, under a name that its index makes unique.
Therefore a log that was provided still holds its run when the others have been provided, too.
-/

namespace FrameTiming

open Host (Location Machine FileTree)
open Host.FileTree (locationOf enter enter_name)
open Text (Utf8.encode)

/-! ## Names -/

namespace Run

def joinedName (run : Run) : List Char :=
  run.name.toList.map fun char => if char = '/' ∨ char = '\\' then '_' else char

def exportTail (run : Run) (index : ℕ) : String :=
  "_" ++ toString index ++ "_" ++ String.ofList run.joinedName

theorem exportName_eq (run : Run) (group : String) (index : ℕ) :
    run.exportName group index = group ++ run.exportTail index := by
  simp [exportName, exportTail, joinedName, String.append_assoc]

theorem exportTail_toList (run : Run) (index : ℕ) :
    (run.exportTail index).toList = '_' :: ((toString index).toList ++ '_' :: run.joinedName) := by
  simp only [exportTail, String.toList_append, String.toList_ofList, List.append_assoc]
  rfl

theorem noSlash_exportTail (run : Run) (index : ℕ) : '/' ∉ (run.exportTail index).toList := by
  have digits : '/' ∉ (toString index).toList :=
    fun slash => absurd (Number.isDigit_of_mem_toString slash) (by decide)
  have name : '/' ∉ run.joinedName := by
    intro slash
    rcases List.mem_map.mp slash with ⟨char, -, same⟩
    split_ifs at same with kind
    · exact absurd same (by decide)
    · exact kind (.inl same)
  rw [exportTail_toList, List.mem_cons, List.mem_append, List.mem_cons]
  rintro (mark | inDigits | mark | inName)
  · exact absurd mark (by decide)
  · exact digits inDigits
  · exact absurd mark (by decide)
  · exact name inName

theorem exportTail_injective {run other : Run} {index otherIndex : ℕ}
    (same : run.exportTail index = other.exportTail otherIndex) : index = otherIndex := by
  have digits : ∀ (number : ℕ) (rest : List Char),
      ((toString number).toList ++ '_' :: rest).takeWhile Char.isDigit =
        (toString number).toList := by
    intro number rest
    rw [List.takeWhile_append_of_pos fun _ => Number.isDigit_of_mem_toString,
      List.takeWhile_cons_of_neg (by decide), List.append_nil]
  have characters := congrArg String.toList same
  rw [exportTail_toList, exportTail_toList] at characters
  have numbers := congrArg (List.takeWhile Char.isDigit) (List.cons.inj characters).2
  rw [digits, digits] at numbers
  have values := congrArg (Number.natural? 10) numbers
  rwa [Number.natural?_toString, Number.natural?_toString, Option.some.injEq] at values

/-- Runs with different indices have different file names, however they are called. -/
theorem exportName_injective {run other : Run} {group : String} {index otherIndex : ℕ}
    (same : run.exportName group index = other.exportName group otherIndex) :
    index = otherIndex := by
  rw [exportName_eq, exportName_eq] at same
  exact exportTail_injective ((String.append_right_inj group).mp same)

end Run

/-! ## Locations -/

/-- Files of one group lie in one directory, under names that start alike. -/
theorem exists_locationOf_append (working : Location) (directory : Path) (group : String) :
    ∃ place, ∀ rest : String, '/' ∉ rest.toList → '_' ∈ rest.toList →
      locationOf working (directory.join ⟨group ++ rest⟩) =
        place ++ [Path.lastSegment ⟨group⟩ ++ rest] := by
  rcases Path.exists_segments_append (directory.join ⟨group⟩).text with ⟨names, segments⟩
  refine ⟨names.foldl enter (FileTree.origin working (directory.join ⟨group⟩)), ?_⟩
  intro rest absent marked
  have named : ∀ name : String, '_' ∉ name.toList → Path.lastSegment ⟨group⟩ ++ rest ≠ name := by
    rintro name unmarked rfl
    rw [String.toList_append, List.mem_append, not_or] at unmarked
    exact unmarked.2 marked
  have start : Path.lastSegment ⟨(directory.join ⟨group⟩).text⟩ = Path.lastSegment ⟨group⟩ :=
    Path.lastSegment_join directory ⟨group⟩
  rw [locationOf, Path.join_append directory group absent, segments rest absent, start,
    List.foldl_append, List.foldl_cons, List.foldl_nil,
    enter_name _ (named "" (by decide)) (named "." (by decide)) (named ".." (by decide)),
    FileTree.origin, Path.isAbsolute_append _ absent]
  rfl

/-- The location of the directory in which the logs of a group are provided. -/
def exportDirectory (working : Location) (directory : Path) (group : String) : Location :=
  (locationOf working (directory.join ⟨group ++ "_"⟩)).dropLast

/-- Where the files of a group are, if their names go on with an underscore somewhere. -/
theorem locationOf_append (working : Location) (directory : Path) (group : String) {rest : String}
    (absent : '/' ∉ rest.toList) (marked : '_' ∈ rest.toList) :
    locationOf working (directory.join ⟨group ++ rest⟩) =
      exportDirectory working directory group ++ [Path.lastSegment ⟨group⟩ ++ rest] := by
  rcases exists_locationOf_append working directory group with ⟨place, location⟩
  have same : exportDirectory working directory group = place := by
    rw [exportDirectory, location "_" (by decide) (by decide), List.dropLast_concat]
  rw [same, location rest absent marked]

theorem locationOf_export (working : Location) (directory : Path) (group : String) (run : Run)
    (index : ℕ) :
    locationOf working (directory.join ⟨run.exportName group index⟩) =
      exportDirectory working directory group ++
        [Path.lastSegment ⟨group⟩ ++ run.exportTail index] := by
  rw [Run.exportName_eq]
  apply locationOf_append working directory group (run.noSlash_exportTail index)
  rw [Run.exportTail_toList]
  exact List.mem_cons_self

/-! ## Providing one log -/

def Run.exportPath (run : Run) (directory : Path) (group : String) (index : ℕ) : Path :=
  directory.join ⟨run.exportName group index⟩

def Run.exported (run : Run) : List UInt8 :=
  Utf8.encode (FrameLog.text run.format run.frames).toList

inductive ProvideStep (run : Run) (directory : Path) (group : String) (index : ℕ)
    (machine : Machine) : Except AnalysisError Path → Machine → Prop
  /-- Nothing was left out, and the source will do. -/
  | source (whole : run.trimmed = false) :
      ProvideStep run directory group index machine (.ok run.source) machine
  /-- At most directories are new. -/
  | failed {error : AnalysisError} {after : Machine} (trimmed : run.trimmed = true)
      (working : after.working = machine.working) (grows : machine.files.Extends after.files) :
      ProvideStep run directory group index machine (.error error) after
  /-- The log has been written. -/
  | written {prepared : FileTree} {after : Machine} (trimmed : run.trimmed = true)
      (working : after.working = machine.working) (grows : machine.files.Extends prepared)
      (write : prepared.writeFile machine.working (run.exportPath directory group index)
        run.exported = .ok after.files) :
      ProvideStep run directory group index machine
        (.ok (run.exportPath directory group index)) after

variable {run : Run} {directory path : Path} {group : String} {index : ℕ} {machine after : Machine}
  {outcome : Except AnalysisError Path} {content : List UInt8}

theorem provideStep_of_perform
    (provided : machine.perform (run.provideLog directory group index) = (outcome, after)) :
    ProvideStep run directory group index machine outcome after := by
  rw [Run.provideLog] at provided
  split_ifs at provided with trimmed
  · rw [perform_save] at provided
    cases prepare : machine.change fun files working => files.makeDirectories working directory with
    | error error =>
        simp only [prepare, Prod.mk.injEq] at provided
        rcases provided with ⟨rfl, rfl⟩
        exact .failed trimmed rfl (.refl _)
    | ok prepared =>
        rcases Machine.change_eq_ok_iff.mp prepare with ⟨files, made, rfl⟩
        have grows := FileTree.extends_of_makeDirectories made
        simp only [prepare] at provided
        cases write : Machine.writeFile { machine with files }
            (directory.join ⟨run.exportName group index⟩) (FrameLog.text run.format run.frames) with
        | error error =>
            simp only [write, Prod.mk.injEq] at provided
            rcases provided with ⟨rfl, rfl⟩
            exact .failed trimmed rfl grows
        | ok final =>
            simp only [write, Prod.mk.injEq] at provided
            rcases provided with ⟨rfl, rfl⟩
            rcases Machine.change_eq_ok_iff.mp write with ⟨finalFiles, finalWrite, rfl⟩
            exact .written trimmed rfl grows finalWrite
  · rcases Prod.mk.inj provided with ⟨rfl, rfl⟩
    exact .source (by simpa using trimmed)

namespace ProvideStep

variable (step : ProvideStep run directory group index machine outcome after)
include step

theorem working_eq : after.working = machine.working := by
  cases step with
  | source => rfl
  | failed trimmed working => exact working
  | written trimmed working => exact working

/-- A file that is not overwritten, or with what it holds already, is read as before. -/
theorem openFile (opened : machine.openFile path = .ok (.bytes content))
    (own : run.trimmed = true →
      locationOf machine.working path =
        locationOf machine.working (run.exportPath directory group index) →
      content = run.exported) :
    after.openFile path = .ok (.bytes content) := by
  rw [Machine.openFile, FileTree.openFile_eq_bytes_iff] at opened
  rcases opened with ⟨located, held⟩
  have working := step.working_eq
  cases step with
  | source => exact FileTree.openFile_eq_bytes_iff.mpr ⟨located, held⟩
  | failed trimmed same grows =>
      rw [Machine.openFile, working, FileTree.openFile_eq_bytes_iff]
      exact ⟨grows.keepsDirectories.locate located, grows.holds held⟩
  | written trimmed same grows write =>
      rw [Machine.openFile, working, FileTree.openFile_eq_bytes_iff]
      have keeps := grows.keepsDirectories.trans (FileTree.keepsDirectories_of_writeFile write)
      refine ⟨keeps.locate located, ?_⟩
      by_cases overwritten : locationOf machine.working path =
          locationOf machine.working (run.exportPath directory group index)
      · have read := FileTree.openFile_of_writeFile write
        rw [overwritten, own trimmed overwritten]
        exact (FileTree.openFile_eq_bytes_iff.mp read).2
      · rcases grows.holds held with ⟨executable, present⟩
        refine ⟨executable, ?_⟩
        rw [FileTree.node?_of_writeFile_of_ne write overwritten, present]

end ProvideStep

/-- Different indices lead to different locations. -/
theorem index_eq_of_locationOf_eq {other : Run} {otherIndex : ℕ} {working : Location}
    (same : locationOf working (run.exportPath directory group index) =
      locationOf working (other.exportPath directory group otherIndex)) : index = otherIndex := by
  rw [Run.exportPath, Run.exportPath, locationOf_export, locationOf_export, List.append_right_inj,
    List.singleton_inj, String.append_right_inj] at same
  exact Run.exportTail_injective same

/-! ## Providing logs one after the other -/

/-- On the machine every run has a log, now or once it is written, and none of the sources can be
overwritten. -/
structure Providable (machine : Machine) (directory : Path) (group : String) (runs : List Run) :
    Prop where
  exported : ∀ run ∈ runs, ∀ path, FrameLog.parse run.format path run.exported = .ok run.frames
  sources : ∀ run ∈ runs, run.trimmed = false → ∃ content,
    machine.openFile run.source = .ok (.bytes content) ∧
      FrameLog.parse run.format run.source content = .ok run.frames
  apart : ∀ run ∈ runs,
    (locationOf machine.working run.source).dropLast ≠
      exportDirectory machine.working directory group

namespace Providable

variable {runs : List Run} (providable : Providable machine directory group runs)
include providable

theorem source_ne_export (member : run ∈ runs) (other : Run) (index : ℕ) :
    locationOf machine.working run.source ≠
      locationOf machine.working (other.exportPath directory group index) := by
  intro same
  apply providable.apart run member
  rw [same, Run.exportPath, locationOf_export, List.dropLast_concat]

theorem after_step (step : ProvideStep run directory group index machine outcome after) :
    Providable after directory group runs := by
  constructor
  case exported => exact providable.exported
  case sources =>
    intro other member whole
    rcases providable.sources other member whole with ⟨content, opened, parsed⟩
    refine ⟨content, step.openFile opened ?_, parsed⟩
    intro _ overwritten
    exact absurd overwritten (providable.source_ne_export member run index)
  case apart =>
    rw [step.working_eq]
    exact providable.apart

end Providable

/-- Provides logs of runs under their indices, one after the other. A log that cannot be provided
does not stop the others. -/
def provideLogs (directory : Path) (group : String) (exports : List (ℕ × Run)) :
    StateM Machine (List (Except AnalysisError Path)) :=
  exports.mapM fun (index, run) => (run.provideLog directory group index).run

variable {exports : List (ℕ × Run)} {outcomes : List (Except AnalysisError Path)} {final : Machine}

theorem provideLogs_nil
    (provided : (provideLogs directory group []).run machine = (outcomes, final)) :
    outcomes = [] ∧ final = machine := by
  rcases Prod.mk.inj provided with ⟨rfl, rfl⟩
  exact ⟨rfl, rfl⟩

theorem exists_of_provideLogs_cons {rest : List (ℕ × Run)}
    (provided : (provideLogs directory group ((index, run) :: rest)).run machine =
      (outcomes, final)) :
    ∃ outcome middle others, ProvideStep run directory group index machine outcome middle ∧
      (provideLogs directory group rest).run middle = (others, final) ∧
      outcomes = outcome :: others := by
  rw [provideLogs, List.mapM_cons] at provided
  change (let first := machine.perform (run.provideLog directory group index)
    let others := (provideLogs directory group rest).run first.2
    (first.1 :: others.1, others.2)) = (outcomes, final) at provided
  rcases first : machine.perform (run.provideLog directory group index) with ⟨outcome, middle⟩
  rcases following : (provideLogs directory group rest).run middle with ⟨others, last⟩
  simp only [first, following, Prod.mk.injEq] at provided
  rcases provided with ⟨rfl, rfl⟩
  exact ⟨outcome, middle, others, provideStep_of_perform first, following, rfl⟩

/-- A file is read as before if every log that goes to its location holds the same. -/
theorem openFile_of_provideLogs
    (provided : (provideLogs directory group exports).run machine = (outcomes, final))
    (opened : machine.openFile path = .ok (.bytes content))
    (own : ∀ entry ∈ exports, entry.2.trimmed = true →
      locationOf machine.working path =
        locationOf machine.working (entry.2.exportPath directory group entry.1) →
      content = entry.2.exported) :
    final.openFile path = .ok (.bytes content) := by
  induction exports generalizing machine outcomes with
  | nil => rwa [(provideLogs_nil provided).2]
  | cons entry rest induction =>
      rcases exists_of_provideLogs_cons provided with ⟨outcome, middle, others, step, following, -⟩
      rw [List.forall_mem_cons] at own
      have kept := step.openFile opened own.1
      apply induction following kept
      rw [step.working_eq]
      exact own.2

/-- Every log that was provided holds its run when all have been provided. -/
theorem forall₂_provideLogs {runs : List Run}
    (providable : Providable machine directory group runs)
    (listed : ∀ entry ∈ exports, runs[entry.1]? = some entry.2)
    (provided : (provideLogs directory group exports).run machine = (outcomes, final)) :
    List.Forall₂ (fun entry outcome => ∀ path, outcome = .ok path →
      path = (if entry.2.trimmed then entry.2.exportPath directory group entry.1
        else entry.2.source) ∧
      final.perform (FrameLog.read entry.2.format path) = (.ok entry.2.frames, final))
      exports outcomes := by
  induction exports generalizing machine outcomes with
  | nil =>
      rw [(provideLogs_nil provided).1]
      exact .nil
  | cons entry rest induction =>
      rcases exists_of_provideLogs_cons provided with
        ⟨outcome, middle, others, step, following, rfl⟩
      rw [List.forall_mem_cons] at listed
      refine .cons ?_ (induction (providable.after_step step) listed.2 following)
      have member := List.mem_of_getElem? listed.1
      intro path success
      cases step with
      | source whole =>
          cases success
          rcases providable.sources entry.2 member whole with ⟨content, opened, parsed⟩
          refine ⟨by simp [whole], ?_⟩
          have kept := openFile_of_provideLogs following opened fun later _ _ overwritten =>
            absurd overwritten (providable.source_ne_export member later.2 later.1)
          rw [perform_readLog_of_openFile kept, parsed]
      | failed => cases success
      | written trimmed working grows write =>
          cases success
          refine ⟨by simp [trimmed], ?_⟩
          have opened : middle.openFile (entry.2.exportPath directory group entry.1) =
              .ok (.bytes entry.2.exported) := by
            rw [Machine.openFile, working]
            exact FileTree.openFile_of_writeFile write
          have kept := openFile_of_provideLogs following opened fun later after _ overwritten => by
            have index := index_eq_of_locationOf_eq overwritten
            have same := listed.2 later after
            rw [← index, listed.1, Option.some.injEq] at same
            rw [same]
          rw [perform_readLog_of_openFile kept, providable.exported entry.2 member]

/-! ## Runs that were read -/

theorem parse_exported_of_read {config : Config}
    (read : (machine.perform (Run.read config path)).1 = .ok run) (log : Path) :
    FrameLog.parse run.format log run.exported = .ok run.frames := by
  rcases readRun_eq_ok read with ⟨content, recorded, source, -, parsed, -, analysed⟩
  rcases Run.ofFrames_eq_ok_iff.mp analysed with ⟨stats, -, rfl⟩
  exact FrameLog.parse_text_of_isInfix parsed (Window.apply_isInfix _ _ recorded) log

theorem source_of_read (sound : machine.files.Sound) {config : Config}
    (read : (machine.perform (Run.read config path)).1 = .ok run) (whole : run.trimmed = false) :
    ∃ content, machine.openFile run.source = .ok (.bytes content) ∧
      FrameLog.parse run.format run.source content = .ok run.frames := by
  rcases readRun_eq_ok read with ⟨content, recorded, source, opened, parsed, canonical, analysed⟩
  have frames := (Run.trimmed_eq_false_iff analysed).mp whole
  rcases Run.ofFrames_eq_ok_iff.mp analysed with ⟨stats, -, rfl⟩
  refine ⟨content, ?_, ?_⟩
  · have located := sound.locate_of_canonicalPath canonical machine.working
    have held := (FileTree.openFile_eq_bytes_iff.mp opened).2
    apply FileTree.openFile_eq_bytes_iff.mpr
    rw [← FileTree.eq_locationOf_of_locate located]
    exact ⟨located, held⟩
  · rw [frames]
    exact FrameLog.parse_eq_ok_of_parse parsed source

theorem providable_of_read (sound : machine.files.Sound) {runs : List Run}
    (read : ∀ run ∈ runs, ∃ config path, (machine.perform (Run.read config path)).1 = .ok run)
    (apart : ∀ run ∈ runs, (locationOf machine.working run.source).dropLast ≠
      exportDirectory machine.working directory group) :
    Providable machine directory group runs := by
  constructor
  case exported =>
    intro run member
    rcases read run member with ⟨config, path, success⟩
    exact parse_exported_of_read success
  case sources =>
    intro run member whole
    rcases read run member with ⟨config, path, success⟩
    exact source_of_read sound success whole
  case apart => exact apart

/-- Two logs of one name, in directories of one name. -/
def twinFiles : FileTree :=
  (((((FileTree.empty.put ["a"] .directory).put ["a", "r"] .directory).put ["a", "r", "run.log"]
    (.file (Utf8.encode "ns\n600000000\n600000000\n".toList) false)).put ["b"] .directory).put
      ["b", "r"] .directory).put ["b", "r", "run.log"]
    (.file (Utf8.encode "ns\n700000000\n700000000\n".toList) false)

/-- The runs of both logs without their first second. -/
def twins : Dataset :=
  ((Dataset.load { dropFront? := some 1 } "base" [⟨"a/r/run.log"⟩, ⟨"/b/r/run.log"⟩] :
    StateM Machine Dataset).run (Machine.start twinFiles [])).1

theorem sound_twinFiles : twinFiles.Sound := by
  change (FileTree.put _ (["b", "r"] ++ ["run.log"]) _).Sound
  refine .put ?_ rfl (by decide) (.inl (by decide))
  change (FileTree.put _ (["b"] ++ ["r"]) _).Sound
  refine .put ?_ rfl (by decide) (.inr rfl)
  change (FileTree.put _ ([] ++ ["b"]) _).Sound
  refine .put ?_ rfl (by decide) (.inr rfl)
  change (FileTree.put _ (["a", "r"] ++ ["run.log"]) _).Sound
  refine .put ?_ rfl (by decide) (.inl (by decide))
  change (FileTree.put _ (["a"] ++ ["r"]) _).Sound
  refine .put ?_ rfl (by decide) (.inr rfl)
  change (FileTree.put _ ([] ++ ["a"]) _).Sound
  exact .put FileTree.sound_empty rfl (by decide) (.inr rfl)

end FrameTiming
