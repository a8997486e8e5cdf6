import FrameTiming.Program.Analyze
import FrameTiming.Proofs.ProvidedLog

/-! # What the steps of an analysis write

Every step of the program says where it may write. Files elsewhere, and all directories, are as they
were, so what was read before is read again.
-/

namespace FrameTiming

open Host (Location Machine Node FileTree changing)
open Host.FileTree (locationOf)
open Host.Machine (perform_bind perform_andThen perform_lift change_eq_ok_iff)

/-! ## Machines -/

/-- A sound tree, with the working directory in it. -/
structure Host.Machine.Sound (machine : Machine) : Prop where
  files : machine.files.Sound
  home : machine.files.node? machine.working = some .directory

/-- Of what was there before, at most files at some locations have changed. -/
structure WritesOnly (written : Location → Prop) (before after : Machine) : Prop where
  working : after.working = before.working
  directories : before.files.KeepsDirectories after.files
  others : ∀ location node, ¬written location → before.files.node? location = some node →
    after.files.node? location = some node
  sound : before.Sound → after.Sound

namespace WritesOnly

variable {written more : Location → Prop} {before middle after : Machine}

theorem refl (written : Location → Prop) (machine : Machine) : WritesOnly written machine machine :=
  ⟨rfl, .refl _, fun _ _ _ => id, id⟩

theorem trans (first : WritesOnly written before middle) (second : WritesOnly written middle after) :
    WritesOnly written before after where
  working := second.working.trans first.working
  directories := first.directories.trans second.directories
  others location node unwritten := second.others location node unwritten ∘
    first.others location node unwritten
  sound := second.sound ∘ first.sound

theorem mono (writes : WritesOnly written before after)
    (within : ∀ location, written location → more location) : WritesOnly more before after :=
  ⟨writes.working, writes.directories,
    fun location node unwritten => writes.others location node (mt (within location) unwritten),
    writes.sound⟩

/-- What is not written is found as before. -/
theorem find (writes : WritesOnly written before after) {path : Path} {location : Location}
    {node : Node} (found : before.files.find before.working path = .ok (location, node))
    (unwritten : ¬written location) :
    after.files.find after.working path = .ok (location, node) := by
  rw [FileTree.find_eq_ok_iff] at found ⊢
  rw [writes.working]
  exact ⟨writes.directories.locate found.1, writes.others location node unwritten found.2⟩

/-- A file that is not written is read as before. -/
theorem openFile (writes : WritesOnly written before after) {path : Path} {content : List UInt8}
    (opened : before.openFile path = .ok (.bytes content))
    (unwritten : ¬written (locationOf before.working path)) :
    after.openFile path = .ok (.bytes content) := by
  rw [Machine.openFile, Host.FileTree.openFile_eq_bytes_iff] at opened ⊢
  rcases opened with ⟨located, executable, present⟩
  rw [writes.working]
  exact ⟨writes.directories.locate located, executable, writes.others _ _ unwritten present⟩

/-- A log that is not written gives the same run as before. -/
theorem readRun (writes : WritesOnly written before after) {config : Config} {path : Path}
    {run : Run} (read : (before.perform (Run.read config path)).1 = .ok run)
    (unwritten : ¬written (locationOf before.working path)) :
    (after.perform (Run.read config path)).1 = .ok run := by
  rcases readRun_eq_ok read with ⟨content, recorded, source, opened, parsed, canonical, analysed⟩
  have again := writes.openFile opened unwritten
  have same : after.files.canonicalPath after.working path = .ok source := by
    rw [← canonical, FileTree.canonicalPath_of_openFile again,
      FileTree.canonicalPath_of_openFile opened, writes.working]
  simp only [perform_readRun, perform_readLog_of_openFile again, parsed, same, analysed]

end WritesOnly

/-! ## Services -/

section Services

variable {machine after : Machine} {path : Path}

theorem writesOnly_of_makeDirectories
    (made : machine.change (fun files working => files.makeDirectories working path) = .ok after)
    (written : Location → Prop) : WritesOnly written machine after := by
  rcases change_eq_ok_iff.mp made with ⟨files, created, rfl⟩
  have grows := FileTree.extends_of_makeDirectories created
  refine ⟨rfl, grows.keepsDirectories, fun location node _ => grows location node, ?_⟩
  intro sound
  exact ⟨FileTree.sound_of_makeDirectories sound.files sound.home created,
    grows _ _ sound.home⟩

/-- An operation that fails changes nothing. -/
theorem writesOnly_of_changing {written : Location → Prop}
    {operation : Machine → Except HostError Machine}
    (writes : ∀ next, operation machine = .ok next → WritesOnly written machine next) :
    WritesOnly written machine (changing operation machine).2 := by
  rw [changing]
  split
  · rename_i next done
    exact writes next done
  · exact .refl written machine

/-- However its content came about, a file that is written is the only one that changes. -/
theorem writesOnly_of_fileWritten {content : List UInt8} {files : FileTree}
    (written : machine.files.writeFile machine.working path content = .ok files) :
    WritesOnly (· = locationOf machine.working path) machine { machine with files } := by
  have keeps := FileTree.keepsDirectories_of_writeFile written
  refine ⟨rfl, keeps, ?_, ?_⟩
  · intro location node unwritten present
    rw [← present]
    exact FileTree.node?_of_writeFile_of_ne written unwritten
  · intro sound
    exact ⟨FileTree.sound_of_writeFile sound.files written, keeps _ sound.home⟩

theorem writesOnly_of_writeFile {text : String} (done : machine.writeFile path text = .ok after) :
    WritesOnly (· = locationOf machine.working path) machine after := by
  rcases change_eq_ok_iff.mp done with ⟨files, written, rfl⟩
  exact writesOnly_of_fileWritten written

theorem writesOnly_of_appendFile {text : String}
    (done : machine.appendFile path text = .ok after) :
    WritesOnly (· = locationOf machine.working path) machine after := by
  rcases change_eq_ok_iff.mp done with ⟨files, appended, rfl⟩
  rw [FileTree.appendFile] at appended
  split at appended
  · exact writesOnly_of_fileWritten appended
  · exact writesOnly_of_fileWritten appended

theorem writesOnly_print (machine : Machine) (text : String) (written : Location → Prop) :
    WritesOnly written machine (machine.print text) :=
  ⟨rfl, .refl _, fun _ _ _ => id, fun sound => ⟨sound.files, sound.home⟩⟩

/-- What goes on, printing or not, goes on with the same files. -/
theorem exists_of_printing {Error Result : Type} {condition : Prop} [Decidable condition]
    {text : String} {next : ExceptT Error (StateM Machine) Result}
    {outcome : Except Error Result × Machine}
    (performed : machine.perform (if condition then do
        (Host.print text : StateM Machine Unit)
        next
      else next) = outcome) :
    ∃ start, (∀ written, WritesOnly written machine start) ∧ start.perform next = outcome := by
  split_ifs at performed
  · exact ⟨machine.print text, writesOnly_print machine text, performed⟩
  · exact ⟨machine, fun _ => .refl _ machine, performed⟩

theorem writesOnly_of_prepareDirectory {failure : Path → HostError → Program.ProgramFailure}
    {outcome : Except Program.ProgramFailure Unit}
    (performed : machine.perform (Program.prepareDirectory path failure) = (outcome, after))
    (written : Location → Prop) : WritesOnly written machine after := by
  rw [Program.prepareDirectory, perform_bind, Host.Machine.run_makeDirectories] at performed
  have same : (changing (·.change fun files working => files.makeDirectories working path)
      machine).2 = after := by
    split at performed <;> exact (Prod.mk.inj performed).2
  rw [← same]
  exact writesOnly_of_changing fun _ made => writesOnly_of_makeDirectories made written

/-- A table goes to its path or nowhere. -/
theorem writesOnly_of_saveTable {columns : List String} {rows : List (List String)}
    {outcome : Except AnalysisError Unit}
    (performed : machine.perform (Table.save path columns rows) = (outcome, after)) :
    WritesOnly (· = locationOf machine.working path) machine after := by
  rw [Table.save, perform_bind, Host.Machine.run_writeFile] at performed
  have same : (changing (·.writeFile path (Delimited.text (columns :: rows))) machine).2 =
      after := by
    split at performed <;> exact (Prod.mk.inj performed).2
  rw [← same]
  exact writesOnly_of_changing fun _ => writesOnly_of_writeFile

variable {run : Run} {directory log : Path} {group : String} {index : ℕ}

/-- The log of a run goes to its path or nowhere. -/
theorem writesOnly_of_provideLog {outcome : Except AnalysisError Path}
    (performed : machine.perform (run.provideLog directory group index) = (outcome, after)) :
    WritesOnly (· = locationOf machine.working (run.exportPath directory group index)) machine
      after := by
  rw [Run.provideLog] at performed
  split_ifs at performed
  · rw [perform_save] at performed
    cases made : machine.change fun files working => files.makeDirectories working directory with
    | error error =>
        simp only [made, Prod.mk.injEq] at performed
        rw [← performed.2]
        exact .refl _ machine
    | ok prepared =>
        have first := writesOnly_of_makeDirectories made
          (· = locationOf machine.working (run.exportPath directory group index))
        simp only [made] at performed
        cases done : prepared.writeFile (directory.join ⟨run.exportName group index⟩)
            (FrameLog.text run.format run.frames) with
        | error error =>
            simp only [done, Prod.mk.injEq] at performed
            rw [← performed.2]
            exact first
        | ok next =>
            simp only [done, Prod.mk.injEq] at performed
            rw [← performed.2]
            have second := writesOnly_of_writeFile done
            rw [first.working] at second
            exact first.trans second
  · rw [← (Prod.mk.inj performed).2]
    exact .refl _ machine

/-! ## Logs -/

/-- The file at a path is a log of the frames of a run. -/
def Host.Machine.Provides (machine : Machine) (run : Run) (log : Path) : Prop :=
  ∃ content, machine.openFile log = .ok (.bytes content) ∧
    FrameLog.parse run.format log content = .ok run.frames

theorem Host.Machine.Provides.perform (provides : machine.Provides run log) :
    machine.perform (FrameLog.read run.format log) = (.ok run.frames, machine) := by
  rcases provides with ⟨content, opened, parsed⟩
  rw [perform_readLog_of_openFile opened, parsed]

theorem WritesOnly.provides {written : Location → Prop} (writes : WritesOnly written machine after)
    (provides : machine.Provides run log) (unwritten : ¬written (locationOf machine.working log)) :
    after.Provides run log := by
  rcases provides with ⟨content, opened, parsed⟩
  exact ⟨content, writes.openFile opened unwritten, parsed⟩

end Services

end FrameTiming
