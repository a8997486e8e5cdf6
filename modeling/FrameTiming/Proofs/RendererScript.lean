import FrameTiming.Proofs.WrittenFiles

/-! # What renderers write

A renderer is careful if it changes its picture only. A script can write to any file that it names;
one that sends its output to the file for the picture, or to nowhere, is careful, whatever its
commands and arguments are.
-/

namespace FrameTiming

open Host (Location Machine)
open Host.FileTree (locationOf)
open Host.Machine (perform_bind)

/-- A renderer that changes its picture only. -/
def Renderer.Careful (program : Path) (machine : Machine) : Prop :=
  ∀ inputs output status after, machine.runProgram program inputs output = .ok (status, after) →
    WritesOnly (· = locationOf machine.working output) machine after

theorem Renderer.Careful.writesOnly {program : Path} {machine after : Machine}
    (careful : Careful program machine) {inputs : List Path} {output : Path}
    {outcome : Except AnalysisError Unit}
    (performed : machine.perform (render program inputs output) = (outcome, after)) :
    WritesOnly (· = locationOf machine.working output) machine after := by
  rw [render, perform_bind] at performed
  cases ran : machine.runProgram program inputs output with
  | error error =>
      have refused : (Host.runProgram program inputs output : StateM Machine _).run machine =
          (.error error, machine) := by
        simp only [Host.runProgram, StateT.run, ran]
      rw [refused] at performed
      rw [← (Prod.mk.inj performed).2]
      exact .refl _ machine
  | ok result =>
      rcases result with ⟨status, next⟩
      have ended : (Host.runProgram program inputs output : StateM Machine _).run machine =
          (.ok status, next) := by
        simp only [Host.runProgram, StateT.run, ran]
      rw [ended] at performed
      have same : next = after := by
        dsimp only at performed
        split at performed
        · rename_i error failed
          cases failed
        · exact (Prod.mk.inj performed).2
        · exact (Prod.mk.inj performed).2
      rw [← same]
      exact careful inputs output status next ran

namespace Host.Script

/-! ## Redirections -/

/-- The name of the output file, in quotes. -/
def outputWord : List Piece :=
  [.text [], .parameter "OUTFILE" true]

/-- Whether files that a command opens for writing are the output file. -/
def writesOutputOnly : List Token → Bool
  | .redirect _ direction :: .word pieces :: rest =>
      (direction = .input || direction = .stream || pieces = outputWord) && writesOutputOnly rest
  | _ :: rest => writesOutputOnly rest
  | [] => true

namespace Shell

theorem expand_outputWord (shell : Shell) : shell.expand outputWord = [shell.output] := by
  have absent : outputWord.contains (.parameter "@" true) = false := by decide
  simp only [expand, absent, Bool.and_false]
  simp [outputWord, expandPiece, value?, adjoin]

/-! ## Commands -/

/-- The script goes on with the same output file, and at most that file has changed. -/
structure Keeps (before after : Shell) : Prop where
  output : after.output = before.output
  writes : WritesOnly (· = locationOf before.machine.working ⟨before.output⟩) before.machine
    after.machine

namespace Keeps

variable {before middle after : Shell}

theorem refl (shell : Shell) : shell.Keeps shell :=
  ⟨rfl, .refl _ _⟩

theorem trans (first : before.Keeps middle) (second : middle.Keeps after) : before.Keeps after := by
  refine ⟨second.output.trans first.output, first.writes.trans ?_⟩
  rw [← first.writes.working, ← first.output]
  exact second.writes

end Keeps

/-- The sink is the output file or no file. -/
def OwnSink (shell : Shell) : Sink → Prop
  | .file path => path = ⟨shell.output⟩
  | .machine | .nowhere => True

variable {shell after : Shell} {prepared opened : Prepared} {sink : Sink}

theorem Keeps.ownSink (keeps : shell.Keeps after) (own : shell.OwnSink sink) :
    after.OwnSink sink := by
  cases sink with
  | file path => exact own.trans (congrArg Path.mk keeps.output.symm)
  | machine => trivial
  | nowhere => trivial

theorem keeps_emit (own : shell.OwnSink sink) (text : List Char) :
    shell.Keeps (shell.emit sink text) := by
  cases sink with
  | machine => exact ⟨rfl, writesOnly_print _ _ _⟩
  | nowhere => exact .refl shell
  | file path =>
      cases own
      refine ⟨rfl, ?_⟩
      cases appended : shell.machine.appendFile ⟨shell.output⟩ (String.ofList text) with
      | error error =>
          simp only [emit, appended]
          exact .refl _ _
      | ok machine =>
          simp only [emit, appended]
          exact writesOnly_of_appendFile appended

/-- A file that a redirection opens is the output file, if its target is. -/
theorem redirect_spec {stream : ℕ} {direction : Direction} {target : String}
    (allowed : direction = .input ∨ direction = .stream ∨ target = shell.output)
    (own : shell.OwnSink prepared.sink)
    (redirected : shell.redirect prepared stream direction target = .ok (opened, after)) :
    shell.Keeps after ∧ after.OwnSink opened.sink := by
  let into (machine : Machine) : Prepared × Shell :=
    (if stream = 1 then
        { prepared with sink := if target = bottomless then .nowhere else .file ⟨target⟩ }
      else prepared, { shell with machine })
  have opens : ∀ outcome : Except HostError Machine, (∀ machine, outcome = .ok machine →
      WritesOnly (· = locationOf shell.machine.working ⟨target⟩) shell.machine machine) →
      target = shell.output →
      (if target = bottomless then pure (into shell.machine) else do
        return into (← outcome)) = .ok (opened, after) →
      shell.Keeps after ∧ after.OwnSink opened.sink := by
    rintro outcome writes rfl done
    have changed : ∃ machine, WritesOnly (· = locationOf shell.machine.working ⟨shell.output⟩)
        shell.machine machine ∧ into machine = (opened, after) := by
      split_ifs at done
      · exact ⟨shell.machine, .refl _ _, Except.ok.inj done⟩
      · rcases bind_eq_ok_iff.mp done with ⟨machine, success, done⟩
        exact ⟨machine, writes machine success, Except.ok.inj done⟩
    rcases changed with ⟨machine, changes, same⟩
    rcases Prod.mk.inj same with ⟨rfl, rfl⟩
    have keeps : shell.Keeps { shell with machine } := ⟨rfl, changes⟩
    refine ⟨keeps, ?_⟩
    split_ifs
    · trivial
    · rfl
    · exact keeps.ownSink own
  unfold redirect at redirected
  cases direction with
  | stream =>
      rcases Prod.mk.inj (Except.ok.inj redirected) with ⟨rfl, rfl⟩
      refine ⟨.refl _, ?_⟩
      split_ifs
      · trivial
      · exact own
  | input =>
      rcases bind_eq_ok_iff.mp redirected with ⟨file, -, redirected⟩
      rcases bind_eq_ok_iff.mp redirected with ⟨content, -, redirected⟩
      rcases Prod.mk.inj (Except.ok.inj redirected) with ⟨rfl, rfl⟩
      exact ⟨.refl _, own⟩
  | replace =>
      exact opens _ (fun _ => writesOnly_of_writeFile) (by simpa using allowed) redirected
  | append =>
      exact opens _ (fun _ => writesOnly_of_appendFile) (by simpa using allowed) redirected

/-- Redirections open the output file at most. -/
theorem prepare_spec {tokens : List Token} (only : writesOutputOnly tokens = true)
    (own : shell.OwnSink prepared.sink)
    (ready : shell.prepare prepared tokens = .ok (opened, after)) :
    shell.Keeps after ∧ after.OwnSink opened.sink := by
  fun_induction shell.prepare prepared tokens with
  | case1 shell prepared stream direction pieces rest target induction =>
      rw [writesOutputOnly, Bool.and_eq_true, Bool.or_eq_true, Bool.or_eq_true, decide_eq_true_eq,
        decide_eq_true_eq, decide_eq_true_eq] at only
      rcases bind_eq_ok_iff.mp ready with ⟨⟨middle, next⟩, redirected, ready⟩
      have allowed : direction = .input ∨ direction = .stream ∨ target = shell.output := by
        rcases only.1 with (input | stream) | rfl
        · exact .inl input
        · exact .inr (.inl stream)
        · simp [target, expand_outputWord]
      rcases redirect_spec allowed own redirected with ⟨first, ownMiddle⟩
      rcases induction middle next only.2 ownMiddle ready with ⟨others, ownLast⟩
      exact ⟨first.trans others, ownLast⟩
  | case2 shell prepared pieces rest induction => exact induction only own ready
  | case3 shell prepared stream direction rest noWord induction =>
      rw [writesOutputOnly.eq_2 _ _ fun _ _ _ _ _ same => noWord _ _ same] at only
      exact induction only own ready
  | case4 shell prepared joint rest induction => exact induction only own ready
  | case5 shell prepared =>
      cases ready
      exact ⟨.refl _, own⟩

theorem keeps_done (shell : Shell) (status : ℕ) : shell.Keeps (shell.done status) :=
  ⟨rfl, .refl _ _⟩

/-- Steps that keep to a sink do so one after the other. -/
theorem keeps_foldl {Item : Type} {step : Shell → Item → Shell}
    (keeps : ∀ (shell : Shell) (item : Item), shell.OwnSink sink → shell.Keeps (step shell item))
    (items : List Item) (own : shell.OwnSink sink) : shell.Keeps (items.foldl step shell) := by
  induction items generalizing shell with
  | nil => exact .refl shell
  | cons item rest induction =>
      have first := keeps shell item own
      exact first.trans (induction (first.ownSink own))

theorem keeps_concatenate (own : shell.OwnSink sink) (input : List UInt8) (paths : List String) :
    shell.Keeps (shell.concatenate sink input paths) := by
  refine Keeps.trans (keeps_foldl ?_ _ own) (keeps_done _ _)
  intro shell content? own
  split
  · exact keeps_emit own _
  · exact .refl shell

theorem keeps_test (shell : Shell) (arguments : List String) :
    shell.Keeps (shell.test arguments) := by
  rw [test]
  split <;> exact ⟨rfl, .refl _ _⟩

theorem keeps_send (shell : Shell) (signal : Signal) (targets : List String) :
    shell.Keeps (shell.send signal targets) := by
  rw [send]
  split_ifs <;> exact ⟨rfl, .refl _ _⟩

theorem keeps_kill (shell : Shell) (arguments : List String) :
    shell.Keeps (shell.kill arguments) := by
  unfold kill
  repeat' split
  all_goals first | exact keeps_send _ _ _ | exact ⟨rfl, .refl _ _⟩

/-- A command writes to its sink at most. -/
theorem keeps_command (own : shell.OwnSink prepared.sink) (words : List String) :
    shell.Keeps (shell.command prepared words) := by
  fun_induction shell.command prepared words
  case case6 | case8 | case10 => exact (keeps_emit own _).trans ⟨rfl, .refl _ _⟩
  case case9 => exact keeps_concatenate own _ _
  case case11 | case12 => exact keeps_test _ _
  case case14 => exact keeps_kill _ _
  case case16 induction => exact induction.trans ⟨rfl, .refl _ _⟩
  all_goals exact ⟨rfl, .refl _ _⟩

/-! ## Scripts -/

theorem keeps_step {tokens : List Token} (only : writesOutputOnly tokens = true) :
    shell.Keeps (shell.step tokens) := by
  rw [step]
  split
  · rename_i prepared next ready
    have begun : shell.OwnSink (Prepared.sink {}) := trivial
    rcases prepare_spec only begun ready with ⟨opened, own⟩
    exact opened.trans (keeps_command own _)
  · dsimp only
    split_ifs <;> exact ⟨rfl, .refl _ _⟩

theorem keeps_runCommands {commands : List (Joint × List Token)}
    (only : ∀ command ∈ commands, writesOutputOnly command.2 = true) :
    shell.Keeps (shell.runCommands commands) := by
  fun_induction shell.runCommands commands with
  | case1 shell => exact .refl shell
  | case2 shell joint tokens rest skipped induction =>
      exact induction fun command listed => only command (List.mem_cons_of_mem _ listed)
  | case3 shell joint tokens rest runs after ended =>
      exact keeps_step (only _ List.mem_cons_self)
  | case4 shell joint tokens rest runs after last continues failed =>
      exact (keeps_step (only _ List.mem_cons_self)).trans ⟨rfl, .refl _ _⟩
  | case5 shell joint tokens rest runs after last continues passed induction =>
      exact (keeps_step (only _ List.mem_cons_self)).trans
        (induction fun command listed => only command (List.mem_cons_of_mem _ listed))

end Shell

/-- A script whose commands write to the output file only changes nothing else. -/
theorem writesOnly_run {script : List Char}
    (only : ∀ command ∈ commands (tokens script), writesOutputOnly command.2 = true) (strict : Bool)
    (name : String) (arguments : List String) (output : String) (machine : Machine) :
    WritesOnly (· = locationOf machine.working ⟨output⟩) machine
      (run script strict name arguments output machine).2 := by
  have keeps : Shell.Keeps ⟨machine, name, arguments, output, 0, strict, none⟩
      (Shell.runCommands ⟨machine, name, arguments, output, 0, strict, none⟩
        (commands (tokens script))) :=
    Shell.keeps_runCommands only
  exact keeps.writes

end Host.Script

/-! ## Starting scripts -/

namespace Renderer

/-- A script of the shell that can be started. -/
structure ScriptAt (machine : Machine) (program : Path) (content : List UInt8) : Prop where
  slash : '/' ∈ program.text.toList
  noOption : program.text.toList.head? ≠ some '-'
  found : machine.files.find machine.working program =
    .ok (locationOf machine.working program, .file content true)
  ordinary : locationOf machine.working program ∉ Host.shells ++ Host.searcher
  interpreter : Host.interpreter? content = some ("/bin/sh", none)
  shell : ∃ binary, machine.files.find machine.working ⟨"/bin/sh"⟩ =
    .ok (["bin", "sh"], .file binary true)

namespace ScriptAt

variable {machine later : Machine} {program : Path} {content : List UInt8}
  (script : ScriptAt machine program content)
include script

theorem kept {written : Location → Prop} (writes : WritesOnly written machine later)
    (program_unwritten : ¬written (locationOf machine.working program))
    (shell_unwritten : ¬written ["bin", "sh"]) : ScriptAt later program content := by
  rcases script.shell with ⟨binary, shell⟩
  refine ⟨script.slash, script.noOption, ?_, ?_, script.interpreter,
    binary, writes.find shell shell_unwritten⟩
  · rw [writes.find script.found program_unwritten, writes.working]
  · rw [writes.working]
    exact script.ordinary

theorem launch_eq (output : String) (levels : ℕ) (arguments : List String) :
    machine.launch output (levels + 2) program arguments =
      .ok (machine.runShell (program.text :: arguments) output) := by
  rcases script.shell with ⟨binary, shell⟩
  have ordinary := script.ordinary
  rw [List.mem_append, not_or] at ordinary
  have byShell (arguments : List String) :
      machine.launch output (levels + 1) ⟨"/bin/sh"⟩ arguments =
        .ok (machine.runShell arguments output) := by
    unfold Machine.launch
    rw [shell]
    rfl
  unfold Machine.launch
  rw [script.found]
  change (if _ ∈ Host.shells then _ else _) = _
  rw [if_neg ordinary.1, if_neg ordinary.2, script.interpreter]
  exact byShell (program.text :: arguments)

theorem runShell_eq (output : String) (arguments : List String) :
    machine.runShell (program.text :: arguments) output =
      Host.Script.run ((Text.Utf8.decode content).toOption.getD []) false program.text arguments
        output machine := by
  have noOption : decide (program.text.toList.head? = some '-') = false :=
    decide_eq_false script.noOption
  have opened : (machine.openFile ⟨program.text⟩).bind Opened.read = .ok content := by
    change Except.bind (machine.files.find machine.working program >>= _) _ = _
    rw [script.found]
    rfl
  rw [Machine.runShell]
  simp only [List.dropWhile_cons, List.takeWhile_cons, noOption, Bool.false_eq_true, if_false,
    opened, List.any_nil]

/-- A script whose commands write to the output file only is a careful renderer. -/
theorem careful (only : ∀ command ∈ Host.Script.commands (Host.Script.tokens
      ((Text.Utf8.decode content).toOption.getD [])),
      Host.Script.writesOutputOnly command.2 = true) : Careful program machine := by
  intro inputs output status after ran
  rw [Machine.runProgram, if_pos script.slash] at ran
  change machine.launch output.text 6 program (inputs.map Path.text) = _ at ran
  rw [script.launch_eq, script.runShell_eq] at ran
  have writes := Host.Script.writesOnly_run only false program.text (inputs.map Path.text)
    output.text machine
  rw [Except.ok.inj ran] at writes
  exact writes

end ScriptAt

end Renderer

end FrameTiming
