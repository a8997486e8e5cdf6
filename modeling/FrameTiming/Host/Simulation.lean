import FrameTiming.Host.Launch

/-! # Programs on a machine

A machine that is carried along as a state is a `Host`: the program runs on it without any effect
outside.
-/

namespace FrameTiming.Host

def changing (operation : Machine → Except HostError Machine) :
    StateM Machine (Except HostError Unit) := fun machine =>
  match operation machine with
  | .ok machine => (.ok (), machine)
  | .error error => (.error error, machine)

instance : Host (StateM Machine) where
  openFile path := fun machine => (machine.openFile path, machine)
  canonicalPath path := fun machine => (machine.files.canonicalPath machine.working path, machine)
  makeDirectories path := changing (·.change fun files working => files.makeDirectories working path)
  writeFile path text := changing (·.writeFile path text)
  runProgram program arguments output := fun machine =>
    match machine.runProgram program arguments output with
    | .ok (status, machine) => (.ok status, machine)
    | .error error => (.error error, machine)
  print text := fun machine => ((), machine.print text)

/-- The outcome of a computation on a machine, and the machine afterwards. -/
def Machine.perform {Error Value : Type} (machine : Machine)
    (computation : ExceptT Error (StateM Machine) Value) : Except Error Value × Machine :=
  computation.run.run machine

end FrameTiming.Host
