/-! # Signals

A signal ends a program from outside. It has a number, and most have a name.
-/

namespace FrameTiming.Host

structure Signal where
  number : Nat
deriving DecidableEq, Repr

namespace Signal

/-- The signals with a name, in the order of their numbers from 1 on. -/
def names : List String :=
  ["HUP", "INT", "QUIT", "ILL", "TRAP", "ABRT", "BUS", "FPE", "KILL", "USR1", "SEGV", "USR2",
    "PIPE", "ALRM", "TERM", "STKFLT", "CHLD", "CONT", "STOP", "TSTP", "TTIN", "TTOU", "URG",
    "XCPU", "XFSZ", "VTALRM", "PROF", "WINCH", "IO", "PWR", "SYS"]

def name? (signal : Signal) : Option String :=
  match signal.number with
  | 0 => none
  | position + 1 => names[position]?

def ofName? (name : String) : Option Signal :=
  (names.idxOf? name.toUpper).map fun position => ⟨position + 1⟩

/-- Number 64 is the last; number 0 only asks whether a program is there. -/
def ofNumber? (number : Nat) : Option Signal :=
  if number ≤ 64 then some ⟨number⟩ else none

def kill : Signal := ⟨9⟩
def terminate : Signal := ⟨15⟩

/-- Whether a program that has made no provision goes on running: the signals 0, `CHLD`, `CONT`,
the four that suspend it, `URG` and `WINCH` do not end it. -/
def isHarmless (signal : Signal) : Bool :=
  signal.number ∈ [0, 17, 18, 19, 20, 21, 22, 23, 28]

def text (signal : Signal) : String :=
  toString signal.number ++ signal.name?.elim "" fun name => " (SIG" ++ name ++ ")"

example : text kill = "9 (SIGKILL)" ∧ text terminate = "15 (SIGTERM)" ∧ text ⟨40⟩ = "40" := by
  decide +kernel
example : ofName? "term" = some terminate ∧ ofName? "SIGTERM" = none := by decide +kernel

end Signal

end FrameTiming.Host
