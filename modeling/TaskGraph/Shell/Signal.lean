import TaskGraph.Shell.State

/-!
Signals: their names and numbers, and what they do to a process that does not expect them.
-/

namespace TaskGraph.Shell.Signal

/-- The names in the order of the numbers, from zero, which stands for the end of a script. -/
def names : List String :=
  ["EXIT","HUP","INT","QUIT","ILL","TRAP","ABRT","BUS","FPE","KILL","USR1","SEGV","USR2","PIPE","ALRM",
    "TERM","STKFLT","CHLD","CONT","STOP","TSTP","TTIN","TTOU","URG","XCPU","XFSZ","VTALRM","PROF",
    "WINCH","IO","PWR","SYS"]

def limit : Nat := 65

/-- The number of a signal that is named or numbered; names from `least` on count. -/
def number? (least : Nat) (text : String) : Option Nat :=
  if !text.isEmpty && text.toList.all Char.isDigit then text.toNat?.filter (· < limit)
  else (names.findIdx? (· == text.map Char.toUpper)).filter (least ≤ ·)

def name (n : Nat) : String := names[n]?.getD (toString n)

/-- Signals that pass over a process that does not expect them. -/
def isHarmless (n : Nat) : Bool :=
  ["CHLD","CONT","STOP","TSTP","TTIN","TTOU","URG","WINCH"].contains (name n)

def kill : Nat := 9

/-- Ends a process that has run out of room. -/
def overflow : Nat := 11

/-- Signals that no process can expect. -/
def isHard (n : Nat) : Bool := n == kill || name n == "STOP"

/-- What is said of a process that a signal ended; nothing about some. -/
def epitaph? (n : Nat) : Option String :=
  if n = 2 ∨ n = 13 then none
  else some (match name n with
    | "HUP" => "Hangup"
    | "QUIT" => "Quit"
    | "ILL" => "Illegal instruction"
    | "TRAP" => "Trace/breakpoint trap"
    | "ABRT" => "Aborted"
    | "BUS" => "Bus error"
    | "FPE" => "Floating point exception"
    | "KILL" => "Killed"
    | "USR1" => "User defined signal 1"
    | "SEGV" => "Segmentation fault"
    | "USR2" => "User defined signal 2"
    | "ALRM" => "Alarm clock"
    | "TERM" => "Terminated"
    | other => other)

/-- The exit code that stands for the end by a signal. -/
def status (n : Nat) : Nat := 128+n

/-- Sends a signal to a process of the script; tells whether there is such a process. -/
def send (pid signal : Nat) : Run Bool := do
  let s ← get
  match s.jobs.find? (·.pid == pid) with
  | some job =>
    if s.world.clock < job.ends && signal != 0 && !isHarmless signal then
      set {s with jobs := s.jobs.map fun (j : Job) =>
        if j.pid == pid then {j with status := status signal, ends := s.world.clock} else j}
    return true
  | none =>
    if pid = s.pid ∨ pid = s.root then
      if signal != 0 then
        set {s with world := {s.world with signals := s.world.signals ++ [(pid,signal)]}}
      return true
    else return false

end TaskGraph.Shell.Signal
