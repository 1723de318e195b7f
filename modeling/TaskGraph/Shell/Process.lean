import TaskGraph.Shell.Run
import TaskGraph.Text.Bytes

/-!
A program started from outside: what its process writes and how it ends, or why it cannot start.
-/

namespace TaskGraph.Shell

/-- What a finished process leaves: its exit code, unless it was killed, and what it wrote. -/
structure Outcome where
  code : Option Nat
  out : List UInt8
  err : List UInt8

namespace Process

/-- A text as a row of bytes. -/
def row (s : String) : String :=
  String.ofList ((Text.bytes s).map fun b => Char.ofNat b.toNat)

def bytes (s : String) : List UInt8 := s.toList.map fun c => UInt8.ofNat c.toNat

/-- The variables that every process is given. -/
def usual : List (String × String) := [("HOME","/root"),("PATH",Program.usualSearch)]

/-- How many steps deep the running of a program may go. -/
def patience : Nat := 10000000

def firstPid : Nat := 4000

/-- The directory that a path leads to. -/
def directory? (path : String) : Except PathFault String := Place.findDirectory [] "/" (row path)

/-- Runs a program in a directory, with variables besides the usual ones. -/
def start (environment : List (String × String)) (directory program : String)
    (arguments : List String) : Except PathFault Outcome := do
  let given := environment.map fun (name,value) => (row name,row value)
  let all := usual.filter (fun (name,_) => (given.lookup name).isNone) ++ given
  let streams : List (Nat × Stream) := [(0,.nothing),(1,.out),(2,.err)]
  let s := State.fresh {} all directory streams firstPid (row program)
  let _ ← Program.find? s ((all.lookup "PATH").getD "") (row program)
  let (result,after) :=
    (TaskGraph.Shell.program patience ((program::arguments).map row)).run.run s
  let code := match result with
    | .error (.killed _) => none
    | _ => some (after.status%256)
  return ⟨code,bytes after.world.out,bytes after.world.err⟩

end Process

end TaskGraph.Shell
