import TaskGraph.CommandLine.Session
import TaskGraph.RunResult.Wire

/-!
The program: looks at the files that its session may need, and prints and writes what the session
gives.
-/

open TaskGraph

namespace TaskGraph.CommandLine

/-- What stands at a path. What is there and cannot be read as a file is taken for a directory. -/
def lookAt (path : String) : IO (List (String × Entry)) := do
  match ← (IO.FS.readFile path).toBaseIO with
  | .ok text => return [(path,.file text)]
  | .error (.noFileOrDirectory ..) => return []
  | .error _ => return [(path,.directory)]

/-- The path around a path. -/
def around (path : String) : String :=
  String.ofList (path.toList.reverse.dropWhile (· != '/')).reverse

/-- The paths that a session with some arguments looks at. -/
def pathsOf (home : Option String) : Except Fault Arguments → List String
  | .error _ => []
  | .ok a =>
    let homes := (home.map fun home => home ++ "/.trellis/config.yaml").toList
    let own := match a.command with
      | .run definition _ _ output _ => definition::output.toList.map around
      | .validate definition => [definition]
    configNames ++ homes ++ a.config.toList ++ own

def environmentNames : List String :=
  ["TRELLIS_MAX_CONCURRENT","TRELLIS_LOG_LEVEL","TRELLIS_LOG_FORMAT","TRELLIS_RUN_TIMEOUT"]

def readVariable? (name : String) : IO (List (String × String)) := do
  match ← IO.getEnv name with
  | some v => return [(name,v)]
  | none => return []

end TaskGraph.CommandLine

open TaskGraph.CommandLine

/-- Times in the written outcome are those of the engine's clock, which starts at zero. -/
def main (args : List String) : IO UInt32 := do
  let home ← IO.getEnv "HOME"
  let entries ← (pathsOf home (Arguments.parse args)).mapM lookAt
  let environment ← environmentNames.mapM CommandLine.readVariable?
  let place : Place := { entries := entries.flatten, home, environment := environment.flatten }
  let exit := session place args
  for line in exit.lines do
    IO.println line
  match exit.written with
  | some (path,result) =>
    let number ← IO.rand 0 (Nat.pow 2 62)
    IO.FS.writeFile path (result.pretty (toString number) ⟨0,0⟩ ⟨0,0⟩)
  | none => pure ()
  match exit.message with
  | some message => IO.eprintln message
  | none => pure ()
  return exit.code.toUInt32
