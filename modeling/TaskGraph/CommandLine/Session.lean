import TaskGraph.Action.Command
import TaskGraph.CommandLine.Arguments
import TaskGraph.CommandLine.Report
import TaskGraph.Config
import TaskGraph.Definition.Wire

/-!
A session of the program: from arguments, files and the environment to what is printed, what is
written, and how the program ends.
-/

namespace TaskGraph.CommandLine

inductive Entry where
  | file (text : String)
  | directory
  deriving DecidableEq, Repr

/-- Where the program runs. -/
structure Place where
  entries : List (String × Entry)
  home : Option String := none
  environment : List (String × String) := []

namespace Place

/-- The parts of a path, without those that mean the place itself. -/
def parts (path : String) : List String :=
  let cs := (path.splitOn "/").filter fun part => part != "" && part != "."
  if path.startsWith "/" then "/"::cs else cs

/-- What stands at a path. A directory is there as soon as something lies in it. -/
def find? (p : Place) (path : String) : Option Entry :=
  let wanted := parts path
  match p.entries.find? fun e => parts e.1 == wanted with
  | some e => some e.2
  | none =>
    if path.isEmpty then none
    else if wanted.isEmpty || p.entries.any (fun e => wanted.isPrefixOf (parts e.1)) then
      some .directory
    else none

def environment? (p : Place) (name : String) : Option String :=
  (p.environment.find? fun v => v.1 == name).map (·.2)

/-- Whether a file can be written: there is no directory, and there is one around it. -/
def canWrite (p : Place) (path : String) : Bool :=
  let around := (parts path).dropLast
  p.find? path != some .directory
    && (around.isEmpty || p.find? ("/".intercalate around) == some .directory)

end Place

/-- How the program ends: its code, what it prints, why it failed, and what it writes to which
file. -/
structure Exit where
  code : Nat := 0
  lines : List String := []
  message : Option String := none
  written : Option (String × RunResult) := none

namespace Exit

/-- The end after a failure, besides what was printed and written before. -/
def fail (message : String) (before : Exit := {}) : Exit :=
  { before with code := 1, message := some s!"Error: {message}" }

def ofExcept : Except String Exit → Exit
  | .ok e => e
  | .error message => .fail message

end Exit

/-- The names under which a configuration is looked for. -/
def configNames : List String := ["trellis.yaml","trellis.yml",".trellis.yaml",".trellis.yml"]

/-- The path of the configuration that counts if none is named. -/
def findConfig (place : Place) : String :=
  let homes := (place.home.map fun home => home ++ "/.trellis/config.yaml").toList
  ((configNames ++ homes).find? fun path => (place.find? path).isSome).getD "trellis.yaml"

def readConfig (place : Place) (named : Option String) : Except String Config :=
  let path := named.getD (findConfig place)
  match place.find? path with
  | some (.file text) =>
    match Config.parse? text with
    | some c => .ok c
    | none => .error s!"Invalid config file {path}"
  | some .directory => .error s!"Failed to read config file {path}"
  | none => if named.isSome then .error s!"Config file not found: {path}" else .ok {}

def loadConfig (place : Place) (named : Option String) : Except String Config := do
  (← readConfig place named).override place.environment? |>.mapError Config.OverrideFault.message

def loadDefinition (place : Place) (path : String) : Except String Definition :=
  let definition? : Option Definition :=
    match place.find? path with
    | some (.file text) => (Definition.parse text).toOption
    | _ => none
  match definition? with
  | some d => .ok d
  | none => .error s!"Failed to parse task definition {path}"

def makeEngine (place : Place) (config : Config) (maxConcurrent : Option Nat) :
    Except String Engine :=
  let limits := { config.engine with maxConcurrent := maxConcurrent.getD config.maxConcurrent }
  let setting : Engine.Setting :=
    { actions := Action.builtins, surroundings := { environment := place.environment } }
  (Engine.make limits setting).mapError Engine.Fault.text

/-- Prints or writes the outcome of a run; only a successful run is a success. -/
def finish (place : Place) (result : RunResult) (millis : Nat) (output : Option String) : Exit :=
  let failure := s!"Run '{result.name}' finished with status: {result.status.text}"
  let ended (e : Exit) : Exit := if result.isSuccess then e else .fail failure e
  match output with
  | none => ended { lines := Report.run result millis }
  | some path =>
    if place.canWrite path then ended { written := some (path,result) }
    else .fail s!"Failed to write output file '{path}'"

def runSession (place : Place) (config : Config) (definition : String) (texts : List String)
    (dryRun : Bool) (output : Option String) (maxConcurrent : Option Nat) :
    Except String Exit := do
  let bindings ← (readVariables texts).mapError VariableFault.text
  let d ← loadDefinition place definition
  let e ← makeEngine place config maxConcurrent
  if dryRun then
    let g ← (e.validate d).mapError Engine.Fault.detail
    .ok { lines := Report.dryRun d.name g }
  else
    let w ← (e.start e.world d (Fields.union config.bindings bindings) 0 none).mapError
      Engine.Fault.text
    match (e.play w).outcome? 0 with
    | some (result,millis) => .ok (finish place result millis output)
    | none => .error "the run does not end"

def validateSession (place : Place) (config : Config) (definition : String) : Except String Exit := do
  let d ← loadDefinition place definition
  let e ← makeEngine place config none
  match d.build e.config.maxIterations with
  | .ok g => .ok { lines := Report.valid d.name g d.bindings.length }
  | .error faults =>
    .ok (.fail s!"Validation failed with {faults.length} error(s)"
      { lines := Report.invalid d.name faults })

def carryOut (place : Place) (a : Arguments) : Except String Exit := do
  let config ← loadConfig place a.config
  match a.command with
  | .run definition assignments dryRun output maxConcurrent =>
    runSession place config definition assignments dryRun output maxConcurrent
  | .validate definition => validateSession place config definition

/-- The whole session for the arguments that follow the name of the program. -/
def session (place : Place) (args : List String) : Exit :=
  match Arguments.parse args with
  | .ok a => .ofExcept (carryOut place a)
  | .error f => { code := f.exitCode, lines := if f = .versionAsked then [Report.version] else [] }

end TaskGraph.CommandLine
