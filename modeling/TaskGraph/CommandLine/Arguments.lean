import TaskGraph.CommandLine.Grammar
import TaskGraph.Data.Value
import TaskGraph.Text.Blank
import TaskGraph.Yaml.Typed

/-!
The arguments of the program: which command it is to carry out, with what options.
-/

namespace TaskGraph.CommandLine

inductive Command where
  | run (definition : String) (assignments : List String) (dryRun : Bool) (output : Option String)
    (maxConcurrent : Option Nat)
  | validate (definition : String)
  deriving DecidableEq, Repr

structure Arguments where
  command : Command
  verbose : Bool
  config : Option String
  noColor : Bool
  deriving DecidableEq, Repr

/-- The options that may stand at every level. -/
def everywhere : List OptionRule := [
  ⟨"verbose",some 'v',.flag⟩,
  ⟨"config",some 'c',.value .path false⟩,
  ⟨"no-color",none,.flag⟩,
  ⟨"help",some 'h',.help⟩]

def definitionPlace : OptionRule := ⟨"definition",none,.value .path false⟩

def topLevel : Level where
  options := everywhere ++ [⟨"version",some 'V',.version⟩]
  commands := ["run","validate","help"]

def runLevel : Level where
  options := everywhere ++ [
    ⟨"var",some 'V',.value .text true⟩,
    ⟨"dry-run",none,.flag⟩,
    ⟨"output",some 'o',.value .path false⟩,
    ⟨"max-concurrent",none,.value .count false⟩]
  place := some definitionPlace

def validateLevel : Level where
  options := everywhere
  place := some definitionPlace

/-- Help on commands. -/
def helpFault : List String → Fault
  | [] => .helpAsked
  | [name] => if topLevel.commands.contains name then .helpAsked else .unknownCommand
  | _ => .unknownCommand

/-- Reads all arguments of a level that has no commands; its place has to be filled. -/
def readLevel (level : Level) (args : List String) : Except Fault (Seen × String) := do
  let (s,_) ← Seen.read level {} args
  let s ← s.settle
  match s.value? definitionPlace.name with
  | some definition => .ok (s,definition)
  | none => .error .missingArgument

def runCommand (s : Seen) (definition : String) : Command :=
  .run definition (s.values "var") (s.has "dry-run") (s.value? "output")
    ((s.value? "max-concurrent").bind Text.unsigned?)

namespace Arguments

/-- Of an option given at both levels the inner one counts. -/
def assemble (outer inner : Seen) (command : Command) : Arguments where
  command
  verbose := outer.has "verbose" || inner.has "verbose"
  config := (inner.value? "config").orElse fun _ => outer.value? "config"
  noColor := outer.has "no-color" || inner.has "no-color"

/-- Reads the arguments that follow the name of the program. -/
def parse (args : List String) : Except Fault Arguments := do
  match ← Seen.read topLevel {} args with
  | (s,none) => do
    let s ← s.settle
    .error (if s.given.isEmpty then .nothingGiven else .missingCommand)
  | (s,some ("run",rest)) => do
    let (inner,definition) ← readLevel runLevel rest
    .ok (assemble (← s.settle) inner (runCommand inner definition))
  | (s,some ("validate",rest)) => do
    let (inner,definition) ← readLevel validateLevel rest
    .ok (assemble (← s.settle) inner (.validate definition))
  | (_,some (_,rest)) => .error (helpFault rest)

end Arguments

/-- Why a text sets no variable. -/
inductive VariableFault where
  | noEquals (text : String)
  | noName (text : String)
  deriving DecidableEq, Repr

def VariableFault.text : VariableFault → String
  | .noEquals s => s!"Invalid variable format '{s}'. Expected 'key=value'"
  | .noName s => s!"Variable name cannot be empty in '{s}'"

/-- A truth value or a number if the text is one, else the text itself. -/
def variableValue (text : String) : Value :=
  match (Yaml.Node.parse? .whole text).bind Yaml.Node.value? with
  | some v@(.bool _) | some v@(.int _) | some v@(.float _) => v
  | _ => .string text

def readVariable (s : String) : Except VariableFault (String × Value) :=
  match s.toList.span (· != '=') with
  | (_,[]) => .error (.noEquals s)
  | (name,_::value) =>
    let name := Text.trim (String.ofList name)
    if name.isEmpty then .error (.noName s)
    else .ok (name,variableValue (String.ofList value))

/-- Reads `name=value` texts; of two with one name the later counts. -/
def readVariables (texts : List String) : Except VariableFault Fields := do
  .ok (Fields.ofList (← texts.mapM readVariable))

end TaskGraph.CommandLine
