import TaskGraph.Action.Builtin
import TaskGraph.Shell.Process
import TaskGraph.Text.Blank

/-!
The action that runs a program or a script and keeps its exit code and what it wrote.
-/

namespace TaskGraph.Action

structure CommandParams where
  command : Option String
  args : List String
  script : Option String
  shell : String
  env : List (String × String)
  workingDir : Option String
  expected : List Int

namespace CommandParams

def read : Params.Read CommandParams :=
  Params.record "CommandParams"
    ["command","args","script","shell","env","working_dir","expected_exit_codes"]
    ⟨none,[],none,"sh",[],none,[0]⟩ fun r name v =>
    if name = "command" then (Params.optional Params.text v).map fun x => {r with command := x}
    else if name = "args" then (Params.list Params.text v).map fun x => {r with args := x}
    else if name = "script" then (Params.optional Params.text v).map fun x => {r with script := x}
    else if name = "shell" then (Params.text v).map fun x => {r with shell := x}
    else if name = "env" then (Params.table Params.text v).map fun x => {r with env := x}
    else if name = "working_dir" then
      (Params.optional Params.text v).map fun x => {r with workingDir := x}
    else (Params.list Params.code v).map fun x => {r with expected := x}

/-- Exactly one of a command and a script is given, and it is not blank. -/
def fault? (p : CommandParams) : Option String :=
  match p.command, p.script with
  | none, none => some "either 'command' or 'script' must be provided"
  | some _, some _ => some "cannot specify both 'command' and 'script'"
  | some c, none => if Text.isBlankText c then some "command cannot be empty" else none
  | none, some s =>
    if Text.isBlankText s then some "script cannot be empty"
    else if Text.isBlankText p.shell then some "shell cannot be empty in script mode"
    else none

def read? (v : Value) : Except Fault CommandParams := do
  let p ← (read v).mapError (Fault.ofParams "command")
  match p.fault? with
  | some message => .error (.badParams "command" message)
  | none => .ok p

def program (p : CommandParams) : String :=
  match p.script, p.command with
  | none, some c => c
  | _, _ => p.shell

def arguments (p : CommandParams) : List String :=
  match p.script with
  | some s => ["-c",s]
  | none => p.args

/-- All the texts that the program is started with. -/
def texts (p : CommandParams) : List String :=
  p.program::p.arguments ++ p.env.flatMap (fun e => [e.1,e.2]) ++ p.workingDir.toList

def hasNul (p : CommandParams) : Bool := p.texts.any fun s => s.toList.any (·.toNat == 0)

/-- A fault of the system, with its words and its number. -/
def systemFault (fault : Shell.PathFault) : Fault :=
  .io s!"{fault.text} (os error {fault.number})"

/-- Runs the program; the fault says why it could not start. -/
def outcome? (p : CommandParams) : Except Fault Shell.Outcome :=
  if p.hasNul then .error (.io "nul byte found in provided data")
  else
    let ended := do
      let directory ← Shell.Process.directory? (p.workingDir.getD "/")
      Shell.Process.start p.env directory p.program p.arguments
    ended.mapError systemFault

/-- What a program that was killed leaves in place of an exit code. -/
def killedCode : Int := -1

def codesText (codes : List Int) : String := "[" ++ ", ".intercalate (codes.map toString) ++ "]"

/-- The result of a finished program: a failure if its exit code was not expected. -/
def result (p : CommandParams) (o : Shell.Outcome) : Except Fault Value :=
  let code : Int := match o.code with
    | some n => n
    | none => killedCode
  let out := Text.decodeBytes o.out
  let err := Text.decodeBytes o.err
  if p.expected.contains code then
    .ok (.ofPairs [("exit_code",.int code),("stdout",.string out),("stderr",.string err)])
  else
    let detail := Text.trim err
    .error (.failed (s!"command exited with unexpected code {code} (expected one of "
      ++ codesText p.expected ++ ")" ++ (if detail.isEmpty then "" else ": " ++ detail)))

end CommandParams

def command : Action where
  name := "command"
  logged := false
  check v := (CommandParams.read? v).map fun _ => ()
  start use :=
    let ended : Except Fault Value := do
      let p ← CommandParams.read? use.params
      p.result (← p.outcome?)
    match CommandParams.read? use.params |>.bind CommandParams.outcome? with
    | .ok _ => {Work.ofExcept ended with heeds := true}
    | .error _ => .ofExcept ended

/-- The actions that are always at hand. -/
def builtins : Actions := [echo,fail,sleep,command]

end TaskGraph.Action
