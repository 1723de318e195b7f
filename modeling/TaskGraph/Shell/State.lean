import TaskGraph.Shell.Fields
import TaskGraph.Shell.Place
import TaskGraph.Shell.Syntax

/-!
What a running script holds: its variables, functions and streams, which a copy of it changes for
itself, and the world, which all share: the bytes that have been written and the processes that ran.
-/

namespace TaskGraph.Shell

/-- Where the bytes of a stream go, or come from. -/
inductive Stream where
  | nothing
  | out
  | err
  | broken
  /-- Bytes that are read in the order in which they were written. -/
  | buffer (n : Nat)
  | file (path : String)
  deriving DecidableEq, Repr

/-- A process in the background: its exit code, and when it ends. -/
structure Job where
  pid : Nat
  status : Nat
  ends : Nat
  deriving DecidableEq, Repr

structure World where
  out : String := ""
  err : String := ""
  buffers : Array (List Char) := #[]
  files : Files := []
  /-- How many processes there have been. -/
  processes : Nat := 0
  /-- Signals that have been sent and were not handled yet, with the processes they go to. -/
  signals : List (Nat × Nat) := []
  /-- Milliseconds since the start. -/
  clock : Nat := 0

structure Variable where
  value : Option String
  exported : Bool := false
  fixed : Bool := false
  deriving DecidableEq, Repr

structure State where
  world : World
  title : String
  arguments : List String := []
  bindings : List (String × Variable)
  functions : List (String × Script) := []
  aliases : List (String × String) := []
  documents : Array Word := #[]
  /-- The letters of the options that are on. -/
  options : List Char := []
  directory : String
  streams : List (Nat × Stream)
  /-- Scripts that run when a signal comes, or at the end for signal zero. -/
  traps : List (Nat × String) := []
  /-- The exit code of the last command. -/
  status : Nat := 0
  /-- The exit code of the last script within a word of the command at hand. -/
  substituted : Nat := 0
  /-- The line of the command at hand. -/
  line : Nat := 1
  /-- The line that the reader has come to. -/
  reading : Nat := 1
  /-- The builtin command that is running. -/
  speaker : Option String := none
  jobs : List Job := []
  lastJob : Option Nat := none
  /-- How many loops are around the command at hand. -/
  loops : Nat := 0
  /-- How many calls of functions are around it. -/
  calls : Nat := 0
  /-- The variables to restore, for each command that has its own. -/
  hidden : List (List (String × Option Variable)) := []
  /-- The argument that the next option is looked for in, and how far the one before it has been
  read. -/
  nextOption : Nat := 1
  taken : Nat := 0
  /-- The exit code to end with, while a script of a trap runs. -/
  resumed : Option Nat := none
  umask : Nat := 0o022
  /-- What was written could not be kept. -/
  refused : Bool := false
  /-- The process, and the one that the script started as. -/
  pid : Nat
  root : Nat

/-- How a command ends other than by going on to the next. -/
inductive Flow where
  | exited
  /-- A complaint was made that ends the script, unless a builtin command made it. -/
  | failed
  | returned
  /-- That many loops end. -/
  | left (loops : Nat)
  /-- The last of that many loops goes on with its next turn. -/
  | next (loops : Nat)
  | killed (signal : Nat)
  deriving DecidableEq, Repr

abbrev Run := ExceptT Flow (StateM State)

namespace Run

def stream? (n : Nat) : Run (Option Stream) := return (← get).streams.lookup n

/-- Writes to a stream of the process. -/
def write (n : Nat) (text : String) : Run Unit := do
  let s ← get
  let w := s.world
  match s.streams.lookup n with
  | some .nothing => return
  | some .out => set {s with world := {w with out := w.out ++ text}}
  | some .err => set {s with world := {w with err := w.err ++ text}}
  | some (.buffer i) =>
    set {s with world := {w with buffers := w.buffers.modify i (· ++ text.toList)}}
  | some (.file path) =>
    let before := (w.files.lookup path).getD ""
    set {s with world :=
      {w with files := (path,before ++ text)::w.files.filter (·.1 != path)}}
  | some .broken | none => if !text.isEmpty then set {s with refused := true}

/-- Writes to the standard output. -/
def put (text : String) : Run Unit := write 1 text

/-- A complaint, with the line of the command and the builtin command that makes it. -/
def warn (text : String) : Run Unit := do
  let s ← get
  let speaker := match s.speaker with
    | some name => name ++ ": "
    | none => ""
  write 2 s!"{s.title}: {s.line}: {speaker}{text}\n"
  modify fun after => {after with refused := s.refused}

/-- A complaint that ends what is running. -/
def fail {α : Type} (text : String) : Run α := do
  warn text
  modify fun s => {s with status := 2}
  throw .failed

def isOn (letter : Char) : Run Bool := return (← get).options.contains letter

def variableOf? (name : String) : Run (Option Variable) := return (← get).bindings.lookup name

/-- The value of a variable. -/
def value? (name : String) : Run (Option String) := return (← variableOf? name).bind (·.value)

def store (name : String) (v : Variable) : Run Unit := modify fun s =>
  {s with bindings := (name,v)::s.bindings.filter (·.1 != name)}

/-- Sets a variable. What it was marked as, it keeps. -/
def assign (name value : String) (exported : Bool) : Run Unit := do
  let exported := exported || (← isOn 'a')
  if !isName name then fail s!"{name}: bad variable name"
  match ← variableOf? name with
  | some v =>
    if v.fixed then fail s!"{name}: is read only"
    store name {v with value := some value, exported := v.exported || exported}
  | none => store name {value := some value, exported}
  if name = "OPTIND" then modify fun s => {s with nextOption := max 1 (value.toNat?.getD 1), taken := 0}

/-- Keeps a variable as it is until the command that has its own is over. -/
def hide (name : String) : Run Unit := modify fun s =>
  let kept := (name,s.bindings.lookup name)
  {s with hidden := match s.hidden with
    | frame::frames => (kept::frame)::frames
    | [] => [[kept]]}

def pushFrame : Run Unit := modify fun s => {s with hidden := []::s.hidden}

/-- Restores the variables of the innermost command. -/
def popFrame : Run Unit := modify fun s =>
  match s.hidden with
  | [] => s
  | frame::frames =>
    {s with
      hidden := frames
      bindings := frame.foldl (fun vs (name,v) =>
        let others := vs.filter (·.1 != name)
        match v with
        | some v => (name,v)::others
        | none => others) s.bindings}

def separators : Run Separators := return match ← value? "IFS" with
  | some s => ⟨s.toList⟩
  | none => .usual

/-- The whole number that an argument is. -/
def number (text : String) (read : String → Option Int) : Run Int :=
  match read text with
  | some n => return n
  | none => fail s!"Illegal number: {text}"

/-- A new buffer that holds a text. -/
def buffer (text : List Char) : Run Stream := modifyGet fun s =>
  let w := s.world
  (.buffer w.buffers.size,{s with world := {w with buffers := w.buffers.push text}})

def setStream (n : Nat) (stream : Option Stream) : Run Unit := modify fun s =>
  let others := s.streams.filter (·.1 != n)
  {s with streams := match stream with
    | some stream => (n,stream)::others
    | none => others}

/-- Takes all bytes from the standard input. -/
def allBytes : Run (List Char) := modifyGet fun s =>
  match s.streams.lookup 0 with
  | some (.buffer i) =>
    (s.world.buffers[i]?.getD [],
      {s with world := {s.world with buffers := s.world.buffers.setIfInBounds i []}})
  | _ => ([],s)

/-- Puts bytes back in front of the standard input. -/
def giveBack (text : List Char) : Run Unit := modify fun s =>
  match s.streams.lookup 0 with
  | some (.buffer i) =>
    {s with world := {s.world with buffers := s.world.buffers.setIfInBounds i text}}
  | _ => s

/-- Runs something, and something else whatever the end of it. -/
def ensuring {α : Type} (body : Run α) (after : Run Unit) : Run α :=
  tryCatch (do let x ← body; after; return x) fun flow => do after; throw flow

end Run

namespace State

/-- The order in which the letters of options are told. -/
def letters : List Char :=
  ['u','b','a','C','E','V','v','x','s','n','m','i','I','f','e']

/-- The names of the options that have one, in the order in which they are listed. -/
def optionNames : List (String × Char) :=
  [("errexit",'e'),("noglob",'f'),("ignoreeof",'I'),("interactive",'i'),("monitor",'m'),
    ("noexec",'n'),("stdin",'s'),("xtrace",'x'),("verbose",'v'),("vi",'V'),("emacs",'E'),
    ("noclobber",'C'),("allexport",'a'),("notify",'b'),("nounset",'u'),("nolog",'1'),("debug",'2')]

/-- The environment of a program that is started. -/
def environment (s : State) : List (String × String) :=
  (s.bindings.filterMap fun (name,v) =>
    if v.exported then v.value.map fun x => (name,x) else none).reverse

end State

end TaskGraph.Shell
