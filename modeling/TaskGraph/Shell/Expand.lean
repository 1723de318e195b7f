import TaskGraph.Shell.Arithmetic
import TaskGraph.Shell.State

/-!
What words stand for: parameters, arithmetic and the output of scripts are put in their places, and
what they bring may be split into fields. How a script within a word is run is given from outside.
-/

namespace TaskGraph.Shell

namespace Run

/-- The value of a parameter that is not the row of all arguments. -/
def parameter? (name : String) : Run (Option String) := do
  let s ← get
  match name with
  | "#" => return some (toString s.arguments.length)
  | "?" => return some (toString s.status)
  | "$" => return some (toString s.root)
  | "!" => return s.lastJob.map fun n => toString n
  | "-" => return some (String.ofList (State.letters.filter s.options.contains))
  | "0" => return some s.title
  | name =>
    if name.toList.head?.any Char.isDigit then return s.arguments[name.toNat?.getD 0-1]?
    else value? name

/-- Complains about a parameter that has no value. -/
def missing {α : Type} (name : String) : Run α := fail s!"{name}: parameter not set"

end Run

namespace Expand

/-- A text that was brought into a word. -/
def brought (quoted : Bool) (text : String) : List Bit :=
  if quoted then text.toList.map .fixed else .edge::text.toList.map .loose

/-- The variables of the script, for arithmetic. -/
def numbers : Arithmetic.Variables Run where
  get name := do
    let text := (← Run.value? name).getD ""
    return match Arithmetic.held? text with
      | some n => .ok n
      | none => .error (.badNumber text)
  set name value := Run.assign name (toString value) false

def arithmetic (text : String) : Run String := do
  match ← (Arithmetic.value numbers text.toList).run with
  | .ok x => return toString x
  | .error fault => Run.fail (fault.message text)

/-- All arguments in a row: each as a field of its own, or with separators between them. -/
def arguments (name : String) (split quoted : Bool) : Run (List Bit) := do
  let args := (← get).arguments
  if quoted && split && name == "@" then
    return [Bit.stop].intercalate (args.map fun a => .mark::brought true a)
  else
    let ifs ← Run.value? "IFS"
    let between : List Char := if split && !quoted then [gap]
      else match ifs with
        | some s => s.toList.take 1
        | none => [' ']
    return brought quoted (String.ofList (between.intercalate (args.map String.toList)))

/-- The bits of a parameter's value; nothing when it has none. -/
def value? (name : String) (split quoted : Bool) : Run (Option (List Bit)) := do
  if name = "@" ∨ name = "*" then return some (← arguments name split quoted)
  else return (← Run.parameter? name).map (brought quoted)

/-- The home of a user; the one at hand has no name. -/
def home? (user : String) : Run (Option String) :=
  if user.isEmpty then Run.value? "HOME"
  else if user = "root" then return some "/root"
  else return none

/-- The name of a user behind a tilde, and what follows it. -/
def user? (colon : Bool) (w : Word) : Option (String × Word) :=
  let isPart : Part → Bool
    | .char c false => c != '/' && !(colon && c == ':')
    | _ => false
  let rest := w.dropWhile isPart
  match Word.plain? (w.takeWhile isPart), rest with
  | some name, [] | some name, .char _ false::_ => some (name,rest)
  | _, _ => none

/-- The home that a tilde at the start of a word means, and how many characters mean it. -/
def home (colon : Bool) (w : Word) : Run (Option (String × Nat)) := do
  match w with
  | .char '~' false::rest =>
    match user? colon rest with
    | some (name,_) => return (← home? name).map fun path => (path,name.length+1)
    | none => return none
  | _ => return none

/-- Puts a home in the place of a tilde at the start of a word with the given bits. -/
def homed (w : Word) (bits : List Bit) : Run (List Bit) := do
  match ← home false w with
  | some (path,size) => return path.toList.map .fixed ++ bits.drop size
  | none => return bits

/-- Puts homes in the places of tildes at the start of a value and behind its colons. -/
def tildes : Nat → Word → Run Word
  | 0, w => return w
  | n+1, w => do
    let w := match ← home true w with
      | some (path,size) => path.toList.map (Part.char · true) ++ w.drop size
      | none => w
    let isColon : Part → Bool
      | .char ':' false => true
      | _ => false
    let first := w.takeWhile fun p => !isColon p
    match w.drop first.length with
    | colon::rest => return first ++ colon::(← tildes n rest)
    | [] => return first

/-- Puts homes into an argument that assigns, which keeps the name in front. -/
def assignedTildes (w : Word) : Run Word := do
  match w.assignment? with
  | some (name,value) =>
    return (name.toList ++ ['=']).map (Part.char · false) ++ (← tildes (value.length+1) value)
  | none => return w

def needs (full : Bool) (bits : Option (List Bit)) : Option (List Bit) :=
  if full then bits.filter fun bs => bs.any fun b => b.char?.isSome else bits

variable (run : Script → Run String)

mutual

/-- The bits of a part. `split` tells whether they will be split, `within` whether the part stands in a
word that may take a parameter's place. -/
def part (split within : Bool) : Part → Run (List Bit)
  | .char c quoted => return [if quoted then .fixed c else if within then .loose c else .plain c]
  | .mark => return [.mark]
  | .unreadable => Run.fail "Bad substitution"
  | .output script quoted => return brought quoted (← run script)
  | .arithmetic text quoted => do
    return brought quoted (← arithmetic (textOf (← word false false text)))
  | .parameter name .value quoted => do
    match ← value? name split quoted with
    | some bits => return bits
    | none => if ← Run.isOn 'u' then Run.missing name else return []
  | .parameter name .length quoted => do
    match ← value? name split quoted with
    | some bits =>
      return brought quoted (toString ((bits.filter fun b => b.char?.isSome || b == .stop).length))
    | none =>
      if ← Run.isOn 'u' then Run.missing name
      return brought quoted "0"
  | .parameter name (.fallback full w) quoted => do
    match needs full (← value? name split quoted) with
    | some bits => return bits
    | none => return (if quoted then [] else [.edge]) ++ (← homed w (← word split true w))
  | .parameter name (.instead full w) quoted => do
    match needs full (← value? name split quoted) with
    | some _ => return (if quoted then [] else [.edge]) ++ (← homed w (← word split true w))
    | none => return []
  | .parameter name (.assign full w) quoted => do
    match needs full (← value? name split quoted) with
    | some bits => return bits
    | none =>
      Run.assign name (textOf (← homed w (← word false true w))) false
      return (← value? name split quoted).getD []
  | .parameter name (.demand full w) quoted => do
    match needs full (← value? name split quoted) with
    | some bits => return bits
    | none =>
      if w.isEmpty then
        Run.fail (name ++ ": parameter not set" ++ if full then " or null" else "")
      else Run.fail s!"{name}: {textOf (← word false true w)}"
  | .parameter name (.cut side longest p) quoted => do
    match ← value? name split quoted with
    | some bits =>
      let pattern := patternOf (← word false false p)
      let text := (textOf bits).toList
      return brought quoted (String.ofList (pattern.cut (side == .front) longest text))
    | none => if ← Run.isOn 'u' then Run.missing name else return []

/-- The bits of a word. -/
def word (split within : Bool) : Word → Run (List Bit)
  | [] => return []
  | p::ps => do return (← part split within p) ++ (← word split within ps)

end

/-- The fields of a word. -/
def fields (w : Word) : Run (List String) := do
  let bits ← homed w (← word run true false w)
  return (fieldsOf (← Run.separators) bits).map textOf

/-- The text of a word that is not split. -/
def text (w : Word) : Run String := do
  return textOf (← homed w (← word run false false w))

/-- The text that a variable is set to. -/
def assigned (w : Word) : Run String := do
  return textOf (← word run false false (← tildes (w.length+1) w))

def pattern (w : Word) : Run Pattern := do
  return patternOf (← homed w (← word run false false w))

end Expand

/-- A redirection whose words are known. -/
inductive Tie where
  | input (stream : Nat) (path : String)
  | output (stream : Nat) (path : String) (force : Bool)
  | append (stream : Nat) (path : String)
  | update (stream : Nat) (path : String)
  | copy (stream : Nat) (source : Option Nat)
  | document (stream : Nat) (text : String)
  deriving DecidableEq, Repr

namespace Tie

variable (run : Script → Run String)

def ofRedirect : Redirect → Run Tie
  | .input n path => return .input n (← Expand.text run path)
  | .output n path force => return .output n (← Expand.text run path) force
  | .append n path => return .append n (← Expand.text run path)
  | .update n path => return .update n (← Expand.text run path)
  | .copy n target => do
    let text ← Expand.text run target
    match text.toList with
    | ['-'] => return .copy n none
    | [c] => if c.isDigit then return .copy n (some (c.toNat-48)) else noStream
    | _ => noStream
  | .document n index => do
    let w := (← get).documents[index]?.getD []
    return .document n (textOf (← Expand.word run false false w))
where
  noStream {α : Type} : Run α := do
    modify fun s => {s with line := s.reading}
    Run.fail "Syntax error: Bad fd number"

/-- Complains about a path that cannot be opened or made. -/
def refuse {α : Type} (made : Bool) (path : String) (fault : PathFault) : Run α :=
  let cause := match fault with
    | .absent | .notDirectory => if made then "Directory nonexistent" else "No such file"
    | fault => fault.text
  Run.fail ((if made then "cannot create " else "cannot open ") ++ path ++ ": " ++ cause)

def device (made : Bool) (path : String) : Device → Run Stream
  | .null | .zero => return .nothing
  | .full => return .broken
  | .terminal => refuse made path .noDevice
  | .stream n => do
    match (← get).streams.lookup n with
    | some stream => return stream
    | none => refuse made path .absent

/-- A file to read from. -/
def openInput (path : String) : Run Stream := do
  let s ← get
  match Place.find s.world.files s.directory path with
  | .ok (_,.file content) => Run.buffer content.toList
  | .ok (_,.device d) => device false path d
  | .ok _ => return .nothing
  | .error fault => refuse false path fault

/-- A file to write to. -/
def openOutput (path : String) (fresh clear : Bool) : Run Stream := do
  let s ← get
  match Place.resolve s.world.files s.directory path with
  | .error fault => refuse true path fault
  | .ok found =>
    match Place.kind? s.world.files found with
    | some .directory => refuse true path .isDirectory
    | some (.device d) => device true path d
    | some (.program _) => refuse true path .denied
    | some (.file content) =>
      if fresh then refuse true path .taken
      else keep found (if clear then "" else content)
    | none => keep found ""
where
  keep (path content : String) : Run Stream := do
    modify fun s => {s with world := {s.world with
      files := (path,content)::s.world.files.filter (·.1 != path)}}
    return .file path

/-- Ties a stream. -/
def apply : Tie → Run Unit
  | .input n path => do Run.setStream n (some (← openInput path))
  | .output n path force => do
    let fresh := !force && (← Run.isOn 'C')
    Run.setStream n (some (← openOutput path fresh true))
  | .append n path => do Run.setStream n (some (← openOutput path false false))
  | .update n path => do Run.setStream n (some (← openOutput path false false))
  | .copy n none => Run.setStream n none
  | .copy n (some m) => do
    match (← get).streams.lookup m with
    | some stream => Run.setStream n (some stream)
    | none => Run.fail s!"{m}: Bad file descriptor"
  | .document n text => do Run.setStream n (some (← Run.buffer text.toList))

end Tie

end TaskGraph.Shell
