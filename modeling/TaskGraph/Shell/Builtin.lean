import TaskGraph.Shell.Output
import TaskGraph.Shell.Signal
import TaskGraph.Shell.Test

/-!
The commands that the language brings, as far as they run no scripts themselves. Each gives its exit
code.
-/

namespace TaskGraph.Shell

abbrev Builtin := List String → Run Nat

namespace Builtin

/-- Complaints of these end the script, and what is assigned for them stays assigned. -/
def specials : List String :=
  [":",".","break","continue","eval","exec","exit","export","local","readonly","return","set",
    "shift","times","trap","unset"]

/-- Arguments of these that assign are not split. -/
def assigning : List String := ["alias","export","readonly","local"]

/-- The letters of the options in front of the words, with their arguments, and the words behind
them. A colon in `known` follows a letter that takes an argument. -/
def options (known : List Char) : Nat → List String → Run (List (Char × String) × List String)
  | 0, words => return ([],words)
  | n+1, words =>
    match words with
    | [] => return ([],[])
    | w::rest =>
      match w.toList with
      | '-'::c::cs => if w = "--" then return ([],rest) else letters n (c::cs) rest
      | _ => return ([],words)
where
  /-- The letters of one word. -/
  letters (n : Nat) : List Char → List String → Run (List (Char × String) × List String)
    | [], rest => options known n rest
    | c::cs, rest => do
      match known.dropWhile (· != c) with
      | [] => Run.fail s!"Illegal option -{c}"
      | ':'::_ => Run.fail s!"Illegal option -{c}"
      | _:: ':'::_ =>
        match cs, rest with
        | [], [] => Run.fail s!"No arg for -{c} option"
        | [], w::rest =>
          let (found,rest) ← options known n rest
          return ((c,w)::found,rest)
        | cs, rest =>
          let (found,rest) ← options known n rest
          return ((c,String.ofList cs)::found,rest)
      | _ =>
        let (found,rest) ← letters n cs rest
        return ((c,"")::found,rest)

def optionsOf (known : String) (words : List String) : Run (List (Char × String) × List String) :=
  options known.toList (words.length+1) words

/-- A number of an argument that must not be negative. -/
def count (text : String) : Run Nat := do
  let n ← Run.number text (Arithmetic.whole? Arithmetic.decimal?)
  if n < 0 ∨ n > 2147483647 then Run.fail s!"Illegal number: {text}"
  return n.toNat

def exitCode (ok : Bool) : Nat := if ok then 0 else 1

def echo : Builtin := fun words => do
  Run.put (Output.echo words)
  return 0

/-- What is said about a word in doubt. -/
def doubtText (word : String) : Output.Doubt → String
  | .noNumber => word ++ ": expected numeric value"
  | .moreThanNumber => word ++ ": not completely converted"
  | .outOfRange => word ++ ": Numerical result out of range"

def printf : Builtin := fun words => do
  match (← optionsOf "" words).2 with
  | [] => Run.fail "usage: printf format [arg ...]"
  | format::words =>
    let (text,doubts,stop) := Output.printf format words
    for (word,doubt) in doubts do Run.warn (doubtText word doubt)
    match stop with
    | some .noLetter => do
      Run.warn "missing format character"
      Run.put text
      modify fun s => {s with status := 2}
      throw .failed
    | some (.badDirective directive) => do
      Run.warn s!"{directive}: invalid directive"
      Run.put text
      modify fun s => {s with status := 2}
      throw .failed
    | _ => Run.put text
    return exitCode doubts.isEmpty

def test : Builtin := fun words => do
  let s ← get
  match Test.decide? ⟨s.world.files,s.directory,s.streams.map (·.1)⟩ words with
  | .ok b => return exitCode b
  | .error fault => Run.fail fault.message

def bracket : Builtin := fun words =>
  match words.getLast? with
  | some last => if last.startsWith "]" then test words.dropLast else Run.fail "missing ]"
  | none => Run.fail "missing ]"

def physical (s : State) : String := (Place.findDirectory s.world.files "/" s.directory).toOption.getD "/"

def pwd : Builtin := fun words => do
  let (found,_) ← optionsOf "LP" words
  let s ← get
  let whole := (found.getLast?.map (·.1)) == some 'P'
  Run.put ((if whole then physical s else s.directory) ++ "\n")
  return 0

/-- Goes to a directory; tells whether it is there. -/
def goTo (whole : Bool) (path : String) : Run Bool := do
  let s ← get
  let wanted := if whole then path else Place.logical s.directory path
  match Place.findDirectory s.world.files s.directory wanted with
  | .error _ => return false
  | .ok found =>
    let directory := if whole then found else wanted
    modify fun s => {s with directory}
    Run.assign "OLDPWD" s.directory true
    Run.assign "PWD" directory true
    return true

/-- Whether a path is tied to the root or to the directory at hand. -/
def isTied (path : String) : Bool :=
  match Place.names path with
  | first::_ => path.startsWith "/" || first == "." || first == ".."
  | [] => true

def cd : Builtin := fun words => do
  let (found,words) ← optionsOf "LP" words
  let whole := (found.getLast?.map (·.1)) == some 'P'
  let back := words.head? == some "-"
  let wanted ← match words with
    | "-"::_ => Run.value? "OLDPWD"
    | w::_ => pure (some w)
    | [] => Run.value? "HOME"
  let path := wanted.getD ""
  let said (path : String) (aloud : Bool) : Run Nat := do
    if ← goTo whole path then
      if aloud then Run.put ((← get).directory ++ "\n")
      return 0
    else Run.fail s!"can't cd to {path}"
  let path := if path.isEmpty then "." else path
  match ← Run.value? "CDPATH" with
  | some dirs =>
    if isTied path then said path back
    else
      let s ← get
      let hit := (dirs.splitOn ":").find? fun dir =>
        (Place.findDirectory s.world.files s.directory
          (if dir.isEmpty then path else dir ++ "/" ++ path)).toOption.isSome
      match hit with
      | some dir => said (if dir.isEmpty then path else dir ++ "/" ++ path) (back || !dir.isEmpty)
      | none => said path back
  | none => said path back

/-- A line as far as its end, whose flag tells that there was none, and what follows. A backslash takes
the meaning from the byte behind it, unless the line is read as it is. -/
def readLine (raw : Bool) : List Char → List Bit × Bool × List Char
  | [] => ([],true,[])
  | '\n'::rest => ([],false,rest)
  | ['\\'] => (if raw then [.loose '\\'] else [],true,[])
  | '\\'::c::rest =>
    if raw then
      let (bits,ended,rest) := readLine raw (c::rest)
      (.loose '\\'::bits,ended,rest)
    else
      let (bits,ended,rest) := readLine raw rest
      (if c == '\n' then bits else .fixed c::bits,ended,rest)
  | c::rest =>
    let (bits,ended,rest) := readLine raw rest
    (if c.toNat = 0 then bits else .loose c::bits,ended,rest)

def read : Builtin := fun words => do
  let (found,names) ← optionsOf "p:r" words
  if names.isEmpty then Run.fail "arg count"
  let bytes ← Run.allBytes
  let (bits,ended,rest) := readLine (found.any (·.1 == 'r')) bytes
  Run.giveBack rest
  let values := share (← Run.separators) names.length bits
  for (name,value) in names.zip values do Run.assign name value false
  return exitCode (!ended)

/-- The words of an assignment: a name, and a value behind an equals sign. -/
def assignment (word : String) : String × Option String :=
  match word.toList.span (· != '=') with
  | (name,_::value) => (String.ofList name,some (String.ofList value))
  | (name,[]) => (String.ofList name,none)

/-- Variables that fit, as commands that would set them. -/
def listing (command : String) (fits : Variable → Bool) : Run Unit := do
  let vs := ((← get).bindings.filter fun (_,v) => fits v).mergeSort fun a b => a.1 ≤ b.1
  for (name,v) in vs do
    let value := match v.value with
      | some x => "=" ++ Output.quote x
      | none => ""
    Run.put (command ++ name ++ value ++ "\n")

/-- Marks variables, and sets those that are given a value. -/
def marking (name : String) (mark : Variable → Variable) (marked : Variable → Bool) : Builtin :=
  fun words => do
    let (found,words) ← optionsOf "p" words
    if words.isEmpty || !found.isEmpty then listing (name ++ " ") marked
    else for word in words do
      let (name,value) := assignment word
      if !isName name then Run.fail s!"{name}: bad variable name"
      match value with
      | some value =>
        Run.assign name value false
        if let some v ← Run.variableOf? name then Run.store name (mark v)
      | none => Run.store name (mark ((← Run.variableOf? name).getD {value := none}))
    return 0

def unset : Builtin := fun words => do
  let (found,words) ← optionsOf "vf" words
  for name in words do
    if (found.getLast?.map (·.1)) == some 'f' then
      modify fun s => {s with functions := s.functions.filter (·.1 != name)}
    else
      if !isName name then Run.fail s!"{name}: bad variable name"
      if ((← Run.variableOf? name).any (·.fixed)) then Run.fail s!"{name}: is read only"
      modify fun s => {s with bindings := s.bindings.filter (·.1 != name)}
  return 0

/-- Keeps variables to the function that is running. -/
def own : Builtin := fun words => do
  if (← get).calls = 0 then Run.fail "not in a function"
  for word in words do
    let (name,value) := assignment word
    if name != "-" then
      Run.hide name
      if let some value := value then Run.assign name value false
  return 0

def shift : Builtin := fun words => do
  let n ← match words with
    | w::_ => count w
    | [] => pure 1
  if n > (← get).arguments.length then Run.fail "can't shift that many"
  modify fun s => {s with arguments := s.arguments.drop n, taken := 0}
  return 0

def turn (letter : Char) (on : Bool) : Run Unit := do
  if !State.letters.contains letter then Run.fail s!"Illegal option -{letter}"
  modify fun s =>
    let others := s.options.filter (· != letter)
    {s with options := if on then letter::others else others}

def spaces (width : Nat) (text : String) : String :=
  text ++ String.ofList (List.replicate (width-text.length) ' ')

/-- The options by their names: as a table, or as commands that would set them. -/
def listOptions (table : Bool) : Run Unit := do
  let on := (← get).options
  if table then Run.put "Current option settings\n"
  for (name,letter) in State.optionNames do
    let isOn := on.contains letter
    Run.put (if table then spaces 16 name ++ (if isOn then "on" else "off") ++ "\n"
      else (if isOn then "set -o " else "set +o ") ++ name ++ "\n")

/-- Turns options on and off; gives the words behind them, and whether two hyphens came before. -/
def setOptions : Nat → List String → Run (List String × Bool)
  | 0, words => return (words,false)
  | n+1, words => do
    match words with
    | [] => return ([],false)
    | w::rest =>
      match w.toList with
      | ['-'] => turn 'x' false; turn 'v' false; return (rest,false)
      | ['-','-'] => return (rest,true)
      | sign::letters =>
        if sign != '-' && sign != '+' then return (words,false)
        let on := sign == '-'
        let mut rest := rest
        for c in letters do
          if c == 'o' then
            match rest with
            | [] => listOptions on
            | name::more =>
              match State.optionNames.lookup name with
              | some letter =>
                modify fun s =>
                  let others := s.options.filter (· != letter)
                  {s with options := if on then letter::others else others}
              | none => Run.fail s!"Illegal option -o {name}"
              rest := more
          else turn c on
        setOptions n rest
      | [] => return (words,false)

def setCommand : Builtin := fun words => do
  if words.isEmpty then listing "" fun v => v.value.isSome
  else
    let (rest,cleared) ← setOptions (words.length+1) words
    if cleared || !rest.isEmpty then
      modify fun s => {s with arguments := rest, nextOption := 1, taken := 0}
  return 0

def trap : Builtin := fun words => do
  let (_,words) ← optionsOf "" words
  match words with
  | [] =>
    for n in List.range Signal.limit do
      if let some script := (← get).traps.lookup n then
        Run.put s!"trap -- {Output.quote script} {Signal.name n}\n"
  | first::rest =>
    let plain := rest.isEmpty || (Signal.number? 0 first).isSome
    let action := if plain || first == "-" then none else some first
    for word in (if plain then words else rest) do
      match Signal.number? 0 word with
      | none => Run.fail s!"{word}: bad trap"
      | some n => modify fun s =>
        let others := s.traps.filter (·.1 != n)
        {s with traps := match action with
          | some script => (n,script)::others
          | none => others}
  return 0

def killUsage : String :=
  "Usage: kill [-s sigspec | -signum | -sigspec] [pid | job]... or\nkill -l [exitstatus]"

def kill : Builtin := fun words => do
  let send (signal : Nat) (targets : List String) : Run Nat := do
    if targets.isEmpty then Run.fail killUsage
    let mut status := 0
    for target in targets do
      let pid ← if target.startsWith "%" then pure ((← get).lastJob.getD 0)
        else if target.startsWith "-" then count (target.drop 1).toString
        else count target
      if !(← Signal.send pid signal) then
        Run.warn "No such process\n"
        status := 1
    return status
  match words with
  | [] => Run.fail killUsage
  | w::rest =>
    match if w.startsWith "-" then Signal.number? 1 (w.drop 1).toString else none with
    | some signal => send signal rest
    | none =>
      let (found,rest) ← optionsOf "ls:" words
      if found.any (·.1 == 'l') then
        match rest with
        | [] => for name in Signal.names.tail do Run.put (name ++ "\n")
        | code::_ =>
          let n ← count code
          Run.put (Signal.name (if n > 128 then n-128 else n) ++ "\n")
        return 0
      else match found.getLast? with
        | some (_,name) =>
          match Signal.number? 1 name with
          | some signal => send signal rest
          | none => Run.fail s!"invalid signal number or name: {name}"
        | none => send 15 rest

/-- Waits for processes in the background. -/
def wait : Builtin := fun words => do
  let settle (jobs : List Job) : Run Unit := modify fun s =>
    {s with
      jobs := s.jobs.filter fun j => !jobs.contains j
      world := {s.world with clock := (jobs.map (·.ends)).foldl max s.world.clock}}
  match words with
  | [] => settle (← get).jobs; return 0
  | words =>
    let mut status := 0
    for word in words do
      let pid ← if word.startsWith "%" then pure ((← get).lastJob.getD 0) else count word
      match (← get).jobs.find? (·.pid == pid) with
      | some job => settle [job]; status := job.status
      | none => status := 127
    return status

def umask : Builtin := fun words => do
  let (found,words) ← optionsOf "S" words
  let digits (n : Nat) : String :=
    let ds := Nat.toDigits 8 n
    String.ofList (List.replicate (4-ds.length) '0' ++ ds)
  let mask := (← get).umask
  match words with
  | [] =>
    if found.isEmpty then Run.put (digits mask ++ "\n")
    else
      let rights (n : Nat) : String :=
        String.ofList ((if n/4%2 = 0 then ['r'] else []) ++ (if n/2%2 = 0 then ['w'] else [])
          ++ (if n%2 = 0 then ['x'] else []))
      Run.put s!"u={rights (mask/64)},g={rights (mask/8%8)},o={rights (mask%8)}\n"
  | w::_ =>
    if w.toList.all fun c => (Output.octal? c).isSome then
      modify fun s => {s with umask := (Arithmetic.digits 8 0 w.toList).1%512}
    else if w.toList.head?.any Char.isDigit then Run.fail s!"Illegal number: {w}"
    else Run.fail s!"Illegal mode: {w}"
  return 0

/-- What a command of a name is. -/
inductive Meaning where
  | keyword
  | nickname (text : String)
  | function
  | builtin (special : Bool)
  | program (path : String)
  | unknown
  deriving DecidableEq, Repr

/-- Tells what a command is, in a sentence or by the name to call it. -/
def describe (verbose : Bool) (name : String) (meaning : Meaning) : Run Nat := do
  let said (sentence short : String) : Run Nat := do
    Run.put ((if verbose then name ++ sentence else short) ++ "\n")
    return 0
  match meaning with
  | .keyword => said " is a shell keyword" name
  | .nickname text => said s!" is an alias for {text}" s!"alias {name}={Output.quote text}"
  | .function => said " is a shell function" name
  | .builtin true => said " is a special shell builtin" name
  | .builtin false => said " is a shell builtin" name
  | .program path => said s!" is {path}" path
  | .unknown => do
    if verbose then Run.put s!"{name}: not found\n"
    return 127

/-- Takes the next option from arguments, in the variables that hold the state of the search. -/
def getopts : Builtin := fun words => do
  match words with
  | known::name::given =>
    let s ← get
    let words := if given.isEmpty then s.arguments else given
    let quiet := known.startsWith ":"
    let before := (if s.nextOption ≤ 1 then none else words[s.nextOption-2]?).bind fun w =>
      if s.taken = 0 ∨ w.length ≤ s.taken then none else some (w.toList.drop s.taken)
    let finish (c : Char) (index taken : Nat) (done : Bool) : Run Nat := do
      Run.assign "OPTIND" (toString index) false
      Run.assign name (String.singleton c) false
      modify fun s => {s with nextOption := index, taken}
      return exitCode (!done)
    let found : Option (Char × List Char × Nat) ⊕ Nat := match before with
      | some (c::cs) => .inl (some (c,cs,s.nextOption))
      | _ =>
        match words[s.nextOption-1]? with
        | none => .inr s.nextOption
        | some w =>
          match w.toList with
          | ['-','-'] => .inr (s.nextOption+1)
          | '-'::c::cs => .inl (some (c,cs,s.nextOption+1))
          | _ => .inr s.nextOption
    match found with
    | .inr index => finish '?' index 0 true
    | .inl none => finish '?' s.nextOption 0 true
    | .inl (some (c,cs,index)) =>
      let size := (words[index-2]?.getD "").length
      let taken := if cs.isEmpty then 0 else size-cs.length
      match known.toList.dropWhile (· != c) with
      | ':'::_ | [] =>
        if quiet then Run.assign "OPTARG" (String.singleton c) false
        else
          Run.write 2 s!"Illegal option -{c}\n"
          modify fun s => {s with bindings := s.bindings.filter (·.1 != "OPTARG")}
        finish '?' index taken false
      | _:: ':'::_ =>
        match cs, words[index-1]? with
        | [], none =>
          if quiet then
            Run.assign "OPTARG" (String.singleton c) false
            finish ':' index 0 false
          else
            Run.write 2 s!"No arg for -{c} option\n"
            modify fun s => {s with bindings := s.bindings.filter (·.1 != "OPTARG")}
            finish '?' index 0 false
        | [], some w =>
          Run.assign "OPTARG" w false
          finish c (index+1) 0 false
        | cs, _ =>
          Run.assign "OPTARG" (String.ofList cs) false
          finish c index 0 false
      | _ =>
        Run.assign "OPTARG" "" false
        finish c index taken false
  | _ => Run.fail "Usage: getopts optstring var [arg]"

def nickname : Builtin := fun words => do
  let shown (name text : String) : Run Unit := Run.put s!"{name}={Output.quote text}\n"
  if words.isEmpty then
    for (name,text) in (← get).aliases do shown name text
    return 0
  else
    let mut status := 0
    for word in words do
      match assignment word with
      | (name,some text) =>
        modify fun s => {s with aliases := (name,text)::s.aliases.filter (·.1 != name)}
      | (name,none) =>
        match (← get).aliases.lookup name with
        | some text => shown name text
        | none =>
          Run.write 2 s!"alias: {name} not found\n"
          status := 1
    return status

def forget : Builtin := fun words => do
  let (found,words) ← optionsOf "a" words
  if !found.isEmpty then
    modify fun s => {s with aliases := []}
    return 0
  else
    let mut status := 0
    for name in words do
      if (← get).aliases.any (·.1 == name) then
        modify fun s => {s with aliases := s.aliases.filter (·.1 != name)}
      else
        Run.write 2 s!"unalias: {name} not found\n"
        status := 1
    return status

def succeed : Builtin := fun _ => return 0

/-- The commands that run no scripts, by their names. -/
def table : List (String × Builtin) :=
  [(":",succeed),("true",succeed),("false",fun _ => return 1),("echo",echo),("printf",printf),
    ("test",test),("[",bracket),("pwd",pwd),("cd",cd),("chdir",cd),("read",read),
    ("export",marking "export" (fun v => {v with exported := true}) (·.exported)),
    ("readonly",marking "readonly" (fun v => {v with fixed := true}) (·.fixed)),
    ("unset",unset),("local",own),("shift",shift),("set",setCommand),("trap",trap),("kill",kill),
    ("wait",wait),("umask",umask),("getopts",getopts),("alias",nickname),("unalias",forget),
    ("times",fun _ => do Run.put "0m0.00s 0m0.00s\n0m0.00s 0m0.00s\n"; return 0),
    ("ulimit",fun _ => do Run.put "unlimited\n"; return 0),
    ("hash",succeed),("jobs",succeed),("bg",fun _ => Run.fail "No current job"),
    ("fg",fun _ => Run.fail "No current job")]

/-- The commands that run scripts, or change how the script at hand goes on. -/
def steering : List String :=
  ["eval",".","command","type","exec","exit","return","break","continue"]

def isBuiltin (name : String) : Bool := (table.lookup name).isSome || steering.contains name

end Builtin

end TaskGraph.Shell
