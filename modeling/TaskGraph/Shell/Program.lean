import TaskGraph.Shell.Builtin
import TaskGraph.Shell.Expand

/-!
Programs that scripts may start and that run no scripts themselves, and how a program is found.
-/

namespace TaskGraph.Shell.Program

/-- A complaint of a program that names it. -/
def warn (name text : String) : Run Unit := Run.write 2 s!"{name}: {text}\n"

def hint (name : String) : String := "\nTry '" ++ name ++ " --help' for more information."

/-- Writes the bytes of files, or those that it reads. -/
def cat : Builtin := fun words => do
  if words.isEmpty then Run.put (String.ofList (← Run.allBytes)); return 0
  let mut status := 0
  for path in words do
    if path = "-" then Run.put (String.ofList (← Run.allBytes))
    else
      let s ← get
      match Place.find s.world.files s.directory path with
      | .ok (_,.file content) => Run.put content
      | .ok (_,.directory) => warn "cat" s!"{path}: {PathFault.isDirectory.text}"; status := 1
      | .ok (_,.device (.stream 0)) => Run.put (String.ofList (← Run.allBytes))
      | .ok _ => pure ()
      | .error fault => warn "cat" s!"{path}: {fault.text}"; status := 1
  return status

def doubtText (word : String) : Output.Doubt → String
  | .noNumber => "'" ++ word ++ "': expected a numeric value"
  | .moreThanNumber => "'" ++ word ++ "': value not completely converted"
  | .outOfRange => "'" ++ word ++ "': Numerical result out of range"

def printf : Builtin
  | [] => do warn "printf" ("missing operand" ++ hint "printf"); return 1
  | format::words => do
    let (text,doubts,stop) := Output.printf format words
    Run.put text
    for (word,doubt) in doubts do warn "printf" (doubtText word doubt)
    match stop with
    | some .noLetter => warn "printf" "%: invalid conversion specification"; return 1
    | some (.badDirective directive) =>
      warn "printf" s!"{directive}: invalid conversion specification"
      return 1
    | _ => return Builtin.exitCode doubts.isEmpty

def test : Builtin := fun words => do
  let s ← get
  match Test.decide? ⟨s.world.files,s.directory,s.streams.map (·.1)⟩ words with
  | .ok b => return Builtin.exitCode b
  | .error _ => return 2

/-- The milliseconds that a text with a unit behind it means. -/
def pause? (text : String) : Option Nat := do
  let (d,rest) ← Output.decimal? text.toList
  let unit ← match rest with
    | [] | ['s'] => some 1
    | ['m'] => some 60
    | ['h'] => some 3600
    | ['d'] => some 86400
    | _ => none
  if d.isNaN || d.isNegative && !d.isZero then none
  else if d.isFinite then
    some (d.mantissa*Nat.pow 2 d.exponent.toNat*1000*unit/Nat.pow 2 (-d.exponent).toNat)
  else some 0

def sleep : Builtin
  | [] => do warn "sleep" ("missing operand" ++ hint "sleep"); return 1
  | words => do
    match words.find? fun w => (pause? w).isNone with
    | some w => warn "sleep" ("invalid time interval '" ++ w ++ "'" ++ hint "sleep"); return 1
    | none =>
      let time := (words.filterMap pause?).foldl (· + ·) 0
      modify fun s => {s with world := {s.world with clock := s.world.clock+time}}
      return 0

def pwd : Builtin := fun _ => do
  Run.put (Builtin.physical (← get) ++ "\n")
  return 0

def echo : Builtin := fun words => do
  Run.put (Output.echoProgram false true words)
  return 0

/-- The last name of a path without what it may end in. -/
def basename : Builtin
  | [] => do warn "basename" ("missing operand" ++ hint "basename"); return 1
  | path::rest => do
    let name := ((Place.names path).getLast?).getD (if path.startsWith "/" then "/" else "")
    let ending := rest.head?.getD ""
    Run.put ((if name != ending && name.endsWith ending
      then (name.dropEnd ending.length).toString else name) ++ "\n")
    return 0

/-- A path without its last name. -/
def dirname : Builtin
  | [] => do warn "dirname" ("missing operand" ++ hint "dirname"); return 1
  | paths => do
    for path in paths do
      let cs := (path.toList.reverse.dropWhile (· == '/')).dropWhile (· != '/')
      let kept := (cs.dropWhile (· == '/')).reverse
      Run.put ((if !kept.isEmpty then String.ofList kept
        else if path.startsWith "/" then "/" else ".") ++ "\n")
    return 0

/-- Removes files. -/
def rm : Builtin := fun words => do
  let isOption (w : String) : Bool := w.startsWith "-" && w.length > 1
  let force := words.any fun w => isOption w && w.contains 'f'
  let mut status := 0
  for path in words.filter fun w => !isOption w do
    let s ← get
    match Place.find s.world.files s.directory path with
    | .ok (found,_) => set {s with world :=
        {s.world with files := s.world.files.filter (·.1 != found)}}
    | .error fault =>
      if !force then
        warn "rm" ("cannot remove '" ++ path ++ "': " ++ fault.text)
        status := 1
  return status

/-- Tells the files that are named, and those that are written in directories that are named. -/
def ls : Builtin := fun words => do
  let paths := words.filter fun w => !(w.startsWith "-" && w.length > 1)
  let mut status := 0
  for path in (if paths.isEmpty then ["."] else paths) do
    let s ← get
    match Place.find s.world.files s.directory path with
    | .ok (found,.directory) =>
      let inner := (s.world.files.map fun f => Place.names f.1).filter fun ns =>
        Place.join ns.dropLast == found
      for ns in inner.mergeSort fun a b => a.getLastD "" ≤ b.getLastD "" do
        Run.put (ns.getLastD "" ++ "\n")
    | .ok _ => Run.put (path ++ "\n")
    | .error fault =>
      warn "ls" ("cannot access '" ++ path ++ "': " ++ fault.text)
      status := 2
  return status

/-- Whole numbers in a row, from one or a first number, and by one or a step. -/
def seq : Builtin := fun words => do
  let read (text : String) : Option Int := Arithmetic.whole? Arithmetic.decimal? text
  let count (first step last : Int) : Run Nat := do
    let n := if step > 0 then (last-first)/step+1 else (first-last)/(-step)+1
    for i in List.range n.toNat do Run.put (toString (first+step*i) ++ "\n")
    return 0
  match words.map read with
  | [some last] => count 1 1 last
  | [some first,some last] => count first 1 last
  | [some first,some step,some last] =>
    if step = 0 then
      warn "seq" ("invalid Zero increment value: '0'" ++ hint "seq")
      return 1
    else count first step last
  | _ =>
    warn "seq" ("missing operand" ++ hint "seq")
    return 1

def table : List (String × Builtin) :=
  [("cat",cat),("printf",printf),("test",test),("[",fun words => test words.dropLast),
    ("sleep",sleep),("pwd",pwd),("echo",echo),("true",fun _ => return 0),("false",fun _ => return 1),
    ("rm",rm),("ls",ls),("basename",basename),("dirname",dirname),("seq",seq)]

/-- The program that a path leads to. -/
def at? (s : State) (path : String) : Except PathFault String := do
  match ← Place.find s.world.files s.directory path with
  | (_,.program name) => return name
  | _ => throw .denied

/-- The program that a name or a path means, along a search path. -/
def find? (s : State) (search name : String) : Except PathFault String :=
  if name.contains '/' then at? s name
  else (Place.search s.world.files s.directory search name).bind (at? s)

/-- Where a program is looked for when nothing else is said. -/
def usualSearch : String := "/usr/local/sbin:/usr/local/bin:/usr/sbin:/usr/bin:/sbin:/bin"

end TaskGraph.Shell.Program
