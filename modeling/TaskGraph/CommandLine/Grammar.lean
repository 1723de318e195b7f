import TaskGraph.Text.Number

/-!
The grammar of command lines: options by long names and by letters that may be run together, values
that are attached or follow, one value by its place, and commands with a grammar of their own. The
first thing that is wrong, or that asks for help, ends the reading. A value is looked at when the
next argument after it has been understood, or at the end.
-/

namespace TaskGraph.CommandLine

/-- What a value has to be. -/
inductive Shape where
  | text
  | path
  | count
  deriving DecidableEq, Repr

inductive OptionKind where
  | flag
  | value (shape : Shape) (many : Bool)
  | help
  | version
  deriving DecidableEq, Repr

structure OptionRule where
  name : String
  letter : Option Char := none
  kind : OptionKind
  deriving DecidableEq, Repr

/-- What may stand at one level: options, and either a value by its place or commands. -/
structure Level where
  options : List OptionRule
  place : Option OptionRule := none
  commands : List String := []
  deriving Repr

inductive Fault where
  | helpAsked
  | versionAsked
  | nothingGiven
  | missingCommand
  | unknownCommand
  | unknownArgument
  | missingArgument
  | missingValue
  | badValue
  | needlessValue
  | repeated
  deriving DecidableEq, Repr

namespace Fault

/-- Help and version are no errors. -/
def exitCode : Fault → Nat
  | .helpAsked | .versionAsked => 0
  | _ => 2

end Fault

/-- What has been read at a level so far. -/
structure Seen where
  /-- Options with their values, and flags with no text. -/
  given : List (String × String) := []
  /-- An option whose value is not looked at yet, or has yet to come. -/
  pending : Option (OptionRule × Option String) := none
  /-- After two hyphens nothing is an option. -/
  onlyPlaces : Bool := false
  placed : Bool := false
  deriving Repr

namespace Seen

def awaitsValue (s : Seen) : Bool :=
  match s.pending with
  | some (_,none) => true
  | _ => false

/-- Accepts an option with a value that has the right shape. -/
def accept (s : Seen) (o : OptionRule) (v : String) : Except Fault Seen :=
  let (shape,many) := match o.kind with
    | .value shape many => (shape,many)
    | _ => (.text,false)
  if !many && s.given.any (fun g => g.1 == o.name) then .error .repeated
  else
    let s := { s with given := s.given ++ [(o.name,v)], pending := none }
    match shape with
    | .text => .ok s
    | .path => if v.isEmpty then .error .missingValue else .ok s
    | .count => if (Text.unsigned? v).isSome then .ok s else .error .badValue

/-- Looks at the value that is pending. -/
def settle (s : Seen) : Except Fault Seen :=
  match s.pending with
  | none => .ok s
  | some (_,none) => .error .missingValue
  | some (o,some v) => s.accept o v

/-- An option that takes no value. -/
def raise (s : Seen) (o : OptionRule) : Except Fault Seen := do
  let s ← s.settle
  match o.kind with
  | .help => .error .helpAsked
  | .version => .error .versionAsked
  | _ => s.accept o ""

/-- An option that takes a value, which is attached or has yet to come. -/
def open? (s : Seen) (o : OptionRule) (attached : Option String) : Except Fault Seen := do
  let s ← s.settle
  match attached with
  | some v => s.accept o v
  | none => .ok { s with pending := some (o,none) }

def takesValue (o : OptionRule) : Bool :=
  match o.kind with
  | .value _ _ => true
  | _ => false

/-- An argument with two hyphens. -/
def long (level : Level) (s : Seen) (cs : List Char) : Except Fault Seen :=
  let name := String.ofList (cs.takeWhile (· != '='))
  let attached := match cs.dropWhile (· != '=') with
    | _::v => some (String.ofList v)
    | [] => none
  match level.options.find? fun o => o.name == name with
  | none => .error .unknownArgument
  | some o =>
    if takesValue o then s.open? o attached
    else if attached.isSome then .error .needlessValue
    else s.raise o

/-- The letters after one hyphen. -/
def letters (level : Level) (s : Seen) : List Char → Except Fault Seen
  | [] => .ok s
  | c::cs =>
    match level.options.find? fun o => o.letter == some c with
    | none => .error .unknownArgument
    | some o =>
      if takesValue o then
        s.open? o (match cs with
          | [] => none
          | '='::v => some (String.ofList v)
          | v => some (String.ofList v))
      else do letters level (← s.raise o) cs

/-- A value by its place. -/
def placeValue (level : Level) (s : Seen) (a : String) : Except Fault Seen :=
  match level.place with
  | some o =>
    if s.placed then .error .unknownArgument
    else do
      let s ← s.settle
      .ok { s with pending := some (o,some a), placed := true }
  | none =>
    if level.commands.isEmpty || s.onlyPlaces && level.commands.contains a then
      .error .unknownArgument
    else .error .unknownCommand

/-- Reads the arguments of a level up to a command, which comes with what follows it. -/
def read (level : Level) : Seen → List String → Except Fault (Seen × Option (String × List String))
  | s, [] => .ok (s,none)
  | s, a::rest =>
    if s.onlyPlaces then do read level (← s.placeValue level a) rest
    else if !s.awaitsValue && level.commands.contains a then .ok (s,some (a,rest))
    else match a.toList with
      | ['-','-'] => read level { s with onlyPlaces := true } rest
      | '-':: '-'::cs => do read level (← s.long level cs) rest
      | '-'::c::cs => do read level (← s.letters level (c::cs)) rest
      | _ =>
        match s.pending with
        | some (o,none) => read level { s with pending := some (o,some a) } rest
        | _ => do read level (← s.placeValue level a) rest

def has (s : Seen) (name : String) : Bool := s.given.any fun g => g.1 == name

def values (s : Seen) (name : String) : List String :=
  s.given.filterMap fun g => if g.1 = name then some g.2 else none

def value? (s : Seen) (name : String) : Option String := (s.values name).head?

end Seen

end TaskGraph.CommandLine
