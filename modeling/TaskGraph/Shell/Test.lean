import TaskGraph.Shell.Arithmetic
import TaskGraph.Shell.Place

/-!
The conditions that `test` decides: comparisons of texts and numbers, questions about files, and their
joins. Whether a word is an operator depends on how many words follow it.
-/

namespace TaskGraph.Shell.Test

/-- What a word may be besides an operand. -/
inductive Symbol where
  | unary (letter : Char)
  | binary (name : String)
  | invert
  | both
  | either
  | opening
  | closing
  deriving DecidableEq, Repr

inductive Fault where
  | unexpectedOperator (word : String)
  | noArgument (operator : String)
  | notClosed
  | badNumber (text : String)
  deriving DecidableEq, Repr

def Fault.message : Fault → String
  | .unexpectedOperator word => said word "unexpected operator"
  | .noArgument operator => said operator "argument expected"
  | .notClosed => "closing paren expected"
  | .badNumber text => "Illegal number: " ++ text
where
  said (word cause : String) : String := if word.isEmpty then cause else word ++ ": " ++ cause

def binaries : List String :=
  ["=","!=","<",">","-eq","-ne","-lt","-le","-gt","-ge","-nt","-ot","-ef"]

def symbol? (word : String) : Option Symbol :=
  if binaries.contains word then some (.binary word)
  else if word = "!" then some .invert
  else if word = "-a" then some .both
  else if word = "-o" then some .either
  else if word = "(" then some .opening
  else if word = ")" then some .closing
  else match word.toList with
    | ['-',c] => if "bcdefghknprstuwxzGLOS".toList.contains c then some (.unary c) else none
    | _ => none

def isBinary (word : String) : Bool := binaries.contains word

/-- The operator that a word is in front of others. -/
def lex (word : String) (rest : List String) : Option Symbol :=
  match symbol? word with
  | some (.unary c) =>
    match rest with
    | [] => none
    | [_] => some (.unary c)
    | next::_ => if isBinary next then none else some (.unary c)
  | some .opening => if rest.isEmpty then none else some .opening
  | found => found

/-- What the conditions ask about the world. -/
structure Surroundings where
  files : Files
  directory : String
  /-- The streams that are open. -/
  streams : List Nat

abbrev Verdict := Except Fault Bool

def numbers (a b : String) (holds : Int → Int → Bool) : Verdict := do
  let read (text : String) : Except Fault Int :=
    match Arithmetic.whole? Arithmetic.decimal? text with
    | some n => .ok n
    | none => .error (.badNumber text)
  return holds (← read a) (← read b)

def compare (s : Surroundings) (a operator b : String) : Verdict :=
  let same : Bool := match Place.find s.files s.directory a, Place.find s.files s.directory b with
    | .ok (p,_), .ok (q,_) => p == q
    | _, _ => false
  if operator = "=" then .ok (a == b)
  else if operator = "!=" then .ok (a != b)
  else if operator = "<" then .ok (decide (a < b))
  else if operator = ">" then .ok (decide (b < a))
  else if operator = "-eq" then numbers a b (· == ·)
  else if operator = "-ne" then numbers a b (· != ·)
  else if operator = "-lt" then numbers a b (· < ·)
  else if operator = "-le" then numbers a b (· ≤ ·)
  else if operator = "-gt" then numbers a b (· > ·)
  else if operator = "-ge" then numbers a b (· ≥ ·)
  else if operator = "-ef" then .ok same
  else .ok false

/-- Directories among those where names of their own are safe from others. -/
def isSticky (path : String) : Bool := ["/tmp","/var/tmp","/dev/shm"].contains path

def ask (s : Surroundings) (letter : Char) (word : String) : Verdict :=
  let link : Bool := Place.aliases.any (fun a => word == "/" ++ a.1)
    || ["/dev/stdin","/dev/stdout","/dev/stderr","/dev/fd"].contains word
  if letter = 'z' then .ok word.isEmpty
  else if letter = 'n' then .ok (!word.isEmpty)
  else if letter = 't' then numbers word "0" fun _ _ => false
  else if letter = 'h' || letter = 'L' then .ok link
  else match Place.find s.files s.directory word with
    | .error _ => .ok false
    | .ok (path,kind) =>
      .ok <| match letter, kind with
        | 'e', .device (.stream n) => s.streams.contains n
        | 'd', .directory => true
        | 'f', .file _ | 'f', .program _ => true
        | 's', .file content => !content.isEmpty
        | 's', .directory | 's', .program _ => true
        | 'c', .device .null | 'c', .device .zero | 'c', .device .full | 'c', .device .terminal => true
        | 'p', .device (.stream n) => n == 1 || n == 2
        | 'x', .directory | 'x', .program _ => true
        | 'k', .directory => isSticky path
        | 'e', _ | 'r', _ | 'w', _ | 'O', _ | 'G', _ => true
        | _, _ => false

mutual

/-- Parts joined by `-o`: the verdict, the last word read and those behind it. -/
def disjunction (s : Surroundings) : Nat → Option Symbol → List String →
    Except Fault (Bool × List String)
  | 0, _, ws => .ok (false,ws)
  | n+1, symbol, ws => do
    let (x,ws) ← conjunction s n symbol ws
    match ws with
    | _::"-o"::rest =>
      let (y,ws) ← disjunction s n (first? rest) rest
      return (x || y,ws)
    | ws => return (x,ws)

def conjunction (s : Surroundings) : Nat → Option Symbol → List String →
    Except Fault (Bool × List String)
  | 0, _, ws => .ok (false,ws)
  | n+1, symbol, ws => do
    let (x,ws) ← inversion s n symbol ws
    match ws with
    | _::"-a"::rest =>
      let (y,ws) ← conjunction s n (first? rest) rest
      return (x && y,ws)
    | ws => return (x,ws)

def inversion (s : Surroundings) : Nat → Option Symbol → List String →
    Except Fault (Bool × List String)
  | 0, _, ws => .ok (false,ws)
  | n+1, symbol, ws => do
    match symbol, ws with
    | some .invert, [last] =>
      let _ := last
      return (true,ws)
    | some .invert, _::rest =>
      let (x,ws) ← inversion s n (first? rest) rest
      return (!x,ws)
    | symbol, ws => primary s n symbol ws

def primary (s : Surroundings) : Nat → Option Symbol → List String →
    Except Fault (Bool × List String)
  | 0, _, ws => .ok (false,ws)
  | n+1, symbol, ws => do
    match symbol, ws with
    | _, [] => return (false,[])
    | some .opening, _::rest =>
      if first? rest == some .closing then return (false,rest)
      let (x,ws) ← disjunction s n (first? rest) rest
      match ws with
      | _::")"::after => return (x,")"::after)
      | _ => throw .notClosed
    | some (.unary c), _::rest =>
      match rest with
      | [] => throw (.noArgument (String.ofList ['-',c]))
      | word::_ => return (← ask s c word,rest)
    | _, a::rest =>
      match rest with
      | operator::more =>
        if lex operator more == some (.binary operator) then
          match more with
          | b::_ => return (← compare s a operator b,more)
          | [] => throw (.noArgument operator)
        else return (!a.isEmpty,ws)
      | [] => return (!a.isEmpty,ws)

def first? : List String → Option Symbol
  | w::rest => lex w rest
  | [] => none

end

/-- The verdict on words, the last of which must have been read. -/
def settle (s : Surroundings) (symbol : Option Symbol) (ws : List String) : Verdict := do
  let (x,left) ← disjunction s (5*ws.length+5) symbol ws
  match left with
  | w::_::_ => throw (.unexpectedOperator w)
  | _ => return x

/-- Decides on words. Of three, the second counts as an operator first; of three or four, an
exclamation mark or parentheses around count before the rest is read. -/
def decide? (s : Surroundings) (ws : List String) : Verdict :=
  match ws with
  | [] => .ok false
  | [a,operator,b] =>
    if isBinary operator then settle s none ws
    else if a = "(" && b = ")" then settle s (first? [operator]) [operator]
    else if a = "!" then (settle s (first? [operator,b]) [operator,b]).map (!·)
    else settle s (first? ws) ws
  | [a,b,c,d] =>
    if a = "(" && d = ")" then settle s (first? [b,c]) [b,c]
    else if a = "!" then (settle s (first? [b,c,d]) [b,c,d]).map (!·)
    else settle s (first? ws) ws
  | ws => settle s (first? ws) ws

end TaskGraph.Shell.Test
