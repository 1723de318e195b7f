/-!
Arithmetic between double parentheses, in whole numbers of 64 bits: names of variables, assignments,
and operators with their usual ranks. Operators of one rank take their left operand first. What a
condition or a connective leaves out is read but not worked out.
-/

namespace TaskGraph.Shell

inductive Operator where
  | times
  | quotient
  | remainder
  | plus
  | minus
  | shiftLeft
  | shiftRight
  | less
  | lessEqual
  | more
  | moreEqual
  | equal
  | unequal
  | bitAnd
  | bitXor
  | bitOr
  deriving DecidableEq, Repr

namespace Arithmetic

inductive Fault where
  | zeroDivisor
  | noOperand
  | noClosing
  | noColon
  | noEnd
  /-- A variable that holds no number. -/
  | badNumber (text : String)
  deriving DecidableEq, Repr

/-- What a complaint says about an expression. -/
def Fault.message (text : String) : Fault → String
  | .zeroDivisor => said "division by zero"
  | .noOperand => said "expecting primary"
  | .noClosing => said "expecting ')'"
  | .noColon => said "expecting ':'"
  | .noEnd => said "expecting EOF"
  | .badNumber number => "Illegal number: " ++ number
where
  said (cause : String) : String := "arithmetic expression: " ++ cause ++ ": \"" ++ text ++ "\""

/-- A number within the range of 64 bits, which is left at one end and entered at the other. -/
def wrap (x : Int) : Int := Int.bmod x (Nat.pow 2 64)

/-- A number at the nearer end of the range when it is outside. -/
def clamp (x : Int) : Int := max (-(Nat.pow 2 63)) (min (Nat.pow 2 63-1) x)

def truth (b : Bool) : Int := if b then 1 else 0

/-- The bits of a number, the sign as the highest. -/
def bits (x : Int) : Nat := (x % Nat.pow 2 64).toNat

end Arithmetic

namespace Operator

/-- The lower the rank the closer an operator binds. -/
def rank : Operator → Nat
  | .times | .quotient | .remainder => 0
  | .plus | .minus => 1
  | .shiftLeft | .shiftRight => 2
  | .less | .lessEqual | .more | .moreEqual => 3
  | .equal | .unequal => 4
  | .bitAnd => 5
  | .bitXor => 6
  | .bitOr => 7

open Arithmetic in
/-- Nothing when a number is divided by zero. Quotients are cut off toward zero, and a number is
shifted by the six low bits of the other. -/
def result? (a b : Int) : Operator → Option Int
  | .times => some (wrap (a*b))
  | .quotient => if b = 0 then none else some (wrap (Int.tdiv a b))
  | .remainder => if b = 0 then none else some (Int.tmod a b)
  | .plus => some (wrap (a+b))
  | .minus => some (wrap (a-b))
  | .shiftLeft => some (wrap (a*Nat.pow 2 (bits b%64)))
  | .shiftRight => some (Int.fdiv a (Nat.pow 2 (bits b%64)))
  | .less => some (truth (a < b))
  | .lessEqual => some (truth (a ≤ b))
  | .more => some (truth (a > b))
  | .moreEqual => some (truth (a ≥ b))
  | .equal => some (truth (a == b))
  | .unequal => some (truth (a != b))
  | .bitAnd => some (wrap (Nat.land (bits a) (bits b)))
  | .bitXor => some (wrap (Nat.xor (bits a) (bits b)))
  | .bitOr => some (wrap (Nat.lor (bits a) (bits b)))

end Operator

namespace Arithmetic

inductive Symbol where
  | ending
  | number (n : Int)
  | name (s : String)
  | operator (o : Operator)
  | both
  | either
  | invert
  | complement
  | opening
  | closing
  | question
  | colon
  /-- Sets a variable, to the result of an operator if there is one. -/
  | assign (o : Option Operator)
  | unknown
  deriving DecidableEq, Repr

def isSpace (c : Char) : Bool := c == ' ' || c == '\t' || c == '\n'

def digit? (c : Char) : Option Nat :=
  if c.isDigit then some (c.toNat-48)
  else if 'a' ≤ c ∧ c ≤ 'z' then some (c.toNat-87)
  else if 'A' ≤ c ∧ c ≤ 'Z' then some (c.toNat-55)
  else none

/-- The number that digits of a base begin with, and what follows. -/
def digits (base : Nat) : Nat → List Char → Nat × List Char
  | value, c::cs =>
    match digit? c with
    | some d => if d < base then digits base (value*base+d) cs else (value,c::cs)
    | none => (value,c::cs)
  | value, [] => (value,[])

/-- Digits in base ten, in base sixteen after `0x`, or in base eight after a zero. -/
def unsigned? (cs : List Char) : Option (Nat × List Char) :=
  match cs with
  | '0'::x::d::rest =>
    if (x == 'x' || x == 'X') && (digit? d).any (· < 16) then some (digits 16 0 (d::rest))
    else some (digits 8 0 cs)
  | '0'::_ => some (digits 8 0 cs)
  | c::_ => if c.isDigit then some (digits 10 0 cs) else none
  | [] => none

/-- The rest of an operator that an equals sign turns into an assignment. -/
def assignable (o : Operator) : List Char → Symbol × List Char
  | '='::rest => (.assign (some o),rest)
  | rest => (.operator o,rest)

/-- The first symbol of a text. -/
def symbol (cs : List Char) : Symbol × List Char :=
  match cs.dropWhile isSpace with
  | [] => (.ending,[])
  | '=':: '='::rest => (.operator .equal,rest)
  | '='::rest => (.assign none,rest)
  | '>':: '='::rest => (.operator .moreEqual,rest)
  | '>':: '>'::rest => assignable .shiftRight rest
  | '>'::rest => (.operator .more,rest)
  | '<':: '='::rest => (.operator .lessEqual,rest)
  | '<':: '<'::rest => assignable .shiftLeft rest
  | '<'::rest => (.operator .less,rest)
  | '|':: '|'::rest => (.either,rest)
  | '|'::rest => assignable .bitOr rest
  | '&':: '&'::rest => (.both,rest)
  | '&'::rest => assignable .bitAnd rest
  | '!':: '='::rest => (.operator .unequal,rest)
  | '!'::rest => (.invert,rest)
  | '('::rest => (.opening,rest)
  | ')'::rest => (.closing,rest)
  | '*'::rest => assignable .times rest
  | '/'::rest => assignable .quotient rest
  | '%'::rest => assignable .remainder rest
  | '+'::rest => assignable .plus rest
  | '-'::rest => assignable .minus rest
  | '^'::rest => assignable .bitXor rest
  | '~'::rest => (.complement,rest)
  | '?'::rest => (.question,rest)
  | ':'::rest => (.colon,rest)
  | c::rest =>
    match unsigned? (c::rest) with
    | some (n,rest) => (.number (clamp n),rest)
    | none =>
      let isPart (c : Char) : Bool := c.isAlphanum || c == '_'
      if isPart c then (.name (String.ofList ((c::rest).takeWhile isPart)),rest.dropWhile isPart)
      else (.unknown,c::rest)

/-- What an expression needs from its surroundings. -/
structure Variables (m : Type → Type) where
  get : String → m (Except Fault Int)
  set : String → Int → m Unit

/-- A reader stands before a symbol, with the text that follows it. -/
abbrev Ahead := Symbol × List Char

abbrev Worth (m : Type → Type) := ExceptT Fault m (Int × Ahead)

variable {m : Type → Type} [Monad m]

def apply (o : Operator) (idle : Bool) (a b : Int) : ExceptT Fault m Int :=
  if idle then return b
  else match o.result? a b with
    | some x => return x
    | none => throw .zeroDivisor

mutual

/-- A number, a variable, a term with a sign, or one in parentheses. When `idle`, nothing is looked up
or set. -/
def primary (v : Variables m) (idle : Bool) : Nat → Ahead → Worth m
  | 0, _ => throw .noOperand
  | n+1, (s,rest) =>
    match s with
    | .opening => do
      let (x,ahead) ← assignment v idle n (symbol rest)
      match ahead with
      | (.closing,rest) => return (x,symbol rest)
      | _ => throw .noClosing
    | .number x => return (x,symbol rest)
    | .name name => do
      let x ← if idle then pure 0 else ExceptT.mk (v.get name)
      return (x,symbol rest)
    | .operator .plus => primary v idle n (symbol rest)
    | .operator .minus => do
      let (x,ahead) ← primary v idle n (symbol rest)
      return (wrap (-x),ahead)
    | .invert => do
      let (x,ahead) ← primary v idle n (symbol rest)
      return (truth (x == 0),ahead)
    | .complement => do
      let (x,ahead) ← primary v idle n (symbol rest)
      return (-x-1,ahead)
    | _ => throw .noOperand

/-- Goes on after an operand, with operators of a rank below a limit. -/
def further (v : Variables m) (idle : Bool) : Nat → Nat → Int → Ahead → Worth m
  | 0, _, _, _ => throw .noOperand
  | n+1, limit, x, ahead => do
    match ahead with
    | (.operator o,rest) =>
      if o.rank < limit then
        let (y,ahead) ← primary v idle n (symbol rest)
        let (y,ahead) ← further v idle n o.rank y ahead
        further v idle n limit (← apply o idle x y) ahead
      else return (x,ahead)
    | _ => return (x,ahead)

def conjunction (v : Variables m) (idle : Bool) : Nat → Ahead → Worth m
  | 0, _ => throw .noOperand
  | n+1, ahead => do
    let (x,ahead) ← primary v idle n ahead
    let (x,ahead) ← further v idle n 8 x ahead
    match ahead with
    | (.both,rest) =>
      let (y,ahead) ← conjunction v (idle || x == 0) n (symbol rest)
      return (truth (x != 0 && y != 0),ahead)
    | _ => return (x,ahead)

def disjunction (v : Variables m) (idle : Bool) : Nat → Ahead → Worth m
  | 0, _ => throw .noOperand
  | n+1, ahead => do
    let (x,ahead) ← conjunction v idle n ahead
    match ahead with
    | (.either,rest) =>
      let (y,ahead) ← disjunction v (idle || x != 0) n (symbol rest)
      return (truth (x != 0 || y != 0),ahead)
    | _ => return (x,ahead)

def condition (v : Variables m) (idle : Bool) : Nat → Ahead → Worth m
  | 0, _ => throw .noOperand
  | n+1, ahead => do
    let (x,ahead) ← disjunction v idle n ahead
    match ahead with
    | (.question,rest) =>
      let (y,ahead) ← assignment v (idle || x == 0) n (symbol rest)
      match ahead with
      | (.colon,rest) =>
        let (z,ahead) ← condition v (idle || x != 0) n (symbol rest)
        return (if x != 0 then y else z,ahead)
      | _ => throw .noColon
    | _ => return (x,ahead)

def assignment (v : Variables m) (idle : Bool) : Nat → Ahead → Worth m
  | 0, _ => throw .noOperand
  | n+1, ahead => do
    match ahead with
    | (.name name,rest) =>
      match symbol rest with
      | (.assign o,rest) =>
        let (y,ahead) ← assignment v idle n (symbol rest)
        if idle then return (y,ahead)
        else
          let y ← match o with
            | some o => do apply o false (← ExceptT.mk (v.get name)) y
            | none => pure y
          ExceptT.lift (v.set name y)
          return (y,ahead)
      | _ => condition v idle n ahead
    | _ => condition v idle n ahead

end

/-- The value of a text. -/
def value (v : Variables m) (cs : List Char) : ExceptT Fault m Int := do
  let (x,ahead) ← assignment v false (10*cs.length+10) (symbol cs)
  match ahead with
  | (.ending,_) => return x
  | _ => throw .noEnd

/-- White space in front of a number. -/
def isBlank (c : Char) : Bool := c == ' ' || 9 ≤ c.toNat && c.toNat ≤ 13

/-- The number with a sign that a text begins with, and what follows. -/
def signed? (read : List Char → Option (Nat × List Char)) (cs : List Char) :
    Option (Int × List Char) :=
  match cs.dropWhile isBlank with
  | '-'::rest => (read rest).map fun (n,rest) => (-n,rest)
  | '+'::rest => (read rest).map fun (n,rest) => ((n : Int),rest)
  | rest => (read rest).map fun (n,rest) => ((n : Int),rest)

def decimal? (cs : List Char) : Option (Nat × List Char) :=
  if cs.head?.any Char.isDigit then some (digits 10 0 cs) else none

/-- The number that a whole text stands for, within the range of 64 bits. -/
def whole? (read : List Char → Option (Nat × List Char)) (text : String) : Option Int := do
  let (x,rest) ← signed? read text.toList
  if rest.all isBlank && clamp x == x then some x else none

/-- The number that a variable holds. A blank one holds zero. -/
def held? (text : String) : Option Int :=
  if text.toList.all isBlank then some 0 else whole? unsigned? text

end Arithmetic

end TaskGraph.Shell
