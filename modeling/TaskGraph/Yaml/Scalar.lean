import TaskGraph.Data.Double
import TaskGraph.Yaml.Event

/-!
What scalars stand for. A plain scalar is read by the core schema; quotes, or a tag, decide
otherwise.
-/

namespace TaskGraph.Yaml

/-- What a scalar stands for, apart from its text. -/
inductive Atom where
  | null
  | bool (b : Bool)
  | int (n : Int)
  | float (d : Double)
  | string
  /-- An integer beyond 64 bits, or a text that is not what its tag says. -/
  | unreadable
  deriving DecidableEq, Repr

structure Scalar where
  text : String
  atom : Atom
  style : Style
  tag : Option String := none
  deriving DecidableEq, Repr

namespace Atom

def digitIn (radix : Nat) (c : Char) : Option Nat :=
  let n := c.toNat
  let v := if 48 ≤ n ∧ n ≤ 57 then n-48
    else if 97 ≤ n ∧ n ≤ 122 then n-87
    else if 65 ≤ n ∧ n ≤ 90 then n-55
    else 99
  if v < radix then some v else none

/-- A number of at least one digit. -/
def natIn (radix : Nat) (cs : List Char) : Option Nat :=
  if cs.isEmpty then none else cs.foldlM (fun n c => (digitIn radix c).map (n*radix+·)) 0

/-- Digits with a leading zero, which are no number. -/
def isZeroPadded (cs : List Char) : Bool :=
  let cs := match cs with
    | '-'::cs | '+'::cs => cs
    | cs => cs
  match cs with
  | '0'::c::cs => (c::cs).all Char.isDigit
  | _ => false

def magnitude (cs : List Char) : Option Nat :=
  match cs with
  | '0':: 'x'::cs => natIn 16 cs
  | '0':: 'o'::cs => natIn 8 cs
  | '0':: 'b'::cs => natIn 2 cs
  | cs => if isZeroPadded cs then none else natIn 10 cs

/-- A whole number: decimal, or hexadecimal, octal or binary with its sign in front. -/
def wholeNumber (cs : List Char) : Option Int :=
  match cs with
  | '+'::cs => (magnitude cs).map (·)
  | '-'::cs => (magnitude cs).map fun n => -(n : Int)
  | cs => (magnitude cs).map (·)

/-- The decimal notation of a real number, without names for the infinities. -/
def decimal? (cs : List Char) : Option Double :=
  let (negative,cs) := match cs with
    | '-'::cs => (true,cs)
    | '+'::cs => (false,cs)
    | cs => (false,cs)
  let whole := cs.takeWhile Char.isDigit
  let cs := cs.dropWhile Char.isDigit
  let (fraction,cs) := match cs with
    | '.'::cs => (cs.takeWhile Char.isDigit,cs.dropWhile Char.isDigit)
    | cs => ([],cs)
  if whole.isEmpty ∧ fraction.isEmpty then none
  else
    let exp : Option Int := match cs with
      | [] => some 0
      | e::cs =>
        if e = 'e' ∨ e = 'E' then
          match cs with
          | '-'::cs => (natIn 10 cs).map fun n => -(n : Int)
          | '+'::cs => (natIn 10 cs).map (·)
          | cs => (natIn 10 cs).map (·)
        else none
    match exp, natIn 10 (whole ++ fraction) with
    | some e, some n => some (Double.ofDecimal negative n (e-fraction.length))
    | _, _ => none

/-- A real number. One that is too large to be finite is none. -/
def realNumber (cs : List Char) : Option Double :=
  let s := String.ofList cs
  let unsigned := match cs with
    | '+'::cs => cs
    | cs => cs
  let u := String.ofList unsigned
  if cs.head? = some '+' ∧ (unsigned.head? = some '+' ∨ unsigned.head? = some '-') then none
  else if u = ".inf" ∨ u = ".Inf" ∨ u = ".INF" then some (Double.ofFloat (1.0/0.0))
  else if s = "-.inf" ∨ s = "-.Inf" ∨ s = "-.INF" then some (Double.ofFloat (-1.0/0.0))
  else if s = ".nan" ∨ s = ".NaN" ∨ s = ".NAN" then some (Double.ofFloat (0.0/0.0))
  else (decimal? unsigned).bind fun d => if d.isFinite then some d else none

def truth? (s : String) : Option Bool :=
  if s = "true" ∨ s = "True" ∨ s = "TRUE" then some true
  else if s = "false" ∨ s = "False" ∨ s = "FALSE" then some false
  else none

def isNullWord (s : String) : Bool := s = "null" || s = "Null" || s = "NULL" || s = "~"

/-- An integer is readable within 64 bits, signed or unsigned; up to 128 bits it is an integer that
cannot be read, and beyond that none. -/
def ofWhole (n : Int) : Option Atom :=
  if -(Nat.pow 2 63) ≤ n ∧ n < Nat.pow 2 64 then some (.int n)
  else if -(Nat.pow 2 127) ≤ n ∧ n < Nat.pow 2 128 then some .unreadable
  else none

/-- What a plain scalar stands for. -/
def ofPlain (s : String) : Atom :=
  if s.isEmpty ∨ isNullWord s then .null
  else match truth? s with
    | some b => .bool b
    | none =>
      match (wholeNumber s.toList).bind ofWhole with
      | some a => a
      | none =>
        if isZeroPadded s.toList then .string
        else match realNumber s.toList with
          | some d => .float d
          | none => .string

def coreTag : String := "tag:yaml.org,2002:"

/-- What a scalar with a tag stands for. -/
def ofTagged (tag s : String) (plain : Bool) : Atom :=
  if tag = coreTag ++ "bool" then ((truth? s).map .bool).getD .unreadable
  else if tag = coreTag ++ "int" then ((wholeNumber s.toList).bind ofWhole).getD .unreadable
  else if tag = coreTag ++ "float" then ((realNumber s.toList).map .float).getD .unreadable
  else if tag = coreTag ++ "null" then if isNullWord s then .null else .unreadable
  else if tag.startsWith "!" ∧ plain then ofPlain s
  else .string

end Atom

namespace Scalar

/-- A tag of an application, which names no type of the core schema. -/
def isApplicationTag (tag : Option String) : Bool := tag.any fun t => t.startsWith "!"

def isPlain (s : Scalar) : Bool := s.style == .plain

/-- It carries a tag of an application. -/
def isTagged (s : Scalar) : Bool := isApplicationTag s.tag

/-- Where a number or a truth value is expected, it is read from a plain scalar whatever its tag, and
from a literal block with the tag of its kind. -/
def reads (s : Scalar) (kind : String) : Bool :=
  s.isPlain || (s.style == .literal && s.tag == some (Atom.coreTag ++ kind))

/-- Whether a scalar stands for nothing, where there may be something: it is plain and empty, or a
word for null. With a tag it stands for something, unless the tag is that of null: then it has to be
such a word. -/
def isNothing? (s : Scalar) : Option Bool :=
  if !s.isPlain then some false
  else match s.tag with
    | none => some (s.text.isEmpty || Atom.isNullWord s.text)
    | some t =>
      if t = Atom.coreTag ++ "null" then (if Atom.isNullWord s.text then some true else none)
      else some false

def ofText (text : String) (style : Style) (tag : Option String) : Scalar :=
  let plain := style == .plain
  let atom := match tag with
    | some t => Atom.ofTagged t text plain
    | none => if plain then Atom.ofPlain text else .string
  ⟨text,atom,style,tag⟩

end Scalar

end TaskGraph.Yaml
