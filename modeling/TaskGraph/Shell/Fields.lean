import TaskGraph.Shell.Pattern

/-!
The fields that the value of a word is split into. Only what parameters and scripts bring is split, at
separators: blank ones, which are dropped at both ends of a field, and others, each of which ends one
field. What is not split may still hold marks of a pattern, unless it was quoted.
-/

namespace TaskGraph.Shell

inductive Bit where
  /-- A byte that was quoted. -/
  | fixed (c : Char)
  /-- A byte of the word itself. -/
  | plain (c : Char)
  /-- A byte that was brought in. -/
  | loose (c : Char)
  /-- A quote. -/
  | mark
  /-- The end of an argument when each of them is a field. -/
  | stop
  /-- The border of a part that was brought in. -/
  | edge
  deriving DecidableEq, Repr

namespace Bit

def char? : Bit → Option Char
  | .fixed c | .plain c | .loose c => some c
  | _ => none

/-- The byte with whether it may be a mark of a pattern. -/
def sign? : Bit → Option (Char × Bool)
  | .fixed c => some (c,false)
  | .plain c | .loose c => some (c,true)
  | _ => none

end Bit

/-- The text of bits that are not split. -/
def textOf (bits : List Bit) : String := String.ofList (bits.filterMap Bit.char?)

def patternOf (bits : List Bit) : Pattern :=
  let signs := bits.filterMap Bit.sign?
  .ofBytes signs.length signs

/-- Stands between arguments that are brought in together, and separates like a blank. -/
def gap : Char := Char.ofNat 0

structure Separators where
  chars : List Char

namespace Separators

def usual : Separators := ⟨[' ','\t','\n']⟩

def separates (s : Separators) (c : Char) : Bool := s.chars.contains c || c == gap

def isBlank (s : Separators) (c : Char) : Bool := s.separates c && (usual.chars.contains c || c == gap)

end Separators

/-- Fields under way. -/
structure Splitting where
  done : List (List Bit)
  /-- The bits of the field at hand, the last first. -/
  current : List Bit
  /-- The last field ended with a blank, so that one more separator may belong to its end. -/
  afterBlank : Bool
  deriving DecidableEq, Repr

namespace Splitting

def start : Splitting := ⟨[],[],false⟩

def close (s : Splitting) (afterBlank : Bool) : Splitting :=
  ⟨s.done ++ [s.current.reverse],[],afterBlank⟩

def step (seps : Separators) (s : Splitting) : Bit → Splitting
  | .edge => {s with afterBlank := false}
  | .stop => s.close false
  | .loose c =>
    if !seps.separates c then {s with current := .loose c::s.current, afterBlank := false}
    else if s.afterBlank then {s with afterBlank := seps.isBlank c}
    else if s.current.isEmpty && seps.isBlank c then s
    else s.close (seps.isBlank c)
  | b => {s with current := b::s.current, afterBlank := false}

end Splitting

/-- The fields of bits. -/
def fieldsOf (seps : Separators) (bits : List Bit) : List (List Bit) :=
  let s := bits.foldl (Splitting.step seps) .start
  if s.current.isEmpty then s.done else s.done ++ [s.current.reverse]

/-- The text without blanks behind it. -/
def trimEnd (seps : Separators) (bits : List Bit) : List Bit :=
  (bits.reverse.dropWhile fun
    | .loose c => seps.isBlank c
    | _ => false).reverse

/-- What is left of a line for its last name: the field without its separator if there is one field,
and the whole rest without blanks behind it if there are several. -/
def lastField (seps : Separators) (bits : List Bit) : List Bit :=
  match fieldsOf seps bits with
  | [field] => field
  | _ => trimEnd seps bits

def isBlankBit (seps : Separators) : Bit → Bool
  | .loose c => seps.isBlank c
  | _ => false

/-- The first field of a line, and what follows its separator. -/
def firstField (seps : Separators) (bits : List Bit) : List Bit × List Bit :=
  let bits := bits.dropWhile (isBlankBit seps)
  let ends : Bit → Bool := fun
    | .loose c => seps.separates c
    | _ => false
  let field := bits.takeWhile fun b => !ends b
  let rest := (bits.drop field.length).dropWhile (isBlankBit seps)
  match bits[field.length]?, rest with
  | some b, c::more =>
    if isBlankBit seps b then
      if ends c then (field,more.dropWhile (isBlankBit seps)) else (field,rest)
    else (field,more.dropWhile (isBlankBit seps))
  | _, rest => (field,rest)

/-- The texts that a line gives to a number of names. -/
def share (seps : Separators) : Nat → List Bit → List String
  | 0, _ => []
  | 1, bits => [textOf (lastField seps (bits.dropWhile (isBlankBit seps)))]
  | n+1, bits =>
    let (field,rest) := firstField seps bits
    textOf field::share seps n rest

end TaskGraph.Shell
