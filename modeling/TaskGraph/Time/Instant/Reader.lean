import TaskGraph.Time.Instant

/-!
Reads dates and times such as `2001-02-03T04:05:06.789+02:00`. The reading is lenient: blanks may
stand around the marks, leading zeros may be missing, and the offset may be written without a colon.
-/

namespace TaskGraph.Instant

/-- A number of one to `most` digits at the start of a text, and what follows it. -/
def digits (most : Nat) (cs : List Char) : Option (Nat × List Char) :=
  let ds := (cs.take most).takeWhile Char.isDigit
  if ds.isEmpty then none else some (Duration.digitsValue ds,cs.drop ds.length)

/-- A field of at most two digits, perhaps after blanks. -/
def field (cs : List Char) : Option (Nat × List Char) := digits 2 (Text.trimStart cs)

/-- One of some marks. -/
def mark (options : List Char) : List Char → Option (List Char)
  | c::cs => if options.contains c then some cs else none
  | [] => none

/-- A mark between two fields, perhaps after blanks. -/
def between (c : Char) (cs : List Char) : Option (List Char) := mark [c] (Text.trimStart cs)

/-- A year of at most four digits, or of any number of digits after a sign. -/
def yearField (cs : List Char) : Option (Int × List Char) :=
  match Text.trimStart cs with
  | '-'::cs => (digits cs.length cs).map fun (n,cs) => (-n,cs)
  | '+'::cs => (digits cs.length cs).map fun (n,cs) => (n,cs)
  | cs => (digits 4 cs).map fun (n,cs) => (n,cs)

/-- The fraction of a second in nanoseconds; only nine digits count. -/
def fractionField : List Char → Option (Nat × List Char)
  | '.'::cs =>
    let ds := cs.takeWhile Char.isDigit
    let nine := ds.take 9
    if ds.isEmpty then none
    else some (Duration.digitsValue nine*Nat.pow 10 (9-nine.length),cs.drop ds.length)
  | cs => some (0,cs)

/-- Exactly two digits. -/
def pair : List Char → Option (Nat × List Char)
  | a::b::cs => if a.isDigit && b.isDigit then some (Duration.digitsValue [a,b],cs) else none
  | _ => none

/-- Whether a text starts with the name of universal time. -/
def startsUniversal (cs : List Char) : Bool :=
  (cs.take 3).map Char.toLower == ['u','t','c']

/-- An offset in minutes. Colons and blanks may part its hours from its minutes. -/
def offset (cs : List Char) : Option (Int × List Char) :=
  if startsUniversal cs then some (0,cs.drop 3)
  else
    match cs with
    | 'Z'::cs | 'z'::cs => some (0,cs)
    | sign::cs => do
      if ¬['+','-','−'].contains sign then none
      let (h,cs) ← pair cs
      let (m,cs) ← pair (cs.dropWhile fun c => c = ':' || Text.isBlank c)
      if m > 59 ∨ h > 23 then none
      let total : Int := h*60+m
      some (if sign = '+' then total else -total,cs)
    | [] => none

/-- The years that have dates. -/
def isYear (year : Int) : Bool := decide (-262143 ≤ year ∧ year ≤ 262142)

def parse? (s : String) : Option Instant := do
  let (year,cs) ← yearField s.toList
  let (month,cs) ← field (← between '-' cs)
  let (day,cs) ← field (← between '-' cs)
  let cs ← mark ['T','t',' '] cs
  let (hour,cs) ← field cs
  let (minute,cs) ← field (← between ':' cs)
  let (second,cs) ← field (← between ':' cs)
  let (fraction,cs) ← fractionField cs
  let (shift,cs) ← offset (Text.trimStart cs)
  if ¬cs.all Text.isBlank ∨ ¬isYear year ∨ month < 1 ∨ month > 12 ∨ day < 1
    ∨ (day : Int) > daysInMonth year month ∨ hour > 23 ∨ minute > 59 ∨ second > 60 then none
  let counted := min second 59
  let t : Instant :=
    ⟨daysOfDate year month day*86400+hour*3600+minute*60+counted-shift*60,
      fraction+(second-counted)*1000000000⟩
  if isYear t.date.1 then some t else none

end TaskGraph.Instant
