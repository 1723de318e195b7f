import TaskGraph.Text.Blank

/-!
Spans of time in whole nanoseconds, with two texts: the spoken one of definitions (`1m 30s`), which
is also read, and the compact one of messages (`1.5s`).
-/

namespace TaskGraph

structure Duration where
  nanos : Nat
  deriving DecidableEq, Inhabited, Repr

namespace Duration

def zero : Duration := ⟨0⟩

def ofMillis (n : Nat) : Duration := ⟨n*1000000⟩

def ofSecs (n : Nat) : Duration := ⟨n*1000000000⟩

def secs (d : Duration) : Nat := d.nanos/1000000000

def subsecNanos (d : Duration) : Nat := d.nanos%1000000000

/-- Whole milliseconds, the rest cut off. -/
def millis (d : Duration) : Nat := d.nanos/1000000

/-- Whole milliseconds, a started one counted. -/
def ticks (d : Duration) : Nat := (d.nanos+999999)/1000000

/-- The longest wait in milliseconds: thirty years of 365 days. -/
def longestWait : Nat := 30*365*86400*1000

/-- The milliseconds that a wait takes. -/
def wait (d : Duration) : Nat := min d.ticks longestWait

def max (a b : Duration) : Duration := if a.nanos ≤ b.nanos then b else a

/-- Nanoseconds in a year of 365.25 days and in a month of 30.44 days. -/
def yearNanos : Nat := 31557600*1000000000

def monthNanos : Nat := 2630016*1000000000

/-- The units that are read, with their nanoseconds. -/
def units : List (List String × Nat) := [
  (["nanos","nsec","ns"],1),
  (["usec","us","µs"],1000),
  (["millis","msec","ms"],1000000),
  (["seconds","second","secs","sec","s"],1000000000),
  (["minutes","minute","min","mins","m"],60*1000000000),
  (["hours","hour","hr","hrs","h"],3600*1000000000),
  (["days","day","d"],86400*1000000000),
  (["weeks","week","wk","wks","w"],604800*1000000000),
  (["months","month","M"],monthNanos),
  (["years","year","yr","yrs","y"],yearNanos)]

def unitNanos? (name : String) : Option Nat :=
  (units.find? fun u => u.1.contains name).map (·.2)

def isUnitChar (c : Char) : Bool := c.isAlpha || c = 'µ'

/-- The digits of a number, blanks passed over, and what follows them. -/
def numberText : List Char → List Char × List Char
  | [] => ([],[])
  | c::cs =>
    if c.isDigit then let (ds,rest) := numberText cs; (c::ds,rest)
    else if Text.isBlank c then numberText cs
    else ([],c::cs)

def digitsValue (ds : List Char) : Nat := ds.foldl (fun n c => n*10+(c.toNat-48)) 0

/-- A count that has to fit 64 bits. -/
def word? (n : Nat) : Option Nat := if n < Nat.pow 2 64 then some n else none

/-- Why a text is not read as a span. -/
inductive Defect where
  | malformed
  /-- The fractions of a second fill up to one second more than 64 bits of seconds can count. -/
  | overflow
  deriving DecidableEq, Repr

/-- A span that is longer by some seconds and nanoseconds. The seconds have to fit 64 bits. -/
def plus (d : Duration) (secs nanos : Nat) : Except Defect Duration :=
  let n := d.subsecNanos+nanos
  let s := d.secs+secs
  if Nat.pow 2 64 ≤ n then .error .malformed
  else if n = 1000000000 ∧ s = Nat.pow 2 64-1 then .error .overflow
  else if Nat.pow 2 64 ≤ s+n/1000000000 then .error .malformed
  else .ok ⟨s*1000000000+n⟩

/-- The seconds and nanoseconds of a count of units. Units of a second and more are counted in
seconds, shorter ones in nanoseconds. -/
def wholePart? (n unit : Nat) : Option (Nat × Nat) :=
  if unit < 1000000000 then (word? (n*unit)).map fun n => (0,n)
  else (word? (n*(unit/1000000000))).map fun n => (n,0)

/-- The seconds and nanoseconds of a fraction of a unit. Up to a minute it comes out in whole
nanoseconds, beyond in whole seconds, or it is refused; a nanosecond has no fractions. -/
def fractionPart? (ds : List Char) (unit : Nat) : Option (Nat × Nat) := do
  let n := digitsValue ds
  let parts ← word? (Nat.pow 10 ds.length)
  if unit = 1 then none
  else if unit ≤ 60*1000000000 then
    let n ← word? (n*unit)
    if n%parts = 0 then some (0,n/parts) else none
  else
    let n ← word? (n*(unit/1000000000))
    if n%parts = 0 then some (n/parts,0) else none

/-- One part of a span text: a number, perhaps with a fraction, and a unit in nanoseconds. -/
structure Part where
  whole : Nat
  fraction : Option (List Char)
  unit : Nat

/-- The first part of a text, and what follows. Its unit ends at a blank or at the next number. -/
def Part.read? (cs : List Char) : Option (Part × List Char) := do
  let (ds,rest) := numberText cs
  let (fraction,rest) := match rest with
    | '.'::tail => let (fs,rest) := numberText tail; (some fs,rest)
    | _ => (none,rest)
  let name := rest.takeWhile isUnitChar
  let rest := rest.dropWhile isUnitChar
  let ended := match rest with
    | [] => true
    | c::_ => c.isDigit || Text.isBlank c
  if !ended || fraction == some [] then none
  some (⟨← word? (digitsValue ds),fraction,← unitNanos? (String.ofList name)⟩,rest)

/-- A span that is longer by a part of a text. -/
def plusPart (d : Duration) (part : Part) : Except Defect Duration :=
  match wholePart? part.whole part.unit with
  | none => .error .malformed
  | some (secs,nanos) =>
    match d.plus secs nanos, part.fraction with
    | .ok d, some ds =>
      match fractionPart? ds part.unit with
      | some (secs,nanos) => d.plus secs nanos
      | none => .error .malformed
    | d, _ => d

/-- A span that is longer by all the parts of a text. -/
def plusParts : Nat → Duration → List Char → Except Defect Duration
  | 0, _, _ => .error .malformed
  | fuel+1, d, cs =>
    match Text.trimStart cs with
    | [] => .ok d
    | c::rest =>
      if c.isDigit then
        match Part.read? (c::rest) with
        | some (part,rest) =>
          match d.plusPart part with
          | .ok d => plusParts fuel d rest
          | .error e => .error e
        | none => .error .malformed
      else .error .malformed

/-- Reads a span text, which has at least one part; a lone `0` needs no unit. -/
def read (s : String) : Except Defect Duration :=
  if s = "0" then .ok zero
  else if Text.isBlankText s then .error .malformed
  else plusParts (s.length+1) zero s.toList

def parse? (s : String) : Option Duration := (read s).toOption

def plural (name : String) (n : Nat) : List String :=
  if n = 0 then [] else if n = 1 then [s!"1{name}"] else [s!"{n}{name}s"]

def counted (name : String) (n : Nat) : List String := if n = 0 then [] else [s!"{n}{name}"]

/-- The text that definitions use, from years down to nanoseconds. -/
def spoken (d : Duration) : String :=
  let s := d.secs
  let n := d.subsecNanos
  let inYear := s%31557600
  let inMonth := inYear%2630016
  let inDay := inMonth%86400
  let parts := plural "year" (s/31557600) ++ plural "month" (inYear/2630016)
    ++ plural "day" (inMonth/86400) ++ counted "h" (inDay/3600) ++ counted "m" (inDay%3600/60)
    ++ counted "s" (inDay%60) ++ counted "ms" (n/1000000) ++ counted "us" (n/1000%1000)
    ++ counted "ns" (n%1000)
  if parts.isEmpty then "0s" else " ".intercalate parts

/-- A whole part and a fraction in units of 10^-`places`, without trailing zeros. -/
def decimal (whole fraction places : Nat) : String :=
  let ds := (toString fraction).toList
  let ds := List.replicate (places-ds.length) '0' ++ ds
  let ds := (ds.reverse.dropWhile (· = '0')).reverse
  if fraction = 0 then toString whole else s!"{whole}." ++ String.ofList ds

/-- The text that messages use: the largest unit that leaves a whole part. -/
def compact (d : Duration) : String :=
  if 0 < d.secs then decimal d.secs d.subsecNanos 9 ++ "s"
  else if 1000000 ≤ d.nanos then decimal (d.nanos/1000000) (d.nanos%1000000) 6 ++ "ms"
  else if 1000 ≤ d.nanos then decimal (d.nanos/1000) (d.nanos%1000) 3 ++ "µs"
  else toString d.nanos ++ "ns"

end Duration

end TaskGraph
