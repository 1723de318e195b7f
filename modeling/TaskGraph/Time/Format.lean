import TaskGraph.Time.Instant

/-!
Dates and times by a pattern, in universal time. A percent sign and a letter stand for a part; between
them a mark may say how a number is filled up.
-/

namespace TaskGraph.Instant

def dayNames : List String :=
  ["Sunday","Monday","Tuesday","Wednesday","Thursday","Friday","Saturday"]

def monthNames : List String := ["January","February","March","April","May","June","July","August",
  "September","October","November","December"]

def firstThree (s : String) : String := String.ofList (s.toList.take 3)

/-- What a number is filled up with to its width. -/
inductive Filling where
  | nothing
  | zeros
  | blanks
  deriving DecidableEq, Repr

def Filling.ofMark? : Char → Option Filling
  | '-' => some .nothing
  | '0' => some .zeros
  | '_' => some .blanks
  | _ => none

/-- A part of a date or time. -/
inductive Part where
  | number (n : Int) (width : Nat) (filling : Filling)
  /-- A year shows its sign when it needs more than four digits. -/
  | year (n : Int)
  | text (s : String)

def Part.shown : Part → String
  | .number n width filling =>
    match filling with
    | .nothing => toString n
    | .zeros => filled '0' width n false
    | .blanks => filled ' ' width n false
  | .year n => yearText n
  | .text s => s

/-- The part with its number filled up in another way. What is no number has none. -/
def Part.refilled? (filling : Filling) : Part → Option Part
  | .number n width _ => some (.number n width filling)
  | .year n =>
    let plus := decide (n < 0 ∨ 9999 < n)
    let width := if plus then 5 else 4
    some (.text (match filling with
      | .nothing => filled ' ' 0 n plus
      | .zeros => filled '0' width n plus
      | .blanks => filled ' ' width n plus))
  | .text _ => none

/-- The day of the week of a day, Sunday first. -/
def weekdayOf (days : Int) : Int := (days+4).fmod 7

/-- The day of the year of a day, from 1 on. -/
def ordinalOf (days : Int) : Int := days-daysOfDate (dateOfDays days).1 1 1+1

/-- The Thursday of the week of a day; the week belongs to the year of its Thursday. -/
def thursdayOf (days : Int) : Int := days-(weekdayOf days+6).fmod 7+3

/-- The week of the year, where weeks start on some day of the week and the days before the first
start are week 0. -/
def weekFrom (start days : Int) : Int := (ordinalOf days-(weekdayOf days-start).fmod 7+6)/7

/-- The part of a pattern that a letter stands for. -/
def part? (t : Instant) (letter : Char) : Option Part :=
  let (year,month,day) := t.date
  let (hour,minute,second) := t.clock
  let weekday := weekdayOf t.day
  let thursday := thursdayOf t.day
  let weekYear := (dateOfDays thursday).1
  let hour12 := if hour%12 = 0 then 12 else hour%12
  let half := if hour < 12 then "AM" else "PM"
  let dayName := dayNames.getD weekday.toNat ""
  let monthName := monthNames.getD (month-1).toNat ""
  let zeros (n : Int) : Option Part := some (.number n 2 .zeros)
  let blanks (n : Int) : Option Part := some (.number n 2 .blanks)
  let shortDate := two month ++ "/" ++ two day ++ "/" ++ two (year.fmod 100)
  let blankDay := filled ' ' 2 day false
  match letter with
  | 'Y' => some (.year year)
  | 'G' => some (.year weekYear)
  | 'C' => zeros (year.fdiv 100)
  | 'y' => zeros (year.fmod 100)
  | 'g' => zeros (weekYear.fmod 100)
  | 'm' => zeros month
  | 'd' => zeros day
  | 'e' => blanks day
  | 'H' => zeros hour
  | 'k' => blanks hour
  | 'I' => zeros hour12
  | 'l' => blanks hour12
  | 'M' => zeros minute
  | 'S' => zeros second
  | 'f' => some (.number t.fraction 9 .zeros)
  | 'j' => some (.number (ordinalOf t.day) 3 .zeros)
  | 'U' => zeros (weekFrom 0 t.day)
  | 'W' => zeros (weekFrom 1 t.day)
  | 'V' => zeros ((ordinalOf thursday-1)/7+1)
  | 'u' => some (.number (if weekday = 0 then 7 else weekday) 1 .nothing)
  | 'w' => some (.number weekday 1 .nothing)
  | 'q' => some (.number ((month+2)/3) 1 .nothing)
  | 's' => some (.number t.secs 9 .nothing)
  | 'a' => some (.text (firstThree dayName))
  | 'A' => some (.text dayName)
  | 'b' | 'h' => some (.text (firstThree monthName))
  | 'B' => some (.text monthName)
  | 'p' => some (.text half)
  | 'P' => some (.text half.toLower)
  | 'D' | 'x' => some (.text shortDate)
  | 'F' => some (.text t.dateText)
  | 'T' | 'X' => some (.text t.clockText)
  | 'R' => some (.text (two hour ++ ":" ++ two minute))
  | 'r' => some (.text (two hour12 ++ ":" ++ two minute ++ ":" ++ two second ++ " " ++ half))
  | 'c' => some (.text (firstThree dayName ++ " " ++ firstThree monthName ++ " " ++ blankDay ++ " "
      ++ t.clockText ++ " " ++ yearText year))
  | 'v' => some (.text (blankDay ++ "-" ++ firstThree monthName ++ "-" ++ yearText year))
  | 'Z' => some (.text "UTC")
  | 'z' => some (.text "+0000")
  | '+' => some (.text t.textWithOffset)
  | 't' => some (.text "\t")
  | 'n' => some (.text "\n")
  | '%' => some (.text "%")
  | _ => none

/-- How many digits of a fraction a pattern may ask for. -/
def places? : Char → Option Nat
  | '3' => some 3
  | '6' => some 6
  | '9' => some 9
  | _ => none

/-- The text of what stands behind a percent sign, and the rest of the pattern. -/
def directive? (t : Instant) : List Char → Option (String × List Char)
  | ':' :: ':' :: ':' :: 'z'::rest => some ("+00",rest)
  | ':' :: ':' :: 'z'::rest => some ("+00:00:00",rest)
  | ':' :: 'z'::rest => some ("+00:00",rest)
  | '.' :: 'f'::rest => some (t.fractionText,rest)
  | '.'::c :: 'f'::rest => (places? c).map fun n => ("." ++ t.fractionDigits n,rest)
  | c::rest =>
    match places? c, Filling.ofMark? c, rest with
    | some n, _, 'f'::rest => some (t.fractionDigits n,rest)
    | none, some filling, c::rest => do
      some ((← (← t.part? c).refilled? filling).shown,rest)
    | none, none, rest => (t.part? c).map fun p => (p.shown,rest)
    | _, _, _ => none
  | [] => none

/-- The text of a pattern, read for a number of parts. -/
def formatChars (t : Instant) : Nat → List Char → Option String
  | 0, _ => none
  | _+1, [] => some ""
  | fuel+1, '%'::rest => do
    let (s,rest) ← t.directive? rest
    some (s ++ (← t.formatChars fuel rest))
  | fuel+1, c::rest => do some (String.singleton c ++ (← t.formatChars fuel rest))

/-- The text of a pattern; none if it asks for a part that there is not. -/
def format? (t : Instant) (pattern : String) : Option String :=
  t.formatChars (pattern.length+1) pattern.toList

end TaskGraph.Instant
