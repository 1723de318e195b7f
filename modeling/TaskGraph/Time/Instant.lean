import TaskGraph.Time.Duration

/-!
Points in time, counted in seconds and nanoseconds from the start of 1970, with the date-and-time
text of records.
-/

namespace TaskGraph

/-- A point in time. A thousand million nanoseconds and more lie in a leap second, which follows the
second that is counted. -/
structure Instant where
  secs : Int
  nanos : Nat := 0
  deriving DecidableEq, Inhabited, Repr

namespace Instant

def ofMillis (n : Nat) : Instant := ⟨n/1000,n%1000*1000000⟩

/-- The order of time; a leap second is before the next second. -/
def isBefore (a b : Instant) : Bool :=
  decide (a.secs < b.secs) || (a.secs == b.secs && decide (a.nanos < b.nanos))

/-- The time from one instant to a later one. -/
def since? (start finish : Instant) : Option Duration :=
  let span := (finish.secs-start.secs)*1000000000+finish.nanos-start.nanos
  if 0 ≤ span then some ⟨span.toNat⟩ else none

/-- Days from the start of 1970 to a date of the Gregorian calendar. -/
def daysOfDate (year month day : Int) : Int :=
  let y := if month ≤ 2 then year-1 else year
  let era := y.fdiv 400
  let yearOfEra := y-era*400
  let shifted := if month > 2 then month-3 else month+9
  let dayOfYear := (153*shifted+2)/5+day-1
  let dayOfEra := yearOfEra*365+yearOfEra/4-yearOfEra/100+dayOfYear
  era*146097+dayOfEra-719468

/-- The date a number of days after the start of 1970. -/
def dateOfDays (days : Int) : Int × Int × Int :=
  let z := days+719468
  let era := z.fdiv 146097
  let dayOfEra := z-era*146097
  let yearOfEra := (dayOfEra-dayOfEra/1460+dayOfEra/36524-dayOfEra/146096)/365
  let dayOfYear := dayOfEra-(365*yearOfEra+yearOfEra/4-yearOfEra/100)
  let shifted := (5*dayOfYear+2)/153
  let day := dayOfYear-(153*shifted+2)/5+1
  let month := if shifted < 10 then shifted+3 else shifted-9
  let year := yearOfEra+era*400
  (if month ≤ 2 then year+1 else year,month,day)

def daysInMonth (year month : Int) : Int :=
  if month = 2 then
    if year%4 = 0 ∧ (year%100 ≠ 0 ∨ year%400 = 0) then 29 else 28
  else if month = 4 ∨ month = 6 ∨ month = 9 ∨ month = 11 then 30 else 31

/-- A number in a field of some width, filled up from the left; a sign stands before zeros and after
blanks. -/
def filled (fill : Char) (width : Nat) (n : Int) (plus : Bool) : String :=
  let sign := if n < 0 then ['-'] else if plus then ['+'] else []
  let ds := (toString n.natAbs).toList
  let room := List.replicate (width-(sign.length+ds.length)) fill
  String.ofList (if fill = ' ' then room ++ sign ++ ds else sign ++ room ++ ds)

def two (n : Int) : String := filled '0' 2 n false

/-- A year has four digits; one that needs more, or lies before the year 0, shows its sign. -/
def yearText (year : Int) : String :=
  if 0 ≤ year ∧ year ≤ 9999 then filled '0' 4 year false else filled '0' 5 year true

/-- The days from the start of 1970 to the day of an instant. -/
def day (t : Instant) : Int := t.secs.fdiv 86400

def date (t : Instant) : Int × Int × Int := dateOfDays t.day

/-- Hour, minute and second; a leap second is the sixtieth of its minute. -/
def clock (t : Instant) : Int × Int × Int :=
  let inDay := t.secs.fmod 86400
  (inDay/3600,inDay%3600/60,inDay%60+(if t.nanos < 1000000000 then 0 else 1))

/-- The nanoseconds within the second. -/
def fraction (t : Instant) : Nat := t.nanos%1000000000

/-- The first digits of the fraction of a second. -/
def fractionDigits (t : Instant) (places : Nat) : String :=
  filled '0' places (t.fraction/Nat.pow 10 (9-places)) false

/-- The fraction of a second in three, six or nine digits, the fewest that suffice. -/
def fractionText (t : Instant) : String :=
  if t.fraction = 0 then ""
  else if t.fraction%1000000 = 0 then "." ++ t.fractionDigits 3
  else if t.fraction%1000 = 0 then "." ++ t.fractionDigits 6
  else "." ++ t.fractionDigits 9

def dateText (t : Instant) : String :=
  let (year,month,day) := t.date
  yearText year ++ "-" ++ two month ++ "-" ++ two day

def clockText (t : Instant) : String :=
  let (hour,minute,second) := t.clock
  two hour ++ ":" ++ two minute ++ ":" ++ two second

/-- The date and time in universal time, without an offset. -/
def plainText (t : Instant) : String := t.dateText ++ "T" ++ t.clockText ++ t.fractionText

/-- The text that records use. -/
def text (t : Instant) : String := t.plainText ++ "Z"

/-- The text with a numeric offset. -/
def textWithOffset (t : Instant) : String := t.plainText ++ "+00:00"

end Instant

end TaskGraph
