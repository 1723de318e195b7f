import TaskGraph.Data.Double
import TaskGraph.Shell.Arithmetic

/-!
What the commands that write put together: escapes, and texts and numbers in given formats.
-/

namespace TaskGraph.Shell.Output

def octal? (c : Char) : Option Nat := if '0' ≤ c ∧ c ≤ '7' then some (c.toNat-48) else none

def byte (n : Nat) : Char := Char.ofNat (n%256)

/-- Up to `n` octal digits, with what follows. -/
def octals : Nat → Nat → List Char → Nat × List Char
  | 0, value, cs => (value,cs)
  | n+1, value, c::cs =>
    match octal? c with
    | some d => octals n (value*8+d) cs
    | none => (value,c::cs)
  | _+1, value, [] => (value,[])

/-- The byte that a letter behind a backslash stands for. -/
def letter? : Char → Option Nat
  | 'a' => some 7
  | 'b' => some 8
  | 'f' => some 12
  | 'n' => some 10
  | 'r' => some 13
  | 't' => some 9
  | 'v' => some 11
  | '\\' => some 92
  | _ => none

/-- What stands behind a backslash: a letter, or up to three octal digits. A backslash before
anything else stands for itself. -/
def escape (cs : List Char) : Char × List Char :=
  match cs with
  | [] => ('\\',[])
  | c::rest =>
    match octal? c, letter? c with
    | some _, _ => let (code,rest) := octals 3 0 cs; (byte code,rest)
    | none, some code => (byte code,rest)
    | none, none => ('\\',cs)

/-- A text with its escapes read: an octal code may start with a further zero, and `\c` ends the
output. The flag tells whether the output goes on. -/
def unescape : Nat → List Char → List Char × Bool
  | 0, _ => ([],true)
  | _+1, [] => ([],true)
  | _+1, '\\':: 'c'::_ => ([],false)
  | n+1, '\\':: '0'::rest =>
    let (code,rest) := octals 3 0 rest
    let (cs,more) := unescape n rest
    (byte code::cs,more)
  | n+1, '\\'::rest =>
    let (c,rest) := escape rest
    let (cs,more) := unescape n rest
    (c::cs,more)
  | n+1, c::rest => let (cs,more) := unescape n rest; (c::cs,more)

/-- Words with a blank between them. Escapes in them count, and a first `-n` leaves out the line
end. -/
def echo (words : List String) : String :=
  let (words,line) := match words with
    | "-n"::words => (words,false)
    | words => (words,true)
  let text := (" ".intercalate words).toList
  let (cs,more) := unescape (text.length+1) text
  String.ofList (if line && more then cs ++ ['\n'] else cs)

/-- Words with a blank between them, after options: `-n` leaves out the line end, `-e` lets escapes
count and `-E` does not. -/
def echoProgram (escapes line : Bool) : List String → String
  | [] => if line then "\n" else ""
  | w::ws =>
    match w.toList with
    | '-'::c::cs =>
      if (c::cs).all ['n','e','E'].contains then
        echoProgram ((c::cs).foldl (fun on d => if d = 'n' then on else d == 'e') escapes)
          (line && !(c::cs).contains 'n') ws
      else plain (w::ws)
    | _ => plain (w::ws)
where
  plain (words : List String) : String :=
    let text := (" ".intercalate words).toList
    let (cs,more) := if escapes then unescape (text.length+1) text else (text,true)
    String.ofList (if line && more then cs ++ ['\n'] else cs)

/-- The flags, width and precision between a percent sign and its letter. -/
structure Conversion where
  left : Bool
  plus : Bool
  blank : Bool
  marked : Bool
  zeros : Bool
  width : Nat
  precision : Option Nat
  deriving DecidableEq, Repr

namespace Conversion

/-- Fills a text up to the width. -/
def fill (k : Conversion) (text : List Char) : List Char :=
  let missing := List.replicate (k.width-text.length) ' '
  if k.left then text ++ missing else missing ++ text

/-- A number in front of which zeros may stand, behind its sign. -/
def fillNumber (k : Conversion) (zeros : Bool) (sign body : List Char) : List Char :=
  if zeros && k.zeros && !k.left then
    sign ++ List.replicate (k.width-sign.length-body.length) '0' ++ body
  else k.fill (sign ++ body)

def text (k : Conversion) (text : List Char) : List Char :=
  k.fill (match k.precision with
    | some p => text.take p
    | none => text)

def sign (k : Conversion) (negative : Bool) : List Char :=
  if negative then ['-'] else if k.plus then ['+'] else if k.blank then [' '] else []

/-- Digits, at least as many as the precision asks for. -/
def digits (k : Conversion) (base n : Nat) : List Char :=
  let ds := if n = 0 ∧ k.precision = some 0 then [] else Nat.toDigits base n
  List.replicate (k.precision.getD 1-ds.length) '0' ++ ds

def signed (k : Conversion) (x : Int) : List Char :=
  k.fillNumber k.precision.isNone (k.sign (decide (x < 0))) (k.digits 10 x.natAbs)

def unsigned (k : Conversion) (letter : Char) (n : Nat) : List Char :=
  let zeros := k.precision.isNone
  if letter = 'o' then
    let ds := k.digits 8 n
    k.fillNumber zeros [] (if k.marked && ds.head? != some '0' then '0'::ds else ds)
  else if letter = 'x' then
    k.fillNumber zeros (if k.marked && n != 0 then ['0','x'] else []) (k.digits 16 n)
  else if letter = 'X' then
    k.fillNumber zeros (if k.marked && n != 0 then ['0','X'] else [])
      ((k.digits 16 n).map Char.toUpper)
  else k.fillNumber zeros [] (k.digits 10 n)

/-- The quotient to the nearest whole number, and of two the even one. -/
def nearest (a b : Nat) : Nat :=
  let q := a/b
  if 2*(a%b) > b ∨ 2*(a%b) = b ∧ q%2 = 1 then q+1 else q

/-- A number with places behind the point. -/
def fixedPoint (marked : Bool) (d : Double) (places : Nat) : List Char :=
  let n := nearest (d.mantissa*Nat.pow 2 d.exponent.toNat*Nat.pow 10 places)
    (Nat.pow 2 (-d.exponent).toNat)
  let ds := Nat.toDigits 10 n
  let ds := List.replicate (places+1-ds.length) '0' ++ ds
  let whole := ds.take (ds.length-places)
  if places = 0 then if marked then whole ++ ['.'] else whole
  else whole ++ '.'::ds.drop (ds.length-places)

/-- The digits of a number, one and as many as there are places, with the exponent of the first. -/
def leading (d : Double) (places : Nat) : List Char × Int :=
  if d.mantissa = 0 then (List.replicate (places+1) '0',0)
  else
    let e := Double.decimalExponent d.mantissa d.exponent
    let at' (e : Int) : Nat :=
      nearest (Double.scaled d.mantissa d.exponent (e-places))
        (Double.scaledDecimal 1 d.exponent (e-places))
    let n := at' e
    if n < Nat.pow 10 (places+1) then (Nat.toDigits 10 n,e) else (Nat.toDigits 10 (at' (e+1)),e+1)

def exponent (letter : Char) (e : Int) : List Char :=
  let ds := Nat.toDigits 10 e.natAbs
  letter::(if e < 0 then '-' else '+')::(if ds.length < 2 then '0'::ds else ds)

def scientific (marked : Bool) (letter : Char) (d : Double) (places : Nat) : List Char :=
  match leading d places with
  | (c::cs,e) =>
    c::(if places = 0 then if marked then ['.'] else [] else '.'::cs) ++ exponent letter e
  | ([],e) => exponent letter e

/-- Without zeros at the end of the places. -/
def stripped (cs : List Char) : List Char :=
  if cs.contains '.' then
    let kept := (cs.reverse.dropWhile (· == '0')).reverse
    if kept.getLast? = some '.' then kept.dropLast else kept
  else cs

/-- The shorter of both ways to write a number with as many digits as the precision says. -/
def general (marked : Bool) (letter : Char) (d : Double) (precision : Nat) : List Char :=
  let p := max precision 1
  let (ds,e) := leading d (p-1)
  let strip (cs : List Char) : List Char := if marked then cs else stripped cs
  if -4 ≤ e ∧ e < p then strip (fixedPoint marked d (p-1-e).toNat)
  else
    let places := strip (match ds with
      | c::cs => c:: '.'::cs
      | [] => [])
    places ++ exponent letter e

def real (k : Conversion) (letter : Char) (d : Double) : List Char :=
  let sign := k.sign d.isNegative
  let upper := letter.isUpper
  let case (text : List Char) : List Char := if upper then text.map Char.toUpper else text
  if d.isNaN then k.fillNumber false sign (case ['n','a','n'])
  else if !d.isFinite then k.fillNumber false sign (case ['i','n','f'])
  else
    let places := k.precision.getD 6
    let body := if letter.toLower = 'f' then fixedPoint k.marked d places
      else if letter.toLower = 'e' then scientific k.marked letter d places
      else general k.marked (if upper then 'E' else 'e') d places
    k.fillNumber true sign body

end Conversion

/-- A number in decimal notation that a text begins with, and what follows. -/
def decimal? (cs : List Char) : Option (Double × List Char) :=
  let blank := cs.dropWhile Arithmetic.isBlank
  let (negative,body) := match blank with
    | '-'::rest => (true,rest)
    | '+'::rest => (false,rest)
    | rest => (false,rest)
  let whole := body.takeWhile Char.isDigit
  let rest := body.drop whole.length
  let (places,rest) : List Char × List Char := match rest with
    | '.'::more =>
      let places := more.takeWhile Char.isDigit
      if whole.isEmpty && places.isEmpty then ([],rest) else (places,more.drop places.length)
    | rest => ([],rest)
  if whole.isEmpty && places.isEmpty then
    let lower := (body.take 8).map Char.toLower
    let infinite := Double.div .one .zero
    let signed (d : Double) : Double := if negative then d.neg else d
    if lower = "infinity".toList then some (signed infinite,body.drop 8)
    else if lower.take 3 = "inf".toList then some (signed infinite,body.drop 3)
    else if lower.take 3 = "nan".toList then some (signed (Double.ofFloat (0.0/0.0)),body.drop 3)
    else none
  else
    let (value,_) := Arithmetic.digits 10 0 (whole ++ places)
    let (exp,rest) : Int × List Char := match rest with
      | e::more =>
        if e == 'e' || e == 'E' then
          let (sign,ds) : Int × List Char := match more with
            | '-'::ds => (-1,ds)
            | '+'::ds => (1,ds)
            | ds => (1,ds)
          if ds.head?.any Char.isDigit then
            let (n,rest) := Arithmetic.digits 10 0 ds
            (sign*n,rest)
          else (0,rest)
        else (0,rest)
      | [] => (0,[])
    some (.ofDecimal negative value (exp-places.length),rest)

/-- What is wrong with a word that stands for a number. -/
inductive Doubt where
  | noNumber
  | moreThanNumber
  | outOfRange
  deriving DecidableEq, Repr

/-- A format under way: what has been written, the words left, and the words in doubt. -/
structure Printing where
  out : List Char := []
  words : List String
  doubts : List (String × Doubt) := []

/-- Why the writing ends before the format does. -/
inductive Stop where
  | wanted
  | noLetter
  | badDirective (text : String)
  deriving DecidableEq, Repr

abbrev Print := ExceptT Stop (StateM Printing)

namespace Print

def emit (cs : List Char) : Print Unit := modify fun p => {p with out := p.out ++ cs}

def doubt (word : String) (d : Doubt) : Print Unit :=
  modify fun p => {p with doubts := p.doubts ++ [(word,d)]}

def next? : Print (Option String) := modifyGet fun p => (p.words.head?,{p with words := p.words.tail})

/-- Looks at what follows a number in a word. -/
def check (word : String) (rest : Option (List Char)) (inRange : Bool) : Print Unit :=
  match rest with
  | none => if word.isEmpty then return else doubt word .noNumber
  | some (_::_) => doubt word .moreThanNumber
  | some [] => if inRange then return else doubt word .outOfRange

/-- The code of the byte behind a quote that a word begins with. -/
def quotedByte? (word : String) : Option Nat :=
  match word.toList with
  | c::rest => if c == '"' || c == '\'' then some ((rest.head?.map Char.toNat).getD 0) else none
  | [] => none

/-- The next word as a number between bounds. -/
def integer (low high : Int) : Print Int := do
  match ← next? with
  | none => return 0
  | some word =>
    match quotedByte? word, Arithmetic.signed? Arithmetic.unsigned? word.toList with
    | some code, _ => return code
    | none, some (x,rest) =>
      let kept := max low (min high x)
      check word (some rest) (kept == x)
      return kept
    | none, none => check word none true; return 0

def signed : Print Int := integer (-(Nat.pow 2 63)) (Nat.pow 2 63-1)

/-- The next word as a number without a sign: a negative one counts down from the end of the range. -/
def unsigned : Print Nat := return ((← integer (1-Nat.pow 2 64) (Nat.pow 2 64-1)) % Nat.pow 2 64).toNat

def real : Print Double := do
  match ← next? with
  | none => return .zero
  | some word =>
    match quotedByte? word, decimal? word.toList with
    | some code, _ => return .ofNat code
    | none, some (d,rest) => check word (some rest) true; return d
    | none, none => check word none true; return .zero

def isFlag (c : Char) : Bool := ['#','-','+',' ','0'].contains c

/-- A count in a format: digits, or a star for the next word. -/
def count (cs : List Char) : Print (Int × List Char) := do
  match cs with
  | '*'::rest => return (← signed,rest)
  | cs =>
    let (n,rest) := Arithmetic.digits 10 0 cs
    return (n,rest)

def conversion (cs : List Char) : Print (Conversion × List Char) := do
  let flags := cs.takeWhile isFlag
  let (width,rest) ← count (cs.drop flags.length)
  let (precision,rest) ← match rest with
    | '.'::rest => do
      let (p,rest) ← count rest
      pure (if p < 0 then none else some p.toNat,rest)
    | rest => pure (none,rest)
  return ({ left := flags.contains '-' || width < 0,
            plus := flags.contains '+',
            blank := flags.contains ' ',
            marked := flags.contains '#',
            zeros := flags.contains '0',
            width := width.natAbs,
            precision },rest)

/-- Writes one word in the way that a letter says. -/
def directive (k : Conversion) (letter : Char) (text : String) : Print Unit := do
  if letter = 's' then emit (k.text ((← next?).getD "").toList)
  else if letter = 'b' then
    let word := ((← next?).getD "").toList
    let (cs,more) := unescape (word.length+1) word
    emit (k.text cs)
    if !more then throw .wanted
  else if letter = 'c' then emit (k.fill [((← next?).bind (·.toList.head?)).getD (byte 0)])
  else if letter = 'd' || letter = 'i' then emit (k.signed (← signed))
  else if ['o','u','x','X'].contains letter then emit (k.unsigned letter (← unsigned))
  else if ['e','E','f','F','g','G'].contains letter then emit (k.real letter (← real))
  else throw (.badDirective text)

/-- One pass over a format. -/
def pass : Nat → List Char → Print Unit
  | 0, _ => return
  | _+1, [] => return
  | n+1, '\\'::rest => do
    let (c,rest) := escape rest
    emit [c]
    pass n rest
  | n+1, '%':: '%'::rest => do emit ['%']; pass n rest
  | n+1, '%'::rest => do
    match ← conversion rest with
    | (_,[]) => throw .noLetter
    | (k,letter::after) =>
      directive k letter (String.ofList ('%'::rest.take (rest.length-after.length)))
      pass n after
  | n+1, c::rest => do emit [c]; pass n rest

/-- Passes over a format as long as they use words and leave some. -/
def passes (format : List Char) : Nat → Print Unit
  | 0 => return
  | n+1 => do
    let before := (← get).words.length
    pass (format.length+1) format
    let left := (← get).words.length
    if left != 0 && left < before then passes format n

end Print

/-- What a format writes with words, the words in doubt, and why it ended early. -/
def printf (format : String) (words : List String) :
    String × List (String × Doubt) × Option Stop :=
  let run : Print Unit := Print.passes format.toList (words.length+1)
  match run.run.run {words} with
  | (.ok _,p) => (String.ofList p.out,p.doubts,none)
  | (.error stop,p) => (String.ofList p.out,p.doubts,some stop)

/-- A text between single quotes, and its own single quotes between double ones. -/
def quote (text : String) : String :=
  let rec go (open' : Bool) : List Char → List Char
    | [] => if open' then ['\''] else []
    | c::rest =>
      if c == '\'' then
        let closing := if open' then ['\'','"'] else []
        if rest.head? = some '\'' then closing ++ c::go false rest
        else closing ++ c:: '"'::(if rest.isEmpty then [] else '\''::go true rest)
      else c::go true rest
  String.ofList ('\''::go true text.toList)

end TaskGraph.Shell.Output
