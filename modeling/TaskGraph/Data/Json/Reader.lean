import TaskGraph.Data.Value

/-!
Reading data texts. A fault names its cause and the place where it was noticed. Places count bytes:
of a character that is out of place only the first byte is looked at.
-/

namespace TaskGraph.Json

inductive Cause where
  | endInList
  | endInObject
  | endInString
  | endInValue
  | expectedColon
  | expectedListEnd
  | expectedObjectEnd
  | expectedIdent
  | expectedValue
  | invalidEscape
  | invalidNumber
  | outOfRange
  | controlCharacter
  | keyNotString
  | loneSurrogate
  | trailingComma
  | trailingCharacters
  | hexEscapeEnd
  | tooDeep
  deriving DecidableEq, Repr

def Cause.message : Cause → String
  | .endInList => "EOF while parsing a list"
  | .endInObject => "EOF while parsing an object"
  | .endInString => "EOF while parsing a string"
  | .endInValue => "EOF while parsing a value"
  | .expectedColon => "expected `:`"
  | .expectedListEnd => "expected `,` or `]`"
  | .expectedObjectEnd => "expected `,` or `\x7d`"
  | .expectedIdent => "expected ident"
  | .expectedValue => "expected value"
  | .invalidEscape => "invalid escape"
  | .invalidNumber => "invalid number"
  | .outOfRange => "number out of range"
  | .controlCharacter => "control character (\\u0000-\\u001F) found while parsing a string"
  | .keyNotString => "key must be a string"
  | .loneSurrogate => "lone leading surrogate in hex escape"
  | .trailingComma => "trailing comma"
  | .trailingCharacters => "trailing characters"
  | .hexEscapeEnd => "unexpected end of hex escape"
  | .tooDeep => "recursion limit exceeded"

/-- A cause, the text that was left when it was noticed, and how many bytes of its first character
belong to the place. -/
structure Fault where
  cause : Cause
  rest : List Char
  ahead : Nat

/-- The fault lies in the character that comes next. -/
def seen {α : Type} (cause : Cause) (rest : List Char) : Except Fault α := .error ⟨cause,rest,1⟩

/-- The fault lies in what has been read. -/
def taken {α : Type} (cause : Cause) (rest : List Char) : Except Fault α := .error ⟨cause,rest,0⟩

def isBlank (c : Char) : Bool := c = ' ' || c = '\n' || c = '\t' || c = '\r'

def skipBlanks (s : List Char) : List Char := s.dropWhile isBlank

/-- Deepest nesting of brackets that is read. -/
def depthLimit : Nat := 128

def word : List Char → List Char → Except Fault (Unit × List Char)
  | [], rest => .ok ((),rest)
  | _::_, [] => taken .endInValue []
  | w::ws, c::rest => if c = w then word ws rest else seen .expectedIdent (c::rest)

def hexValue (c : Char) : Option Nat :=
  let n := c.toNat
  if 48 ≤ n ∧ n ≤ 57 then some (n-48)
  else if 97 ≤ n ∧ n ≤ 102 then some (n-87)
  else if 65 ≤ n ∧ n ≤ 70 then some (n-55)
  else none

/-- What is left after a number of bytes, with the bytes of its first character among them; `none` if
there are not so many. -/
def afterBytes : Nat → List Char → Option (Nat × List Char)
  | 0, s => some (0,s)
  | _+1, [] => none
  | n+1, c::rest =>
    if c.utf8Size ≤ n+1 then afterBytes (n+1-c.utf8Size) rest else some (n+1,c::rest)

/-- Four bytes, which have to be hexadecimal digits. -/
def hexEscape (s : List Char) : Except Fault (Nat × List Char) :=
  match afterBytes 4 s with
  | none => taken .endInString []
  | some (ahead,rest) =>
    match (s.take 4).mapM hexValue with
    | some [a,b,c,d] => .ok (a*4096+b*256+c*16+d,rest)
    | _ => .error ⟨.invalidEscape,rest,ahead⟩

/-- What follows `\u`: one unit, or a pair of surrogates. -/
def unicodeEscape (s : List Char) : Except Fault (Char × List Char) := do
  let (n,rest) ← hexEscape s
  if 0xDC00 ≤ n ∧ n ≤ 0xDFFF then taken .loneSurrogate rest
  else if 0xD800 ≤ n ∧ n ≤ 0xDBFF then
    match rest with
    | '\\':: 'u'::rest =>
      let (m,rest) ← hexEscape rest
      if 0xDC00 ≤ m ∧ m ≤ 0xDFFF then
        .ok (Char.ofNat ((n-0xD800)*1024+(m-0xDC00)+0x10000),rest)
      else taken .loneSurrogate rest
    | ['\\'] => taken .endInString []
    | '\\'::rest => seen .hexEscapeEnd rest
    | [] => taken .endInString []
    | rest => seen .hexEscapeEnd rest
  else .ok (Char.ofNat n,rest)

/-- What follows a backslash. -/
def escapeSequence : List Char → Except Fault (Char × List Char)
  | [] => taken .endInString []
  | '"'::rest => .ok ('"',rest)
  | '\\'::rest => .ok ('\\',rest)
  | '/'::rest => .ok ('/',rest)
  | 'b'::rest => .ok (Char.ofNat 8,rest)
  | 'f'::rest => .ok (Char.ofNat 12,rest)
  | 'n'::rest => .ok ('\n',rest)
  | 'r'::rest => .ok ('\r',rest)
  | 't'::rest => .ok ('\t',rest)
  | 'u'::rest => unicodeEscape rest
  | rest => seen .invalidEscape rest

/-- The rest of a string after its opening quote, with what was read before in reverse. -/
def stringTail : Nat → List Char → List Char → Except Fault (String × List Char)
  | 0, _, rest => taken .endInString rest
  | _+1, _, [] => taken .endInString []
  | fuel+1, done, c::rest =>
    if c = '"' then .ok (String.ofList done.reverse,rest)
    else if c = '\\' then do
      let (d,rest) ← escapeSequence rest
      stringTail fuel (d::done) rest
    else if c.toNat < 32 then taken .controlCharacter rest
    else stringTail fuel (c::done) rest

def readString (s : List Char) : Except Fault (String × List Char) := stringTail (s.length+1) [] s

def digitValue? (c : Char) : Option Nat :=
  if c.isDigit then some (c.toNat-48) else none

def digits (s : List Char) : List Char × List Char := (s.takeWhile Char.isDigit,s.dropWhile Char.isDigit)

def digitsValue (ds : List Char) : Nat := ds.foldl (fun n c => n*10+(c.toNat-48)) 0

/-- The digits of a significand that fit 64 bits, and how many more followed. -/
def significand (ds : List Char) (start : Nat) : Nat × Nat :=
  ds.foldl (fun (n,extra) c =>
    let m := n*10+(c.toNat-48)
    if extra = 0 ∧ m < Nat.pow 2 64 then (m,0) else (n,extra+1)) (start,0)

/-- `significand`·10^`exp` by steps of one multiplication or division each, as a reader of data
texts takes it. -/
def assemble (fuel : Nat) (f : Float) (exp : Int) : Option Float :=
  if exp.natAbs ≤ 308 then
    let p := Float.ofScientific 1 false exp.natAbs
    let g := if 0 ≤ exp then f*p else f/p
    if g.isInf then none else some g
  else if f == 0.0 then some f
  else if 0 ≤ exp then none
  else match fuel with
    | 0 => some 0.0
    | fuel+1 => assemble fuel (f/1e308) (exp+308)

def number (negative : Bool) (n : Nat) (exp : Int) (rest : List Char) : Except Fault (Value × List Char) :=
  match assemble 4 (Float.ofNat n) exp with
  | some f => .ok (.float (Double.ofFloat (if negative then -f else f)),rest)
  | none => taken .outOfRange rest

/-- What follows `e` or `E`. -/
def exponentPart (negative : Bool) (n : Nat) (exp : Int) (s : List Char) : Except Fault (Value × List Char) :=
  let (down,s) := match s with
    | '+'::rest => (false,rest)
    | '-'::rest => (true,rest)
    | _ => (false,s)
  match s with
  | [] => taken .endInValue []
  | c::_ =>
    if c.isDigit then
      let (ds,rest) := digits s
      let e := digitsValue ds
      if e > 2147483647 then
        if n ≠ 0 ∧ !down then taken .outOfRange rest else number negative 0 0 rest
      else number negative n (if down then exp-e else exp+e) rest
    else seen .invalidNumber s

/-- What follows a decimal point. -/
def fractionPart (negative : Bool) (n : Nat) (exp : Int) (s : List Char) : Except Fault (Value × List Char) :=
  let (ds,rest) := digits s
  if ds.isEmpty then
    match rest with
    | [] => seen .endInValue []
    | _ => seen .invalidNumber rest
  else
    let (m,extra) := significand ds n
    let exp := exp-((ds.length : Int)-extra)
    match rest with
    | 'e'::rest | 'E'::rest => exponentPart negative m exp rest
    | _ => number negative m exp rest

/-- A number after its sign. -/
def unsignedNumber (negative : Bool) (s : List Char) : Except Fault (Value × List Char) :=
  match s with
  | [] => taken .endInValue []
  | '0'::c::rest => if c.isDigit then seen .invalidNumber (c::rest) else whole 0 0 (c::rest)
  | c::rest =>
    if c.isDigit then
      let (ds,rest) := digits s
      let (n,extra) := significand ds 0
      whole n extra rest
    else seen .invalidNumber (c::rest)
where
  whole (n extra : Nat) (rest : List Char) : Except Fault (Value × List Char) :=
    match rest with
    | '.'::tail => fractionPart negative n extra tail
    | 'e'::tail | 'E'::tail => exponentPart negative n extra tail
    | _ =>
      if extra ≠ 0 then number negative n extra rest
      else if !negative then .ok (.int n,rest)
      else if n = 0 ∨ Nat.pow 2 63 < n then number true n 0 rest
      else .ok (.int (-n),rest)

mutual

/-- A value. The first argument bounds the steps, the second the nesting. -/
def value : Nat → Nat → List Char → Except Fault (Value × List Char)
  | 0, _, rest => seen .tooDeep rest
  | fuel+1, depth, s =>
    match skipBlanks s with
    | [] => seen .endInValue []
    | 'n'::rest => do let (_,rest) ← word ['u','l','l'] rest; .ok (.null,rest)
    | 't'::rest => do let (_,rest) ← word ['r','u','e'] rest; .ok (.bool true,rest)
    | 'f'::rest => do let (_,rest) ← word ['a','l','s','e'] rest; .ok (.bool false,rest)
    | '-'::rest => unsignedNumber true rest
    | '"'::rest => do let (s,rest) ← readString rest; .ok (.string s,rest)
    | '['::rest =>
      match depth with
      | 0 | 1 => seen .tooDeep ('['::rest)
      | depth+1 => do
        let (items,rest) ← list fuel depth true rest
        .ok (.array items,rest)
    | '\x7b'::rest =>
      match depth with
      | 0 | 1 => seen .tooDeep ('\x7b'::rest)
      | depth+1 => do
        let (pairs,rest) ← object fuel depth true rest
        .ok (Value.ofPairs pairs,rest)
    | c::rest => if c.isDigit then unsignedNumber false (c::rest) else seen .expectedValue (c::rest)

/-- The items before a closing bracket; the flag is set before the first. -/
def list : Nat → Nat → Bool → List Char → Except Fault (List Value × List Char)
  | 0, _, _, rest => seen .tooDeep rest
  | fuel+1, depth, first, s =>
    match skipBlanks s with
    | [] => seen .endInList []
    | c::rest =>
      if c = ']' then .ok ([],rest)
      else if first then item fuel depth (c::rest)
      else if c = ',' then
        match skipBlanks rest with
        | [] => seen .endInValue []
        | ']'::rest => seen .trailingComma (']'::rest)
        | rest => item fuel depth rest
      else seen .expectedListEnd (c::rest)

def item : Nat → Nat → List Char → Except Fault (List Value × List Char)
  | 0, _, rest => seen .tooDeep rest
  | fuel+1, depth, s => do
    let (v,rest) ← value fuel depth s
    let (vs,rest) ← list fuel depth false rest
    .ok (v::vs,rest)

/-- The fields before a closing brace; the flag is set before the first. -/
def object : Nat → Nat → Bool → List Char → Except Fault (List (String × Value) × List Char)
  | 0, _, _, rest => seen .tooDeep rest
  | fuel+1, depth, first, s =>
    match skipBlanks s with
    | [] => seen .endInObject []
    | c::rest =>
      if c = '\x7d' then .ok ([],rest)
      else if first then
        if c = '"' then field fuel depth rest else seen .keyNotString (c::rest)
      else if c = ',' then
        match skipBlanks rest with
        | [] => seen .endInValue []
        | '"'::rest => field fuel depth rest
        | '\x7d'::rest => seen .trailingComma ('\x7d'::rest)
        | rest => seen .keyNotString rest
      else seen .expectedObjectEnd (c::rest)

/-- A field after the opening quote of its key. -/
def field : Nat → Nat → List Char → Except Fault (List (String × Value) × List Char)
  | 0, _, rest => seen .tooDeep rest
  | fuel+1, depth, s => do
    let (k,rest) ← readString s
    match skipBlanks rest with
    | [] => seen .endInObject []
    | ':'::rest =>
      let (v,rest) ← value fuel depth rest
      let (more,rest) ← object fuel depth false rest
      .ok ((k,v)::more,rest)
    | rest => seen .expectedColon rest

end

/-- Reads a whole text as one value. -/
def parseChars (s : List Char) : Except Fault Value := do
  let (v,rest) ← value (3*s.length+3) depthLimit s
  match skipBlanks rest with
  | [] => .ok v
  | rest => seen .trailingCharacters rest

/-- The line and the column, in bytes, of the last byte of a place. A line break ends its line as the
column 0 of the next. -/
def place (total : List Char) (f : Fault) : Nat × Nat :=
  let before := total.take (total.length-f.rest.length)
  let column := (before.reverse.takeWhile (· ≠ '\n')).foldl (fun n c => n+c.utf8Size) 0
  let line := before.foldl (fun n c => if c = '\n' then n+1 else n) 1
  match f.rest with
  | c::_ => if c = '\n' ∧ 0 < f.ahead then (line+1,0) else (line,column+f.ahead)
  | [] => (line,column)

def Fault.message (total : List Char) (f : Fault) : String :=
  let (line,column) := place total f
  s!"{f.cause.message} at line {line} column {column}"

def parse (s : String) : Except String Value :=
  match parseChars s.toList with
  | .ok v => .ok v
  | .error f => .error (f.message s.toList)

end TaskGraph.Json
