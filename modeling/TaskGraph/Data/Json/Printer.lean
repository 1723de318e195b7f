import TaskGraph.Data.Value

/-!
The compact data text of a value: no blanks, fields in key order, shortest numbers.
-/

namespace TaskGraph.Json

def hexDigit (n : Nat) : Char := if n < 10 then Char.ofNat (48+n) else Char.ofNat (87+n)

/-- A character inside quotes. Only the quote, the backslash and control characters are escaped. -/
def escape (c : Char) : List Char :=
  if c = '"' then ['\\','"']
  else if c = '\\' then ['\\','\\']
  else if c = '\n' then ['\\','n']
  else if c = '\r' then ['\\','r']
  else if c = '\t' then ['\\','t']
  else if c.toNat = 8 then ['\\','b']
  else if c.toNat = 12 then ['\\','f']
  else if c.toNat < 32 then ['\\','u','0','0',hexDigit (c.toNat/16),hexDigit (c.toNat%16)]
  else [c]

def quoted (s : List Char) : List Char := '"' :: s.flatMap escape ++ ['"']

mutual

def chars : Value → List Char
  | .null => ['n','u','l','l']
  | .bool true => ['t','r','u','e']
  | .bool false => ['f','a','l','s','e']
  | .int n => (toString n).toList
  | .float d => if d.isFinite then (DecimalStyle.data.render d).toList else ['n','u','l','l']
  | .string s => quoted s.toList
  | .array items => '[' :: itemChars items
  | .object fields => '\x7b' :: fieldChars fields

/-- What follows the opening bracket of an array. -/
def itemChars : List Value → List Char
  | [] => [']']
  | [v] => chars v ++ [']']
  | v::vs => chars v ++ ',' :: itemChars vs

/-- What follows the opening brace of an object. -/
def fieldChars : List (String × Value) → List Char
  | [] => ['\x7d']
  | [(k,v)] => quoted k.toList ++ ':' :: chars v ++ ['\x7d']
  | (k,v)::rest => quoted k.toList ++ ':' :: chars v ++ ',' :: fieldChars rest

end

def text (v : Value) : String := String.ofList (chars v)

end TaskGraph.Json
