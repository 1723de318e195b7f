/-!
Blank characters and trimming.
-/

namespace TaskGraph.Text

/-- Whether a code point lies in one of some ranges. -/
def inRanges (ranges : List (Nat × Nat)) (n : Nat) : Bool :=
  ranges.any fun r => decide (r.1 ≤ n ∧ n ≤ r.2)

/-- Ranges of the blank characters. -/
def blankRanges : List (Nat × Nat) := [
  (0x9,0xD), (0x20,0x20), (0x85,0x85), (0xA0,0xA0), (0x1680,0x1680), (0x2000,0x200A),
  (0x2028,0x2029), (0x202F,0x202F), (0x205F,0x205F), (0x3000,0x3000)]

def isBlank (c : Char) : Bool := inRanges blankRanges c.toNat

def trimStart (cs : List Char) : List Char := cs.dropWhile isBlank

def trimEnd (cs : List Char) : List Char := (cs.reverse.dropWhile isBlank).reverse

/-- A text without the blanks at its ends. -/
def trim (s : String) : String := String.ofList (trimEnd (trimStart s.toList))

/-- Nothing but blanks. -/
def isBlankText (s : String) : Bool := s.toList.all isBlank

/-- The letters A to Z in lower case, all else as it is. -/
def lowerLatin (s : String) : String := String.ofList (s.toList.map Char.toLower)

/-- Whether `part` starts the text. -/
def startsWith : List Char → List Char → Bool
  | [], _ => true
  | _::_, [] => false
  | p::ps, c::cs => p = c && startsWith ps cs

/-- Whether `part` stands anywhere in the text. -/
def containsChars (part : List Char) : List Char → Bool
  | [] => part.isEmpty
  | c::cs => startsWith part (c::cs) || containsChars part cs

def contains (s part : String) : Bool := containsChars part.toList s.toList

/-- Cuts a text at the first place where `part` stands. -/
def splitFirst (part : List Char) : List Char → Option (List Char × List Char)
  | [] => if part.isEmpty then some ([],[]) else none
  | c::cs =>
    if startsWith part (c::cs) then some ([],(c::cs).drop part.length)
    else (splitFirst part cs).map fun (a,b) => (c::a,b)

end TaskGraph.Text
