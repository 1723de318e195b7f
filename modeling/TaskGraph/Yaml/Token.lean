/-!
The marks of a YAML text: the cursor that moves over it and the tokens it is cut into.
-/

namespace TaskGraph.Yaml

/-- The text that is left, and where it starts: line, column and byte, each counted from zero. -/
structure Cursor where
  rest : List Char
  line : Nat
  column : Nat
  index : Nat

/-- How a scalar was written. -/
inductive Style where
  | plain
  | quoted
  | literal
  | folded
  deriving DecidableEq, Repr

inductive Token where
  | streamEnd
  | versionDirective (major minor : Nat)
  | tagDirective (handle start : String)
  | documentStart
  | documentEnd
  | blockSequenceStart
  | blockMappingStart
  | blockEnd
  | flowSequenceStart
  | flowSequenceEnd
  | flowMappingStart
  | flowMappingEnd
  | blockEntry
  | flowEntry
  | key
  | value
  | alias (name : String)
  | anchor (name : String)
  | tag (handle suffix : String)
  | scalar (text : String) (style : Style)
  deriving DecidableEq, Repr

/-- Characters that end a line. -/
def isBreak (c : Char) : Bool :=
  c = '\n' || c = '\r' || c.toNat = 0x85 || c.toNat = 0x2028 || c.toNat = 0x2029

def isSpaceOrTab (c : Char) : Bool := c = ' ' || c = '\t'

/-- Characters of anchors, handles and directive names. -/
def isWordChar (c : Char) : Bool := (c.toNat < 128 && c.isAlphanum) || c = '_' || c = '-'

/-- Characters that a text may hold at all. -/
def isAllowed (c : Char) : Bool :=
  let n := c.toNat
  n = 9 || n = 10 || n = 13 || (0x20 ≤ n && n ≤ 0x7E) || n = 0x85 || (0xA0 ≤ n && n ≤ 0xFFFD)
    || 0x10000 ≤ n

namespace Cursor

def ofText (s : String) : Cursor := ⟨s.toList,0,0,0⟩

def peek? (c : Cursor) : Option Char := c.rest.head?

/-- The character `n` places ahead. -/
def ahead? (c : Cursor) (n : Nat) : Option Char := (c.rest.drop n).head?

def at? (c : Cursor) (ch : Char) : Bool := c.peek? == some ch

def atBreak (c : Cursor) : Bool := c.peek?.any isBreak

def atSpaceOrTab (c : Cursor) : Bool := c.peek?.any isSpaceOrTab

def atEnd (c : Cursor) : Bool := c.rest.isEmpty

def atBreakOrEnd (c : Cursor) : Bool := c.peek?.all isBreak

/-- A blank, a line break or the end, `n` places ahead. -/
def gapAhead (c : Cursor) (n : Nat) : Bool :=
  (c.ahead? n).all fun ch => isSpaceOrTab ch || isBreak ch

def atGap (c : Cursor) : Bool := c.gapAhead 0

/-- Passes some characters of a line. -/
def pass (c : Cursor) (cs : List Char) : Cursor :=
  ⟨c.rest.drop cs.length,c.line,c.column+cs.length,cs.foldl (fun n ch => n+ch.utf8Size) c.index⟩

/-- Passes one character of a line. -/
def skip (c : Cursor) : Cursor := c.pass (c.rest.take 1)

def skipN : Nat → Cursor → Cursor
  | 0, c => c
  | n+1, c => skipN n c.skip

/-- Passes a line break, with the text that stands for it. -/
def takeLine (c : Cursor) : List Char × Cursor :=
  match c.rest with
  | '\r':: '\n'::rest => (['\n'],⟨rest,c.line+1,0,c.index+2⟩)
  | ch::rest =>
    let n := ch.toNat
    (if n = 0x2028 || n = 0x2029 then [ch] else ['\n'],⟨rest,c.line+1,0,c.index+ch.utf8Size⟩)
  | [] => ([],c)

def skipLine (c : Cursor) : Cursor := c.takeLine.2

/-- Passes characters while a test holds, and returns them. -/
def takeWhile (c : Cursor) (p : Char → Bool) : List Char × Cursor :=
  let taken := c.rest.takeWhile p
  (taken,c.pass taken)

/-- Passes spaces, up to a column if one is given. -/
def skipSpaces (c : Cursor) (limit : Option Nat) : Cursor :=
  let spaces := (c.rest.takeWhile (· = ' ')).length
  let n := match limit with
    | some column => Nat.min spaces (column-c.column)
    | none => spaces
  ⟨c.rest.drop n,c.line,c.column+n,c.index+n⟩

/-- A document marker of three equal characters at the start of a line. -/
def atMarker (c : Cursor) (ch : Char) : Bool :=
  c.column == 0 && c.rest.take 3 == [ch,ch,ch] && c.gapAhead 3

def atDocumentMarker (c : Cursor) : Bool := c.atMarker '-' || c.atMarker '.'

end Cursor

end TaskGraph.Yaml
