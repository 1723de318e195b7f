import TaskGraph.Text.Bytes
import TaskGraph.Yaml.Token.Scalars

/-!
Cutting a YAML text into tokens. Indentation becomes start and end tokens. A node that may turn out
to be a key is remembered together with its place among the tokens, and gets its key token when the
colon after it is found.
-/

namespace TaskGraph.Yaml

/-- A node that may turn out to be a key. -/
structure Candidate where
  /-- How many tokens stand before it. -/
  place : Nat
  line : Nat
  column : Nat
  index : Nat
  /-- It starts a line of a block mapping, so it has to be a key. -/
  required : Bool

structure Lexer where
  cursor : Cursor
  /-- Indentation of the current block, -1 outside all blocks. -/
  indent : Int
  indents : List Int
  /-- For the block context and for each open bracket, the innermost first, the possible key. -/
  candidates : List (Option Candidate)
  keyAllowed : Bool
  tokens : Array Token

namespace Lexer

def start (s : String) : Lexer := ⟨Cursor.ofText s,-1,[],[none],true,#[]⟩

/-- Inside brackets. -/
def inFlow (l : Lexer) : Bool := decide (1 < l.candidates.length)

def emit (l : Lexer) (t : Token) : Lexer := { l with tokens := l.tokens.push t }

/-- Inserts a token before the one at a place. -/
def insertAt (l : Lexer) (place : Nat) (t : Token) : Lexer :=
  { l with tokens := l.tokens.insertIdxIfInBounds place t }

def advance (l : Lexer) (n : Nat) : Lexer := { l with cursor := l.cursor.skipN n }

/-- Passes blanks, comments and line breaks. A tab separates only where no key may start. -/
def skipGap : Nat → Lexer → Lexer
  | 0, l => l
  | fuel+1, l =>
    let c := l.cursor
    let c := if c.column = 0 ∧ c.peek?.any (·.toNat = 0xFEFF) then c.skip else c
    let tabs := l.inFlow || !l.keyAllowed
    let c := (c.takeWhile fun ch => ch = ' ' || (tabs && ch = '\t')).2
    let c := if c.at? '#' then (c.takeWhile fun ch => !isBreak ch).2 else c
    if c.atBreak then
      skipGap fuel { l with cursor := c.skipLine, keyAllowed := l.keyAllowed || !l.inFlow }
    else { l with cursor := c }

/-- Forgets the candidates that can no longer be keys: a key ends on its line and within 1024
bytes. -/
def dropStale (l : Lexer) : Option Lexer := do
  let kept ← l.candidates.mapM fun candidate =>
    match candidate with
    | none => some none
    | some k =>
      if k.line < l.cursor.line ∨ k.index+1024 < l.cursor.index then
        if k.required then none else some none
      else some (some k)
  some { l with candidates := kept }

/-- Gives up the candidate of the current level. -/
def removeCandidate (l : Lexer) : Option Lexer :=
  match l.candidates with
  | some k::rest => if k.required then none else some { l with candidates := none::rest }
  | _ => some l

/-- Remembers the current place as a possible key. -/
def saveCandidate (l : Lexer) : Option Lexer := do
  if !l.keyAllowed then some l
  else
    let l' ← l.removeCandidate
    let c := l.cursor
    let k : Candidate :=
      ⟨l.tokens.size,c.line,c.column,c.index,!l.inFlow && l.indent == (c.column : Int)⟩
    match l'.candidates with
    | _::rest => some { l' with candidates := some k::rest }
    | [] => none

/-- Opens a block at a column if it is deeper than the current one. -/
def openBlock (l : Lexer) (column : Nat) (t : Token) (place : Option Nat) : Lexer :=
  if l.inFlow ∨ (column : Int) ≤ l.indent then l
  else
    let l := { l with indents := l.indent::l.indents, indent := column }
    match place with
    | some n => l.insertAt n t
    | none => l.emit t

/-- Closes the blocks deeper than a column. -/
def closeBlocks (column : Int) : Nat → Lexer → Lexer
  | 0, l => l
  | fuel+1, l =>
    if l.inFlow ∨ l.indent ≤ column then l
    else match l.indents with
      | i::rest => closeBlocks column fuel { l.emit .blockEnd with indent := i, indents := rest }
      | [] => { l with indent := -1 }

def closeTo (l : Lexer) (column : Int) : Lexer := closeBlocks column (l.indents.length+1) l

def isTagChar (c : Char) : Bool := isWordChar c || ";/?:@&=+$.!~*'()%".toList.contains c

/-- The bytes of one character that follow its first. -/
def laterBytes (first : Nat) : Option Nat :=
  if first < 0x80 then some 0
  else if first/32 = 6 then some 1
  else if first/16 = 14 then some 2
  else if first/8 = 30 then some 3
  else none

/-- Resolves percent escapes. The bytes of one character have to stand together: the first argument
counts those that it still lacks, the second holds those before. -/
def unescape : Nat → List UInt8 → List Char → Option (List Char)
  | 0, [], [] => some []
  | 0, [], '%'::a::b::rest => do
    let n := (← hexDigit? a)*16+(← hexDigit? b)
    match ← laterBytes n with
    | 0 => (unescape 0 [] rest).map (Char.ofNat n::·)
    | more => unescape more [n.toUInt8] rest
  | 0, [], c::rest => if c = '%' then none else (unescape 0 [] rest).map (c::·)
  | lacking+1, bytes, '%'::a::b::rest => do
    let n := (← hexDigit? a)*16+(← hexDigit? b)
    if n/64 ≠ 2 then none
    let bytes := bytes ++ [n.toUInt8]
    if lacking = 0 then
      (unescape 0 [] rest).map ((Text.decodeBytes bytes).toList ++ ·)
    else unescape lacking bytes rest
  | _, _, _ => none

/-- The text of a tag. -/
def tagText (c : Cursor) (brackets : Bool) : Option (List Char × Cursor) := do
  let (cs,c) := c.takeWhile fun ch =>
    isTagChar ch || (brackets && (ch = ',' || ch = '[' || ch = ']'))
  some (← unescape 0 [] cs,c)

/-- A directive line, after its percent sign. -/
def directive (c : Cursor) : Option (Token × Cursor) := do
  let (name,c) := c.takeWhile isWordChar
  if name.isEmpty ∨ !c.atGap then none
  let blank (c : Cursor) : Cursor := (c.takeWhile isSpaceOrTab).2
  let number (c : Cursor) : Option (Nat × Cursor) :=
    let (ds,c) := c.takeWhile Char.isDigit
    if ds.isEmpty ∨ ds.length > 9 then none
    else some (ds.foldl (fun n d => n*10+(d.toNat-48)) 0,c)
  let (t,c) ←
    if name = ['Y','A','M','L'] then do
      let (major,c) ← number (blank c)
      if !c.at? '.' then none
      let (minor,c) ← number c.skip
      some (Token.versionDirective major minor,c)
    else if name = ['T','A','G'] then do
      let c := blank c
      if !c.at? '!' then none
      let (word,c) := c.skip.takeWhile isWordChar
      let (handle,c) ←
        if c.at? '!' then some ('!'::word ++ ['!'],c.skip)
        else if word.isEmpty then some (['!'],c)
        else none
      if !c.atSpaceOrTab then none
      let (start,c) ← tagText (blank c) true
      if start.isEmpty ∨ !c.atGap then none
      some (Token.tagDirective (String.ofList handle) (String.ofList start),c)
    else none
  let c := blank c
  let c := if c.at? '#' then (c.takeWhile fun ch => !isBreak ch).2 else c
  if !c.atBreakOrEnd then none
  some (t,if c.atBreak then c.skipLine else c)

/-- The name of an anchor or alias. -/
def anchorName (c : Cursor) : Option (String × Cursor) :=
  let (name,c) := c.takeWhile isWordChar
  if name.isEmpty then none
  else if c.atGap ∨ c.peek?.any (fun ch => "?:,]\x7d%@`".toList.contains ch) then
    some (String.ofList name,c)
  else none

/-- A tag, from its exclamation mark. -/
def tag (flow : Bool) (c : Cursor) : Option (Token × Cursor) := do
  let (t,c) ←
    if c.ahead? 1 = some '<' then do
      let (cs,c) ← tagText (c.skipN 2) true
      if cs.isEmpty ∨ !c.at? '>' then none
      some (Token.tag "" (String.ofList cs),c.skip)
    else do
      let (word,after) := c.skip.takeWhile isWordChar
      if after.at? '!' then do
        let (cs,c) ← tagText after.skip false
        if cs.isEmpty then none
        some (Token.tag (String.ofList ('!'::word ++ ['!'])) (String.ofList cs),c)
      else do
        let (cs,c) ← tagText after false
        let cs := word ++ cs
        some (if cs.isEmpty then Token.tag "" "!" else Token.tag "!" (String.ofList cs),c)
  if c.atGap ∨ (flow ∧ c.at? ',') then some (t,c) else none

/-- Starts a node that is no collection, by the function that cuts it. -/
def node (l : Lexer) (cut : Cursor → Option (Token × Cursor)) : Option Lexer := do
  let l ← l.saveCandidate
  let (t,c) ← cut l.cursor
  some { (l.emit t) with cursor := c, keyAllowed := false }

def openFlow (l : Lexer) (t : Token) : Option Lexer := do
  let l ← l.saveCandidate
  some { (l.emit t).advance 1 with candidates := none::l.candidates, keyAllowed := true }

def closeFlow (l : Lexer) (t : Token) : Option Lexer := do
  let l ← l.removeCandidate
  let kept := if l.inFlow then l.candidates.drop 1 else l.candidates
  some { (l.emit t).advance 1 with candidates := kept, keyAllowed := false }

def documentMarker (l : Lexer) (t : Token) : Option Lexer := do
  let l ← (l.closeTo (-1)).removeCandidate
  some { (l.emit t).advance 3 with keyAllowed := false }

def blockEntry (l : Lexer) : Option Lexer := do
  if !l.inFlow ∧ !l.keyAllowed then none
  let l := l.openBlock l.cursor.column .blockSequenceStart none
  let l ← l.removeCandidate
  some { (l.emit .blockEntry).advance 1 with keyAllowed := true }

def explicitKey (l : Lexer) : Option Lexer := do
  if !l.inFlow ∧ !l.keyAllowed then none
  let l := l.openBlock l.cursor.column .blockMappingStart none
  let l ← l.removeCandidate
  some { (l.emit .key).advance 1 with keyAllowed := !l.inFlow }

def mappingValue (l : Lexer) : Option Lexer :=
  match l.candidates with
  | some k::rest =>
    let l := l.insertAt k.place .key
    let l := l.openBlock k.column .blockMappingStart (some k.place)
    some { (l.emit .value).advance 1 with candidates := none::rest, keyAllowed := false }
  | _ =>
    if !l.inFlow ∧ !l.keyAllowed then none
    else
      let l := l.openBlock l.cursor.column .blockMappingStart none
      some { (l.emit .value).advance 1 with keyAllowed := !l.inFlow }

def flowEntry (l : Lexer) : Option Lexer := do
  let l ← l.removeCandidate
  some { (l.emit .flowEntry).advance 1 with keyAllowed := true }

def block (l : Lexer) (literal : Bool) : Option Lexer := do
  let l ← l.removeCandidate
  let (text,c) ← blockScalar literal l.indent l.cursor.skip
  let style := if literal then Style.literal else .folded
  some { (l.emit (.scalar text style)) with cursor := c, keyAllowed := true }

def quoted (l : Lexer) (single : Bool) : Option Lexer :=
  l.node fun c => do
    let (text,c) ← quotedScalar single (c.rest.length+2) [] c.skip
    some (.scalar (String.ofList text.reverse) .quoted,c)

def plain (l : Lexer) : Option Lexer := do
  let l ← l.saveCandidate
  let c := l.cursor
  let (text,broken,c) ←
    plainScalar l.inFlow (l.indent+1).toNat (c.rest.length+2) [] {} c
  let l := l.emit (.scalar (String.ofList text.reverse) .plain)
  some { l with cursor := c, keyAllowed := broken }

/-- Whether a plain scalar may start with this character. -/
def startsPlain (l : Lexer) (ch : Char) : Bool :=
  let c := l.cursor
  if ch = '-' then !(c.ahead? 1).any isSpaceOrTab
  else if ch = '?' || ch = ':' then !l.inFlow && !c.gapAhead 1
  else !",[]\x7b\x7d#&*!|>'\"%@`".toList.contains ch && !isSpaceOrTab ch && !isBreak ch

/-- Cuts the next token, or ends the text: then the flag is set. -/
def next (l : Lexer) : Option (Lexer × Bool) := do
  let l ← (skipGap (l.cursor.rest.length+1) l).dropStale
  let l := l.closeTo l.cursor.column
  let c := l.cursor
  match c.peek? with
  | none =>
    let l ← (l.closeTo (-1)).removeCandidate
    some (l.emit .streamEnd,true)
  | some ch =>
    let more (l : Option Lexer) : Option (Lexer × Bool) := l.map (·,false)
    if c.column = 0 ∧ ch = '%' then do
      let l ← (l.closeTo (-1)).removeCandidate
      let (t,c) ← directive c.skip
      some ({ (l.emit t) with cursor := c, keyAllowed := false },false)
    else if c.atMarker '-' then more (l.documentMarker .documentStart)
    else if c.atMarker '.' then more (l.documentMarker .documentEnd)
    else if ch = '[' then more (l.openFlow .flowSequenceStart)
    else if ch = '\x7b' then more (l.openFlow .flowMappingStart)
    else if ch = ']' then more (l.closeFlow .flowSequenceEnd)
    else if ch = '\x7d' then more (l.closeFlow .flowMappingEnd)
    else if ch = ',' then more l.flowEntry
    else if ch = '-' ∧ c.gapAhead 1 then more l.blockEntry
    else if ch = '?' ∧ (l.inFlow ∨ c.gapAhead 1) then more l.explicitKey
    else if ch = ':' ∧ (l.inFlow ∨ c.gapAhead 1) then more l.mappingValue
    else if ch = '*' then
      more (l.node fun c => do let (name,c) ← anchorName c.skip; some (.alias name,c))
    else if ch = '&' then
      more (l.node fun c => do let (name,c) ← anchorName c.skip; some (.anchor name,c))
    else if ch = '!' then more (l.node (tag l.inFlow))
    else if ch = '|' ∧ !l.inFlow then more (l.block true)
    else if ch = '>' ∧ !l.inFlow then more (l.block false)
    else if ch = '\'' then more (l.quoted true)
    else if ch = '"' then more (l.quoted false)
    else if l.startsPlain ch then more l.plain
    else none

def run : Nat → Lexer → Option (Array Token)
  | 0, _ => none
  | fuel+1, l =>
    match l.next with
    | none => none
    | some (l,true) => some l.tokens
    | some (l,false) => run fuel l

end Lexer

/-- The tokens of a text; `none` if it cannot be cut. -/
def tokens? (s : String) : Option (List Token) :=
  let l := Lexer.start s
  if l.cursor.rest.all isAllowed then
    (Lexer.run (l.cursor.rest.length+2) l).map Array.toList
  else none

end TaskGraph.Yaml
