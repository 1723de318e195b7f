import TaskGraph.Template.Tag

/-!
From pieces to trees: blocks are nested, and blanks around tags are dropped. A tag alone on its line
takes the line with it.
-/

namespace TaskGraph.Template

/-- How an open block was opened. -/
inductive Opening where
  | block (names : Option BlockNames)
  | raw
  | define
  | use

/-- A block that is open, with its elements so far in reverse. -/
structure Frame where
  opening : Opening
  call : Call
  place : Position
  /-- The elements before `else`. -/
  first : Option Body := none
  elements : Body := []

/-- The name that closes a frame. -/
def Frame.closingName? (f : Frame) : Option String := f.call.callee.rawName?

/-- The element of a block that has been closed. -/
def Frame.element (f : Frame) : Element :=
  let body := f.elements.reverse
  match f.opening with
  | .block names =>
    match f.first with
    | some first => .block f.place f.call names first (some body)
    | none => .block f.place f.call names body none
  | .raw => .block f.place f.call none body none
  | .define => .define f.place f.call (some body)
  | .use => .use f.place f.call none (some body)

/-- The elements of the outermost level and the open blocks, the innermost first. -/
structure Layout where
  outer : Body := []
  frames : List Frame := []
  /-- The last tag drops the blanks after it. -/
  trimNext : Bool := false
  /-- The last tag stood alone on its line. -/
  trimLine : Bool := false

namespace Layout

def isGap (c : Char) : Bool := c == ' ' || c == '\t'

def trimGapEnd (cs : List Char) : List Char := (cs.reverse.dropWhile isGap).reverse

def isBreak (c : Char) : Bool := c == '\n' || c == '\r'

/-- Nothing but gaps up to the end of the line. -/
def startsWithEmptyLine (cs : List Char) : Bool := (cs.dropWhile isGap).head?.any isBreak

/-- Nothing but gaps from the start of the line. -/
def endsWithEmptyLine (cs : List Char) : Bool :=
  match cs.reverse.dropWhile isGap with
  | [] => true
  | c::_ => isBreak c

/-- Drops the gaps and the line break at the start of a text. -/
def dropLine (cs : List Char) : List Char :=
  match cs.dropWhile isGap with
  | '\r':: '\n'::rest => rest
  | '\n'::rest => rest
  | cs => cs

/-- Changes the elements of the innermost open level. -/
def modifyTop (l : Layout) (change : Body → Body) : Layout :=
  match l.frames with
  | [] => { l with outer := change l.outer }
  | f::fs => { l with frames := { f with elements := change f.elements }::fs }

def push (l : Layout) (e : Element) : Layout := l.modifyTop (e :: ·)

/-- Changes the text just before, if the last element is one. -/
def editLast (l : Layout) (edit : List Char → List Char) : Layout :=
  l.modifyTop fun
    | .text s::rest => .text (String.ofList (edit s.toList))::rest
    | es => es

/-- A text after the blanks at its start that the last tag drops. -/
def trimmed (l : Layout) (s : List Char) : List Char :=
  if l.trimNext then Text.trimStart s else if l.trimLine then dropLine s else s

/-- Marks whether a tag stands alone on its line. With `indent` the gaps before it are dropped. -/
def standAlone (l : Layout) (indent : Bool) (before after : List Char) : Layout :=
  if startsWithEmptyLine after then
    let leading := endsWithEmptyLine before
    let l := if leading && indent then l.editLast trimGapEnd else l
    { l with trimLine := leading }
  else { l with trimLine := false }

/-- Closes the innermost block, which has to have the name of the tag. -/
def closeBlock (l : Layout) (raw : Bool) (name : String) : Option Layout :=
  match l.frames with
  | f::fs =>
    let isRaw := match f.opening with
      | .raw => true
      | _ => false
    if isRaw == raw && f.closingName? == some name then
      some ({ l with frames := fs }.push f.element)
    else none
  | [] => none

/-- Whether the innermost open block is raw; only its own end may follow its text. -/
def inRaw (l : Layout) : Bool :=
  match l.frames with
  | { opening := .raw, .. }::_ => true
  | _ => false

/-- The gaps at the end of a text. -/
def trailingGap (cs : List Char) : Option String :=
  let gap := (cs.reverse.takeWhile isGap).reverse
  if gap.isEmpty then none else some (String.ofList gap)

def addMark (l : Layout) (m : Mark) (place : Position) (before after : List Char) :
    Option Layout :=
  let l := if m.trimBefore then l.editLast Text.trimEnd else l
  let l := { l with trimNext := m.trimAfter.getD l.trimNext }
  let openFrame (opening : Opening) (call : Call) : Option Layout :=
    let l := l.standAlone true before after
    some { l with frames := { opening, call, place }::l.frames }
  match m.tag with
  | .output call => some (l.push (.output place call))
  | .opens call names => openFrame (.block names) call
  | .openRaw call => openFrame .raw call
  | .openDefine call => openFrame .define call
  | .openUse call => openFrame .use call
  | .otherwise =>
    let l := l.standAlone true before after
    match l.frames with
    | { opening := .block names, call, place, first := none, elements }::fs =>
      let first := some elements.reverse
      some { l with frames := { opening := .block names, call, place, first }::fs }
    | _ => none
  | .close name => (l.standAlone true before after).closeBlock false name
  | .closeRaw name => (l.standAlone true before after).closeBlock true name
  | .define call => some ((l.standAlone true before after).push (.define place call none))
  | .use call =>
    let indent := if m.trimBefore then none else trailingGap before
    some ((l.standAlone false before after).push (.use place call indent none))
  | .comment => some ((l.standAlone true before after).push .comment)

def add (l : Layout) : Piece → Option Layout
  | .text s escaped =>
    if s.all Tag.isBlank && !escaped && l.trimNext then some l
    else some { l.push (.text (String.ofList (l.trimmed s))) with trimLine := false }
  | .raw s => some (l.push (.text (String.ofList (l.trimmed s))))
  | .mark m place before after =>
    if l.inRaw && !m.tag.closesRaw then none else l.addMark m place before after

end Layout

/-- Reads a template; `none` if it cannot be read. -/
def parse? (text : String) : Option Body := do
  let cs := text.toList
  let pieces ← Piece.cut cs (2*cs.length+2) false cs
  let l ← pieces.foldlM Layout.add {}
  if l.frames.isEmpty then some l.outer.reverse else none

end TaskGraph.Template
