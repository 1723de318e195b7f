import TaskGraph.Yaml.Token

/-!
Cutting scalars: plain, quoted and block. A line break inside a scalar folds to a space; further
breaks after it are kept. `none` is a text that no scalar may have.
-/

namespace TaskGraph.Yaml

/-- The gap read between two pieces of a scalar. -/
structure Gap where
  /-- A line break was passed. -/
  broken : Bool := false
  blanks : List Char := []
  first : List Char := []
  more : List Char := []

/-- What a gap contributes to the text. -/
def Gap.text (g : Gap) : List Char :=
  if g.broken then
    if g.first = ['\n'] then (if g.more.isEmpty then [' '] else g.more) else g.first ++ g.more
  else g.blanks

/-- Reads blanks and breaks. In a plain scalar of a block, a tab may not stand where indentation is
expected. -/
def Gap.read (minTab : Option Nat) : Nat → Gap → Cursor → Option (Gap × Cursor)
  | 0, _, _ => none
  | fuel+1, g, c =>
    match c.peek? with
    | none => some (g,c)
    | some ch =>
      if isSpaceOrTab ch then
        if g.broken ∧ ch = '\t' ∧ minTab.any (c.column < ·) then none
        else if g.broken then Gap.read minTab fuel g c.skip
        else Gap.read minTab fuel { g with blanks := g.blanks ++ [ch] } c.skip
      else if isBreak ch then
        let (br,c) := c.takeLine
        if g.broken then Gap.read minTab fuel { g with more := g.more ++ br } c
        else Gap.read minTab fuel { g with broken := true, blanks := [], first := br } c
      else some (g,c)

def isFlowIndicator (c : Char) : Bool :=
  c = ',' || c = '[' || c = ']' || c = '\x7b' || c = '\x7d'

/-- A run of characters of a plain scalar; `none` for a colon that may not stand there. -/
def plainRun (flow : Bool) : Nat → List Char → Cursor → Option (List Char × Cursor)
  | 0, _, _ => none
  | fuel+1, done, c =>
    match c.rest with
    | [] => some (done,c)
    | ch::tail =>
      if c.atGap then some (done,c)
      else if flow ∧ ch = ':' ∧ tail.head?.any (fun d => isFlowIndicator d || d = '?') then none
      else if (ch = ':' ∧ c.gapAhead 1) ∨ (flow ∧ isFlowIndicator ch) then some (done,c)
      else plainRun flow fuel (ch::done) c.skip

/-- A plain scalar, with whether it ended after a line break. The text is kept in reverse. -/
def plainScalar (flow : Bool) (indent : Nat) :
    Nat → List Char → Gap → Cursor → Option (List Char × Bool × Cursor)
  | 0, _, _, _ => none
  | fuel+1, done, g, c =>
    if c.atDocumentMarker ∨ c.at? '#' then some (done,g.broken,c)
    else do
      let (run,after) ← plainRun flow (c.rest.length+1) [] c
      let (done,broken) :=
        if run.isEmpty then (done,g.broken) else (run ++ g.text.reverse ++ done,false)
      if ¬(after.atSpaceOrTab ∨ after.atBreak) then some (done,broken,after)
      else
        let start : Gap := if run.isEmpty then g else {}
        let (g,c) ← Gap.read (some indent) (after.rest.length+1) start after
        if ¬flow ∧ c.column < indent then some (done,g.broken,c)
        else plainScalar flow indent fuel done g c

def hexDigit? (c : Char) : Option Nat :=
  let n := c.toNat
  if 48 ≤ n ∧ n ≤ 57 then some (n-48)
  else if 97 ≤ n ∧ n ≤ 102 then some (n-87)
  else if 65 ≤ n ∧ n ≤ 70 then some (n-55)
  else none

/-- The character that `n` hexadecimal digits stand for. -/
def hexChar (n : Nat) (c : Cursor) : Option (Char × Cursor) := do
  let ds := c.rest.take n
  if ds.length ≠ n then none
  let code ← ds.foldlM (fun total d => (hexDigit? d).map (total*16+·)) 0
  if (0xD800 ≤ code ∧ code ≤ 0xDFFF) ∨ code > 0x10FFFF then none
  some (Char.ofNat code,c.skipN n)

/-- The character after a backslash. -/
def escaped (c : Cursor) : Option (Char × Cursor) := do
  let ch ← c.peek?
  let next := c.skip
  let plainCode (n : Nat) : Option (Char × Cursor) := some (Char.ofNat n,next)
  match ch with
  | '0' => plainCode 0
  | 'a' => plainCode 7
  | 'b' => plainCode 8
  | 't' | '\t' => plainCode 9
  | 'n' => plainCode 10
  | 'v' => plainCode 11
  | 'f' => plainCode 12
  | 'r' => plainCode 13
  | 'e' => plainCode 27
  | ' ' => plainCode 32
  | '"' => plainCode 34
  | '/' => plainCode 47
  | '\\' => plainCode 92
  | 'N' => plainCode 0x85
  | '_' => plainCode 0xA0
  | 'L' => plainCode 0x2028
  | 'P' => plainCode 0x2029
  | 'x' => hexChar 2 next
  | 'u' => hexChar 4 next
  | 'U' => hexChar 8 next
  | _ => none

/-- A run of characters inside quotes, with whether it ended in an escaped line break. -/
def quotedRun (single : Bool) : Nat → List Char → Cursor → Option (List Char × Bool × Cursor)
  | 0, _, _ => none
  | fuel+1, done, c =>
    match c.rest with
    | [] => some (done,false,c)
    | ch::tail =>
      if c.atGap then some (done,false,c)
      else if single then
        if ch = '\'' then
          if tail.head? = some '\'' then quotedRun single fuel ('\''::done) (c.skipN 2)
          else some (done,false,c)
        else quotedRun single fuel (ch::done) c.skip
      else if ch = '"' then some (done,false,c)
      else if ch = '\\' then
        if tail.head?.any isBreak then some (done,true,c.skip.skipLine)
        else do
          let (d,c) ← escaped c.skip
          quotedRun single fuel (d::done) c
      else quotedRun single fuel (ch::done) c.skip

/-- A quoted scalar after its opening quote. The text is kept in reverse. -/
def quotedScalar (single : Bool) : Nat → List Char → Cursor → Option (List Char × Cursor)
  | 0, _, _ => none
  | fuel+1, done, c =>
    if c.atDocumentMarker ∨ c.atEnd then none
    else do
      let (done,broken,c) ← quotedRun single (c.rest.length+1) done c
      if c.at? (if single then '\'' else '"') then some (done,c.skip)
      else
        let (g,c) ← Gap.read none (c.rest.length+1) { broken } c
        quotedScalar single fuel (g.text.reverse ++ done) c

/-- Which breaks at the end of a block scalar are kept. -/
inductive Chomp where
  | strip
  | clip
  | keep
  deriving DecidableEq

/-- What follows `|` or `>`: how to chomp, and the indentation if given. -/
def blockHeader (c : Cursor) : Option (Chomp × Option Nat × Cursor) := do
  let chomp? (c : Cursor) : Option Chomp :=
    if c.at? '+' then some .keep else if c.at? '-' then some .strip else none
  let digit? (c : Cursor) : Option Nat :=
    c.peek?.bind fun d => if d.isDigit then some (d.toNat-48) else none
  let (chomp,indent,c) := match chomp? c with
    | some k =>
      match digit? c.skip with
      | some n => (k,some n,c.skip.skip)
      | none => (k,none,c.skip)
    | none =>
      match digit? c with
      | some n =>
        match chomp? c.skip with
        | some k => (k,some n,c.skip.skip)
        | none => (.clip,some n,c.skip)
      | none => (.clip,none,c)
  if indent = some 0 then none
  let c := (c.takeWhile isSpaceOrTab).2
  let c := if c.at? '#' then (c.takeWhile fun d => !isBreak d).2 else c
  if !c.atBreakOrEnd then none
  some (chomp,indent,if c.atBreak then c.skipLine else c)

/-- Passes indentation and empty lines. Without a known indentation, also the greatest column
reached is returned. -/
def blockBreaks (indent : Option Nat) :
    Nat → Nat → List Char → Cursor → Option (Nat × List Char × Cursor)
  | 0, _, _, _ => none
  | fuel+1, greatest, breaks, c =>
    let c := c.skipSpaces indent
    let greatest := Nat.max greatest c.column
    if c.at? '\t' ∧ indent.all (c.column < ·) then none
    else if c.atBreak then
      let (br,c) := c.takeLine
      blockBreaks indent fuel greatest (breaks ++ br) c
    else some (greatest,breaks,c)

/-- The lines of a block scalar. The text is kept in reverse; `lead` is the break that ended the
line before, `trail` the empty lines after it. -/
def blockLines (literal : Bool) (indent : Nat) :
    Nat → List Char → Bool → List Char → List Char → Cursor
      → Option (List Char × List Char × List Char × Cursor)
  | 0, _, _, _, _, _ => none
  | fuel+1, done, leadBlank, lead, trail, c =>
    if c.column ≠ indent ∨ c.atEnd then some (done,lead,trail,c)
    else do
      let blank := c.atSpaceOrTab
      let joint :=
        if !literal && lead == ['\n'] && !leadBlank && !blank then
          if trail.isEmpty then [' '] else []
        else lead
      let (line,c) := c.takeWhile fun d => !isBreak d
      let done := line.reverse ++ (trail.reverse ++ (joint.reverse ++ done))
      let (lead,c) := c.takeLine
      let (_,trail,c) ← blockBreaks (some indent) (c.rest.length+1) 0 [] c
      blockLines literal indent fuel done blank lead trail c

/-- A block scalar after its indicator; `indent` is that of the block it stands in. -/
def blockScalar (literal : Bool) (indent : Int) (c : Cursor) : Option (String × Cursor) := do
  let (chomp,given,c) ← blockHeader c
  let base := (Max.max indent 0).toNat
  let known := given.map (base+·)
  let (greatest,trail,c) ← blockBreaks known (c.rest.length+1) 0 [] c
  let level := known.getD (Nat.max greatest (Nat.max (indent+1).toNat 1))
  let (done,lead,trail,c) ← blockLines literal level (c.rest.length+1) [] false [] trail c
  let tail := match chomp with
    | .strip => []
    | .clip => lead
    | .keep => lead ++ trail
  some (String.ofList (done.reverse ++ tail),c)

end TaskGraph.Yaml
