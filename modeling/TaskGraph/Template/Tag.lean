import TaskGraph.Data.Json.Reader
import TaskGraph.Template.Syntax

/-!
Cutting a template into texts and tags. A tag stands between double braces; a backslash in front of
the braces keeps them as text.
-/

namespace TaskGraph.Template

/-- What stands between braces. -/
inductive Tag where
  | output (call : Call)
  | opens (call : Call) (names : Option BlockNames)
  | openRaw (call : Call)
  | openDefine (call : Call)
  | openUse (call : Call)
  | close (name : String)
  | closeRaw (name : String)
  | otherwise
  | define (call : Call)
  | use (call : Call)
  | comment

def Tag.closesRaw : Tag → Bool
  | .closeRaw _ => true
  | _ => false

/-- A tag, with whether the blanks before and after it are dropped. -/
structure Mark where
  tag : Tag
  trimBefore : Bool := false
  trimAfter : Option Bool := some false

namespace Tag

def isBlank (c : Char) : Bool := c == ' ' || c == '\t' || c == '\n' || c == '\r'

def skip (cs : List Char) : List Char := cs.dropWhile isBlank

/-- Characters of names. -/
def isSymbol (c : Char) : Bool :=
  c.isAlphanum || c == '_' || c == '-' || c == '$' || decide (128 ≤ c.toNat)

/-- Passes a fixed text. -/
def literally (word : String) (cs : List Char) : Option (List Char) :=
  if Text.startsWith word.toList cs then some (cs.drop word.length) else none

/-- A run of characters that satisfy a test, at least one. -/
def run (test : Char → Bool) (cs : List Char) : Option (String × List Char) :=
  let s := cs.takeWhile test
  if s.isEmpty then none else some (String.ofList s,cs.dropWhile test)

def identifier (cs : List Char) : Option (String × List Char) := run isSymbol cs

/-- A fixed word that is not the start of a longer name. -/
def word (w : String) (cs : List Char) : Option (List Char) := do
  let rest ← literally w cs
  match rest with
  | c::_ => if isSymbol c then none else some rest
  | [] => some rest

/-- Passes a number. -/
def number (cs : List Char) : Option (List Char) := do
  let cs := (literally "-" cs).getD cs
  let (_,cs) ← run Char.isDigit cs
  let cs := ((literally "." cs).getD cs).dropWhile Char.isDigit
  let cs := match cs with
    | 'E'::rest => ((run Char.isDigit ((literally "-" rest).getD rest)).map (·.2)).getD cs
    | _ => cs
  match cs with
  | c::_ => if isSymbol c then none else some cs
  | [] => some cs

def isHex (c : Char) : Bool :=
  c.isDigit || (decide ('a' ≤ c) && decide (c ≤ 'f')) || (decide ('A' ≤ c) && decide (c ≤ 'F'))

/-- Passes the characters of a string up to its closing quote, and the quote. -/
def stringRest (quote : Char) : List Char → Option (List Char)
  | [] => none
  | '\\':: 'u'::a::b::c::d::rest =>
    if [a,b,c,d].all isHex then stringRest quote rest else none
  | '\\'::e::rest =>
    if e == quote || ['\\','/','b','f','n','r','t'].contains e then stringRest quote rest else none
  | c::rest => if c == quote then some rest else if c == '\\' then none else stringRest quote rest

def quotedString : List Char → Option (List Char)
  | '"'::rest => stringRest '"' rest
  | '\''::rest => stringRest '\'' rest
  | _ => none

mutual

/-- Passes a literal of the data notation. -/
def literal : Nat → List Char → Option (List Char)
  | 0, _ => none
  | n+1, cs =>
    (quotedString cs).or <| (listLiteral n cs).or <| (recordLiteral n cs).or <|
      (number cs).or <| (word "null" cs).or <| (word "true" cs).or (word "false" cs)

def listLiteral : Nat → List Char → Option (List Char)
  | 0, _ => none
  | n+1, cs => do
    let cs ← literally "[" cs
    let cs := (literal n (skip cs)).getD cs
    literally "]" (skip (listTail n cs))

def listTail : Nat → List Char → List Char
  | 0, cs => cs
  | n+1, cs =>
    match (literally "," (skip cs)).bind fun cs => literal n (skip cs) with
    | some rest => listTail n rest
    | none => cs

def recordLiteral : Nat → List Char → Option (List Char)
  | 0, _ => none
  | n+1, cs => do
    let cs ← literally "\x7b" cs
    let cs := (fieldLiteral n (skip cs)).getD cs
    literally "\x7d" (skip (recordTail n cs))

def recordTail : Nat → List Char → List Char
  | 0, cs => cs
  | n+1, cs =>
    match (literally "," (skip cs)).bind fun cs => fieldLiteral n (skip cs) with
    | some rest => recordTail n rest
    | none => cs

def fieldLiteral : Nat → List Char → Option (List Char)
  | 0, _ => none
  | n+1, cs => do
    let cs ← quotedString cs
    let cs ← literally ":" (skip cs)
    literal n (skip cs)

end

/-- A text between single quotes, written between double quotes. -/
def requote : List Char → List Char
  | '\\':: '\''::rest => '\''::requote rest
  | '"'::rest => '\\':: '"'::requote rest
  | c::rest => c::requote rest
  | [] => []

/-- The value of a literal. -/
def literalValue (cs : List Char) : Option Value :=
  let cs := match cs with
    | '\''::rest => '"'::requote rest.dropLast ++ ['"']
    | cs => cs
  (Json.parseChars cs).toOption

/-- One step down: a name, or any text in brackets. -/
def item (cs : List Char) : Option (Segment × List Char) :=
  match cs with
  | '['::rest =>
    match rest.dropWhile (· != ']') with
    | _::after => some (.field (String.ofList (rest.takeWhile (· != ']'))),after)
    | [] => none
  | cs => (identifier cs).map fun (s,rest) => (.field s,rest)

def separator : List Char → Option (List Char)
  | '/'::rest | '.'::rest => some rest
  | _ => none

/-- Further steps, each after a separator. -/
def items : Nat → List Char → List Segment × List Char
  | 0, cs => ([],cs)
  | n+1, cs =>
    match (separator cs).bind item with
    | some (s,rest) => let (more,rest) := items n rest; (s::more,rest)
    | none => ([],cs)

def ups : Nat → List Char → List Segment × List Char
  | 0, cs => ([],cs)
  | n+1, cs =>
    match (literally ".." cs).bind separator with
    | some rest => let (more,rest) := ups n rest; (.up::more,rest)
    | none => ([],cs)

/-- A path. The step `this` goes nowhere. -/
def path (cs : List Char) : Option (Path × List Char) := do
  let start := cs
  let cs := ((literally "this" cs).bind separator).or (literally "./" cs) |>.getD cs
  let (root,cs) := match (literally "@root" cs).bind separator with
    | some rest => ([Segment.root],rest)
    | none => ([],cs)
  let (own,cs) := match literally "@" cs with
    | some rest => ([Segment.own],rest)
    | none => ([],cs)
  let (outer,cs) := ups cs.length cs
  let (first,cs) ← item cs
  let (more,cs) := items cs.length cs
  let fields := (first::more).filter (· != .field "this")
  let raw := String.ofList (start.take (start.length-cs.length))
  some (⟨root ++ own ++ outer ++ fields,raw⟩,cs)

/-- Whether a word of the notation comes first, with no name after it. What a name follows is a name
itself. -/
def startsWithKeyword (cs : List Char) : Bool :=
  ["as","else"].any fun w =>
    match literally w cs with
    | some rest => (skip rest).head?.all fun c => !isSymbol c
    | none => false

mutual

def param : Nat → List Char → Option (Param × List Char)
  | 0, _ => none
  | n+1, cs =>
    if startsWithKeyword cs then none
    else match literal cs.length cs with
      | some rest => (literalValue (cs.take (cs.length-rest.length))).map fun v => (.literal v,rest)
      | none =>
        match path cs with
        | some (p,rest) => some (.path p,rest)
        | none => nested n cs

/-- A call in parentheses. -/
def nested : Nat → List Char → Option (Param × List Char)
  | 0, _ => none
  | n+1, cs => do
    let cs := skip (← literally "(" cs)
    let (callee,args,options,rest) ←
      match application n cs with
      | some (callee,args,options,rest) => some (callee,args,options,rest)
      | none => (path cs).map fun (p,rest) => (Param.path p,[],[],rest)
    some (.call callee args options,← literally ")" (skip rest))

/-- A name that is applied to something. -/
def application : Nat → List Char →
    Option (Param × List Param × List (String × Param) × List Char)
  | 0, _ => none
  | n+1, cs => do
    let (name,rest) ← identifier cs
    let (args,options,rest) := arguments n rest
    if args.isEmpty && options.isEmpty then none else some (.name name,args,options,rest)

/-- Parameters and named options in any order. Of two options with one name the later counts. -/
def arguments : Nat → List Char → List Param × List (String × Param) × List Char
  | 0, cs => ([],[],cs)
  | n+1, cs =>
    let start := skip cs
    let option := do
      let (name,rest) ← identifier start
      let (p,rest) ← param n (skip (← literally "=" (skip rest)))
      some ((name,p),rest)
    match option with
    | some (o,rest) =>
      let (args,options,rest) := arguments n rest
      (args,if options.any (·.1 == o.1) then options else o::options,rest)
    | none =>
      match param n start with
      | some (p,rest) =>
        let (args,options,rest) := arguments n rest
        (p::args,options,rest)
      | none => ([],[],cs)

end

/-- A name alone: a path or a call in parentheses. -/
def bareName (cs : List Char) : Option (Param × List Char) :=
  (nested cs.length cs).or ((path cs).map fun (p,rest) => (.path p,rest))

/-- What an output shows. -/
def expression (cs : List Char) : Option (Call × List Char) :=
  match application cs.length cs with
  | some (callee,args,options,rest) => some (⟨callee,args,options⟩,rest)
  | none => (bareName cs).map fun (p,rest) => (⟨p,[],[]⟩,rest)

def blockNames (cs : List Char) : Option (BlockNames × List Char) := do
  let cs ← literally "as" cs
  let cs ← literally "|" (skip cs)
  let (first,cs) ← identifier (skip cs)
  let (second,cs) := match identifier (skip cs) with
    | some (s,rest) => (some s,rest)
    | none => (none,cs)
  some (⟨first,second⟩,← literally "|" (skip cs))

/-- The head of a block: its name, what it is applied to, and the names it gives. -/
def blockHead (cs : List Char) : Option (Call × Option BlockNames × List Char) := do
  let (name,cs) ← identifier cs
  let (args,options,cs) := arguments cs.length cs
  let (names,cs) := match blockNames (skip cs) with
    | some (names,rest) => (some names,rest)
    | none => (none,cs)
  some (⟨.name name,args,options⟩,names,cs)

def isPartSymbol (c : Char) : Bool := isSymbol c && c != '$' || c == '/' || c == '.'

/-- The characters up to a single quote, and the quote. A backslash keeps a quote that follows it. -/
def throughQuote : List Char → Option (List Char × List Char)
  | [] => none
  | '\\':: '\''::rest => (throughQuote rest).map fun (s,rest) => ('\\':: '\''::s,rest)
  | '\''::rest => some (['\''],rest)
  | c::rest => (throughQuote rest).map fun (s,rest) => (c::s,rest)

/-- The name of a part as it is written; single quotes around it belong to it. -/
def partName (cs : List Char) : Option (String × List Char) :=
  match cs with
  | '\''::rest =>
    match throughQuote rest with
    | some ([_],_) | none => none
    | some (s,rest) => some (String.ofList ('\''::s),rest)
  | cs => run isPartSymbol cs

def partHead (cs : List Char) : Option (Call × List Char) := do
  let (name,cs) ← ((partName cs).map fun (s,rest) => (.name s,rest)).or (bareName cs)
  let (args,options,cs) := arguments cs.length cs
  some (⟨name,args,options⟩,cs)

/-- The name in the tag that closes a block: of a function, or of a part. -/
def closingName (cs : List Char) : Option (String × List Char) :=
  match identifier cs, partName cs with
  | some (a,afterA), some (b,afterB) =>
    if afterA.length ≤ afterB.length then some (a,afterA) else some (b,afterB)
  | a, b => a.or b

def tilde (cs : List Char) : Bool × List Char :=
  match skip cs with
  | '~'::rest => (true,rest)
  | _ => (false,cs)

/-- The end of a tag. -/
def finish (tag : Tag) (before : Bool) (closing : String) (cs : List Char) :
    Option (Mark × List Char) := do
  let (after,cs) := tilde cs
  some (⟨tag,before,some after⟩,← literally closing (skip cs))

/-- Passes a comment that ends with a text. -/
def upTo (ending : List Char) (cs : List Char) : Option (List Char) :=
  (Text.splitFirst ending cs).map (·.2)

def braces : String := "\x7d\x7d"

/-- A tag, from its first brace on. -/
def scan (cs : List Char) : Option (Mark × List Char) := do
  match literally "\x7b\x7b\x7b\x7b" cs with
  | some cs =>
    let (before,cs) := tilde cs
    match skip cs with
    | '/'::rest => do
      let (name,rest) ← identifier (skip rest)
      finish (.closeRaw name) before "\x7d\x7d\x7d\x7d" rest
    | cs => do
      let (call,_,rest) ← blockHead cs
      finish (.openRaw call) before "\x7d\x7d\x7d\x7d" rest
  | none =>
    let inner ← literally "\x7b\x7b" cs
    let legacy := do
      let (before,cs) := tilde (← literally "\x7b" inner)
      let (call,rest) ← expression (skip cs)
      finish (.output call) before "\x7d\x7d\x7d" rest
    if legacy.isSome then legacy
    else if let '!'::rest := inner then
      let long := do upTo ['-','-','\x7d','\x7d'] (← literally "--" (skip rest))
      (long.or (upTo ['\x7d','\x7d'] rest)).map fun rest => (⟨.comment,false,none⟩,rest)
    else
      let (before,cs) := tilde inner
      match skip cs with
      | '\x7b'::rest => do
        let (call,rest) ← expression (skip rest)
        finish (.output call) before braces (← literally "\x7d" (skip rest))
      | '&'::rest => do
        let (name,rest) ← bareName (skip rest)
        finish (.output ⟨name,[],[]⟩) before braces rest
      | '#'::rest =>
        match skip rest with
        | '*'::rest => do
          let (call,_,rest) ← blockHead (skip rest)
          finish (.openDefine call) before braces rest
        | '>'::rest => do
          let (call,rest) ← partHead (skip rest)
          finish (.openUse call) before braces rest
        | rest => do
          let (call,names,rest) ← blockHead rest
          finish (.opens call names) before braces rest
      | '/'::rest => do
        let (name,rest) ← closingName (skip rest)
        finish (.close name) before braces rest
      | '*'::rest => do
        let (call,_,rest) ← blockHead (skip rest)
        finish (.define call) before braces rest
      | '>'::rest => do
        let (call,rest) ← partHead (skip rest)
        finish (.use call) before braces rest
      | '^'::rest => finish .otherwise before braces rest
      | rest =>
        match (literally "else" rest).bind (finish .otherwise before braces) with
        | some found => some found
        | none => do
          let (call,rest) ← expression rest
          finish (.output call) before braces rest

end Tag

/-- A part of a template: a text, or a tag with its place and what surrounds it. -/
inductive Piece where
  | text (s : List Char) (escaped : Bool)
  /-- The text of a raw block, without the blanks at its start. -/
  | raw (s : List Char)
  | mark (m : Mark) (position : Position) (before after : List Char)

namespace Piece

/-- A text up to the next tag. A backslash before braces is dropped and keeps them as text; of more
backslashes in front of a tag one is dropped. -/
def plain (braces : List Char) : Nat → List Char → List Char × Bool × List Char
  | 0, cs => ([],false,cs)
  | n+1, cs =>
    match cs with
    | [] => ([],false,[])
    | '\\'::rest =>
      let slashes := cs.takeWhile (· == '\\')
      let after := cs.dropWhile (· == '\\')
      if Text.startsWith ['\x7b','\x7b'] after then
        if slashes.length = 1 then
          let kept := if Text.startsWith ['\x7b','\x7b','\x7b','\x7b'] after then 4 else 2
          let (s,_,rest) := plain braces n (after.drop kept)
          (after.take kept ++ s,true,rest)
        else
          let (s,_,rest) := plain braces n after
          (slashes.drop 1 ++ s,true,rest)
      else
        let (s,e,rest) := plain braces n rest
        ('\\'::s,e,rest)
    | c::rest =>
      if Text.startsWith braces cs then ([],false,cs)
      else
        let (s,e,rest) := plain braces n rest
        (c::s,e,rest)

/-- Line and column of a place, counted from one. -/
def positionOf (before : List Char) : Position :=
  ⟨before.foldl (fun n c => if c = '\n' then n+1 else n) 1,
    (before.reverse.takeWhile (· ≠ '\n')).length+1⟩

/-- Cuts a text into pieces; `none` if braces stand where no tag can be read. The flag is set after
the opening of a raw block. -/
def cut (total : List Char) : Nat → Bool → List Char → Option (List Piece)
  | 0, _, _ => none
  | n+1, inRaw, cs =>
    match cs, inRaw with
    | [], false => some []
    | cs, true => do
      let (s,_,rest) := plain ['\x7b','\x7b','\x7b','\x7b'] (cs.length+1) (Tag.skip cs)
      some (.raw s::(← cut total n false rest))
    | cs, false =>
      if Text.startsWith ['\x7b','\x7b'] cs then do
        let (m,rest) ← Tag.scan cs
        let before := total.take (total.length-cs.length)
        let raw := match m.tag with
          | .openRaw _ => true
          | _ => false
        some (.mark m (positionOf before) before rest::(← cut total n raw rest))
      else do
        let (s,escaped,rest) := plain ['\x7b','\x7b'] (cs.length+1) cs
        some (.text s escaped::(← cut total n false rest))

end Piece

end TaskGraph.Template
