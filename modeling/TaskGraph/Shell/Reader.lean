import TaskGraph.Shell.Syntax

/-!
Reading scripts, one list of commands at a time: a list ends with its line, so what stands in the
lines before a fault has been read and may have been run. A fault names the line that the reader has
come to.
-/

namespace TaskGraph.Shell

/-- How a redirection ties a stream. -/
inductive Direction where
  | input
  | output (force : Bool)
  | append
  | update
  | copy
  /-- A text in the lines that follow, whose leading tabs may be dropped. -/
  | document (dropTabs : Bool)
  deriving DecidableEq, Repr

inductive Token where
  | ending
  | newline
  | semicolon
  | background
  | both
  | either
  | pipe
  | opening
  | closing
  | armEnd
  | redirect (stream : Nat) (direction : Direction)
  | keyword (name : String)
  | word (w : Word)

namespace Token

/-- What a complaint calls a token. -/
def text : Token → String
  | .ending => "end of file"
  | .newline => "newline"
  | .semicolon => "\";\""
  | .background => "\"&\""
  | .both => "\"&&\""
  | .either => "\"||\""
  | .pipe => "\"|\""
  | .opening => "\"(\""
  | .closing => "\")\""
  | .armEnd => "\";;\""
  | .redirect _ _ => "redirection"
  | .keyword name => "\"" ++ name ++ "\""
  | .word _ => "word"

/-- Whether two tokens are of one kind. -/
def isLike (a b : Token) : Bool := a.text == b.text

def keywords : List String :=
  ["!","case","do","done","elif","else","esac","fi","for","if","in","then","until","while",
    "\x7b","\x7d"]

/-- Whether a token may stand behind a list of commands. -/
def endsList : Token → Bool
  | .ending | .closing | .armEnd => true
  | .keyword name =>
    ["do","done","elif","else","esac","fi","then","\x7d"].contains name
  | _ => false

end Token

inductive SyntaxFault where
  | unexpected (found : Token) (expected : Option Token)
  | openQuote
  | openBrace
  | openArithmetic
  | openBackquote
  | loopName
  | functionName
  | streamNumber

def SyntaxFault.message : SyntaxFault → String
  | .unexpected found none => found.text ++ " unexpected"
  | .unexpected found (some expected) =>
    found.text ++ " unexpected (expecting " ++ expected.text ++ ")"
  | .openQuote => "Unterminated quoted string"
  | .openBrace => "Missing '\x7d'"
  | .openArithmetic => "Missing '))'"
  | .openBackquote => "EOF in backquote substitution"
  | .loopName => "Bad for loop variable"
  | .functionName => "Bad function name"
  | .streamNumber => "Bad fd number"

/-- A fault and the line it was met in. -/
structure SyntaxError where
  line : Nat
  fault : SyntaxFault

/-- A text that a redirection announces: its number, the line that ends it, whether tabs are dropped
and whether parameters in it count. -/
structure Announced where
  index : Nat
  ending : String
  dropTabs : Bool
  live : Bool

structure Input where
  rest : List Char
  line : Nat
  /-- A token that was looked at and left. -/
  left : Option Token := none
  announced : List Announced := []
  documents : Array Word
  aliases : List (String × String)
  /-- Aliases within whose text the reader is, with how much input follows that text. -/
  replaced : List (String × Nat) := []
  /-- Whether a dollar sign has a meaning. -/
  dollars : Bool := true

abbrev Reader := StateT Input (Except SyntaxError)

def backquote : Char := Char.ofNat 96

/-- Where a run of pieces stands, which decides what ends it and which signs count in it. -/
inductive Place where
  | bare
  | braced
  | quoted
  /-- Within braces between quotes; the flag tells whether further quotes are open. -/
  | quotedBraced (inner : Bool)
  /-- Within double parentheses, and how many single ones are open. -/
  | arithmetic (depth : Nat)
  | document
  deriving DecidableEq, Repr

namespace Place

def isQuoted : Place → Bool
  | .bare | .braced => false
  | _ => true

/-- Whether a backslash takes the meaning from a sign here. -/
def escapes (place : Place) (c : Char) : Bool :=
  match place with
  | .bare | .braced => true
  | .quotedBraced _ => ['\\','$','"','\x7d'].contains c || c == backquote
  | .document => ['\\','$'].contains c || c == backquote
  | _ => ['\\','$','"'].contains c || c == backquote

end Place

/-- How far a list of commands goes: to the end of its line, to a closing word after at least one
command, or to a closing word. -/
inductive Extent where
  | line
  | block
  | inner
  deriving DecidableEq, Repr

namespace Reader

def fail {α : Type} (fault : SyntaxFault) : Reader α := do throw ⟨(← get).line,fault⟩

def unexpected {α : Type} (found : Token) (expected : Option Token) : Reader α :=
  fail (.unexpected found expected)

def leave (t : Token) : Reader Unit := modify fun s => {s with left := some t}

/-- Lines that end in a backslash go on in the next; the number tells how many. -/
def joined : List Char → Nat × List Char
  | '\\':: '\n'::rest => let (n,rest) := joined rest; (n+1,rest)
  | cs => (0,cs)

def peek : Reader (Option Char) := modifyGet fun s =>
  let (n,rest) := joined s.rest
  (rest.head?,{s with rest, line := s.line+n})

def advance : Reader Unit := modify fun s =>
  match s.rest with
  | c::rest => {s with rest, line := if c == '\n' then s.line+1 else s.line}
  | [] => s

/-- The characters of a class that come next. -/
def span (p : Char → Bool) : List Char → List Char × Nat × List Char
  | '\\':: '\n'::rest => let (cs,n,rest) := span p rest; (cs,n+1,rest)
  | c::rest =>
    if p c then let (cs,n,rest) := span p rest; (c::cs,n,rest) else ([],0,c::rest)
  | [] => ([],0,[])

def takeRun (p : Char → Bool) : Reader String := modifyGet fun s =>
  let (cs,n,rest) := span p s.rest
  (String.ofList cs,{s with rest, line := s.line+n})

def endsWord (c : Char) : Bool := [' ','\t','\n',';','&','|','(',')','<','>'].contains c

/-- The text up to a single quote. -/
def singleQuoted : Reader Word := do
  let s ← get
  let text := s.rest.takeWhile (· != '\'')
  match s.rest.drop text.length with
  | [] => set {s with line := s.line+text.count '\n'}; fail .openQuote
  | _::rest =>
    set {s with rest, line := s.line+text.count '\n'}
    return text.map fun c => .char c true

/-- The text up to a back quote. A backslash keeps its meaning but before another one, a dollar sign or
a back quote, and between double quotes before one of those. -/
def backquoted (quoted : Bool) : List Char → Option (List Char × Nat × List Char)
  | [] => none
  | '\\':: '\n'::rest => (backquoted quoted rest).map fun (cs,n,rest) => (cs,n+1,rest)
  | '\\'::c::rest =>
    (backquoted quoted rest).map fun (cs,n,rest) =>
      if c == '\\' || c == '$' || c == backquote || quoted && c == '"' then (c::cs,n,rest)
      else ('\\'::c::cs,n,rest)
  | c::rest =>
    if c == backquote then some ([],0,rest)
    else (backquoted quoted rest).map fun (cs,n,rest) =>
      (c::cs,if c == '\n' then n+1 else n,rest)

/-- The lines of an announced text, and what follows its last line. -/
def documentLines (d : Announced) : Nat → Bool → List Char → List Char × Nat × List Char
  | 0, _, cs => ([],0,cs)
  | _+1, _, [] => ([],0,[])
  | n+1, continued, cs =>
    let cs := if d.dropTabs then cs.dropWhile (· == '\t') else cs
    let line := cs.takeWhile (· != '\n')
    let rest := cs.drop (line.length+1)
    if !continued && line == d.ending.toList then ([],1,rest)
    else
      let slashes := (line.reverse.takeWhile (· == '\\')).length
      let (more,count,rest) := documentLines d n (d.live && slashes%2 == 1) rest
      (line ++ (if line.length < cs.length then ['\n'] else []) ++ more,count+1,rest)

/-- The pieces between double quotes. Quotes keep a field, unless they hold all arguments and nothing
else. -/
def closeQuotes : Word → Word
  | [.parameter "@" .value true] => [.parameter "@" .value true]
  | w => .mark::w

/-- Reads a text apart from the input around it. -/
def within {α : Type} (text : List Char) (line : Nat) (read : Reader α) : Reader α := do
  let s ← get
  set {s with rest := text, line, left := none, announced := [], replaced := []}
  let x ← read
  modify fun inner => {s with documents := inner.documents}
  return x

/-- The stream that a word before a redirection names: nothing when it is part of a command. -/
def streamBefore? : Word → Option (Option Nat)
  | [] => some none
  | [.char c false] => if c.isDigit then some (some (c.toNat-48)) else none
  | _ => none

/-- The sign of a redirection. -/
def direction : Reader (Nat × Direction) := do
  let first ← peek
  advance
  let second ← peek
  match first, second with
  | some '>', some '>' => advance; return (1,.append)
  | some '>', some '|' => advance; return (1,.output true)
  | some '>', some '&' => advance; return (1,.copy)
  | some '>', _ => return (1,.output false)
  | _, some '<' =>
    advance
    if (← peek) = some '-' then advance; return (0,.document true)
    else return (0,.document false)
  | _, some '&' => advance; return (0,.copy)
  | _, some '>' => advance; return (0,.update)
  | _, _ => return (0,.input)

def isQuoted (w : Word) : Bool := w.any fun
  | .char _ quoted => quoted
  | .mark => true
  | _ => false

/-- The text of a word whose quotes are dropped. -/
def literal (w : Word) : String := String.ofList (w.filterMap fun
  | .char c _ => some c
  | _ => none)

def isKeyword? (w : Word) : Option String := w.plain?.filter Token.keywords.contains

/-- Commands with a meaning of their own, which no function may take. -/
def specials : List String :=
  [":",".","break","continue","eval","exec","exit","export","local","readonly","return","set",
    "shift","times","trap","unset"]

def andThen : Script → Script → Script
  | .nothing, b => b
  | a, b => .sequence a b

def withRedirects (line : Nat) (script : Script) : List Redirect → Script
  | [] => script
  | rs => .redirected line script rs

mutual

/-- The pieces of a word up to what ends it; those that were read come in reverse. -/
def parts : Nat → Place → Word → Reader Word
  | 0, _, _ => unexpected .ending none
  | n+1, place, read => do
    match ← peek with
    | none =>
      match place with
      | .bare | .document => return read.reverse
      | .braced => fail .openBrace
      | .arithmetic _ => fail .openArithmetic
      | _ => fail .openQuote
    | some c =>
      let plain : Reader Word := do advance; parts n place (.char c place.isQuoted::read)
      if c == '\\' then
        advance
        match (← get).rest with
        | [] => parts n place (.char c true::read)
        | d::_ =>
          if place.escapes d then advance; parts n place (.char d true::read)
          else parts n place (.char c true::read)
      else if c == '$' && (← get).dollars then
        advance
        parts n place ((← dollar n place) ++ read)
      else if c == backquote then
        advance
        let s ← get
        match backquoted place.isQuoted s.rest with
        | none => fail .openBackquote
        | some (text,lines,rest) =>
          set {s with rest, line := s.line+lines}
          let script ← within text 1 (list n .inner false .nothing)
          parts n place (.output script place.isQuoted::read)
      else match place with
        | .bare =>
          if endsWord c then return read.reverse
          else if c == '\'' then
            advance
            parts n place ((.mark::(← singleQuoted)).reverse ++ read)
          else if c == '"' then
            advance
            parts n place ((closeQuotes (← parts n .quoted [])).reverse ++ read)
          else plain
        | .braced =>
          if c == '\x7d' then advance; return read.reverse
          else if c == '\'' then
            advance
            parts n place ((.mark::(← singleQuoted)).reverse ++ read)
          else if c == '"' then
            advance
            parts n place ((closeQuotes (← parts n .quoted [])).reverse ++ read)
          else plain
        | .quoted => if c == '"' then advance; return read.reverse else plain
        | .quotedBraced inner =>
          if c == '"' then advance; parts n (.quotedBraced !inner) read
          else if c == '\x7d' && !inner then advance; return read.reverse
          else plain
        | .arithmetic depth =>
          if c == '(' then advance; parts n (.arithmetic (depth+1)) (.char c true::read)
          else if c == ')' then
            advance
            if depth > 0 then parts n (.arithmetic (depth-1)) (.char c true::read)
            else if (← peek) = some ')' then advance; return read.reverse
            else parts n place (.char c true::read)
          else plain
        | .document => plain

/-- What follows a dollar sign; the pieces come in reverse. -/
def dollar : Nat → Place → Reader Word
  | 0, _ => unexpected .ending none
  | n+1, place => do
    let quoted := place.isQuoted
    match ← peek with
    | none => return [.char '$' quoted]
    | some '(' =>
      advance
      if (← peek) = some '(' then
        advance
        return [.arithmetic (← parts n (.arithmetic 0) []) quoted]
      else
        let s ← get
        set {s with announced := []}
        let script ← list n .inner false .nothing
        expect n .closing
        modify fun inner => {inner with announced := s.announced}
        return [.output script quoted]
    | some '\x7b' => advance; braces n place
    | some c =>
      if isNameStart c then return [.parameter (← takeRun isNameChar) .value quoted]
      else if isSign c then advance; return [.parameter (String.singleton c) .value quoted]
      else return [.char '$' quoted]

/-- A parameter within braces. -/
def braces : Nat → Place → Reader Word
  | 0, _ => unexpected .ending none
  | n+1, place => do
    match ← peek with
    | none => unreadable n place
    | some c =>
      if isNameStart c then use n place (← takeRun isNameChar)
      else if c.isDigit then use n place (← takeRun Char.isDigit)
      else if c == '#' then
        advance
        match ← peek with
        | none => unreadable n place
        | some d =>
          if isNameChar d then
            let name ← takeRun (if d.isDigit then Char.isDigit else isNameChar)
            if (← peek) = some '\x7d' then advance; return [.parameter name .length place.isQuoted]
            else unreadable n place
          else if isSign d && ((← get).rest.drop 1).head? = some '\x7d' then
            advance
            advance
            return [.parameter (String.singleton d) .length place.isQuoted]
          else use n place "#"
      else if isSign c then advance; use n place (String.singleton c)
      else
        if c != '\x7d' then advance
        unreadable n place

/-- The rest of a parameter within braces that cannot be understood. -/
def unreadable : Nat → Place → Reader Word
  | 0, _ => unexpected .ending none
  | n+1, place => do
    let _ ← parts n (if place.isQuoted then .quotedBraced false else .braced) []
    return [.unreadable]

/-- What is asked of a parameter, from behind its name. -/
def use : Nat → Place → String → Reader Word
  | 0, _, _ => unexpected .ending none
  | n+1, place, name => do
    let quoted := place.isQuoted
    let word : Reader Word := parts n (if quoted then .quotedBraced false else .braced) []
    let full := (← peek) == some ':'
    if full then advance
    match ← peek with
    | some '\x7d' =>
      advance
      if full then
        let _ ← word
      return [.parameter name .value quoted]
    | some '-' => advance; return [.parameter name (.fallback full (← word)) quoted]
    | some '=' => advance; return [.parameter name (.assign full (← word)) quoted]
    | some '?' => advance; return [.parameter name (.demand full (← word)) quoted]
    | some '+' => advance; return [.parameter name (.instead full (← word)) quoted]
    | some c =>
      advance
      if (c == '%' || c == '#') && !full then
        let longest := (← peek) == some c
        if longest then advance
        let side := if c == '#' then Side.front else Side.back
        return [.parameter name (.cut side longest (← parts n .braced [])) quoted]
      else unreadable n place
    | none => unreadable n place

/-- A token that starts at the next character that is no blank. -/
def scan : Nat → Reader Token
  | 0 => unexpected .ending none
  | n+1 => do
    match ← peek with
    | none => return .ending
    | some ' ' | some '\t' => advance; scan n
    | some '#' =>
      modify fun s => {s with rest := s.rest.dropWhile (· != '\n')}
      scan n
    | some '\n' => advance; return .newline
    | some '&' =>
      advance
      if (← peek) = some '&' then advance; return .both else return .background
    | some '|' =>
      advance
      if (← peek) = some '|' then advance; return .either else return .pipe
    | some ';' =>
      advance
      if (← peek) = some ';' then advance; return .armEnd else return .semicolon
    | some '(' => advance; return .opening
    | some ')' => advance; return .closing
    | some _ =>
      let w ← parts n .bare []
      match streamBefore? w, ← peek with
      | some stream, some c =>
        if c == '<' || c == '>' then
          let (usual,direction) ← direction
          return .redirect (stream.getD usual) direction
        else return .word w
      | _, _ => return .word w

/-- The next token. Line ends may be passed over, and words may be keywords or aliases. -/
def token : Nat → Bool → Bool → Bool → Reader Token
  | 0, _, _, _ => unexpected .ending none
  | n+1, newlines, keywords, aliases => do
    let s ← get
    let t ← match s.left with
      | some t => do set {s with left := none}; pure t
      | none => scan n
    match t with
    | .newline =>
      if newlines then
        readDocuments n
        token n newlines keywords aliases
      else return t
    | .word w =>
      match isKeyword? w with
      | some name => if keywords then return .keyword name else return t
      | none =>
        let s ← get
        let found := do
          let name ← w.plain?
          let text ← s.aliases.lookup name
          if s.replaced.any fun r => r.1 == name && r.2 < s.rest.length then none
          else some (name,text)
        match aliases, found with
        | true, some (name,text) =>
          set {s with rest := text.toList ++ s.rest,
                      replaced := (name,s.rest.length)::s.replaced}
          token n newlines keywords aliases
        | _, _ => return t
    | _ => return t

def expect : Nat → Token → Reader Unit
  | 0, _ => unexpected .ending none
  | n+1, expected => do
    let t ← token n false false false
    if !t.isLike expected then unexpected t (some expected)

/-- Reads the announced texts, which start in the line at hand. -/
def readDocuments : Nat → Reader Unit
  | 0 => return
  | n+1 => do
    let s ← get
    match s.announced with
    | [] => return
    | d::more =>
      let (text,lines,rest) := documentLines d (s.rest.length+1) false s.rest
      set {s with rest, line := s.line+lines, announced := more}
      let word ← if d.live then within text s.line (parts n .document [])
        else pure (text.map fun c => .char c true)
      modify fun s => {s with documents := s.documents.setIfInBounds d.index word}
      readDocuments n

/-- The word behind the sign of a redirection. -/
def target : Nat → Nat → Direction → Reader Redirect
  | 0, _, _ => unexpected .ending none
  | n+1, stream, direction => do
    let marks : Bool := match direction with
      | .document _ => true
      | _ => false
    modify fun s => {s with dollars := !marks}
    let t ← token n false false false
    modify fun s => {s with dollars := true}
    match t with
    | .word w =>
      match direction with
      | .input => return .input stream w
      | .output force => return .output stream w force
      | .append => return .append stream w
      | .update => return .update stream w
      | .copy => return .copy stream w
      | .document dropTabs =>
        let s ← get
        let index := s.documents.size
        set {s with
          documents := s.documents.push [],
          announced := s.announced ++ [Announced.mk index (literal w) dropTabs (!isQuoted w)]}
        return .document stream index
    | t => unexpected t none

/-- Redirections behind a command that is closed by a word. -/
def redirects : Nat → List Redirect → Reader (List Redirect)
  | 0, _ => unexpected .ending none
  | n+1, read => do
    match ← token n false true true with
    | .redirect stream direction =>
      redirects n (read ++ [← target n stream direction])
    | t => leave t; return read

/-- Commands from `before` on, as far as the extent goes. -/
def list : Nat → Extent → Bool → Script → Reader Script
  | 0, _, _, _ => unexpected .ending none
  | n+1, extent, started, before => do
    let t ← token n (extent != .line) true true
    match t with
    | .newline => readDocuments n; return before
    | .ending => readDocuments n; leave t; return before
    | _ =>
      leave t
      if t.endsList && (extent == .inner || extent == .block && started) then return before
      else
        let first ← chain n
        match ← token n false false false with
        | .ending =>
          readDocuments n
          leave .ending
          return andThen before first
        | .newline => leave .newline; list n extent true (andThen before first)
        | .semicolon => list n extent true (andThen before first)
        | .background => list n extent true (andThen before (.background first))
        | t =>
          if extent = .line then unexpected t none
          leave t
          return andThen before first

/-- Pipelines joined by `&&` and `||`, from left to right. -/
def chain : Nat → Reader Script
  | 0 => unexpected .ending none
  | n+1 => do chainRest n (← pipeline n false)

def chainRest : Nat → Script → Reader Script
  | 0, _ => unexpected .ending none
  | n+1, first => do
    match ← token n false false false with
    | .both => chainRest n (.both first (← pipeline n true))
    | .either => chainRest n (.either first (← pipeline n true))
    | t => leave t; return first

/-- Commands joined by bars; `fresh` tells that the first token has not been looked at. -/
def pipeline : Nat → Bool → Reader Script
  | 0, _ => unexpected .ending none
  | n+1, fresh => do
    let t ← token n fresh fresh fresh
    let negated := t.isLike (.keyword "!")
    if !negated then leave t
    let first ← command n false
    let script ← match ← pipeRest n [first] with
      | [_] => pure first
      | scripts => pure (.pipe scripts)
    return if negated then .negate script else script

def pipeRest : Nat → List Script → Reader (List Script)
  | 0, _ => unexpected .ending none
  | n+1, read => do
    match ← token n false false false with
    | .pipe => pipeRest n (read ++ [← command n true])
    | t => leave t; return read

/-- A command; line ends may stand before it. -/
def command : Nat → Bool → Reader Script
  | 0, _ => unexpected .ending none
  | n+1, newlines => do
    let line := (← get).line
    let t ← token n newlines true true
    match t with
    | .word _ | .redirect _ _ =>
      leave t
      simple n (← get).line [] [] []
    | .opening =>
      let body ← list n .block false .nothing
      expect n .closing
      return .isolated line body (← redirects n [])
    | .keyword "\x7b" =>
      let body ← list n .block false .nothing
      expect n (.keyword "\x7d")
      return withRedirects line body (← redirects n [])
    | .keyword "if" =>
      let script ← conditional n
      expect n (.keyword "fi")
      return withRedirects line script (← redirects n [])
    | .keyword "while" | .keyword "until" =>
      let condition ← list n .block false .nothing
      expect n (.keyword "do")
      let body ← list n .block false .nothing
      expect n (.keyword "done")
      return withRedirects line (.loop (t.isLike (.keyword "while")) condition body)
        (← redirects n [])
    | .keyword "for" =>
      let name ← match ← token n false false false with
        | .word w => match w.plain?.filter isName with
          | some name => pure name
          | none => fail .loopName
        | _ => fail .loopName
      let words ← match ← token n true true true with
        | .keyword "in" => loopWords n []
        | .semicolon => pure [[.parameter "@" .value true]]
        | t => do leave t; pure [[.parameter "@" .value true]]
      let t ← token n true true true
      if !t.isLike (.keyword "do") then unexpected t (some (.keyword "do"))
      let body ← list n .block false .nothing
      expect n (.keyword "done")
      return withRedirects line (.forEach line name words body) (← redirects n [])
    | .keyword "case" =>
      match ← token n false false false with
      | .word w =>
        let t ← token n true true true
        if !t.isLike (.keyword "in") then unexpected t (some (.keyword "in"))
        let script := Script.select line w (← arms n [])
        return withRedirects line script (← redirects n [])
      | t => unexpected t (some (.word []))
    | t => unexpected t none

/-- The words that a loop goes through. -/
def loopWords : Nat → List Word → Reader (List Word)
  | 0, _ => unexpected .ending none
  | n+1, read => do
    match ← token n false false false with
    | .word w => loopWords n (read ++ [w])
    | .newline | .semicolon =>
      readDocuments n
      return read
    | t => unexpected t none

/-- A condition with what follows it, up to the word that closes it. -/
def conditional : Nat → Reader Script
  | 0 => unexpected .ending none
  | n+1 => do
    let condition ← list n .block false .nothing
    expect n (.keyword "then")
    let body ← list n .block false .nothing
    match ← token n false false false with
    | .keyword "elif" => return .choose condition body (← conditional n)
    | .keyword "else" => return .choose condition body (← list n .block false .nothing)
    | t => leave t; return .choose condition body .nothing

/-- Arms up to the word that ends them. -/
def arms : Nat → List (List Word × Script) → Reader (List (List Word × Script))
  | 0, _ => unexpected .ending none
  | n+1, read => do
    let t ← token n true true false
    if t.isLike (.keyword "esac") then return read
    let first ← if t.isLike .opening then token n false false false else pure t
    let words ← patterns n first []
    let body ← list n .inner false .nothing
    let t ← token n true true false
    if t.isLike (.keyword "esac") then return read ++ [(words,body)]
    else if t.isLike .armEnd then arms n (read ++ [(words,body)])
    else unexpected t (some .armEnd)

/-- The patterns of an arm up to its parenthesis, from the first token on. -/
def patterns : Nat → Token → List Word → Reader (List Word)
  | 0, _, _ => unexpected .ending none
  | n+1, first, read => do
    let word : Word := match first with
      | .word w => w
      | .keyword name => name.toList.map (Part.char · false)
      | _ => []
    match ← token n false false false with
    | .pipe => patterns n (← token n false false false) (read ++ [word])
    | .closing => return read ++ [word]
    | t => unexpected t (some .closing)

/-- A command of words and redirections, or the definition of a function. -/
def simple : Nat → Nat → List (String × Word) → List Word → List Redirect → Reader Script
  | 0, _, _, _, _ => unexpected .ending none
  | n+1, line, assignments, words, redirections => do
    match ← token n false false words.isEmpty with
    | .word w =>
      match words, w.assignment? with
      | [], some a => simple n line (assignments ++ [a]) words redirections
      | _, _ => simple n line assignments (words ++ [w]) redirections
    | .redirect stream direction =>
      simple n line assignments words (redirections ++ [← target n stream direction])
    | t =>
      match t, assignments, words, redirections with
      | .opening, [], [name], [] =>
        expect n .closing
        match name.plain?.filter fun s => isName s && !specials.contains s with
        | some name => return .define name (← command n true)
        | none => fail .functionName
      | _, _, _, _ =>
        leave t
        return .simple line assignments words redirections

end

end Reader

namespace Input

def ofText (text : List Char) (line : Nat) : Input := ⟨text,line,none,[],#[],[],[],true⟩

/-- How many calls the reading of an input takes at most: a few for each character. -/
def effort (s : Input) : Nat :=
  20*(s.rest.length+50)*(s.aliases.foldl (fun n a => n+a.2.length) 1)

/-- The next list of commands; nothing at the end. -/
def next? (s : Input) : Except SyntaxError (Option Script × Input) := do
  let (script,s) ← (Reader.list s.effort .line false .nothing).run s
  match script, s.left with
  | .nothing, some .ending => return (none,s)
  | script, _ => return (some script,s)

end Input

end TaskGraph.Shell
