/-!
Scripts of a command language, as they are read: words with quotes and parameters, commands with
redirections, and the ways in which commands are joined. A text is a row of bytes here, and a
character stands for the byte with its code.
-/

namespace TaskGraph.Shell

/-- The end of a value that a pattern is cut from. -/
inductive Side where
  | front
  | back
  deriving DecidableEq, Repr

mutual

/-- A piece of a word. `quoted` tells whether it stands between quotes. -/
inductive Part where
  | char (c : Char) (quoted : Bool)
  /-- A quote, which keeps a field that is empty otherwise. -/
  | mark
  | parameter (name : String) (use : Use) (quoted : Bool)
  /-- What a script writes. -/
  | output (script : Script) (quoted : Bool)
  | arithmetic (text : List Part) (quoted : Bool)
  /-- A parameter that is used in no way that is known. -/
  | unreadable

/-- What a word takes from a parameter. The flag `full` asks for a value that is not empty. -/
inductive Use where
  | value
  | length
  /-- A word in place of an absent value. -/
  | fallback (full : Bool) (word : List Part)
  /-- A word that an absent parameter is set to. -/
  | assign (full : Bool) (word : List Part)
  /-- A word that complains about an absent value. -/
  | demand (full : Bool) (word : List Part)
  /-- A word in place of a value that is there. -/
  | instead (full : Bool) (word : List Part)
  /-- The value without what a pattern stands for at one side. -/
  | cut (side : Side) (longest : Bool) (pattern : List Part)

/-- What a stream of a command is tied to. -/
inductive Redirect where
  | input (stream : Nat) (path : List Part)
  /-- A file written from its start; without `force` it may have to be new. -/
  | output (stream : Nat) (path : List Part) (force : Bool)
  | append (stream : Nat) (path : List Part)
  | update (stream : Nat) (path : List Part)
  /-- The same as another stream, or none after a hyphen. -/
  | copy (stream : Nat) (target : List Part)
  /-- One of the texts that the script brings, by its number. -/
  | document (stream index : Nat)

inductive Script where
  | nothing
  | simple (line : Nat) (assignments : List (String × List Part)) (words : List (List Part))
    (redirects : List Redirect)
  | sequence (first second : Script)
  | both (first second : Script)
  | either (first second : Script)
  | negate (body : Script)
  /-- Each script reads what the one before it writes. -/
  | pipe (scripts : List Script)
  | background (body : Script)
  /-- Runs in a copy of the state. -/
  | isolated (line : Nat) (body : Script) (redirects : List Redirect)
  | redirected (line : Nat) (body : Script) (redirects : List Redirect)
  | choose (condition body alternative : Script)
  /-- Runs the body as long as the condition succeeds, or as long as it fails. -/
  | loop (whileSuccess : Bool) (condition body : Script)
  | forEach (line : Nat) (name : String) (words : List (List Part)) (body : Script)
  /-- Runs the first script with a pattern that the word matches. -/
  | select (line : Nat) (word : List Part) (arms : List (List (List Part) × Script))
  | define (name : String) (body : Script)

end

abbrev Word := List Part

instance : Inhabited Part := ⟨.mark⟩

instance : Inhabited Redirect := ⟨.document 0 0⟩

instance : Inhabited Script := ⟨.nothing⟩

/-- The text of a word without quotes and parameters. -/
def Word.plain? (w : Word) : Option String :=
  (w.mapM fun (p : Part) => match p with
    | .char c false => some c
    | _ => none).map String.ofList

def isNameStart (c : Char) : Bool := c.isAlpha || c == '_'

def isNameChar (c : Char) : Bool := c.isAlphanum || c == '_'

/-- Letters, digits and underscores, the first of which is no digit. -/
def isName (s : String) : Bool := s.toList.head?.any isNameStart && s.toList.all isNameChar

/-- The parameters that are no names: digits, and signs with a meaning of their own. -/
def isSign (c : Char) : Bool := c.isDigit || ['#','?','$','!','-','*','@'].contains c

/-- A name, an equals sign, and the word that the name is set to. -/
def Word.assignment? (w : Word) : Option (String × Word) :=
  let isPart : Part → Bool
    | .char c false => isNameChar c
    | _ => false
  match Word.plain? (w.takeWhile isPart), w.dropWhile isPart with
  | some name, .char '=' false::value => if isName name then some (name,value) else none
  | _, _ => none

end TaskGraph.Shell
