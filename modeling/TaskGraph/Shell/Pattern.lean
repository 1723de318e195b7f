/-!
Patterns of texts: a star stands for any text, a question mark for any byte, brackets for one byte of
several. Marks that stand between quotes stand for themselves.
-/

namespace TaskGraph.Shell

inductive Mark where
  | exactly (c : Char)
  | anyText
  | anyByte
  | oneOf (accepted : List (Char → Bool)) (negated : Bool)

abbrev Pattern := List Mark

namespace Mark

/-- Whether a mark stands for a single byte. -/
def accepts (c : Char) : Mark → Bool
  | .exactly d => c == d
  | .anyText => false
  | .anyByte => true
  | .oneOf accepted negated => accepted.any (· c) != negated

end Mark

namespace Pattern

def Matches : Pattern → List Char → Bool
  | [], cs => cs.isEmpty
  | .anyText::p, [] => Matches p []
  | .anyText::p, c::cs => Matches p (c::cs) || Matches (.anyText::p) cs
  | _::_, [] => false
  | m::p, c::cs => m.accepts c && Matches p cs
termination_by p cs => p.length+cs.length

def isPunctuation (c : Char) : Bool := 32 < c.toNat && c.toNat < 127 && !c.isAlphanum

/-- The classes of bytes that brackets may name. -/
def classes : List (String × (Char → Bool)) :=
  [("alnum",Char.isAlphanum),
   ("alpha",Char.isAlpha),
   ("blank",fun c => c == ' ' || c == '\t'),
   ("cntrl",fun c => c.toNat < 32 || c.toNat == 127),
   ("digit",Char.isDigit),
   ("graph",fun c => 32 < c.toNat && c.toNat < 127),
   ("lower",Char.isLower),
   ("print",fun c => 32 ≤ c.toNat && c.toNat < 127),
   ("punct",isPunctuation),
   ("space",fun c => c == ' ' || 9 ≤ c.toNat && c.toNat ≤ 13),
   ("upper",Char.isUpper),
   ("xdigit",fun c => c.isDigit || ('a' ≤ c.toLower && c.toLower ≤ 'f'))]

/-- The class that is named behind an opening bracket. -/
def class? (cs : List (Char × Bool)) : Option ((Char → Bool) × List (Char × Bool)) :=
  match cs with
  | (':',_)::cs =>
    let name := String.ofList ((cs.takeWhile fun d => d.1.isAlpha).map (·.1))
    match cs.drop name.length with
    | (':',_)::(']',_)::rest => (classes.lookup name).map fun p => (p,rest)
    | _ => none
  | _ => none

/-- What brackets accept, and what follows them; nothing when they are not closed. A closing bracket
in the first place stands for itself. -/
def bracket? : Nat → Bool → List (Char × Bool) →
    Option (List (Char → Bool) × List (Char × Bool))
  | 0, _, _ => none
  | _+1, _, [] => none
  | n+1, first, (c,active)::rest =>
    if c == ']' && active && !first then some ([],rest)
    else match if c == '[' && active then class? rest else none with
      | some (p,rest) => (bracket? n false rest).map fun (ps,rest) => (p::ps,rest)
      | none =>
        match rest with
        | ('-',true)::(d,closes)::more =>
          if d == ']' && closes then
            (bracket? n false rest).map fun (ps,rest) => ((· == c)::ps,rest)
          else
            (bracket? n false more).map fun (ps,rest) =>
              ((fun x => decide (c ≤ x) && decide (x ≤ d))::ps,rest)
        | rest => (bracket? n false rest).map fun (ps,rest) => ((· == c)::ps,rest)

/-- Reads bytes, each with whether it may be a mark. -/
def ofBytes : Nat → List (Char × Bool) → Pattern
  | 0, _ => []
  | _+1, [] => []
  | n+1, (c,false)::rest => .exactly c::ofBytes n rest
  | n+1, (c,true)::rest =>
    if c == '*' then .anyText::ofBytes n rest
    else if c == '?' then .anyByte::ofBytes n rest
    else if c == '\\' then
      match rest with
      | (d,_)::rest => .exactly d::ofBytes n rest
      | [] => [.exactly c]
    else if c == '[' then
      let (negated,inner) := match rest with
        | ('!',true)::inner => (true,inner)
        | inner => (false,inner)
      match bracket? (inner.length+1) true inner with
      | some (accepted,after) => .oneOf accepted negated::ofBytes n after
      | none => .exactly c::ofBytes n rest
    else .exactly c::ofBytes n rest

/-- The text without the part at one side that a pattern stands for: the longest such part or the
shortest. -/
def cut (p : Pattern) (front longest : Bool) (text : List Char) : List Char :=
  let sizes := List.range (text.length+1)
  let sizes := if longest then sizes.reverse else sizes
  let found := sizes.find? fun (n : Nat) =>
    p.Matches (if front then text.take n else text.drop (text.length-n))
  match found with
  | some n => if front then text.drop n else text.take (text.length-n)
  | none => text

end Pattern

end TaskGraph.Shell
