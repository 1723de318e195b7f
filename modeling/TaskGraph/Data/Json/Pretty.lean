import TaskGraph.Data.Json.Printer

/-!
The data text of a value over several lines, two blanks for each level.
-/

namespace TaskGraph.Json

def indent (level : Nat) : String := String.ofList (List.replicate (2*level) ' ')

/-- Parts between brackets, each on a line of its own. -/
def bracketed (left right : String) (level : Nat) (parts : List String) : String :=
  if parts.isEmpty then left ++ right
  else
    let lines := parts.map fun part => indent (level+1) ++ part
    left ++ "\n" ++ ",\n".intercalate lines ++ "\n" ++ indent level ++ right

def quotedText (s : String) : String := String.ofList (quoted s.toList)

/-- An object whose values are texts already, in the order given. -/
def prettyObject (level : Nat) (fields : List (String × String)) : String :=
  bracketed "\x7b" "\x7d" level (fields.map fun f => quotedText f.1 ++ ": " ++ f.2)

mutual

def pretty (level : Nat) : Value → String
  | .array items => bracketed "[" "]" level (prettyItems (level+1) items)
  | .object fields => prettyObject level (prettyFields (level+1) fields)
  | v => text v

def prettyItems (level : Nat) : List Value → List String
  | [] => []
  | v::vs => pretty level v::prettyItems level vs

def prettyFields (level : Nat) : List (String × Value) → List (String × String)
  | [] => []
  | (k,v)::fields => (k,pretty level v)::prettyFields level fields

end

end TaskGraph.Json
