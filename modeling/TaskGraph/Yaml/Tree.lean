import TaskGraph.Data.Value
import TaskGraph.Yaml.Node

/-!
Plain trees: what a document says once its scalars are told apart, styles and tags forgotten. They
are the form in which the nested parts of a definition are read and written.
-/

namespace TaskGraph.Yaml

inductive Tree where
  | null
  | bool (b : Bool)
  | int (n : Int)
  | float (d : Double)
  | string (s : String)
  | list (items : List Tree)
  | map (entries : List (Tree × Tree))
  deriving Inhabited, Repr

def Scalar.tree? (s : Scalar) : Option Tree :=
  if s.isTagged then none
  else match s.atom with
    | .null => some .null
    | .bool b => some (.bool b)
    | .int n => some (.int n)
    | .float d => some (.float d)
    | .string => some (.string s.text)
    | .unreadable => none

namespace Node

mutual

/-- The plain tree of a node. Tags of applications have no plain form. -/
def tree? : Node → Option Tree
  | .scalar s => s.tree?
  | .sequence tagged items => if tagged then none else (treeItems? items).map .list
  | .mapping tagged entries => if tagged then none else (treeEntries? entries).map .map
  | .nothing => some .null

def treeItems? : List Node → Option (List Tree)
  | [] => some []
  | x::xs =>
    match tree? x, treeItems? xs with
    | some t, some ts => some (t::ts)
    | _, _ => none

def treeEntries? : List (Node × Node) → Option (List (Tree × Tree))
  | [] => some []
  | (k,v)::rest =>
    match tree? k, tree? v, treeEntries? rest with
    | some k, some v, some es => some ((k,v)::es)
    | _, _, _ => none

end

mutual

/-- The node that is read as a plain tree. -/
def ofTree : Tree → Node
  | .null => null
  | .bool b => ofBool b
  | .int n => ofInt n
  | .float d => ofDouble d
  | .string s => ofString s
  | .list items => .sequence false (ofTreeItems items)
  | .map entries => .mapping false (ofTreeEntries entries)

def ofTreeItems : List Tree → List Node
  | [] => []
  | t::ts => ofTree t::ofTreeItems ts

def ofTreeEntries : List (Tree × Tree) → List (Node × Node)
  | [] => []
  | (k,v)::es => (ofTree k,ofTree v)::ofTreeEntries es

end

end Node

namespace Tree

mutual

/-- How many collections lie inside each other. -/
def height : Tree → Nat
  | .list items => heightItems items+1
  | .map entries => heightEntries entries+1
  | _ => 0

def heightItems : List Tree → Nat
  | [] => 0
  | t::ts => Nat.max (height t) (heightItems ts)

def heightEntries : List (Tree × Tree) → Nat
  | [] => 0
  | (k,v)::es => Nat.max (Nat.max (height k) (height v)) (heightEntries es)

end

mutual

/-- A tree as a value: keys have to be strings, of equal keys the later counts, and a number that is
not finite is null. -/
def value? : Tree → Option Value
  | .null => some .null
  | .bool b => some (.bool b)
  | .int n => some (.int n)
  | .float d => some (if d.isFinite then .float d else .null)
  | .string s => some (.string s)
  | .list items => (valueItems? items).map .array
  | .map entries => (valueFields? entries).map Value.ofPairs

def valueItems? : List Tree → Option (List Value)
  | [] => some []
  | t::ts =>
    match value? t, valueItems? ts with
    | some v, some vs => some (v::vs)
    | _, _ => none

def valueFields? : List (Tree × Tree) → Option (List (String × Value))
  | [] => some []
  | (k,t)::es =>
    match k, value? t, valueFields? es with
    | .string name, some v, some fields => some ((name,v)::fields)
    | _, _, _ => none

end

mutual

def ofValue : Value → Tree
  | .null => .null
  | .bool b => .bool b
  | .int n => .int n
  | .float d => .float d
  | .string s => .string s
  | .array items => .list (ofValues items)
  | .object fields => .map (ofValueFields fields)

def ofValues : List Value → List Tree
  | [] => []
  | v::vs => ofValue v::ofValues vs

def ofValueFields : List (String × Value) → List (Tree × Tree)
  | [] => []
  | (name,v)::fields => (.string name,ofValue v)::ofValueFields fields

end

def asString? : Tree → Option String
  | .string s => some s
  | _ => none

/-- A whole number of at most `most`. -/
def asNat? (most : Nat) : Tree → Option Nat
  | .int (.ofNat n) => if n ≤ most then some n else none
  | _ => none

def asDouble? : Tree → Option Double
  | .float d => some d
  | .int (.ofNat n) => some (Double.ofNat n)
  | .int (.negSucc n) => some (Double.ofNat (n+1)).neg
  | _ => none

/-- A list, each of whose items is read. -/
def asList? (read : Tree → Option α) : Tree → Option (List α)
  | .list items => items.mapM read
  | _ => none

/-- Null, or what is read. -/
def asOption? (read : Tree → Option α) : Tree → Option (Option α)
  | .null => some none
  | t => (read t).map some

def ofStrings (names : List String) : Tree := .list (names.map .string)

/-- A map with texts as keys. -/
def ofFields (fields : List (String × Tree)) : Tree :=
  .map (fields.map fun f => (.string f.1,f.2))

end Tree

/-- Named parts of a record, in the order in which they stand. -/
abbrev Entries (α : Type) := List (String × α)

namespace Entries

/-- The part that has one of some names, if there is one; two such parts are a fault. -/
def part? (names : List String) (entries : Entries α) : Option (Option α) :=
  match entries.filter fun e => names.contains e.1 with
  | [] => some none
  | [(_,v)] => some (some v)
  | _ => none

def required? (names : List String) (read : α → Option β) (entries : Entries α) : Option β := do
  match ← entries.part? names with
  | some v => read v
  | none => none

/-- What is read from a part, or a standard value where the part is missing. -/
def defaulted? (names : List String) (standard : β) (read : α → Option β) (entries : Entries α) :
    Option β := do
  match ← entries.part? names with
  | some v => read v
  | none => some standard

/-- A part that is none where it is missing. -/
def optional? (names : List String) (read : α → Option (Option β)) (entries : Entries α) :
    Option (Option β) :=
  entries.defaulted? names none read

end Entries

namespace Tree

/-- The name that a key stands for in a record with the given parts: a string is a name, and a
number counts the parts. -/
def keyName? (names : List String) : Tree → Option String
  | .string s => some s
  | .int (.ofNat n) => some (names.getD n (toString n))
  | _ => none

/-- The named parts of entries. -/
def keyed? (names : List String) (entries : List (Tree × Tree)) : Option (Entries Tree) :=
  entries.mapM fun e => (e.1.keyName? names).map fun k => (k,e.2)

/-- The parts of a record: a map, or a list that gives the parts in order. -/
def record? (names : List String) : Tree → Option (Entries Tree)
  | .map entries => keyed? names entries
  | .list items => if items.length ≤ names.length then some (names.zip items) else none
  | _ => none

end Tree

end TaskGraph.Yaml
