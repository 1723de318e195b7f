import TaskGraph.Time.Duration
import TaskGraph.Yaml.Tree

/-!
Reading the outer parts of a document, where it is known what stands at a place: a text is then the
text of any scalar, quoted or not, and an empty place is an empty collection.
-/

namespace TaskGraph.Yaml.Node

/-- A plain empty scalar, or an empty document. -/
def isEmptyPlace : Node → Bool
  | .scalar s => s.isPlain && s.text.isEmpty
  | .nothing => true
  | _ => false

/-- Whether a node stands for nothing, where there may be something. -/
def isNothing? : Node → Option Bool
  | .scalar s => s.isNothing?
  | .nothing => some true
  | _ => some false

def asOption? (read : Node → Option α) (node : Node) : Option (Option α) := do
  if ← node.isNothing? then some none else (read node).map some

/-- What a scalar stands for where some kind of scalar is expected. -/
def atomOf? (kind : String) : Node → Option Atom
  | .scalar s => if s.reads kind then some (Atom.ofPlain s.text) else none
  | _ => none

/-- A whole number of at most `most`, written without a minus sign. -/
def asNat? (most : Nat) (node : Node) : Option Nat := do
  if (← node.asText?).startsWith "-" then none
  match ← node.atomOf? "int" with
  | .int (.ofNat n) => if n ≤ most then some n else none
  | _ => none

def asBool? (node : Node) : Option Bool := do
  match ← node.atomOf? "bool" with
  | .bool b => some b
  | _ => none

def asDouble? : Node → Option Double
  | .scalar s => if s.reads "float" then Atom.realNumber s.text.toList else none
  | _ => none

def asDuration? (node : Node) : Option Duration := do Duration.parse? (← node.asText?)

def items? (node : Node) : Option (List Node) :=
  match node with
  | .sequence _ items => some items
  | _ => if node.isEmptyPlace then some [] else none

def asList? (read : Node → Option α) (node : Node) : Option (List α) := do
  (← node.items?).mapM read

/-- The parts of a mapping whose keys are any scalars. -/
def entries? (node : Node) : Option (Entries Node) :=
  match node with
  | .mapping _ entries => entries.mapM fun e => e.1.asText?.map fun k => (k,e.2)
  | _ => if node.isEmptyPlace then some [] else none

mutual

/-- The value of a node; its keys are any scalars. -/
def value? : Node → Option Value
  | .scalar s => s.tree?.bind Tree.value?
  | .sequence tagged items => if tagged then none else (valueItems? items).map .array
  | .mapping tagged entries => if tagged then none else (valueFields? entries).map Value.ofPairs
  | .nothing => some .null

def valueItems? : List Node → Option (List Value)
  | [] => some []
  | x::xs =>
    match value? x, valueItems? xs with
    | some v, some vs => some (v::vs)
    | _, _ => none

def valueFields? : List (Node × Node) → Option (List (String × Value))
  | [] => some []
  | (k,x)::rest =>
    match k.asText?, value? x, valueFields? rest with
    | some name, some v, some fields => some ((name,v)::fields)
    | _, _, _ => none

end

end TaskGraph.Yaml.Node
