import TaskGraph.Data.NameSet
import TaskGraph.Data.Value
import TaskGraph.Dependency
import TaskGraph.RetryPolicy

/-!
Graphs ready to run: every node has its effective dependency, which includes the branches that have
to select it, and its limits. Graphs inside nodes are graphs again.
-/

namespace TaskGraph

structure Arm where
  condition : Value
  targets : List String
  deriving DecidableEq, Repr

/-- What a node does, with nested graphs of type `Nested`. -/
inductive NodeKind (Nested : Type) where
  | action (name : String) (params : Value)
  | sequence (body : Nested)
  | forEach (items : Value) (binding : String) (template : Nested)
  | loop (condition : Value) (cap : Nat) (body : Nested)
  | branch (arms : List Arm) (fallback : List String)
  | guarded (body : Nested) (recovery always : Option Nested)
  deriving Repr

namespace NodeKind

def name : NodeKind Nested → String
  | .action .. => "action"
  | .sequence .. => "sequence"
  | .forEach .. => "parallel_for_each"
  | .loop .. => "conditional_loop"
  | .branch .. => "branch"
  | .guarded .. => "guarded"

def isAction : NodeKind Nested → Bool
  | .action .. => true
  | _ => false

/-- The nodes that a branch may select, each once, in the order of its arms. -/
def targets : NodeKind Nested → List String
  | .branch arms fallback => (arms.flatMap Arm.targets ++ fallback).eraseDups
  | _ => []

end NodeKind

structure GraphNode (Nested : Type) where
  id : String
  description : Option String
  kind : NodeKind Nested
  dependency : Option Dependency
  tags : NameSet
  retry : RetryPolicy
  timeout : Option Duration
  handler : Option Nested
  deriving Repr

namespace GraphNode

/-- The nodes that the dependency mentions. -/
def references (node : GraphNode Nested) : List String :=
  (node.dependency.map Dependency.references).getD []

/-- Whether the dependency holds; a node without one may start at once. -/
def isReady (status : String → Status) (node : GraphNode Nested) : Bool :=
  (node.dependency.map (Dependency.holds status)).getD true

def resolution (status : String → Status) (node : GraphNode Nested) : Resolution :=
  (node.dependency.map (Dependency.resolve status)).getD .satisfied

end GraphNode

inductive Graph where
  | mk (nodes : List (GraphNode Graph)) (terminal : List String)
  deriving Repr

namespace Graph

instance : Inhabited Graph := ⟨⟨[],[]⟩⟩

def nodes : Graph → List (GraphNode Graph)
  | mk nodes _ => nodes

/-- The nodes whose outcome decides that of a run. -/
def terminal : Graph → List String
  | mk _ terminal => terminal

def ids (g : Graph) : List String := g.nodes.map GraphNode.id

def node? (g : Graph) (id : String) : Option (GraphNode Graph) := g.nodes.find? fun n => n.id == id

mutual

/-- How many nodes there are, nested ones included. -/
def total : Graph → Nat
  | mk nodes _ => totalNodes nodes

def totalNodes : List (GraphNode Graph) → Nat
  | [] => 0
  | ⟨_,_,kind,_,_,_,_,handler⟩::rest => 1+totalKind kind+totalOptional handler+totalNodes rest

def totalKind : NodeKind Graph → Nat
  | .action .. | .branch .. => 0
  | .sequence body | .loop _ _ body => body.total
  | .forEach _ _ template => template.total
  | .guarded body recovery always => body.total+totalOptional recovery+totalOptional always

def totalOptional : Option Graph → Nat
  | none => 0
  | some g => g.total

end

end Graph

end TaskGraph
