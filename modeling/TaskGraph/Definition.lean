import TaskGraph.Data.Value
import TaskGraph.Dependency
import TaskGraph.RetryPolicy
import TaskGraph.Text.Blank

/-!
Task definitions as they are written: a named graph of nodes with their kinds, dependencies, tags
and limits. Nothing is checked here beyond the outer shape.
-/

namespace TaskGraph

/-- The nodes that an arm of a branch selects. -/
inductive Targets where
  | one (id : String)
  | many (ids : List String)
  deriving DecidableEq, Repr

def Targets.ids : Targets → List String
  | .one id => [id]
  | .many ids => ids

structure ArmDefinition where
  condition : Value
  targets : Targets
  deriving DecidableEq, Repr

structure RetrySettings where
  maxAttempts : Nat
  delay : Duration
  multiplier : Double
  maxDelay : Option Duration
  deriving DecidableEq, Repr

/-- Without a greatest delay the standard one counts, or the first delay if that is longer. -/
def RetrySettings.policy (r : RetrySettings) : RetryPolicy :=
  ⟨r.maxAttempts,r.delay,r.multiplier,
    r.maxDelay.getD (RetryPolicy.standardMaxDelay.max r.delay)⟩

/-- What a node does, with nested graphs of type `Nested`. -/
inductive KindDefinition (Nested : Type) where
  | action (name : String) (params : Value)
  | sequence (steps : Nested)
  | forEach (items : Value) (binding : String) (template : Nested)
  | loop (condition : Value) (cap : Option Nat) (body : Nested)
  | branch (arms : List ArmDefinition) (fallback : Option Targets)
  | guarded (body : Nested) (recovery always : Option Nested)
  deriving Repr

def KindDefinition.name : KindDefinition Nested → String
  | .action .. => "action"
  | .sequence .. => "sequence"
  | .forEach .. => "parallel_for_each"
  | .loop .. => "conditional_loop"
  | .branch .. => "branch"
  | .guarded .. => "guarded"

structure NodeDefinition (Nested : Type) where
  description : Option String := none
  kind : KindDefinition Nested
  dependsOn : Option Dependency := none
  resources : List String := []
  retry : Option RetrySettings := none
  timeout : Option Duration := none
  onFailure : Option Nested := none
  deriving Repr

/-- A nested graph: steps that run one after another, or nodes with their own dependencies. -/
inductive Block where
  | steps (steps : List (String × NodeDefinition Block))
  | graph (nodes : List (String × NodeDefinition Block)) (terminal : Option (List String))
  deriving Repr

abbrev NamedNode := String × NodeDefinition Block

/-- A task: its nodes, or in the older form a list of steps, and the bindings it starts with. -/
structure Definition where
  name : String
  description : Option String := none
  bindings : Fields := []
  nodes : List NamedNode := []
  steps : Option (List NamedNode) := none
  terminal : Option (List String) := none
  deriving Repr

namespace Definition

def usesSteps (d : Definition) : Bool := d.nodes.isEmpty && d.steps.isSome

/-- Why a text is no definition. -/
inductive Fault where
  | malformed
  | missingField (name : String)
  | nodesAndSteps
  deriving DecidableEq, Repr

def Fault.text : Fault → String
  | .malformed => "Failed to parse YAML"
  | .missingField name => s!"Missing required field: {name}"
  | .nodesAndSteps => "Invalid task format: 'nodes' and 'steps' cannot both be set"

/-- The outer shape: a name, and either nodes or steps. -/
def check (d : Definition) : Except Fault Definition :=
  if Text.isBlankText d.name then .error (.missingField "name")
  else match d.nodes.isEmpty, d.steps with
    | false, some _ => .error .nodesAndSteps
    | true, none => .error (.missingField "nodes")
    | _, _ => .ok d

end Definition

end TaskGraph
