import TaskGraph.Data.Value

/-!
Actions: what a node does. Using an action gives the work it is: how long it waits, whether a
cancellation ends the wait, and how it ends.
-/

namespace TaskGraph

namespace Action

inductive Fault where
  | unknown (action : String)
  | badParams (action message : String)
  | failed (message : String)
  | io (message : String)
  | cancelled
  /-- The action broke down without an answer. -/
  | collapse (message : String)
  deriving DecidableEq, Repr

def Fault.message : Fault → String
  | .unknown action => s!"Unknown action: {action}"
  | .badParams action message => s!"Invalid parameters for '{action}': {message}"
  | .failed message => message
  | .io message => s!"IO error: {message}"
  | .cancelled => "Cancelled"
  | .collapse message => message

inductive Outcome where
  | done (v : Value)
  | fault (f : Fault)
  deriving DecidableEq, Repr

/-- A use of an action by a node, at a place in the graph. -/
structure Use where
  action : String
  params : Value
  node : String
  path : String
  attempt : Nat
  /-- How many logged uses this place has seen, this one included. -/
  uses : Nat
  deriving Repr

structure Work where
  /-- Milliseconds until the outcome. -/
  wait : Nat
  /-- Whether a cancellation ends the work early. -/
  heeds : Bool
  outcome : Outcome
  deriving DecidableEq, Repr

namespace Work

/-- Work that ends at once. -/
def ended (outcome : Outcome) : Work := ⟨0,false,outcome⟩

def ofExcept : Except Fault Value → Work
  | .ok v => ended (.done v)
  | .error f => ended (.fault f)

/-- How the work ends, and after which time, when nothing happens while it waits. -/
def alone (w : Work) (cancelled : Bool) : Nat × Outcome :=
  if w.heeds && cancelled then (0,.fault .cancelled) else (w.wait,w.outcome)

end Work

end Action

structure Action where
  name : String
  /-- Whether its uses are logged. -/
  logged : Bool
  /-- Refuses parameters before the action starts. -/
  check : Value → Except Action.Fault Unit
  start : Action.Use → Action.Work

/-- The actions that are at hand; of two with one name the later counts. -/
abbrev Actions := List Action

namespace Actions

def find? (actions : Actions) (name : String) : Option Action :=
  actions.reverse.find? (·.name == name)

def names (actions : Actions) : List String :=
  (actions.map (·.name)).mergeSort (fun a b => decide (a ≤ b))

/-- Whether a use of the action is logged. -/
def logs (actions : Actions) (use : Action.Use) : Bool :=
  match actions.find? use.action with
  | some a => a.logged && (a.check use.params).isOk
  | none => false

/-- The work that a use of an action is. -/
def start (actions : Actions) (use : Action.Use) : Action.Work :=
  match actions.find? use.action with
  | none => .ended (.fault (.unknown use.action))
  | some a =>
    match a.check use.params with
    | .error f => .ended (.fault f)
    | .ok _ => a.start use

end Actions

end TaskGraph
