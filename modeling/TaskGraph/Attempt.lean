import TaskGraph.Data.Json.Reader
import TaskGraph.Graph
import TaskGraph.RunResult

/-!
What the attempts of a node amount to: whether a node is attempted again, what becomes of the outcomes
of nested runs, and how the blocks around a node's attempts change its outcome.
-/

namespace TaskGraph

/-- What a successful attempt brings: a value and, of a branch, the targets it did not select. -/
structure Completed where
  value : Value
  unselected : List String := []
  deriving Repr

abbrev Outcome := Except Failure Completed

namespace Outcome

def isCancelled : Outcome → Bool
  | .error .cancelled => true
  | _ => false

def ofValue : Except Failure Value → Outcome
  | .ok v => .ok ⟨v,[]⟩
  | .error f => .error f

end Outcome

/-- What follows an attempt. -/
inductive Verdict where
  | again (delay : Duration)
  | ended (outcome : Outcome)
  deriving Repr

/-- A failure is tried again as long as the policy allows, but not after a cancellation. -/
def RetryPolicy.verdict (policy : RetryPolicy) (attempt : Nat) (cancelled : Bool) :
    Outcome → Verdict
  | .ok c => .ended (.ok c)
  | .error .cancelled => .ended (.error .cancelled)
  | .error f =>
    if cancelled then .ended (.error .cancelled)
    else if f.isRetryable && policy.shouldRetry attempt then .again (policy.delayAfter attempt)
    else .ended (.error f)

/-- What a nested run hands to the node that started it. -/
def RunResult.handed (r : RunResult) : Except Failure Value :=
  match r.status with
  | .success => .ok r.output
  | .cancelled => .error .cancelled
  | .failed => .error r.failure

namespace Attempt

/-- The items of a fan-out: an array, or the text of one. -/
def items (v : Value) : Except Failure (List Value) :=
  let notArray (v : Value) : Except Failure (List Value) :=
    .error (.invalidInput s!"items must be an array, got {v.typeName}")
  match v with
  | .array items => .ok items
  | .string s =>
    match Json.parse (Text.trim s) with
    | .ok (.array items) => .ok items
    | .ok other => notArray other
    | .error message => .error (.invalidInput s!"items is not a JSON array: {message}")
  | v => notArray v

/-- The failures of a fan-out, with the places and items they belong to. -/
def itemFailures : Nat → List (Value × RunResult) → List (ItemFailure Failure)
  | _, [] => []
  | i, (item,r)::rest =>
    match r.handed with
    | .error f => ⟨i,item,f⟩::itemFailures (i+1) rest
    | .ok _ => itemFailures (i+1) rest

/-- A fan-out gives the values of all its items, or all their failures. -/
def collect (cancelled : Bool) (items : List (Value × RunResult)) : Outcome :=
  if cancelled || items.any (fun p => p.2.status == .cancelled) then .error .cancelled
  else match itemFailures 0 items with
    | [] => .ok ⟨.array (items.filterMap fun p => p.2.handed.toOption),[]⟩
    | failures => .error (.aggregate items.length failures)

/-- What a loop does next. -/
inductive Turn where
  | body
  | ended (outcome : Outcome)
  deriving Repr

/-- A loop goes on while its condition holds and its cap is not reached. -/
def turn (cap iteration : Nat) (outputs : List Value) : Bool → Turn
  | false => .ended (.ok ⟨.ofPairs [("iterations",.int iteration),("outputs",.array outputs)],[]⟩)
  | true => if cap ≤ iteration then .ended (.error (.loopCapExceeded cap)) else .body

/-- The value of a branch that selects some of its targets. -/
def selection (selected targets : List String) : Completed where
  value := .ofPairs [("selected",if selected.isEmpty then .null else .ofStrings selected)]
  unselected := targets.filter fun t => !selected.contains t

/-- What a recovery makes of the failure it was started for. -/
def recovered (body : Failure) : Except Failure Value → Outcome
  | .ok v => .ok ⟨v,[]⟩
  | .error .cancelled => .error .cancelled
  | .error source => .error (.recovery body source)

/-- A block that runs in any case keeps the outcome, unless it is the only one to fail. -/
def afterAlways (outcome : Outcome) : Except Failure Value → Outcome
  | .ok _ => outcome
  | .error .cancelled => .error .cancelled
  | .error source =>
    match outcome with
    | .ok _ => .error (.always source)
    | .error f => .error f

end Attempt

end TaskGraph
