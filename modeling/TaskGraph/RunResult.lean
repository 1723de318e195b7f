import TaskGraph.Record

/-!
The outcome of a run: the records of its nodes, and what its terminal nodes make of them.
-/

namespace TaskGraph

inductive RunStatus where
  | success
  | failed
  | cancelled
  deriving DecidableEq, Inhabited, Repr

def RunStatus.text : RunStatus → String
  | .success => "success"
  | .failed => "failed"
  | .cancelled => "cancelled"

/-- How many nodes ended in which way. -/
structure Summary where
  total : Nat
  succeeded : Nat
  failed : Nat
  skipped : Nat
  blocked : Nat
  cancelled : Nat
  deriving DecidableEq, Inhabited, Repr

namespace Summary

def ofRecords (records : List Record) : Summary where
  total := records.length
  succeeded := records.countP fun r => r.status == .success
  failed := records.countP fun r => r.status == .failed
  skipped := records.countP fun r => r.status == .skipped && !r.isBlocked
  blocked := records.countP fun r => r.status == .skipped && r.isBlocked
  cancelled := records.countP fun r => r.status == .cancelled

/-- The share of nodes that succeeded, in percent. -/
def successRate (s : Summary) : Double :=
  if s.total = 0 then .zero
  else ((Double.ofNat s.succeeded).div (.ofNat s.total)).mul (.ofNat 100)

end Summary

structure RunResult where
  name : String
  status : RunStatus
  records : List Record
  terminal : List String
  deriving Inhabited, Repr

namespace RunResult

def find? (records : List Record) (id : String) : Option Record :=
  records.find? fun r => r.node == id

def isAcceptable (records : List Record) (id : String) : Bool :=
  ((find? records id).map Record.isAcceptable).getD false

/-- Cancellation counts before what the nodes say; a run succeeds if all its terminal nodes are
acceptable. -/
def assemble (name : String) (records : List Record) (terminal : List String) (cancelled : Bool) :
    RunResult where
  name
  records
  terminal
  status :=
    if cancelled then .cancelled
    else if terminal.all (isAcceptable records) then .success
    else .failed

def isSuccess (r : RunResult) : Bool := r.status == .success

def record? (r : RunResult) (id : String) : Option Record := find? r.records id

def statusOf? (r : RunResult) (id : String) : Option Status := (r.record? id).map Record.status

def summary (r : RunResult) : Summary := .ofRecords r.records

/-- The value of a run: the result of its only terminal node, or the results of all of them by
name. -/
def output (r : RunResult) : Value :=
  let result (id : String) : Option Value := (r.record? id).bind Record.result
  match r.terminal with
  | [only] => (result only).getD .null
  | ids => Value.ofPairs (ids.filterMap fun id => (result id).map fun v => (id,v))

/-- The nodes that failed, with their failures, in their order. -/
def failures (r : RunResult) : List (String × Failure) :=
  r.records.filterMap fun rec =>
    if rec.status = .failed then rec.failure.map fun f => (rec.node,f) else none

def firstFailure? (r : RunResult) : Option (String × Failure) := r.failures.head?

/-- The failure that a failed run means for the node around it. -/
def failure (r : RunResult) : Failure :=
  match r.firstFailure? with
  | some (step,f) => .step step f
  | none => .incomplete (r.terminal.filter fun id => !isAcceptable r.records id)

end RunResult

end TaskGraph
