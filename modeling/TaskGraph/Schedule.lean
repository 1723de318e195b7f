import TaskGraph.Graph
import TaskGraph.RunResult
import TaskGraph.Scope

/-!
The schedule of one run of a graph: the records of its nodes, the nodes that are under way, and what
templates see. A pass skips the nodes that can no longer start and dispatches those that can; events
tell how the dispatched nodes go on.
-/

namespace TaskGraph

/-- How a node ended. A branch names the targets it did not select. -/
inductive Ending where
  | success (value : Value) (unselected : List String)
  | failed (failure : Failure)
  | cancelled
  deriving Repr

structure Report where
  ending : Ending
  attempts : Nat
  time : Instant
  deriving Repr

inductive Event where
  | started (node : String) (time : Instant)
  | finished (node : String) (report : Report)
  deriving Repr

structure Schedule where
  graph : Graph
  records : List Record
  /-- The nodes that are dispatched and have not finished. -/
  inFlight : List String := []
  scope : Scope

namespace Schedule

def start (graph : Graph) (scope : Scope) : Schedule where
  graph
  records := graph.nodes.map fun n => { node := n.id, kind := n.kind.name }
  scope

def record? (s : Schedule) (id : String) : Option Record := RunResult.find? s.records id

def status (s : Schedule) (id : String) : Status :=
  ((s.record? id).map Record.status).getD .pending

/-- Replaces the record of a node. -/
def set (s : Schedule) (r : Record) : Schedule :=
  { s with records := s.records.map fun old => if old.node = r.node then r else old }

/-- Changes the record of a node, if there is one. -/
def change (s : Schedule) (id : String) (f : Record → Record × Bool) : Schedule :=
  match s.record? id with
  | some r => s.set (f r).1
  | none => s

/-- A node that waits and is not dispatched. -/
def isOpen (s : Schedule) (id : String) : Bool := s.status id == .pending && !s.inFlight.contains id

def openCount (s : Schedule) : Nat := s.graph.ids.countP s.isOpen

/-- Whether a node keeps those that depend on it from running because of a failure. -/
def blocks (s : Schedule) (id : String) : Bool :=
  match s.record? id with
  | some r => r.status == .failed || r.status == .cancelled || r.isBlocked
  | none => false

/-- Why a node whose dependency cannot hold any more is skipped. -/
def skipReason (s : Schedule) (d : Dependency) : SkipReason :=
  let names := NameSet.ofList d.references
  match names.filter s.blocks with
  | [] => .deadPath names
  | blockers => .blocked blockers

/-- An open node is dead once its dependency cannot hold any more. -/
def deadReason? (s : Schedule) (n : GraphNode Graph) : Option SkipReason :=
  if s.isOpen n.id && n.resolution s.status == .unsatisfied then n.dependency.map s.skipReason
  else none

def skipIfDead (now : Instant) (s : Schedule) (n : GraphNode Graph) : Schedule :=
  match s.deadReason? n with
  | some reason => s.change n.id (·.skip now reason)
  | none => s

/-- Looks at every node once, in the order of the graph. -/
def scan (now : Instant) (s : Schedule) : Schedule := s.graph.nodes.foldl (skipIfDead now) s

/-- Skips dead nodes until there are none. -/
def resolveDead (now : Instant) (s : Schedule) : Schedule :=
  let t := s.scan now
  if t.openCount < s.openCount then resolveDead now t else t
termination_by s.openCount

/-- The nodes that can start. -/
def ready (s : Schedule) : List (GraphNode Graph) :=
  s.graph.nodes.filter fun n => s.isOpen n.id && n.isReady s.status

def dispatch (s : Schedule) : Schedule :=
  { s with inFlight := s.inFlight ++ s.ready.map GraphNode.id }

/-- Skips what is dead and dispatches what can start; the second part are the nodes dispatched. -/
def pass (now : Instant) (s : Schedule) : Schedule × List (GraphNode Graph) :=
  let s := s.resolveDead now
  (s.dispatch,s.ready)

/-- What a report says of a record; the second part tells whether the record has changed. -/
def settle (now : Instant) (report : Report) (r : Record) : Record × Bool :=
  let (ended,changed) := match report.ending with
    | .success v _ => r.succeed now v report.attempts
    | .failed f => r.fail now f report.attempts
    | .cancelled => r.cancel now report.attempts
  if changed then (ended.stampFinished report.time,true) else (r,false)

def applyReport (now : Instant) (s : Schedule) (r : Record) (report : Report) : Schedule :=
  let (ended,changed) := settle now report r
  let s := s.set ended
  match report.ending with
  | .success v unselected =>
    let s := if changed then { s with scope := s.scope.recordResult r.node v } else s
    unselected.foldl (fun s t => s.change t (·.skip now (.branchNotTaken r.node))) s
  | _ => s

def apply (now : Instant) (s : Schedule) : Event → Schedule
  | .started id time => s.change id (·.start time)
  | .finished id report =>
    let s := { s with inFlight := s.inFlight.filter (· != id) }
    match s.record? id with
    | some r => applyReport now s r report
    | none => s

/-- Cancels what has not ended. -/
def sweep (now : Instant) (s : Schedule) : Schedule :=
  { s with records := s.records.map fun r => (r.cancel now 0).1 }

/-- The states of all nodes, in the order of the graph. -/
def statuses (s : Schedule) : List (String × Status) := s.records.map fun r => (r.node,r.status)

def result (s : Schedule) (name : String) (cancelled : Bool) : RunResult :=
  .assemble name s.records s.graph.terminal cancelled

end Schedule

end TaskGraph
