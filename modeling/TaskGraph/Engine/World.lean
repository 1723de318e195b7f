import TaskGraph.Action
import TaskGraph.Admission
import TaskGraph.Attempt
import TaskGraph.Graph.Site
import TaskGraph.Schedule
import TaskGraph.Template

/-!
The world of an engine: the runs that are going on, nested ones included, the tasks that carry out
their nodes, the resources they share, and a clock in milliseconds.
-/

namespace TaskGraph.Engine

/-- Names a run: a started run, and from the inside out the nodes that it lies in, each with the number
of the run among those that the node started. -/
structure RunId where
  root : Nat
  steps : List (String × Nat) := []
  deriving DecidableEq, Repr

/-- Names the task that carries out a node of a run. -/
structure TaskId where
  run : RunId
  node : String
  deriving DecidableEq, Repr

namespace RunId

/-- Whether a run is another run or lies in it. -/
def isWithin (inner outer : RunId) : Bool :=
  inner.root == outer.root && outer.steps.isSuffixOf inner.steps

/-- The task that started a nested run. -/
def owner? (r : RunId) : Option TaskId :=
  match r.steps with
  | [] => none
  | (node,_)::rest => some ⟨⟨r.root,rest⟩,node⟩

end RunId

/-- A moment to wait for, with its place among all that were ever waited for. -/
structure Timer where
  time : Nat
  serial : Nat
  deriving DecidableEq, Repr

/-- Where an attempt stands that waits for nested runs. -/
inductive Stage where
  | sequence (run : RunId)
  | fanOut (items : List (Value × RunId))
  | turn (outputs : List Value) (run : RunId)
  | guarded (run : RunId)
  | recovery (body : Failure) (run : RunId)
  deriving Repr

def Stage.runs : Stage → List RunId
  | .sequence run | .turn _ run | .guarded run | .recovery _ run => [run]
  | .fanOut items => items.map (·.2)

/-- Where a task stands. -/
inductive Phase where
  /-- It waits to be admitted. -/
  | asking
  /-- Its action is at work. -/
  | acting (attempt : Nat) (limit : Option Timer) (outcome : Action.Outcome) (ends : Timer)
  /-- Nested runs of an attempt are going on. -/
  | nesting (attempt : Nat) (limit : Option Timer) (stage : Stage)
  /-- It waits for its next attempt. -/
  | pausing (attempt : Nat) (ends : Timer)
  /-- After the last attempt, the block runs that runs in any case. -/
  | always (attempt : Nat) (outcome : Outcome) (run : RunId)
  /-- After the failure of the node, its handler runs. -/
  | handling (attempt : Nat) (failure : Failure) (run : RunId)
  /-- It has reported and still holds its resources. -/
  | leaving
  /-- It broke down, without resources, and has yet to report. -/
  | collapsed (message : String)
  deriving Repr

def Phase.runs : Phase → List RunId
  | .nesting _ _ stage => stage.runs
  | .always _ _ run | .handling _ _ run => [run]
  | _ => []

/-- The timers that a task in a phase waits for. -/
def Phase.timers : Phase → List Timer
  | .acting _ limit _ ends => ends::limit.toList
  | .nesting _ limit _ => limit.toList
  | .pausing _ ends => [ends]
  | _ => []

structure Task where
  id : TaskId
  node : GraphNode Graph
  scope : Scope
  /-- The path of the run it belongs to. -/
  path : String
  /-- The tags that the nodes around it hold. -/
  held : NameSet
  phase : Phase := .asking
  /-- How many runs it has started. -/
  started : Nat := 0

namespace Task

/-- What a task asks for. Inside a node that holds tags it does not queue. -/
def request (t : Task) : Admission.Request where
  tags := t.node.tags
  slot := t.node.kind.isAction
  bypass := !t.held.isEmpty

def qualified (t : Task) : String := Site.qualify t.path t.node.id

end Task

/-- The states of all nodes of a run, as observers see them. -/
structure Snapshot where
  run : RunId
  nodes : List (String × Status)
  finished : Bool
  deriving DecidableEq, Repr

/-- A run is about to make a pass, or waits for something to happen, or is over. -/
inductive RunPhase where
  | passing
  | waiting
  | ended (result : RunResult) (time : Nat)

structure Run where
  id : RunId
  name : String
  path : String
  held : NameSet := []
  schedule : Schedule
  inbox : List Event := []
  /-- Whether it has noticed a cancellation. -/
  stopped : Bool := false
  phase : RunPhase := .passing
  /-- When it is cancelled for taking too long. -/
  expiry : Option Timer := none
  /-- The snapshots that were published, the last one first. -/
  published : List (Nat × Snapshot) := []

namespace Run

def isRoot (r : Run) : Bool := r.id.steps.isEmpty

def result? (r : Run) : Option RunResult :=
  match r.phase with
  | .ended result _ => some result
  | _ => none

def snapshot (r : Run) (finished : Bool) : Snapshot := ⟨r.id,r.schedule.statuses,finished⟩

/-- Whether a snapshot shows the present states, seen record by record. -/
def isShownBy (r : Run) (finished : Bool) (s : Snapshot) : Bool :=
  s.finished == finished && s.run == r.id && s.nodes.length == r.schedule.records.length
    && (r.schedule.records.zip s.nodes).all fun p =>
      p.1.node == p.2.1 && p.1.status == p.2.2

/-- Publishes the present states if they are news. Only started runs have observers. -/
def publish (r : Run) (time : Nat) (finished : Bool) : Run :=
  if !r.isRoot || r.published.head?.any (fun p => r.isShownBy finished p.2) then r
  else { r with published := (time,r.snapshot finished)::r.published }

end Run

/-- A use of an action by a task, with its time. -/
structure Invocation where
  task : TaskId
  time : Nat
  use : Action.Use
  logged : Bool
  deriving Repr

/-- Those who can have something to do: started runs, tasks, and plans to cancel a run. -/
inductive Agent where
  | root (n : Nat)
  | task (id : TaskId)
  | plan (n : Nat)
  deriving DecidableEq, Repr

/-- What the nodes of all runs work with. -/
structure Setting where
  actions : Actions
  surroundings : Template.Surroundings := {}

structure World where
  clock : Nat := 0
  /-- How many timers there have been. -/
  timers : Nat := 0
  admission : Admission TaskId
  runs : List Run := []
  tasks : List Task := []
  /-- The started runs that are cancelled. -/
  cancelled : List Nat := []
  /-- When started runs are going to be cancelled. -/
  plans : List (Nat × Timer) := []
  /-- All uses of actions, the last one first. -/
  invocations : List Invocation := []
  /-- Those who have something to do, in the order in which it came up. -/
  ready : List Agent := []

namespace World

def now (w : World) : Instant := .ofMillis w.clock

def run? (w : World) (id : RunId) : Option Run := w.runs.find? fun r => r.id == id

def task? (w : World) (id : TaskId) : Option Task := w.tasks.find? fun t => t.id == id

def setRun (w : World) (r : Run) : World :=
  { w with runs := w.runs.map fun old => if old.id = r.id then r else old }

def setTask (w : World) (t : Task) : World :=
  { w with tasks := w.tasks.map fun old => if old.id = t.id then t else old }

def result? (w : World) (id : RunId) : Option RunResult := (w.run? id).bind Run.result?

def isCancelled (w : World) (id : RunId) : Bool := w.cancelled.contains id.root

def wake (w : World) (a : Agent) : World :=
  if w.ready.contains a then w else { w with ready := w.ready ++ [a] }

/-- Wakes whoever carries a run on. -/
def wakeRun (w : World) (id : RunId) : World :=
  w.wake (match id.owner? with
    | none => .root id.root
    | some t => .task t)

/-- Changes who is admitted to what, and wakes those whom it concerns. -/
def setAdmission (w : World) (a : Admission TaskId) : World :=
  let news := a.parties.filter fun p =>
    p.isWoken || p.isGranted && !w.admission.isGranted p.id
  news.foldl (fun w p => w.wake (.task p.id)) { w with admission := a }

/-- Sends an event to a run. -/
def post (w : World) (id : RunId) (e : Event) : World :=
  match w.run? id with
  | some r => (w.setRun { r with inbox := r.inbox ++ [e] }).wakeRun id
  | none => w

def startTimer (w : World) (d : Duration) : World × Timer :=
  ({ w with timers := w.timers+1 },⟨w.clock+d.wait,w.timers⟩)

def hasPassed (w : World) (timer : Timer) : Bool := timer.time ≤ w.clock

/-- Takes away runs and all that lies in them, with what it holds. -/
def discard (w : World) (ids : List RunId) : World :=
  let inside (r : RunId) : Bool := ids.any r.isWithin
  let gone := w.tasks.filter fun t => inside t.id.run
  let w := gone.foldl (fun w t => w.setAdmission (w.admission.leave t.id)) w
  { w with
    runs := w.runs.filter fun r => !inside r.id
    tasks := w.tasks.filter fun t => !inside t.id.run }

/-- Starts a nested run for a task. -/
def nest (w : World) (t : Task) (label : String) (graph : Graph) (scope : Scope) :
    World × Task × RunId :=
  let id : RunId := ⟨t.id.run.root,(t.node.id,t.started)::t.id.run.steps⟩
  let path := Site.qualify t.path label
  let run : Run :=
    { id, name := path, path, held := t.held.union t.node.tags, schedule := .start graph scope }
  ({ w with runs := w.runs ++ [run] },{ t with started := t.started+1 },id)

/-- Cancels a started run, with everything in it. -/
def cancel (w : World) (root : Nat) : World :=
  if w.cancelled.contains root then w
  else
    let agents := w.tasks.filter (fun t => t.id.run.root == root) |>.map fun t => Agent.task t.id
    (Agent.root root::agents).foldl wake { w with cancelled := root::w.cancelled }

end World

end TaskGraph.Engine
