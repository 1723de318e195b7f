import TaskGraph.Engine.World

/-!
What a run does when it is its turn: passes over its graph, each of which dispatches nodes and
publishes the states, and between them one event or a cancellation at a time. A run is over when
nothing is under way after a pass.
-/

namespace TaskGraph.Engine.World

/-- The tasks of dispatched nodes, which see what the run knows by now. -/
def spawn (w : World) (r : Run) (nodes : List (GraphNode Graph)) : World :=
  let tasks := nodes.map fun n => {
    id := ⟨r.id,n.id⟩, node := n, scope := r.schedule.scope, path := r.path, held := r.held : Task }
  tasks.foldl (fun w t => w.wake (.task t.id)) { w with tasks := w.tasks ++ tasks }

/-- Ends a run: what has not ended is cancelled. -/
def close (w : World) (r : Run) : World :=
  let r := ({ r with schedule := r.schedule.sweep w.now }).publish w.clock true
  let result := r.schedule.result r.name (r.stopped || w.isCancelled r.id)
  w.setRun { r with phase := .ended result w.clock }

/-- A pass; a run that is cancelled dispatches nothing any more. -/
def pass (w : World) (r : Run) : World :=
  let (schedule,nodes) := if r.stopped || w.isCancelled r.id then (r.schedule,[])
    else r.schedule.pass w.now
  let r := ({ r with schedule, phase := .waiting }).publish w.clock false
  if schedule.inFlight.isEmpty then w.close r else (w.setRun r).spawn r nodes

/-- Takes note of the cancellation. -/
def notice (w : World) (r : Run) : World := w.setRun { r with stopped := true, phase := .passing }

/-- Whether the run takes too long. -/
def hasExpired (w : World) (r : Run) : Bool := r.expiry.any w.hasPassed

/-- Cancels a run that takes too long. -/
def expire (w : World) (r : Run) : World := (w.cancel r.id.root).notice r

/-- Applies an event that has come in. -/
def take (w : World) (r : Run) (e : Event) (rest : List Event) : World :=
  w.setRun { r with schedule := r.schedule.apply w.now e, inbox := rest, phase := .passing }

/-- The next step of a run, if it has anything to do. -/
def stepRun (w : World) (r : Run) : Option World :=
  match r.phase with
  | .passing => some (w.pass r)
  | .waiting =>
    if !r.stopped && w.isCancelled r.id then some (w.notice r)
    else if !r.stopped && w.hasExpired r then some (w.expire r)
    else match r.inbox with
      | e::rest => some (w.take r e rest)
      | [] => none
  | .ended _ _ => none

end TaskGraph.Engine.World
