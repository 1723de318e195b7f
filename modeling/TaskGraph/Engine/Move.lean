import TaskGraph.Engine.Run
import TaskGraph.Engine.Task

/-!
The moves that the world of an engine can make. Runs and tasks make their moves in any order, time
goes on at any moment, and runs are cancelled from outside at any moment; `Reachable` holds of the
worlds that come about in this way.
-/

namespace TaskGraph.Engine

inductive Move where
  /-- A run passes over its graph. -/
  | pass (run : RunId)
  /-- A waiting run notices that it is cancelled. -/
  | notice (run : RunId)
  /-- A waiting run is cancelled for taking too long. -/
  | expire (run : RunId)
  /-- A waiting run applies the first event that has come in. -/
  | take (run : RunId)
  /-- A task makes its next step. -/
  | step (task : TaskId)
  /-- A started run is cancelled from outside. -/
  | cancel (root : Nat)
  /-- Time passes. -/
  | tick (millis : Nat)
  deriving DecidableEq, Repr

namespace World

/-- The world after a move, if the move is possible. -/
def move? (σ : Setting) (w : World) : Move → Option World
  | .pass id => do
    let r ← w.run? id
    match r.phase with
    | .passing => some (w.pass r)
    | _ => none
  | .notice id => do
    let r ← w.run? id
    match r.phase with
    | .waiting => if !r.stopped && w.isCancelled r.id then some (w.notice r) else none
    | _ => none
  | .expire id => do
    let r ← w.run? id
    match r.phase with
    | .waiting => if !r.stopped && w.hasExpired r then some (w.expire r) else none
    | _ => none
  | .take id => do
    let r ← w.run? id
    match r.phase, r.inbox with
    | .waiting, e::rest => some (w.take r e rest)
    | _, _ => none
  | .step id => do w.stepTask σ (← w.task? id)
  | .cancel root => some (w.cancel root)
  | .tick millis => some { w with clock := w.clock+millis }

inductive Reachable (σ : Setting) (start : World) : World → Prop where
  | start : Reachable σ start start
  | move {w w' : World} (m : Move) : Reachable σ start w → w.move? σ m = some w' →
    Reachable σ start w'

end World

end TaskGraph.Engine
