import TaskGraph.Engine.Move

/-!
Plays the world of an engine in one definite order: those who have something to do take turns in the
order in which it came up, each going on for as long as it can; then the clock moves to the next
moment that somebody waits for.
-/

namespace TaskGraph.Engine

/-- A snapshot as an observer of a started run sees it, between the turns of the run. -/
structure Sighting where
  root : Nat
  time : Nat
  snapshot : Snapshot
  deriving DecidableEq, Repr

structure Play where
  world : World
  /-- What observers have seen, the last first. -/
  seen : List Sighting := []

namespace World

/-- One step of whoever has its turn. A task carries on the runs that it waits for. -/
def advance (σ : Setting) (w : World) : Agent → Option World
  | .root n => (w.run? ⟨n,[]⟩).bind w.stepRun
  | .task id => do
    let t ← w.task? id
    match w.runs.findSome? fun r => if r.id.owner? = some id then w.stepRun r else none with
    | some w => some w
    | none => w.stepTask σ t
  | .plan n => do
    let p ← w.plans.find? fun p => p.1 == n
    if w.hasPassed p.2 then some ({ w with plans := w.plans.filter fun q => q.1 != n }.cancel n)
    else none

/-- All moments that somebody waits for. -/
def waits (w : World) : List (Timer × Agent) :=
  (w.plans.map fun p => (p.2,.plan p.1))
    ++ w.runs.flatMap (fun r => match r.phase, r.expiry with
      | .waiting, some timer => if r.stopped then [] else [(timer,.root r.id.root)]
      | _, _ => [])
    ++ w.tasks.flatMap fun t => t.phase.timers.map fun timer => (timer,.task t.id)

def isBefore (a b : Timer × Agent) : Bool :=
  a.1.time < b.1.time || a.1.time == b.1.time && a.1.serial ≤ b.1.serial

/-- Moves the clock to the next moment that somebody waits for. -/
def moveClock (w : World) : Option World :=
  match w.waits.mergeSort isBefore with
  | [] => none
  | first::rest =>
    let due := (first::rest).takeWhile fun p => p.1.time == first.1.time
    some (due.foldl (fun w p => w.wake p.2) { w with clock := max w.clock first.1.time })

end World

namespace Play

/-- The observers of a started run look at what it has published. -/
def observe (p : Play) : Agent → Play
  | .root n =>
    match (p.world.run? ⟨n,[]⟩).bind fun r => r.published.head? with
    | some (time,snapshot) =>
      if (p.seen.find? fun s => s.root == n).map Sighting.snapshot = some snapshot then p
      else { p with seen := ⟨n,time,snapshot⟩::p.seen }
    | none => p
  | _ => p

/-- Whether every started run is over. -/
def isOver (p : Play) : Bool := p.world.runs.all fun r => !r.isRoot || r.result?.isSome

/-- The result of a started run, and when it was there. -/
def outcome? (p : Play) (number : Nat) : Option (RunResult × Nat) := do
  match (← p.world.run? ⟨number,[]⟩).phase with
  | .ended result time => some (result,time)
  | _ => none

def step (σ : Setting) (p : Play) : Option Play :=
  match p.world.ready with
  | [] => if p.isOver then none else p.world.moveClock.map fun w => { p with world := w }
  | a::rest =>
    match p.world.advance σ a with
    | some w => some { p with world := w }
    | none => some ({ p with world := { p.world with ready := rest } }.observe a)

/-- Plays on until every started run is over and all have had their turn, or for a number of steps. -/
def run (σ : Setting) : Nat → Play → Play
  | 0, p => p
  | n+1, p =>
    match p.step σ with
    | some p => run σ n p
    | none => p

end Play

end TaskGraph.Engine
