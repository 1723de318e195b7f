import TaskGraph.Engine.World

/-!
What a task does when it is its turn: it asks to be admitted, attempts its node, waits between
attempts, runs the blocks around them, reports how the node ended, and gives back what it holds.
Each step is one look at what the task waits for; a cancellation is seen before anything else.
-/

namespace TaskGraph.Engine

namespace Task

/-- Why an attempt ends before it has started anything. -/
inductive Stop where
  | failed (f : Failure)
  /-- The task breaks down. -/
  | collapsed (message : String)

/-- What a template in parameters or items that cannot be rendered does to an attempt. -/
def Stop.ofTemplate (f : Template.Fault) : Stop :=
  if f.cause.isBreakdown then .collapsed f.cause.message
  else .failed (.render (Template.faultText f))

/-- What a condition that cannot be decided does to an attempt. -/
def Stop.ofCondition : Template.ConditionFault → Stop
  | .render f => .ofTemplate f
  | f => .failed (.render f.text)

/-- The targets of the first arm whose condition holds, else the fallback. -/
def select (σ : Setting) (scope : Value) (fallback : List String) :
    List Arm → Except Stop (List String)
  | [] => .ok fallback
  | arm::rest =>
    match Template.evaluate σ.surroundings scope arm.condition with
    | .error f => .error (.ofCondition f)
    | .ok true => .ok arm.targets
    | .ok false => select σ scope fallback rest

/-- What a loop sees in its next turn: how many turns there were, and the last output. -/
def turnScope (t : Task) (outputs : List Value) : Scope :=
  (t.scope.bind "iteration" (.int outputs.length)).bind "last" (outputs.getLast?.getD .null)

/-- What an item of a fan-out sees. -/
def itemScope (t : Task) (binding : String) (index : Nat) (item : Value) : Scope :=
  (t.scope.bind binding item).bind "index" (.int index)

/-- What a block sees that runs because of a failure. -/
def failureScope (t : Task) (f : Failure) : Scope := t.scope.bind "error" (f.binding t.node.id)

end Task

namespace World

/-- The end of a node: its run hears of it, and then the task leaves. -/
def report (w : World) (t : Task) (ending : Ending) (attempts : Nat) : World :=
  (w.post t.id.run (.finished t.node.id ⟨ending,attempts,w.now⟩)).setTask { t with phase := .leaving }

/-- The outcome of a node is settled. After a failure its handler runs, for which the slot is given
back. -/
def conclude (w : World) (t : Task) (attempt : Nat) : Outcome → World
  | .ok c => w.report t (.success c.value c.unselected) attempt
  | .error .cancelled => w.report t .cancelled attempt
  | .error f =>
    match t.node.handler with
    | none => w.report t (.failed f) attempt
    | some handler =>
      let w := w.setAdmission (w.admission.releaseSlot t.id)
      let (w,t,run) := w.nest t (t.node.id ++ "/on_failure") handler (t.failureScope f)
      w.setTask { t with phase := .handling attempt f run }

/-- The attempts are over. A guarded node goes on with the block that runs in any case, unless it was
cancelled. -/
def finishAttempts (w : World) (t : Task) (attempt : Nat) (outcome : Outcome) : World :=
  match t.node.kind with
  | .guarded _ _ (some block) =>
    if outcome.isCancelled || w.isCancelled t.id.run then w.conclude t attempt (.error .cancelled)
    else
      let scope := match outcome with
        | .ok _ => t.scope
        | .error f => t.failureScope f
      let (w,t,run) := w.nest t (t.node.id ++ "/always") block scope
      w.setTask { t with phase := .always attempt outcome run }
  | _ => w.conclude t attempt outcome

def afterAttempt (w : World) (t : Task) (attempt : Nat) (outcome : Outcome) : World :=
  match t.node.retry.verdict attempt (w.isCancelled t.id.run) outcome with
  | .ended outcome => w.finishAttempts t attempt outcome
  | .again delay =>
    let (w,ends) := w.startTimer delay
    w.setTask { t with phase := .pausing attempt ends }

/-- The task breaks down: it loses its resources before it reports. -/
def collapse (w : World) (t : Task) (message : String) : World :=
  (w.setAdmission (w.admission.leave t.id)).setTask { t with phase := .collapsed message }

/-- An attempt ends before it has started anything. -/
def stop (w : World) (t : Task) (attempt : Nat) : Task.Stop → World
  | .failed f => w.afterAttempt t attempt (.error f)
  | .collapsed message => w.collapse t message

/-- The action has ended. -/
def afterAction (w : World) (t : Task) (attempt : Nat) (action : String) : Action.Outcome → World
  | .done v => w.afterAttempt t attempt (.ok ⟨v,[]⟩)
  | .fault .cancelled => w.afterAttempt t attempt (.error .cancelled)
  | .fault (.collapse message) => w.collapse t message
  | .fault f => w.afterAttempt t attempt (.error (.execution action f.message))

def startLimit (w : World) (t : Task) : World × Option Timer :=
  match t.node.timeout with
  | none => (w,none)
  | some d => let (w,timer) := w.startTimer d; (w,some timer)

/-- How often actions were logged at a path. -/
def uses (w : World) (path : String) : Nat :=
  w.invocations.countP fun i => i.logged && i.use.path == path

/-- Uses an action. -/
def invoke (σ : Setting) (w : World) (t : Task) (attempt : Nat) (action : String) (params : Value) :
    World :=
  let use : Action.Use := {
    action, params, node := t.node.id, path := t.qualified, attempt, uses := w.uses t.qualified+1 }
  let w := { w with invocations := ⟨t.id,w.clock,use,σ.actions.logs use⟩::w.invocations }
  let work := σ.actions.start use
  if work.wait = 0 then w.afterAction t attempt action work.outcome
  else
    let (w,limit) := w.startLimit t
    let (w,ends) := w.startTimer (.ofMillis work.wait)
    w.setTask { t with phase := .acting attempt limit work.outcome ends }

/-- Nested runs of an attempt have been started. -/
def nesting (w : World) (t : Task) (attempt : Nat) (limit : Option Timer) (stage : Stage) : World :=
  w.setTask { t with phase := .nesting attempt limit stage }

/-- The head of a loop: it stops, or its body runs. -/
def loopTurn (σ : Setting) (w : World) (t : Task) (attempt : Nat) (limit : Option Timer)
    (condition : Value) (cap : Nat) (body : Graph) (outputs : List Value) : World :=
  if w.isCancelled t.id.run then w.afterAttempt t attempt (.error .cancelled)
  else
    let scope := t.turnScope outputs
    match Template.evaluate σ.surroundings scope.value condition with
    | .error f => w.stop t attempt (.ofCondition f)
    | .ok holds =>
      match Attempt.turn cap outputs.length outputs holds with
      | .ended outcome => w.afterAttempt t attempt outcome
      | .body =>
        let (w,t,run) := w.nest t s!"{t.node.id}[{outputs.length}]" body scope
        w.nesting t attempt limit (.turn outputs run)

/-- Starts a run for every item, in order. -/
def nestItems (w : World) (t : Task) (binding : String) (template : Graph) :
    Nat → List Value → World × Task × List (Value × RunId)
  | _, [] => (w,t,[])
  | index, item::rest =>
    let (w,t,run) := w.nest t s!"{t.node.id}[{index}]" template (t.itemScope binding index item)
    let (w,t,runs) := w.nestItems t binding template (index+1) rest
    (w,t,(item,run)::runs)

def beginAttempt (σ : Setting) (w : World) (t : Task) (attempt : Nat) : World :=
  match t.node.kind with
  | .action name params =>
    match Template.renderValue σ.surroundings t.scope.value params with
    | .error f => w.stop t attempt (.ofTemplate f)
    | .ok params =>
      if w.isCancelled t.id.run then w.afterAttempt t attempt (.error .cancelled)
      else w.invoke σ t attempt name params
  | .sequence body =>
    let (w,limit) := w.startLimit t
    let (w,t,run) := w.nest t t.node.id body t.scope
    w.nesting t attempt limit (.sequence run)
  | .forEach items binding template =>
    let items : Except Task.Stop (List Value) := do
      let v ← (Template.renderValue σ.surroundings t.scope.value items).mapError Task.Stop.ofTemplate
      (Attempt.items v).mapError Task.Stop.failed
    match items with
    | .error s => w.stop t attempt s
    | .ok [] => w.afterAttempt t attempt (Attempt.collect (w.isCancelled t.id.run) [])
    | .ok items =>
      let (w,limit) := w.startLimit t
      let (w,t,runs) := w.nestItems t binding template 0 items
      w.nesting t attempt limit (.fanOut runs)
  | .loop condition cap body =>
    let (w,limit) := w.startLimit t
    w.loopTurn σ t attempt limit condition cap body []
  | .branch arms fallback =>
    match Task.select σ t.scope.value fallback arms with
    | .error s => w.stop t attempt s
    | .ok selected =>
      w.afterAttempt t attempt (.ok (Attempt.selection selected t.node.kind.targets))
  | .guarded body _ _ =>
    let (w,limit) := w.startLimit t
    let (w,t,run) := w.nest t (t.node.id ++ "/body") body t.scope
    w.nesting t attempt limit (.guarded run)

/-- The results of runs, if all of them are over. -/
def results? (w : World) : List (Value × RunId) → Option (List (Value × RunResult))
  | [] => some []
  | (item,run)::rest => do
    let result ← w.result? run
    some ((item,result)::(← w.results? rest))

/-- The body of a guarded node is over; its recovery runs if it failed. -/
def afterBody (w : World) (t : Task) (attempt : Nat) (limit : Option Timer) :
    Except Failure Value → World
  | .ok v => w.afterAttempt t attempt (.ok ⟨v,[]⟩)
  | .error .cancelled => w.afterAttempt t attempt (.error .cancelled)
  | .error f =>
    match t.node.kind with
    | .guarded _ (some recovery) _ =>
      let (w,t,run) := w.nest t (t.node.id ++ "/recovery") recovery (t.failureScope f)
      w.nesting t attempt limit (.recovery f run)
    | _ => w.afterAttempt t attempt (.error f)

/-- The nested runs of an attempt are over: the attempt ends, or goes on to its next stage. -/
def afterStage (σ : Setting) (w : World) (t : Task) (attempt : Nat) (limit : Option Timer)
    (stage : Stage) : Option World :=
  match stage with
  | .sequence run => do
    let r ← w.result? run
    some ((w.discard [run]).afterAttempt t attempt (.ofValue r.handed))
  | .fanOut items => do
    let results ← w.results? items
    some ((w.discard stage.runs).afterAttempt t attempt
      (Attempt.collect (w.isCancelled t.id.run) results))
  | .turn outputs run => do
    let r ← w.result? run
    let w := w.discard [run]
    match r.handed, t.node.kind with
    | .ok v, .loop condition cap body =>
      some (w.loopTurn σ t attempt limit condition cap body (outputs ++ [v]))
    | handed, _ => some (w.afterAttempt t attempt (.ofValue handed))
  | .guarded run => do
    let r ← w.result? run
    some ((w.discard [run]).afterBody t attempt limit r.handed)
  | .recovery body run => do
    let r ← w.result? run
    some ((w.discard [run]).afterAttempt t attempt (Attempt.recovered body r.handed))

def limitPassed (w : World) (limit : Option Timer) : Bool := limit.any w.hasPassed

/-- The attempt took too long; what it has started is dropped. -/
def timeOut (w : World) (t : Task) (attempt : Nat) : World :=
  (w.discard t.phase.runs).afterAttempt t attempt (.error (.timeout (t.node.timeout.getD .zero)))

/-- A task that waits to be admitted asks, and looks when it is woken. A look in vain concerns nobody
else. -/
def seekAdmission (σ : Setting) (w : World) (t : Task) : Option World :=
  let a := (w.admission.ask t.id t.request).look t.id
  if a.isGranted t.id then
    some (((w.setAdmission a).post t.id.run (.started t.node.id w.now)).beginAttempt σ t 1)
  else if (w.admission.party? t.id).isNone || w.admission.isWoken t.id then
    some (if a.waitsForTags t.id then { w with admission := a } else w.setAdmission a)
  else none

/-- The next step of a task, if it has anything to do. -/
def stepTask (σ : Setting) (w : World) (t : Task) : Option World :=
  let cancelled := w.isCancelled t.id.run
  match t.phase with
  | .asking =>
    if cancelled then some ((w.setAdmission (w.admission.leave t.id)).report t .cancelled 0)
    else w.seekAdmission σ t
  | .acting attempt limit outcome ends =>
    if cancelled then some (w.afterAttempt t attempt (.error .cancelled))
    else if w.hasPassed ends then
      some (w.afterAction t attempt (match t.node.kind with
        | .action name _ => name
        | _ => "") outcome)
    else if w.limitPassed limit then some (w.timeOut t attempt)
    else none
  | .nesting attempt limit stage =>
    match w.afterStage σ t attempt limit stage with
    | some w => some w
    | none => if w.limitPassed limit then some (w.timeOut t attempt) else none
  | .pausing attempt ends =>
    if cancelled then some (w.finishAttempts t attempt (.error .cancelled))
    else if w.hasPassed ends then some (w.beginAttempt σ t (attempt+1))
    else none
  | .always attempt outcome run => do
    let r ← w.result? run
    some ((w.discard [run]).conclude t attempt (Attempt.afterAlways outcome r.handed))
  | .handling attempt f run => do
    let _ ← w.result? run
    some ((w.discard [run]).report t (.failed f) attempt)
  | .leaving =>
    let w := w.setAdmission (w.admission.leave t.id)
    some { w with tasks := w.tasks.filter fun other => other.id != t.id }
  | .collapsed message =>
    let w := w.post t.id.run (.finished t.node.id ⟨.failed (.internal message),1,w.now⟩)
    some { w with tasks := w.tasks.filter fun other => other.id != t.id }

end World

end TaskGraph.Engine
