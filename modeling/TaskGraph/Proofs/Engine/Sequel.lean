import TaskGraph.Proofs.Engine.Knowing

/-!
What a task does in one step, seen from its node: the attempt that begins or ends, the blocks that are
started, and where the task goes on. `World.sequel?` says it without the world that comes of it, and
`stepTask_sequel` that it is what happens.
-/

namespace TaskGraph

theorem Failure.eq_cancelled_or (f : Failure) : f = .cancelled ∨ f.isRetryable = true := by
  cases f with
  | cancelled => exact .inl rfl
  | _ => exact .inr rfl

/-- An outcome is a success, a cancellation or a failure proper. -/
theorem Outcome.cases (outcome : Outcome) : (∃ c, outcome = .ok c) ∨ outcome = .error .cancelled ∨
    ∃ f : Failure, f.isRetryable = true ∧ outcome = .error f := by
  cases outcome with
  | ok c => exact .inl ⟨c,rfl⟩
  | error f =>
    obtain rfl | hf := f.eq_cancelled_or
    · exact .inr (.inl rfl)
    · exact .inr (.inr ⟨f,hf,rfl⟩)

/-- The block of a guarded node that runs in any case. -/
def NodeKind.always? : NodeKind Graph → Option Graph
  | .guarded _ _ always => always
  | _ => none

theorem NodeKind.always?_eq_some {kind : NodeKind Graph} {block : Graph} :
    kind.always? = some block ↔ ∃ body recovery, kind = .guarded body recovery (some block) := by
  cases kind <;> simp [always?]

/-- The block of a guarded node that runs when its body has failed. -/
def NodeKind.recovery? : NodeKind Graph → Option Graph
  | .guarded _ recovery _ => recovery
  | _ => none

theorem NodeKind.recovery?_eq_some {kind : NodeKind Graph} {block : Graph} :
    kind.recovery? = some block ↔ ∃ body always, kind = .guarded body (some block) always := by
  cases kind <;> simp [recovery?]

namespace Engine

/-- The part of a node that a nested run carries out. -/
inductive Part where
  | body
  | item (index : Nat) (item : Value)
  | turn (outputs : List Value)
  | recovery (failure : Failure)
  | always (outcome : Outcome)
  | handler (failure : Failure)
  deriving Repr

/-- What a nested run for a part of a node starts with, if there is such a part. -/
def Part.start? (n : GraphNode Graph) (s : Scope) (part : Part) : Option Schedule :=
  let afterFailure (f : Failure) : Scope := s.bind "error" (f.binding n.id)
  match part,n.kind with
  | .body,.sequence block | .body,.guarded block _ _ => some (.start block s)
  | .item index v,.forEach _ binding block =>
    some (.start block ((s.bind binding v).bind "index" (.int index)))
  | .turn outputs,.loop _ _ block =>
    some (.start block ((s.bind "iteration" (.int outputs.length)).bind "last"
      (outputs.getLast?.getD .null)))
  | .recovery f,.guarded _ (some block) _ => some (.start block (afterFailure f))
  | .always (.ok _),.guarded _ _ (some block) => some (.start block s)
  | .always (.error f),.guarded _ _ (some block) => some (.start block (afterFailure f))
  | .handler f,_ => n.handler.map fun block => .start block (afterFailure f)
  | _,_ => none

section Starts

variable {n : GraphNode Graph} {body block : Graph} {recovery always : Option Graph}

theorem Part.start?_sequence (hk : n.kind = .sequence block) (s : Scope) :
    Part.body.start? n s = some (.start block s) := by
  cases n
  cases hk
  rfl

theorem Part.start?_guarded (hk : n.kind = .guarded block recovery always) (s : Scope) :
    Part.body.start? n s = some (.start block s) := by
  cases n
  cases hk
  rfl

theorem Part.start?_item {list : Value} {binding : String}
    (hk : n.kind = .forEach list binding block) (s : Scope) (index : Nat) (v : Value) :
    (Part.item index v).start? n s =
      some (.start block ((s.bind binding v).bind "index" (.int index))) := by
  cases n
  cases hk
  rfl

theorem Part.start?_turn {condition : Value} {cap : Nat} (hk : n.kind = .loop condition cap block)
    (s : Scope) (outputs : List Value) : (Part.turn outputs).start? n s =
      some (.start block ((s.bind "iteration" (.int outputs.length)).bind "last"
        (outputs.getLast?.getD .null))) := by
  cases n
  cases hk
  rfl

theorem Part.start?_recovery (hk : n.kind = .guarded body (some block) always) (s : Scope)
    (f : Failure) : (Part.recovery f).start? n s =
      some (.start block (s.bind "error" (f.binding n.id))) := by
  cases n
  cases hk
  rfl

theorem Part.start?_always_ok (hk : n.kind = .guarded body recovery (some block)) (s : Scope)
    (c : Completed) : (Part.always (.ok c)).start? n s = some (.start block s) := by
  cases n
  cases hk
  rfl

theorem Part.start?_always_error (hk : n.kind = .guarded body recovery (some block)) (s : Scope)
    (f : Failure) : (Part.always (.error f)).start? n s =
      some (.start block (s.bind "error" (f.binding n.id))) := by
  cases n
  cases hk
  rfl

theorem Part.start?_handler (hh : n.handler = some block) (s : Scope) (f : Failure) :
    (Part.handler f).start? n s = some (.start block (s.bind "error" (f.binding n.id))) := by
  cases n
  cases hh
  rfl

end Starts

/-- The parts of its node that a task waits for. -/
def Phase.parts : Phase → List (Part × RunId)
  | .nesting _ _ stage =>
    match stage with
    | .sequence run | .guarded run => [(.body,run)]
    | .fanOut items => items.mapIdx fun i x => (.item i x.1,x.2)
    | .turn outputs run => [(.turn outputs,run)]
    | .recovery f run => [(.recovery f,run)]
  | .always _ outcome run => [(.always outcome,run)]
  | .handling _ f run => [(.handler f,run)]
  | _ => []

/-- What is noted of a task. -/
inductive Note where
  | begins (attempt : Nat)
  /-- A nested run starts. -/
  | opens (part : Part) (run : RunId) (first : Option Schedule)
  /-- The task takes the result of a nested run. -/
  | closes (run : RunId) (result : RunResult)
  | ends (attempt : Nat) (outcome : Outcome)
  | pauses (attempt : Nat) (delay : Duration)
  /-- A cancellation ends the wait for the next attempt. -/
  | givesUp (attempts : Nat)
  | breaksDown (message : String)
  | reports (report : Report)

/-- When a task acts, and whether it is cancelled by then. -/
structure Moment where
  time : Nat
  cancelled : Bool
  deriving DecidableEq, Repr

def World.moment (w : World) (t : Task) : Moment := ⟨w.clock,w.isCancelled t.id.run⟩

/-- What becomes of an attempt in one step. -/
inductive Progress where
  | goesOn (phase : Phase)
  | ended (outcome : Outcome)
  | broken (message : String)

namespace Progress

def ofStop : Task.Stop → Progress
  | .failed f => .ended (.error f)
  | .collapsed message => .broken message

def ofAction (action : String) : Action.Outcome → Progress
  | .done v => .ended (.ok ⟨v,[]⟩)
  | .fault .cancelled => .ended (.error .cancelled)
  | .fault (.collapse message) => .broken message
  | .fault f => .ended (.error (.execution action f.message))

end Progress

/-- What is noted of a step before the task goes on, and where it goes on. -/
structure Sequel where
  notes : List Note
  next : Option Phase

namespace Sequel

def after (notes : List Note) (q : Sequel) : Sequel := { q with notes := notes ++ q.notes }

def ofReport (m : Moment) (ending : Ending) (attempts : Nat) : Sequel :=
  ⟨[.reports ⟨ending,attempts,.ofMillis m.time⟩],some .leaving⟩

end Sequel

namespace Task

section Functions

variable (t : Task) (m : Moment) (attempt : Nat)

/-- The run that it starts next, or some runs later. -/
def runAt (i : Nat) : RunId := ⟨t.id.run.root,(t.node.id,t.started+i)::t.id.run.steps⟩

def concluded : Outcome → Sequel
  | .ok c => .ofReport m (.success c.value c.unselected) attempt
  | .error .cancelled => .ofReport m .cancelled attempt
  | .error f =>
    match t.node.handler with
    | none => .ofReport m (.failed f) attempt
    | some _ => ⟨[],some (.handling attempt f (t.runAt 0))⟩

def finished (outcome : Outcome) : Sequel :=
  match t.node.kind with
  | .guarded _ _ (some _) =>
    if outcome.isCancelled || m.cancelled then t.concluded m attempt (.error .cancelled)
    else ⟨[],some (.always attempt outcome (t.runAt 0))⟩
  | _ => t.concluded m attempt outcome

def judged (outcome : Outcome) : Sequel :=
  match t.node.retry.verdict attempt m.cancelled outcome with
  | .ended outcome => t.finished m attempt outcome
  | .again delay => ⟨[.pauses attempt delay],some (.pausing attempt ⟨m.time+delay.wait,0⟩)⟩

def followed : Progress → Sequel
  | .goesOn phase => ⟨[],some phase⟩
  | .ended outcome => (t.judged m attempt outcome).after [.ends attempt outcome]
  | .broken message => ⟨[.breaksDown message],some (.collapsed message)⟩

/-- The attempt took too long. -/
def late : Progress := .ended (.error (.timeout (t.node.timeout.getD .zero)))

def turned (σ : Setting) (limit : Option Timer) (condition : Value) (cap : Nat)
    (outputs : List Value) : Progress :=
  if m.cancelled then .ended (.error .cancelled)
  else
    match Template.evaluate σ.surroundings (t.turnScope outputs).value condition with
    | .error f => .ofStop (.ofCondition f)
    | .ok holds =>
      match Attempt.turn cap outputs.length outputs holds with
      | .ended outcome => .ended outcome
      | .body => .goesOn (.nesting attempt limit (.turn outputs (t.runAt 0)))

def turnDone (σ : Setting) (limit : Option Timer) (outputs : List Value)
    (handed : Except Failure Value) : Progress :=
  match handed,t.node.kind with
  | .ok v,.loop condition cap _ => t.turned m attempt σ limit condition cap (outputs ++ [v])
  | handed,_ => .ended (.ofValue handed)

/-- What a fan-out is given to work on. -/
def items (σ : Setting) (items : Value) : Except Stop (List Value) := do
  let v ← (Template.renderValue σ.surroundings t.scope.value items).mapError Stop.ofTemplate
  (Attempt.items v).mapError Stop.failed

def bodyDone (limit : Option Timer) : Except Failure Value → Progress
  | .ok v => .ended (.ok ⟨v,[]⟩)
  | .error .cancelled => .ended (.error .cancelled)
  | .error f =>
    match t.node.kind.recovery? with
    | some _ => .goesOn (.nesting attempt limit (.recovery f (t.runAt 0)))
    | none => .ended (.error f)

end Functions

end Task

namespace World

section Functions

variable (σ : Setting) (w : World) (t : Task) (attempt : Nat)

/-- The use of its action that an attempt makes. -/
def use (action : String) (params : Value) : Action.Use where
  action
  params
  node := t.node.id
  path := t.qualified
  attempt
  uses := w.uses t.qualified+1

def invoked (action : String) (params : Value) : Progress :=
  let work := σ.actions.start (w.use t attempt action params)
  if work.wait = 0 then .ofAction action work.outcome
  else .goesOn (.acting attempt (w.startLimit t).2 work.outcome
    ((w.startLimit t).1.startTimer (.ofMillis work.wait)).2)

/-- What an attempt comes to when it begins. -/
def beginning : Progress :=
  match t.node.kind with
  | .action name params =>
    match Template.renderValue σ.surroundings t.scope.value params with
    | .error f => .ofStop (.ofTemplate f)
    | .ok params =>
      if w.isCancelled t.id.run then .ended (.error .cancelled)
      else w.invoked σ t attempt name params
  | .sequence _ => .goesOn (.nesting attempt (w.startLimit t).2 (.sequence (t.runAt 0)))
  | .forEach list _ _ =>
    match t.items σ list with
    | .error s => .ofStop s
    | .ok [] => .ended (Attempt.collect (w.isCancelled t.id.run) [])
    | .ok items =>
      .goesOn (.nesting attempt (w.startLimit t).2 (.fanOut (items.mapIdx fun i v => (v,t.runAt i))))
  | .loop condition cap _ =>
    t.turned (w.moment t) attempt σ (w.startLimit t).2 condition cap []
  | .branch arms fallback =>
    match Task.select σ t.scope.value fallback arms with
    | .error s => .ofStop s
    | .ok selected => .ended (.ok (Attempt.selection selected t.node.kind.targets))
  | .guarded _ _ _ => .goesOn (.nesting attempt (w.startLimit t).2 (.guarded (t.runAt 0)))

/-- What an attempt comes to when the nested runs that it waits for are over. -/
def staged? (limit : Option Timer) : Stage → Option Progress
  | .sequence run => do some (.ended (.ofValue (← w.result? run).handed))
  | .fanOut items => do
    some (.ended (Attempt.collect (w.isCancelled t.id.run) (← w.results? items)))
  | .turn outputs run => do
    some (t.turnDone (w.moment t) attempt σ limit outputs (← w.result? run).handed)
  | .guarded run => do some (t.bodyDone attempt limit (← w.result? run).handed)
  | .recovery body run => do some (.ended (Attempt.recovered body (← w.result? run).handed))

/-- The results of runs that a task takes. -/
def closings (ids : List RunId) : List Note :=
  ids.filterMap fun id => (w.result? id).map (.closes id)

/-- What becomes of the attempt that is going on: its number, the results that the task takes, and what
it comes to. -/
def progress? : Option (Nat × List Note × Progress) :=
  match t.phase with
  | .acting attempt limit outcome ends =>
    if w.isCancelled t.id.run then some (attempt,[],.ended (.error .cancelled))
    else if w.hasPassed ends then
      some (attempt,[],.ofAction (match t.node.kind with
        | .action name _ => name
        | _ => "") outcome)
    else if w.limitPassed limit then some (attempt,[],t.late)
    else none
  | .nesting attempt limit stage =>
    match w.staged? σ t attempt limit stage with
    | some p => some (attempt,w.closings stage.runs,p)
    | none => if w.limitPassed limit then some (attempt,[],t.late) else none
  | _ => none

def sequel? : Option Sequel :=
  let m := w.moment t
  match t.phase with
  | .asking =>
    if m.cancelled then some ((Sequel.ofReport m .cancelled 0).after [.givesUp 0])
    else
      let a := (w.admission.ask t.id t.request).look t.id
      if a.isGranted t.id then
        let v := (w.setAdmission a).post t.id.run (.started t.node.id w.now)
        some ((t.followed m 1 (v.beginning σ t 1)).after [.begins 1])
      else if (w.admission.party? t.id).isNone || w.admission.isWoken t.id then
        some ⟨[],some .asking⟩
      else none
  | .acting .. | .nesting .. => do
    let (attempt,notes,p) ← w.progress? σ t
    some ((t.followed m attempt p).after notes)
  | .pausing attempt ends =>
    if m.cancelled then some ((t.finished m attempt (.error .cancelled)).after [.givesUp attempt])
    else if w.hasPassed ends then
      some ((t.followed m (attempt+1) (w.beginning σ t (attempt+1))).after [.begins (attempt+1)])
    else none
  | .always attempt outcome run => do
    let r ← w.result? run
    some ((t.concluded m attempt (Attempt.afterAlways outcome r.handed)).after [.closes run r])
  | .handling attempt f run => do
    let r ← w.result? run
    some ((Sequel.ofReport m (.failed f) attempt).after [.closes run r])
  | .leaving => some ⟨[],none⟩
  | .collapsed message => some { Sequel.ofReport m (.failed (.internal message)) 1 with next := none }

end Functions

end World

/-- Phases that differ at most in the number of the timer of a pause. -/
def Phase.Alike (p q : Phase) : Prop :=
  p = q ∨ ∃ n a b, p = .pausing n a ∧ q = .pausing n b ∧ a.time = b.time

/-- A world shows how a task has gone on. -/
structure Sequel.Shows (q : Sequel) (t : Task) (w : World) : Prop where
  phase : ∀ u ∈ w.tasks, u.id = t.id → ∃ p, q.next = some p ∧ p.Alike u.phase
  told : ∀ report, .reports report ∈ q.notes → ∀ r ∈ w.runs, r.id = t.id.run →
    .finished t.node.id report ∈ r.inbox
  opened : ∀ p ∈ q.next, ∀ x ∈ p.parts, ∃ r ∈ w.runs, r.id = x.2 ∧
    x.1.start? t.node t.scope = some r.schedule

section Equations

variable {t : Task} {m : Moment} {w : World} {attempt : Nat} {f : Failure} {block : Graph}
  {outcome : Outcome}

theorem Task.concluded_failed (hf : f.isRetryable = true) : t.concluded m attempt (.error f) =
    match t.node.handler with
    | none => .ofReport m (.failed f) attempt
    | some _ => ⟨[],some (.handling attempt f (t.runAt 0))⟩ := by
  cases f with
  | cancelled => cases hf
  | _ => rfl

theorem World.conclude_failed (hf : f.isRetryable = true) : w.conclude t attempt (.error f) =
    match t.node.handler with
    | none => w.report t (.failed f) attempt
    | some handler =>
      let v := w.setAdmission (w.admission.releaseSlot t.id)
      ({ v with runs := v.runs ++ [t.nestedRun (t.node.id ++ "/on_failure") handler (t.failureScope f)] }
        : World).setTask { t with phase := .handling attempt f (t.runAt 0), started := t.started+1 } := by
  cases f with
  | cancelled => cases hf
  | _ => rfl

theorem Task.finished_plain (ha : t.node.kind.always? = none) :
    t.finished m attempt outcome = t.concluded m attempt outcome := by
  unfold finished
  split
  · next hk =>
    rw [hk] at ha
    cases ha
  · rfl

theorem World.finishAttempts_plain (ha : t.node.kind.always? = none) :
    w.finishAttempts t attempt outcome = w.conclude t attempt outcome := by
  unfold finishAttempts
  split
  · next hk =>
    rw [hk] at ha
    cases ha
  · rfl

theorem Task.finished_always (ha : t.node.kind.always? = some block) :
    t.finished m attempt outcome =
      if outcome.isCancelled || m.cancelled then t.concluded m attempt (.error .cancelled)
      else ⟨[],some (.always attempt outcome (t.runAt 0))⟩ := by
  obtain ⟨body,recovery,hk⟩ := NodeKind.always?_eq_some.mp ha
  rw [finished,hk]

theorem World.finishAttempts_always (ha : t.node.kind.always? = some block) :
    w.finishAttempts t attempt outcome =
      if outcome.isCancelled || w.isCancelled t.id.run then w.conclude t attempt (.error .cancelled)
      else
        let scope := match outcome with
          | .ok _ => t.scope
          | .error f => t.failureScope f
        ({ w with runs := w.runs ++ [t.nestedRun (t.node.id ++ "/always") block scope] }
          : World).setTask
            { t with phase := .always attempt outcome (t.runAt 0), started := t.started+1 } := by
  obtain ⟨body,recovery,hk⟩ := NodeKind.always?_eq_some.mp ha
  simp only [finishAttempts,hk]
  rfl

theorem Task.bodyDone_failed (hf : f.isRetryable = true) (limit : Option Timer) :
    t.bodyDone attempt limit (.error f) =
      match t.node.kind.recovery? with
      | some _ => .goesOn (.nesting attempt limit (.recovery f (t.runAt 0)))
      | none => .ended (.error f) := by
  cases f with
  | cancelled => cases hf
  | _ => rfl

theorem World.afterBody_failed (hf : f.isRetryable = true) (limit : Option Timer) :
    w.afterBody t attempt limit (.error f) =
      match t.node.kind.recovery? with
      | some recovery =>
        ({ w with runs := w.runs ++
          [t.nestedRun (t.node.id ++ "/recovery") recovery (t.failureScope f)] } : World).setTask
          { t with phase := .nesting attempt limit (.recovery f (t.runAt 0)), started := t.started+1 }
      | none => w.afterAttempt t attempt (.error f) := by
  unfold afterBody
  split
  · next he => cases he
  · next he =>
    cases he
    cases hf
  · next he =>
    cases he
    split
    · next hk =>
      rw [hk]
      rfl
    · next hk =>
      cases hr : t.node.kind.recovery? with
      | none => rfl
      | some block =>
        obtain ⟨body,always,hkind⟩ := NodeKind.recovery?_eq_some.mp hr
        exact absurd hkind (hk body block always)

theorem World.startLimit_time (w : World) (t : Task) :
    (w.startLimit t).2.map Timer.time = t.node.timeout.map fun d => (w.moment t).time+d.wait := by
  unfold startLimit
  cases t.node.timeout <;> rfl

/-- A limit that has passed is that of the node. -/
theorem World.late_of_limit {limit : Option Timer} {start : Moment}
    (hl : limit.map Timer.time = t.node.timeout.map fun d => start.time+d.wait)
    (hp : w.limitPassed limit = true) : ∃ d, t.node.timeout = some d ∧
      t.late = .ended (.error (.timeout d)) ∧ start.time+d.wait ≤ (w.moment t).time := by
  cases limit with
  | none => cases hp
  | some timer =>
    obtain ⟨d,hd,he⟩ := Option.map_eq_some_iff.mp hl.symm
    refine ⟨d,hd,by rw [Task.late,hd]; rfl,?_⟩
    rw [he]
    exact of_decide_eq_true hp

/-- A stage gets on because its runs are over, or because its time is. -/
theorem World.progress?_nesting {attempt k : Nat} {limit : Option Timer} {stage : Stage}
    {notes : List Note} {p : Progress} (hphase : t.phase = .nesting attempt limit stage)
    (h : w.progress? σ t = some (k,notes,p)) : k = attempt ∧
      (w.staged? σ t attempt limit stage = some p ∧ notes = w.closings stage.runs ∨
      w.limitPassed limit = true ∧ notes = [] ∧ p = t.late) := by
  simp only [progress?,hphase] at h
  split at h
  · next hq =>
    cases h
    exact ⟨rfl,.inl ⟨hq,rfl⟩⟩
  split at h
  · next hpassed =>
    cases h
    exact ⟨rfl,.inr ⟨hpassed,rfl,rfl⟩⟩
  · cases h

end Equations

end Engine

end TaskGraph
