import TaskGraph.Proofs.Admission.Balance
import TaskGraph.Proofs.Engine.World
import TaskGraph.Proofs.Graph.Sound
import TaskGraph.Proofs.Schedule.Table

/-!
What a task does in one step, said once for all steps: it may report, it may start nested runs, it goes
on to another phase or is gone, and it may use actions, but not when it is cancelled.
-/

namespace TaskGraph

/-- Whether an outcome leaves out none but some targets. -/
def Outcome.Fits (targets : List String) : Outcome → Prop
  | .ok c => c.unselected ⊆ targets
  | .error _ => True

/-- Whether no handler has to run for an outcome. -/
def Outcome.isPlain : Outcome → Bool
  | .ok _ | .error .cancelled => true
  | .error _ => false

namespace Engine

/-- A run as it starts. Only a run that is nested in no other may have a time to end. -/
structure Run.IsNew (r : Run) (graph : Graph) : Prop where
  schedule : ∃ scope, r.schedule = .start graph scope
  inbox : r.inbox = []
  stopped : r.stopped = false
  phase : r.phase = .passing
  expiry : r.id.steps = [] ∨ r.expiry = none

def Task.nestedRun (t : Task) (label : String) (graph : Graph) (scope : Scope) : Run where
  id := ⟨t.id.run.root,(t.node.id,t.started)::t.id.run.steps⟩
  name := Site.qualify t.path label
  path := Site.qualify t.path label
  held := t.held.union t.node.tags
  schedule := .start graph scope

/-- The graphs that a task runs inside its node, and what is seen there at first: what the task sees,
and with it an item, the turn of a loop, or what has failed. -/
inductive Task.Starts (t : Task) : Graph → Scope → Prop
  | sequence {body : Graph} : t.node.kind = .sequence body → Starts t body t.scope
  | item {items : Value} {binding : String} {template : Graph} (index : Nat) (item : Value) :
    t.node.kind = .forEach items binding template → Starts t template (t.itemScope binding index item)
  | turn {condition : Value} {cap : Nat} {body : Graph} (outputs : List Value) :
    t.node.kind = .loop condition cap body → Starts t body (t.turnScope outputs)
  | guarded {body : Graph} {recovery always : Option Graph} :
    t.node.kind = .guarded body recovery always → Starts t body t.scope
  | recovery {body block : Graph} {always : Option Graph} (f : Failure) :
    t.node.kind = .guarded body (some block) always → Starts t block (t.failureScope f)
  | always {body block : Graph} {recovery : Option Graph} :
    t.node.kind = .guarded body recovery (some block) → Starts t block t.scope
  | alwaysAfter {body block : Graph} {recovery : Option Graph} (f : Failure) :
    t.node.kind = .guarded body recovery (some block) → Starts t block (t.failureScope f)
  | handler {block : Graph} (f : Failure) : t.node.handler = some block →
    Starts t block (t.failureScope f)

theorem Task.Starts.mem {t : Task} {graph : Graph} {scope : Scope} (h : t.Starts graph scope) :
    graph ∈ t.node.nested := by
  cases h with
  | handler f hh => exact List.mem_append_right _ (by simp [hh])
  | sequence hk | item _ _ hk | turn _ hk | guarded hk | recovery _ hk | always hk
  | alwaysAfter _ hk =>
    exact List.mem_append_left _ (by simp [hk,NodeKind.nested])

/-- What a task may start depends on its node and on what it sees. -/
theorem Task.Starts.of_same {t u : Task} {graph : Graph} {scope : Scope} (h : t.Starts graph scope)
    (hn : u.node = t.node) (hs : u.scope = t.scope) : u.Starts graph scope := by
  have herror (f : Failure) : t.failureScope f = u.failureScope f := by
    rw [failureScope,failureScope,hs,hn]
  cases h with
  | sequence hk => exact hs ▸ .sequence (hn ▸ hk)
  | guarded hk => exact hs ▸ .guarded (hn ▸ hk)
  | always hk => exact hs ▸ .always (hn ▸ hk)
  | item index item hk =>
    rw [itemScope,← hs]
    exact .item index item (hn ▸ hk)
  | turn outputs hk =>
    rw [turnScope,← hs]
    exact .turn outputs (hn ▸ hk)
  | recovery f hk => exact herror f ▸ .recovery f (hn ▸ hk)
  | alwaysAfter f hk => exact herror f ▸ .alwaysAfter f (hn ▸ hk)
  | handler f hh => exact herror f ▸ .handler f (hn ▸ hh)

theorem Task.nestedRun_isNew (t : Task) (label : String) (graph : Graph) (scope : Scope) :
    (t.nestedRun label graph scope).IsNew graph := ⟨⟨scope,rfl⟩,rfl,rfl,rfl,.inr rfl⟩

theorem Task.nestedRun_id {t : Task} (h : t.node.id = t.id.node) (label : String) (graph : Graph)
    (scope : Scope) : (t.nestedRun label graph scope).id = t.id.child t.started := by
  rw [nestedRun,TaskId.child,h]

theorem World.nest_eq (w : World) (t : Task) (label : String) (graph : Graph) (scope : Scope) :
    w.nest t label graph scope = ({ w with runs := w.runs ++ [t.nestedRun label graph scope] },
      { t with started := t.started+1 },(t.nestedRun label graph scope).id) := rfl

namespace Phase

def isLeaving : Phase → Bool
  | .leaving => true
  | _ => false

def isAsking : Phase → Bool
  | .asking => true
  | _ => false

def isCollapsed : Phase → Bool
  | .collapsed _ => true
  | _ => false

def isActing : Phase → Bool
  | .acting .. => true
  | _ => false

def isHandling : Phase → Bool
  | .handling .. => true
  | _ => false

/-- Whether a task has been admitted and has neither reported nor broken down. -/
def isAtWork : Phase → Bool
  | .acting .. | .nesting .. | .pausing .. | .always .. | .handling .. => true
  | _ => false

/-- Whether an attempt may begin from a phase. -/
def isFresh : Phase → Bool
  | .asking | .pausing .. => true
  | _ => false

/-- What may follow a phase when the task is not admitted: after its handler it only reports, as it
does when it has not been admitted, and nothing follows a breakdown. -/
def Allows : Phase → Phase → Prop
  | .asking,q | .handling ..,q => q.isLeaving = true
  | .collapsed _,_ => False
  | _,_ => True

/-- Whether nested runs go on in a phase. -/
def isBlock : Phase → Bool
  | .nesting .. | .always .. | .handling .. => true
  | _ => false

theorem of_isBlock {p : Phase} (h : p.isBlock = true) :
    p.isLeaving = false ∧ p.isAsking = false ∧ p.isCollapsed = false := by
  cases p with
  | nesting | always | handling => exact ⟨rfl,rfl,rfl⟩
  | _ => cases h

theorem not_isActing_of_isBlock {p : Phase} (h : p.isBlock = true) : p.isActing = false := by
  cases p with
  | acting => cases h
  | _ => rfl

/-- Whether an outcome that is kept leaves out none but some targets. -/
def Fits (targets : List String) : Phase → Prop
  | .always _ outcome _ => outcome.Fits targets
  | _ => True

/-- How much a cancelled task may still have to do, the runs aside that it waits for. -/
def effort : Phase → Nat
  | .leaving => 1
  | .collapsed _ => 3
  | .nesting _ _ (.guarded _) | .always .. => 8
  | _ => 4

theorem effort_pos (p : Phase) : 0 < p.effort := by
  unfold effort
  split <;> decide

end Phase

structure Deed where
  posted : Option Report := none
  opened : List Run := []
  /-- The phase that the task goes on to; without one it is gone. -/
  next : Option Phase
  used : List Invocation := []
  /-- What it gives back of what it was admitted to. -/
  acts : List (Admission.Act TaskId) := []

namespace Deed

/-- What a deed leaves to be done. -/
def cost (d : Deed) : Nat :=
  (d.next.map Phase.effort).getD 0 + 3*d.opened.length + 2*d.posted.toList.length

/-- What holds of all that a task does. -/
structure Fits (d : Deed) (t : Task) : Prop where
  ids : d.opened.map Run.id = (List.range' t.started d.opened.length).map t.id.child
  opened : ∀ r ∈ d.opened, ∃ g ∈ t.node.nested, r.IsNew g
  /-- Nested runs see at first what the task lets them see. -/
  inner : ∀ r ∈ d.opened, t.Starts r.schedule.graph r.schedule.scope
  runs : (d.next.map Phase.runs).getD [] = d.opened.map Run.id
  kept : ∀ p ∈ d.next, p.Fits t.node.kind.targets
  report : ∀ report ∈ d.posted, report.ending.unselected ⊆ t.node.kind.targets
  ended : d.posted.isSome = true → ∀ p ∈ d.next, p.isLeaving = true
  going : d.posted = none → ∃ p ∈ d.next, p.isLeaving = false
  used : ∀ i ∈ d.used, i.task = t.id
  held : ∀ r ∈ d.opened, r.held = t.held.union t.node.tags
  acts : d.acts = [] ∨ d.acts = [.releaseSlot t.id] ∨ d.acts = [.leave t.id]
  asked : ∀ p ∈ d.next, p.isAsking = false
  /-- A task breaks down without resources. -/
  parted : ∀ p ∈ d.next, p.isCollapsed = true → d.acts = [.leave t.id]
  /-- While nested runs go on no slot is held. -/
  slot : ∀ p ∈ d.next, p.runs ≠ [] →
    t.node.kind.isAction = false ∨ d.acts = [.releaseSlot t.id]
  gone : d.next = none → t.phase.isCollapsed = true
  /-- Whoever goes on keeps what it holds; only handlers run without the slot. -/
  retains : ∀ p ∈ d.next, p.isAtWork = true →
    d.acts = [] ∨ d.acts = [.releaseSlot t.id] ∧ p.isHandling = true
  acting : ∀ p ∈ d.next, p.isActing = true → t.node.kind.isAction = true
  /-- Actions are used where an attempt of an action begins. -/
  user : d.used = [] ∨ t.node.kind.isAction = true ∧ t.phase.isFresh = true
  /-- Whoever reports and is gone at once has broken down. -/
  broken : d.next = none → ∀ report ∈ d.posted, ∃ message, report.ending = .failed (.internal message)

end Deed

namespace World

def deliver (w : World) (t : Task) : Option Report → World
  | some report => w.post t.id.run (.finished t.node.id report)
  | none => w

structure Acts (w w' : World) (t : Task) (d : Deed) : Prop where
  clock : w'.clock = w.clock
  runs : w'.runs = (w.deliver t d.posted).runs ++ d.opened
  tasks : w'.tasks = match d.next with
    | some phase => w.tasks.map fun old =>
      if old.id = t.id then { t with phase, started := t.started+d.opened.length } else old
    | none => w.tasks.filter fun old => old.id != t.id
  cancelled : w'.cancelled = w.cancelled
  invocations : w'.invocations = d.used ++ w.invocations
  admission : w'.admission = d.acts.foldl Admission.act w.admission
  time : ∀ report ∈ d.posted, report.time = w.now

/-- A task does something that fits; once it is cancelled, only so much, and without actions. -/
def Does (w w' : World) (t : Task) (bound : Nat) : Prop :=
  ∃ d : Deed, w.Acts w' t d ∧ d.Fits t ∧
    (w.isCancelled t.id.run = true → d.used = [] ∧ d.cost ≤ bound)

variable {w v w' : World} {t : Task} {bound : Nat}

theorem post_congr (h : v.runs = w.runs) (id : RunId) (e : Event) :
    (v.post id e).runs = (w.post id e).runs := by
  have hr : v.run? id = w.run? id := by rw [run?,run?,h]
  rw [World.post,World.post,hr]
  cases w.run? id with
  | none => exact h
  | some r =>
    simp only [(wakeRun_alike _ id).runs]
    rw [setRun,setRun,h]

theorem deliver_congr (h : v.runs = w.runs) (t : Task) (posted : Option Report) :
    (v.deliver t posted).runs = (w.deliver t posted).runs := by
  cases posted with
  | none => exact h
  | some report => exact post_congr h t.id.run _

theorem Does.of_alike (h : Alike w v) (hadm : v.admission = w.admission) (hd : Does v w' t bound) :
    Does w w' t bound := by
  obtain ⟨d,ha,hf,hc⟩ := hd
  refine ⟨d,⟨ha.clock.trans h.clock,?_,?_,ha.cancelled.trans h.cancelled,?_,?_,?_⟩,hf,?_⟩
  · rw [ha.runs,deliver_congr h.runs]
  · rw [ha.tasks,h.tasks]
  · rw [ha.invocations,h.invocations]
  · rw [ha.admission,hadm]
  · rw [now,← h.clock]
    exact ha.time
  · rw [← h.isCancelled]
    exact hc

/-- As long as nothing is cancelled there is no bound. -/
theorem Does.of_running (hc : w.isCancelled t.id.run = false) {b : Nat} (hd : Does w w' t b) :
    Does w w' t bound := by
  obtain ⟨d,ha,hf,-⟩ := hd
  refine ⟨d,ha,hf,fun h => ?_⟩
  rw [hc] at h
  cases h

/-- A task may use an action first, unless it is cancelled. -/
theorem Does.of_used {i : Invocation} (hi : i.task = t.id) (hk : t.node.kind.isAction = true)
    (hb : t.phase.isFresh = true) (hc : w.isCancelled t.id.run = false) {b : Nat}
    (hd : Does { w with invocations := i::w.invocations } w' t b) : Does w w' t bound := by
  obtain ⟨d,ha,hf,-⟩ := hd
  have hpost : ({ w with invocations := i::w.invocations } : World).runs = w.runs := rfl
  refine ⟨{ d with used := d.used ++ [i] },
    ⟨ha.clock,?_,ha.tasks,ha.cancelled,?_,ha.admission,ha.time⟩,?_,fun h => ?_⟩
  · rw [ha.runs,deliver_congr hpost]
  · rw [ha.invocations,List.append_assoc,List.singleton_append]
  · refine { hf with used := fun j hj => ?_, user := .inr ⟨hk,hb⟩ }
    rcases List.mem_append.mp hj with hj | hj
    · exact hf.used j hj
    · rw [List.mem_singleton.mp hj,hi]
  · rw [hc] at h
    cases h

theorem Does.mono {b : Nat} (hb : b ≤ bound) (hd : Does w w' t b) : Does w w' t bound := by
  obtain ⟨d,ha,hf,hc⟩ := hd
  exact ⟨d,ha,hf,fun h => ⟨(hc h).1,Nat.le_trans (hc h).2 hb⟩⟩

end World

end Engine

end TaskGraph
