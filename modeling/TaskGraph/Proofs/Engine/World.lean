import Mathlib.Data.List.Nodup
import TaskGraph.Engine

/-!
What the operations on the world of an engine leave alone. Who is awake, who is admitted and which
timers there were does not matter to most of what is said of runs and tasks.
-/

namespace TaskGraph.Engine

/-- The run that a task starts as one of a number. -/
def TaskId.child (t : TaskId) (k : Nat) : RunId := ⟨t.run.root,(t.node,k)::t.run.steps⟩

theorem TaskId.eq_of {a b : TaskId} (hr : a.run = b.run) (hn : a.node = b.node) : a = b := by
  cases a
  cases b
  rw [mk.injEq]
  exact ⟨hr,hn⟩

namespace RunId

theorem isWithin_iff {inner outer : RunId} : inner.isWithin outer = true ↔
    inner.root = outer.root ∧ outer.steps <:+ inner.steps := by
  simp [isWithin]

theorem isWithin_self (r : RunId) : r.isWithin r = true := isWithin_iff.mpr ⟨rfl,List.suffix_refl _⟩

theorem child_inj {a b : TaskId} {i j : Nat} (h : a.child i = b.child j) : a = b ∧ i = j := by
  obtain ⟨⟨root,steps⟩,node⟩ := a
  obtain ⟨⟨root',steps'⟩,node'⟩ := b
  simp only [TaskId.child,mk.injEq,List.cons.injEq,Prod.mk.injEq] at h
  obtain ⟨rfl,⟨rfl,rfl⟩,rfl⟩ := h
  exact ⟨rfl,rfl⟩

/-- A nested run lies in itself and in whatever the run around it lies in. -/
theorem child_isWithin {t : TaskId} {k : Nat} {outer : RunId} :
    (t.child k).isWithin outer = true ↔ outer = t.child k ∨ t.run.isWithin outer = true := by
  obtain ⟨⟨root,steps⟩,node⟩ := t
  obtain ⟨root',steps'⟩ := outer
  rw [isWithin_iff,isWithin_iff]
  simp only [TaskId.child,List.suffix_cons_iff,mk.injEq]
  constructor
  · rintro ⟨hr,rfl | hs⟩
    · exact .inl ⟨hr.symm,rfl⟩
    · exact .inr ⟨hr,hs⟩
  · rintro (⟨rfl,rfl⟩ | ⟨hr,hs⟩)
    · exact ⟨rfl,.inl rfl⟩
    · exact ⟨hr,.inr hs⟩

theorem not_isWithin_child (t : TaskId) (k : Nat) : t.run.isWithin (t.child k) = false := by
  rw [Bool.eq_false_iff]
  intro h
  have hle := (isWithin_iff.mp h).2.length_le
  simp only [TaskId.child,List.length_cons] at hle
  omega

def isWithinAny (r : RunId) (ids : List RunId) : Bool := ids.any r.isWithin

end RunId

namespace World

variable {w v : World}

/-- Two worlds with the same runs and tasks, at the same time. -/
structure Alike (w v : World) : Prop where
  clock : v.clock = w.clock
  runs : v.runs = w.runs
  tasks : v.tasks = w.tasks
  cancelled : v.cancelled = w.cancelled
  invocations : v.invocations = w.invocations

theorem Alike.refl (w : World) : Alike w w := ⟨rfl,rfl,rfl,rfl,rfl⟩

theorem Alike.trans {u : World} (hwv : Alike w v) (hvu : Alike v u) : Alike w u where
  clock := hvu.clock.trans hwv.clock
  runs := hvu.runs.trans hwv.runs
  tasks := hvu.tasks.trans hwv.tasks
  cancelled := hvu.cancelled.trans hwv.cancelled
  invocations := hvu.invocations.trans hwv.invocations

theorem Alike.symm (h : Alike w v) : Alike v w :=
  ⟨h.clock.symm,h.runs.symm,h.tasks.symm,h.cancelled.symm,h.invocations.symm⟩

theorem Alike.isCancelled (h : Alike w v) (id : RunId) : v.isCancelled id = w.isCancelled id := by
  rw [World.isCancelled,World.isCancelled,h.cancelled]

theorem wake_alike (w : World) (a : Agent) : Alike w (w.wake a) := by
  unfold wake
  split <;> exact ⟨rfl,rfl,rfl,rfl,rfl⟩

theorem foldl_alike {α : Type} {f : World → α → World} (hf : ∀ w a, Alike w (f w a)) (l : List α)
    (w : World) : Alike w (l.foldl f w) := by
  induction l generalizing w with
  | nil => exact .refl w
  | cons a rest ih => exact (hf w a).trans (ih (f w a))

theorem wakeRun_alike (w : World) (id : RunId) : Alike w (w.wakeRun id) := wake_alike w _

theorem setAdmission_alike (w : World) (a : Admission TaskId) : Alike w (w.setAdmission a) := by
  have hset : Alike w { w with admission := a } := ⟨rfl,rfl,rfl,rfl,rfl⟩
  exact hset.trans (foldl_alike (fun w _ => wake_alike w _) _ _)

theorem startTimer_alike (w : World) (d : Duration) : Alike w (w.startTimer d).1 :=
  ⟨rfl,rfl,rfl,rfl,rfl⟩

theorem startLimit_alike (w : World) (t : Task) : Alike w (w.startLimit t).1 := by
  unfold startLimit
  split
  · exact .refl w
  · next d _ => exact startTimer_alike w d

section Admission

variable (w : World)

theorem wake_admission (a : Agent) : (w.wake a).admission = w.admission := by
  unfold wake
  split <;> rfl

theorem foldl_wake_admission {α : Type} (f : α → Agent) (l : List α) :
    (l.foldl (fun w x => w.wake (f x)) w).admission = w.admission := by
  induction l generalizing w with
  | nil => rfl
  | cons x rest ih => exact (ih (w.wake (f x))).trans (w.wake_admission (f x))

theorem setAdmission_admission (a : Admission TaskId) : (w.setAdmission a).admission = a :=
  foldl_wake_admission _ _ _

theorem startLimit_admission (t : Task) : (w.startLimit t).1.admission = w.admission := by
  unfold startLimit
  split <;> rfl

theorem post_admission (id : RunId) (e : Event) : (w.post id e).admission = w.admission := by
  unfold post
  split
  · exact wake_admission _ _
  · rfl

theorem cancel_admission (root : Nat) : (w.cancel root).admission = w.admission := by
  unfold cancel
  split
  · rfl
  · exact foldl_wake_admission _ id _

/-- Who is discarded leaves. -/
theorem discard_admission (ids : List RunId) : (w.discard ids).admission =
    (w.tasks.filter fun t => t.id.run.isWithinAny ids).foldl
      (fun a t => a.leave t.id) w.admission := by
  have hfold (gone : List Task) (w : World) :
      (gone.foldl (fun w t => w.setAdmission (w.admission.leave t.id)) w).admission =
        gone.foldl (fun a t => a.leave t.id) w.admission := by
    induction gone generalizing w with
    | nil => rfl
    | cons t rest ih => exact (ih _).trans (by rw [setAdmission_admission]; rfl)
  exact hfold _ w

theorem discard_nil_admission : (w.discard []).admission = w.admission := by
  rw [discard_admission,List.filter_eq_nil_iff.mpr]
  · rfl
  · simp [RunId.isWithinAny]

end Admission

/-- A cancellation adds a started run to those that are cancelled. -/
theorem cancel_alike (w : World) (root : Nat) : ∃ cancelled,
    Alike { w with cancelled } (w.cancel root) ∧ ∀ n, n ∈ cancelled ↔ n = root ∨ n ∈ w.cancelled := by
  unfold cancel
  split
  · next h =>
    refine ⟨w.cancelled,.refl w,fun n => ⟨.inr,?_⟩⟩
    rintro (rfl | hn)
    · simpa using h
    · exact hn
  · exact ⟨root::w.cancelled,foldl_alike (fun w a => wake_alike w a) _ _,fun n => List.mem_cons⟩

section Post

variable (w : World) (id : RunId) (e : Event)

theorem post_frame : (w.post id e).clock = w.clock ∧ (w.post id e).tasks = w.tasks ∧
    (w.post id e).cancelled = w.cancelled ∧ (w.post id e).invocations = w.invocations := by
  unfold post
  split
  · next r _ =>
    have ha := wakeRun_alike (w.setRun { r with inbox := r.inbox ++ [e] }) id
    exact ⟨ha.clock,ha.tasks,ha.cancelled,ha.invocations⟩
  · exact ⟨rfl,rfl,rfl,rfl⟩

theorem post_runs (hd : (w.runs.map Run.id).Nodup) : (w.post id e).runs =
    w.runs.map fun r => if r.id = id then { r with inbox := r.inbox ++ [e] } else r := by
  unfold post
  split
  · next r hr =>
    rw [(wakeRun_alike _ id).runs]
    have hmem := List.mem_of_find?_eq_some hr
    have hid : r.id = id := by simpa using List.find?_some hr
    refine List.map_congr_left fun q hq => ?_
    by_cases hqi : q.id = id
    · have hqr : q = r := List.inj_on_of_nodup_map hd hq hmem (hqi.trans hid.symm)
      simp [hqr,hid]
    · simp [hqi,hid]
  · next hr =>
    have hne (r : Run) (hm : r ∈ w.runs) : r.id ≠ id := by
      simpa using List.find?_eq_none.mp hr r hm
    rw [List.map_congr_left (g := fun r => r) fun r hm => if_neg (hne r hm),List.map_id']

end Post

section Discard

variable (w : World) (ids : List RunId)

/-- What is discarded are the runs that lie in some runs, and their tasks. -/
theorem discard_spec : (w.discard ids).clock = w.clock ∧
    (w.discard ids).runs = w.runs.filter (fun r => !r.id.isWithinAny ids) ∧
    (w.discard ids).tasks = w.tasks.filter (fun t => !t.id.run.isWithinAny ids) ∧
    (w.discard ids).cancelled = w.cancelled ∧ (w.discard ids).invocations = w.invocations := by
  have ha := foldl_alike (fun w (t : Task) => setAdmission_alike w (w.admission.leave t.id))
    (w.tasks.filter fun t => ids.any t.id.run.isWithin) w
  refine ⟨ha.clock,?_,?_,ha.cancelled,ha.invocations⟩
  · exact congrArg (List.filter fun r : Run => !r.id.isWithinAny ids) ha.runs
  · exact congrArg (List.filter fun t : Task => !t.id.run.isWithinAny ids) ha.tasks

theorem discard_nil : Alike w (w.discard []) := by
  obtain ⟨hc,hr,ht,hk,hi⟩ := w.discard_spec []
  refine ⟨hc,?_,?_,hk,hi⟩
  · rw [hr]
    exact List.filter_eq_self.mpr fun _ _ => rfl
  · rw [ht]
    exact List.filter_eq_self.mpr fun _ _ => rfl

end Discard

section Lookup

variable {w : World}

theorem mem_of_run? {id : RunId} {r : Run} (h : w.run? id = some r) : r ∈ w.runs ∧ r.id = id :=
  ⟨List.mem_of_find?_eq_some h,by simpa using List.find?_some h⟩

theorem mem_of_task? {id : TaskId} {t : Task} (h : w.task? id = some t) : t ∈ w.tasks ∧ t.id = id :=
  ⟨List.mem_of_find?_eq_some h,by simpa using List.find?_some h⟩

theorem run?_of_mem (hd : (w.runs.map Run.id).Nodup) {r : Run} (h : r ∈ w.runs) :
    w.run? r.id = some r := by
  cases hf : w.run? r.id with
  | none => simpa using List.find?_eq_none.mp hf r h
  | some q =>
    obtain ⟨hq,hid⟩ := mem_of_run? hf
    rw [List.inj_on_of_nodup_map hd hq h hid]

theorem task?_of_mem (hd : (w.tasks.map Task.id).Nodup) {t : Task} (h : t ∈ w.tasks) :
    w.task? t.id = some t := by
  cases hf : w.task? t.id with
  | none => simpa using List.find?_eq_none.mp hf t h
  | some q =>
    obtain ⟨hq,hid⟩ := mem_of_task? hf
    rw [List.inj_on_of_nodup_map hd hq h hid]

end Lookup

end World

end TaskGraph.Engine
