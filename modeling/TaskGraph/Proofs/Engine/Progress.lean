import Mathlib.Data.List.MinMax
import TaskGraph.Proofs.Engine.Reach

/-!
A cancelled run is never stuck: until it has ended, one of the runs in it or one of their tasks can make
a move. Whoever waits for a nested run waits for one that lies deeper.
-/

namespace TaskGraph.Engine

namespace World

variable {σ : Setting} {w : World} {t : Task} {r : Run} {n : Nat}

theorem results?_isSome {items : List (Value × RunId)}
    (h : ∀ item ∈ items, (w.result? item.2).isSome = true) : (w.results? items).isSome = true := by
  induction items with
  | nil => rfl
  | cons item rest ih =>
    obtain ⟨item,run⟩ := item
    obtain ⟨result,hresult⟩ := Option.isSome_iff_exists.mp (h (item,run) List.mem_cons_self)
    obtain ⟨results,hresults⟩ := Option.isSome_iff_exists.mp
      (ih fun other ho => h other (List.mem_cons_of_mem _ ho))
    simp [results?,hresult,hresults]

theorem afterStage_isSome (t : Task) (attempt : Nat) (limit : Option Timer) {stage : Stage}
    (h : ∀ id ∈ stage.runs, (w.result? id).isSome = true) :
    (w.afterStage σ t attempt limit stage).isSome = true := by
  have hone {run : RunId} (hrun : run ∈ stage.runs) : ∃ result, w.result? run = some result :=
    Option.isSome_iff_exists.mp (h run hrun)
  cases stage with
  | sequence run =>
    obtain ⟨result,hr⟩ := hone List.mem_cons_self
    simp [afterStage,hr]
  | fanOut items =>
    have hall : (w.results? items).isSome = true := results?_isSome fun item hi =>
      h item.2 (List.mem_map.mpr ⟨item,hi,rfl⟩)
    obtain ⟨results,hr⟩ := Option.isSome_iff_exists.mp hall
    simp [afterStage,hr]
  | turn outputs run =>
    obtain ⟨result,hr⟩ := hone List.mem_cons_self
    simp only [afterStage,hr,Option.bind_eq_bind,Option.bind_some]
    split <;> rfl
  | guarded run =>
    obtain ⟨result,hr⟩ := hone List.mem_cons_self
    simp [afterStage,hr]
  | recovery body run =>
    obtain ⟨result,hr⟩ := hone List.mem_cons_self
    simp [afterStage,hr]

/-- A cancelled task waits for nothing but nested runs. -/
theorem stepTask_of_cancelled (hc : w.isCancelled t.id.run = true)
    (hend : ∀ id ∈ t.phase.runs, (w.result? id).isSome = true) :
    ∃ w', w.stepTask σ t = some w' := by
  have hone (run : RunId) (hrun : run ∈ t.phase.runs) : ∃ result, w.result? run = some result :=
    Option.isSome_iff_exists.mp (hend run hrun)
  unfold stepTask
  cases hp : t.phase with
  | asking => exact ⟨_,if_pos hc⟩
  | acting => exact ⟨_,if_pos hc⟩
  | nesting attempt limit stage =>
    rw [hp] at hend
    obtain ⟨w',hw'⟩ := Option.isSome_iff_exists.mp
      (afterStage_isSome (σ := σ) t attempt limit hend)
    exact ⟨w',by simp only [hw']⟩
  | pausing => exact ⟨_,if_pos hc⟩
  | always attempt outcome run =>
    obtain ⟨result,hr⟩ := hone run (by rw [hp]; exact List.mem_cons_self)
    simp [hr]
  | handling attempt f run =>
    obtain ⟨result,hr⟩ := hone run (by rw [hp]; exact List.mem_cons_self)
    simp [hr]
  | leaving => exact ⟨_,rfl⟩
  | collapsed => exact ⟨_,rfl⟩

theorem move?_pass (h : w.Coherent) (hr : r ∈ w.runs) (hp : r.phase = .passing) :
    w.move? σ (.pass r.id) = some (w.pass r) := by
  simp [move?,run?_of_mem h.runs_nodup hr,hp]

theorem move?_notice (h : w.Coherent) (hr : r ∈ w.runs) (hp : r.phase = .waiting)
    (hs : r.stopped = false) (hc : w.isCancelled r.id = true) :
    w.move? σ (.notice r.id) = some (w.notice r) := by
  simp [move?,run?_of_mem h.runs_nodup hr,hp,hs,hc]

theorem move?_take (h : w.Coherent) (hr : r ∈ w.runs) (hp : r.phase = .waiting) {e : Event}
    {rest : List Event} (hi : r.inbox = e::rest) :
    w.move? σ (.take r.id) = some (w.take r e rest) := by
  simp [move?,run?_of_mem h.runs_nodup hr,hp,hi]

theorem move?_step (h : w.Coherent) (ht : t ∈ w.tasks) :
    w.move? σ (.step t.id) = w.stepTask σ t := by
  simp [move?,task?_of_mem h.tasks_nodup ht]

/-- A run that waits for nothing but its nodes has a task that goes on. -/
theorem Coherent.busy (h : w.Coherent) (hr : r ∈ w.runs) (hp : r.phase = .waiting)
    (hi : r.inbox = []) : ∃ t ∈ w.tasks, t.id.run = r.id := by
  obtain ⟨id,hid⟩ := List.exists_mem_of_ne_nil _ ((h.run r hr).waiting hp)
  rcases h.carried r hr id hid with ⟨report,hrep⟩ | ⟨t,ht,hti,-⟩
  · rw [hi] at hrep
    cases hrep
  · exact ⟨t,ht,by rw [hti]⟩

/-- Of the runs of a started run that go on, one lies deepest. -/
theorem exists_deepest {rs : List Run} (hne : rs ≠ []) :
    ∃ r ∈ rs, ∀ q ∈ rs, q.id.steps.length ≤ r.id.steps.length := by
  let depth (r : Run) : Nat := r.id.steps.length
  cases hm : rs.argmax depth with
  | none => exact absurd (List.argmax_eq_none.mp hm) hne
  | some r => exact ⟨r,List.argmax_mem hm,fun q hq => List.le_of_mem_argmax (f := depth) hq hm⟩

/-- A cancelled run that has not ended can go on, or something in it. -/
theorem Coherent.progress (h : w.Coherent) (hc : n ∈ w.cancelled) (hr : r ∈ w.runs)
    (hn : r.id.root = n) (hgoing : r.result? = none) :
    ∃ m w', m.root? = some n ∧ w.move? σ m = some w' := by
  let going := w.runs.filter fun q => q.id.root == n && q.result?.isNone
  have hmem {q : Run} : q ∈ going ↔ q ∈ w.runs ∧ q.id.root = n ∧ q.result? = none := by
    simp [going]
  obtain ⟨q,hq,hdeepest⟩ := exists_deepest (List.ne_nil_of_mem (hmem.mpr ⟨hr,hn,hgoing⟩))
  obtain ⟨hqw,hqn,hqr⟩ := hmem.mp hq
  have hroot : some q.id.root = some n := congrArg some hqn
  have hcancelled : w.isCancelled q.id = true := by
    rw [isCancelled,hqn]
    simpa using hc
  cases hp : q.phase with
  | passing => exact ⟨.pass q.id,_,hroot,move?_pass h hqw hp⟩
  | ended result time =>
    rw [Run.result?,hp] at hqr
    cases hqr
  | waiting =>
    cases hs : q.stopped with
    | false => exact ⟨.notice q.id,_,hroot,move?_notice h hqw hp hs hcancelled⟩
    | true =>
      cases hi : q.inbox with
      | cons e rest => exact ⟨.take q.id,_,hroot,move?_take h hqw hp hi⟩
      | nil =>
        obtain ⟨t,ht,hti⟩ := h.busy hqw hp hi
        -- The nested runs that the task waits for lie deeper, so they have ended.
        have hend : ∀ id ∈ t.phase.runs, (w.result? id).isSome = true := by
          intro id hid
          obtain ⟨p,hpw,rfl⟩ := h.children t ht id hid
          obtain ⟨k,-,hk⟩ := (h.task t ht).runs _ hid
          rw [result?,run?_of_mem h.runs_nodup hpw,Option.bind_some]
          by_contra hnone
          have hdeep := hdeepest p (hmem.mpr ⟨hpw,?_,by simpa using hnone⟩)
          · rw [hk,TaskId.child,hti,List.length_cons] at hdeep
            omega
          · rw [hk,TaskId.child,hti]
            exact hqn
        obtain ⟨w',hw'⟩ := stepTask_of_cancelled (σ := σ) (hti ▸ hcancelled) hend
        refine ⟨.step t.id,w',?_,(move?_step h ht).trans hw'⟩
        rw [Move.root?,hti,hqn]

end World

end TaskGraph.Engine
