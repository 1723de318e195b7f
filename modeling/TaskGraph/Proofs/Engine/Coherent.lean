import TaskGraph.Proofs.Engine.Task
import TaskGraph.Proofs.Schedule.Run

/-!
How the runs and tasks of an engine fit together: every task carries a node under way of its run and
lists the nested runs that it has started; every nested run is listed by a task; whatever is under way
is carried by a task or has already reported.
-/

namespace TaskGraph

/-- Whether the ids of nodes are different in a graph and in all that it contains. -/
def Graph.Neat (g : Graph) : Prop := ∀ h, g.Contains h → h.ids.Nodup

theorem Graph.Neat.nested {g h : Graph} (hg : g.Neat) {n : GraphNode Graph} (hn : n ∈ g.nodes)
    (hh : h ∈ n.nested) : h.Neat :=
  fun _ hk => hg _ (.inside hn hh hk)

def Event.isReport : Event → Bool
  | .started .. => false
  | .finished .. => true

namespace Engine

/-- Whether the report of a node has come in and was not applied yet. -/
def Run.HasReport (r : Run) (node : String) : Prop := ∃ report, .finished node report ∈ r.inbox

structure Run.Sensible (r : Run) : Prop where
  graph : r.schedule.graph.Neat
  table : r.schedule.IsTable
  known : ∀ id ∈ r.schedule.inFlight, id ∈ r.schedule.graph.ids
  awaited : ∀ e ∈ r.inbox, r.schedule.Awaits e
  /-- Nothing comes from a node after its report. -/
  reports : r.inbox.Pairwise fun a b => a.isReport = true → b.node ≠ a.node
  waiting : r.phase = .waiting → r.schedule.inFlight ≠ []
  ended : r.result?.isSome = true → r.schedule.inFlight = []

structure Task.Sensible (t : Task) : Prop where
  node : t.node.id = t.id.node
  phase : t.phase.Fits t.node.kind.targets
  runs : ∀ id ∈ t.phase.runs, ∃ k < t.started, id = t.id.child k

/-- How a task belongs to its run. -/
structure Task.At (t : Task) (r : Run) : Prop where
  id : r.id = t.id.run
  node : t.node ∈ r.schedule.graph.nodes
  going : t.phase.isLeaving = false → t.id.node ∈ r.schedule.inFlight ∧ ¬ r.HasReport t.id.node
  left : t.phase.isLeaving = true →
    t.id.node ∈ r.schedule.inFlight ∨ (r.schedule.status t.id.node).isTerminal = true

theorem Run.IsNew.inFlight {r : Run} {g : Graph} (hn : r.IsNew g) : r.schedule.inFlight = [] := by
  obtain ⟨scope,hs⟩ := hn.schedule
  rw [hs]
  rfl

theorem Run.IsNew.sensible {r : Run} {g : Graph} (hn : r.IsNew g) (hg : g.Neat) : r.Sensible := by
  obtain ⟨scope,hs⟩ := hn.schedule
  constructor
  · rw [hs]
    exact hg
  · rw [hs]
    exact Schedule.IsTable.start g scope
  · rw [hn.inFlight]
    intro id hid
    cases hid
  · rw [hn.inbox]
    intro e he
    cases he
  · rw [hn.inbox]
    exact .nil
  · intro hp
    rw [hn.phase] at hp
    cases hp
  · intro he
    rw [Run.result?,hn.phase] at he
    cases he

namespace World

structure Coherent (w : World) : Prop where
  runs_nodup : (w.runs.map Run.id).Nodup
  tasks_nodup : (w.tasks.map Task.id).Nodup
  run : ∀ r ∈ w.runs, r.Sensible
  task : ∀ t ∈ w.tasks, t.Sensible
  home : ∀ t ∈ w.tasks, ∃ r ∈ w.runs, t.At r
  carried : ∀ r ∈ w.runs, ∀ id ∈ r.schedule.inFlight,
    r.HasReport id ∨ ∃ t ∈ w.tasks, t.id = ⟨r.id,id⟩ ∧ t.phase.isLeaving = false
  children : ∀ t ∈ w.tasks, ∀ id ∈ t.phase.runs, ∃ r ∈ w.runs, r.id = id
  owned : ∀ r ∈ w.runs, r.id.steps = [] ∨ ∃ t ∈ w.tasks, r.id ∈ t.phase.runs

variable {w v w' : World} {r r' : Run} {t : Task}

theorem Coherent.of_alike (h : w.Coherent) (ha : Alike w v) : v.Coherent := by
  constructor
  · rw [ha.runs]; exact h.runs_nodup
  · rw [ha.tasks]; exact h.tasks_nodup
  · rw [ha.runs]; exact h.run
  · rw [ha.tasks]; exact h.task
  · rw [ha.runs,ha.tasks]; exact h.home
  · rw [ha.runs,ha.tasks]; exact h.carried
  · rw [ha.runs,ha.tasks]; exact h.children
  · rw [ha.runs,ha.tasks]; exact h.owned

theorem Coherent.run_unique (h : w.Coherent) {q : Run} (hr : r ∈ w.runs) (hq : q ∈ w.runs)
    (hid : r.id = q.id) : r = q := List.inj_on_of_nodup_map h.runs_nodup hr hq hid

theorem Coherent.task_unique (h : w.Coherent) {u : Task} (ht : t ∈ w.tasks) (hu : u ∈ w.tasks)
    (hid : t.id = u.id) : t = u := List.inj_on_of_nodup_map h.tasks_nodup ht hu hid

/-- A task belongs to the run with its id. -/
theorem Coherent.at (h : w.Coherent) (ht : t ∈ w.tasks) (hr : r ∈ w.runs) (hid : r.id = t.id.run) :
    t.At r := by
  obtain ⟨q,hq,ha⟩ := h.home t ht
  rwa [h.run_unique hr hq (hid.trans ha.id.symm)]

section SetRun

theorem mem_setRun (hr : r ∈ w.runs) (hid : r'.id = r.id) {q : Run} :
    q ∈ (w.setRun r').runs ↔ q = r' ∨ q ∈ w.runs ∧ q.id ≠ r.id := by
  rw [setRun,List.mem_map]
  constructor
  · rintro ⟨old,ho,rfl⟩
    split
    · exact .inl rfl
    · next hne => exact .inr ⟨ho,hid ▸ hne⟩
  · rintro (rfl | ⟨hq,hne⟩)
    · exact ⟨r,hr,if_pos hid.symm⟩
    · exact ⟨q,hq,if_neg (hid ▸ hne)⟩

theorem setRun_ids (w : World) (r : Run) : (w.setRun r).runs.map Run.id = w.runs.map Run.id := by
  rw [setRun,List.map_map]
  refine List.map_congr_left fun old _ => ?_
  simp only [Function.comp_apply]
  split
  · next h => exact h.symm
  · rfl

/-- A run takes its turn; it may dispatch nodes, which get tasks. -/
theorem Coherent.setRun (h : w.Coherent) (r' : Run) (hr : r ∈ w.runs) (hid : r'.id = r.id)
    {fresh : List Task}
    (hruns : w'.runs = (w.setRun r').runs) (htasks : w'.tasks = w.tasks ++ fresh)
    (hs : r'.Sensible) (hat : ∀ t ∈ w.tasks, t.At r → t.At r')
    (hcarried : ∀ id ∈ r'.schedule.inFlight, r'.HasReport id ∨ (∃ t ∈ w.tasks ++ fresh,
      t.id = ⟨r.id,id⟩ ∧ t.phase.isLeaving = false))
    (hnodup : (fresh.map Task.id).Nodup) (hnew : ∀ t ∈ fresh, ∀ u ∈ w.tasks, u.id ≠ t.id)
    (hfresh : ∀ t ∈ fresh, t.Sensible ∧ t.At r' ∧ t.phase.runs = []) : w'.Coherent := by
  have hmem {q : Run} : q ∈ w'.runs ↔ q = r' ∨ q ∈ w.runs ∧ q.id ≠ r.id := by
    rw [hruns]
    exact mem_setRun hr hid
  -- A run that was there is there, perhaps changed.
  have hkept {q : Run} (hq : q ∈ w.runs) : ∃ q' ∈ w'.runs, q'.id = q.id := by
    by_cases hne : q.id = r.id
    · exact ⟨r',hmem.mpr (.inl rfl),hid.trans hne.symm⟩
    · exact ⟨q,hmem.mpr (.inr ⟨hq,hne⟩),rfl⟩
  constructor
  · rw [hruns,setRun_ids]
    exact h.runs_nodup
  · rw [htasks,List.map_append]
    refine List.nodup_append.mpr ⟨h.tasks_nodup,hnodup,fun a ha b hb he => ?_⟩
    obtain ⟨u,hu,rfl⟩ := List.mem_map.mp ha
    obtain ⟨t,ht,rfl⟩ := List.mem_map.mp hb
    exact hnew t ht u hu he
  · intro q hq
    rcases hmem.mp hq with rfl | ⟨hq,-⟩
    · exact hs
    · exact h.run q hq
  · intro t ht
    rw [htasks] at ht
    rcases List.mem_append.mp ht with ht | ht
    · exact h.task t ht
    · exact (hfresh t ht).1
  · intro t ht
    rw [htasks] at ht
    rcases List.mem_append.mp ht with ht | ht
    · obtain ⟨q,hq,ha⟩ := h.home t ht
      by_cases hne : q.id = r.id
      · rw [h.run_unique hq hr hne] at ha
        exact ⟨r',hmem.mpr (.inl rfl),hat t ht ha⟩
      · exact ⟨q,hmem.mpr (.inr ⟨hq,hne⟩),ha⟩
    · exact ⟨r',hmem.mpr (.inl rfl),(hfresh t ht).2.1⟩
  · intro q hq id hi
    rw [htasks]
    rcases hmem.mp hq with rfl | ⟨hq,-⟩
    · rw [hid]
      exact hcarried id hi
    · rcases h.carried q hq id hi with hrep | ⟨t,ht,he⟩
      · exact .inl hrep
      · exact .inr ⟨t,List.mem_append_left _ ht,he⟩
  · intro t ht id hi
    rw [htasks] at ht
    rcases List.mem_append.mp ht with ht | ht
    · obtain ⟨q,hq,rfl⟩ := h.children t ht id hi
      exact hkept hq
    · rw [(hfresh t ht).2.2] at hi
      cases hi
  · intro q hq
    rw [htasks]
    have hold : ∃ p ∈ w.runs, p.id = q.id := by
      rcases hmem.mp hq with rfl | ⟨hq,-⟩
      · exact ⟨r,hr,hid.symm⟩
      · exact ⟨q,hq,rfl⟩
    obtain ⟨p,hp,he⟩ := hold
    rw [← he]
    rcases h.owned p hp with hroot | ⟨t,ht,hl⟩
    · exact .inl hroot
    · exact .inr ⟨t,List.mem_append_left _ ht,hl⟩

end SetRun

end World

end Engine

end TaskGraph
