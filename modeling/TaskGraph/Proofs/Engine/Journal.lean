import TaskGraph.Proofs.Engine.Traces
import TaskGraph.Proofs.Schedule.Scopes

/-!
What is written down of an engine as it goes on: which runs start, with which graph and scope, which
tasks are dispatched, when their run has come to which schedule, and what tasks tell their runs.
-/

namespace TaskGraph.Engine

/-- What is written down of the steps of an engine. -/
inductive Entry where
  /-- A run starts, with what is seen in it at first. -/
  | starts (run : RunId) (graph : Graph) (scope : Scope)
  /-- A task is dispatched by a run that has come to a schedule. -/
  | dispatches (task : Task) (schedule : Schedule)
  | tells (letter : Letter)

/-- What is written down when one world comes after another. -/
def World.entries (w w' : World) : List Entry :=
  (w'.runs.filter fun r => (w.run? r.id).isNone).map
      (fun r => .starts r.id r.schedule.graph r.schedule.scope) ++
    (w'.tasks.filter fun t => (w.task? t.id).isNone).flatMap (fun t =>
      (w'.runs.filter fun r => r.id == t.id.run).map fun r => .dispatches t r.schedule) ++
    (w.sent w').map .tells

/-- The worlds that an engine comes to, with all that was written down until then. -/
inductive Journal (e : Engine) : List Entry → World → Prop
  | world : Journal e [] e.world
  | step {log : List Entry} {w w' : World} {turn : Option Nat} : Journal e log w →
    Step e turn w w' → Journal e (log ++ w.entries w') w'

def Entry.letter? : Entry → Option Letter
  | .tells x => some x
  | _ => none

namespace World

variable {e : Engine} {w w' : World} {t : Task} {news : List Letter}

theorem starts_mem_entries {id : RunId} {graph : Graph} {scope : Scope} :
    .starts id graph scope ∈ w.entries w' ↔ ∃ r ∈ w'.runs, (∀ q ∈ w.runs, q.id ≠ r.id) ∧
      r.id = id ∧ r.schedule.graph = graph ∧ r.schedule.scope = scope := by
  simp [entries,run?,and_assoc]

theorem dispatches_mem_entries {s : Schedule} : .dispatches t s ∈ w.entries w' ↔
    t ∈ w'.tasks ∧ (∀ u ∈ w.tasks, u.id ≠ t.id) ∧
      ∃ r ∈ w'.runs, r.id = t.id.run ∧ r.schedule = s := by
  simp [entries,task?,and_assoc]

theorem entries_letters : (w.entries w').filterMap Entry.letter? = w.sent w' := by
  simp [entries,List.filterMap_append,List.filterMap_map,List.filterMap_flatMap,Entry.letter?,
    Function.comp_def]

/-- A run under an id that there was not has just started, from outside or by a task. -/
theorem Goes.newcomer (hg : Goes e w w' news) {q : Run} (hq : q ∈ w'.runs)
    (hnew : ∀ r ∈ w.runs, r.id ≠ q.id) : (∃ graph scope, q.schedule = .start graph scope) ∧
    (q.id.steps = [] ∧ q.schedule.scope.results = [] ∨ ∃ t ∈ w.tasks, ∃ k, t.started ≤ k ∧
      q.id = t.id.child k ∧ t.Starts q.schedule.graph q.schedule.scope) := by
  cases hg with
  | @starts run graph hn hroot _ _ hruns _ _ hempty =>
    rw [hruns] at hq
    rcases List.mem_append.mp hq with hq | hq
    · exact absurd rfl (hnew q hq)
    · obtain rfl := List.mem_singleton.mp hq
      obtain ⟨scope,hs⟩ := hn.schedule
      exact ⟨⟨graph,scope,hs⟩,.inl ⟨hroot,hempty⟩⟩
  | @passes r r' _ hr _ hid _ hruns =>
    rw [hruns] at hq
    obtain rfl | ⟨hq,-⟩ := (mem_setRun hr hid).mp hq
    · exact absurd hid.symm (hnew r hr)
    · exact absurd rfl (hnew q hq)
  | @performs t d es ht hp =>
    obtain ⟨r,hr,-,rfl⟩ | hq := hp.mem_runs.mp hq
    · exact absurd rfl (hnew r hr)
    · obtain ⟨k,hle,hid⟩ := hp.fits.opened_id hq
      obtain ⟨graph,-,hn⟩ := hp.fits.opened q hq
      obtain ⟨scope,hs⟩ := hn.schedule
      exact ⟨⟨graph,scope,hs⟩,.inr ⟨t,ht,k,hle,hid,hp.fits.inner q hq⟩⟩
  | leaves _ _ hruns | waits hruns =>
    rw [hruns] at hq
    exact absurd rfl (hnew q hq)

/-- A run that was there goes on as it was, with what has come in, or has had its turn. -/
theorem Goes.same_run (hg : Goes e w w' news) (hw : w.Coherent) {r q : Run} (hr : r ∈ w.runs)
    (hq : q ∈ w'.runs) (hid : q.id = r.id) :
    q.schedule = r.schedule ∧ r.inbox ⊆ q.inbox ∨ ∃ fresh, Run.Course w r q fresh := by
  have hsame (hq : q ∈ w.runs) : q.schedule = r.schedule ∧ r.inbox ⊆ q.inbox := by
    rw [hw.run_unique hq hr hid]
    exact ⟨rfl,List.Subset.refl _⟩
  cases hg with
  | starts _ _ hfree _ hruns =>
    rw [hruns] at hq
    rcases List.mem_append.mp hq with hq | hq
    · exact .inl (hsame hq)
    · rw [List.mem_singleton.mp hq] at hid
      exact absurd (by rw [hid]) (hfree r hr)
  | @passes r₀ r' fresh hr₀ _ hid₀ hcourse hruns =>
    rw [hruns] at hq
    obtain rfl | ⟨hq,-⟩ := (mem_setRun hr₀ hid₀).mp hq
    · obtain rfl := hw.run_unique hr₀ hr (hid₀.symm.trans hid)
      exact .inr ⟨fresh,hcourse⟩
    · exact .inl (hsame hq)
  | @performs t d es ht hp =>
    obtain ⟨p,hmem,-,rfl⟩ | hq := hp.mem_runs.mp hq
    · obtain rfl := hw.run_unique hmem hr hid
      exact .inl ⟨rfl,List.subset_append_left _ _⟩
    · exact absurd hid.symm (hw.opened_fresh ht hp.fits hq r hr)
  | leaves _ _ hruns | waits hruns =>
    rw [hruns] at hq
    exact .inl (hsame hq)

/-- A task under an id that there was not sees what its run shows when it is dispatched. -/
theorem Goes.dispatch (hg : Goes e w w' news) (ht : t ∈ w'.tasks)
    (hnew : ∀ u ∈ w.tasks, u.id ≠ t.id) {q : Run} (hq : q ∈ w'.runs) (hid : q.id = t.id.run) :
    (∃ r ∈ w.runs, r.id = q.id ∧ ¬ r.HasDispatched t.id.node) ∧ t.scope = q.schedule.scope ∧
      t.node ∈ q.schedule.graph.nodes := by
  cases hg with
  | starts _ _ _ _ _ htasks | waits _ htasks =>
    rw [htasks] at ht
    exact absurd rfl (hnew t ht)
  | @passes r r' fresh hr _ hrid hcourse hruns htasks =>
    rw [htasks] at ht
    rcases List.mem_append.mp ht with ht | ht
    · exact absurd rfl (hnew t ht)
    obtain ⟨hrun,-,hopen⟩ := hcourse.of_fresh ht
    have hself : r.id = q.id := hrun.symm.trans hid.symm
    rw [hruns] at hq
    obtain rfl | ⟨-,hne⟩ := (mem_setRun hr hrid).mp hq
    · refine ⟨⟨r,hr,hself,hopen⟩,?_⟩
      have hgraph := hcourse.graph
      cases hcourse with
      | passes hsch =>
        obtain ⟨n,hn,rfl⟩ := List.mem_map.mp ht
        refine ⟨congrArg Schedule.scope hsch.symm,?_⟩
        rw [hgraph]
        exact ((w.passed_grows r).fresh n hn).1
      | _ => cases ht
    · exact absurd hself.symm hne
  | performs _ hp =>
    obtain ⟨ht,-⟩ | hfollows := (hp.tasks t).mp ht
    · exact absurd rfl (hnew t ht)
    · exact absurd (hp.fits.follower hfollows).1.symm (hnew _ (by assumption))
  | leaves _ _ _ htasks =>
    rw [htasks] at ht
    exact absurd rfl (hnew t (List.mem_of_mem_filter ht))

/-- Whether a run was started, from outside or by a known task. -/
inductive KnowsRun (w : World) : RunId → Prop
  | root {r : Run} : r ∈ w.runs → r.id.steps = [] → KnowsRun w r.id
  | nested {id : TaskId} {k : Nat} : w.Knows id →
    (∀ t ∈ w.tasks, t.id = id → k < t.started) → KnowsRun w (id.child k)

theorem Coherent.knowsRun (hw : w.Coherent) {r : Run} (hr : r ∈ w.runs) : w.KnowsRun r.id := by
  obtain hroot | ⟨t,ht,hmem⟩ := hw.owned r hr
  · exact .root hr hroot
  · obtain ⟨k,hk,hid⟩ := (hw.task t ht).runs r.id hmem
    rw [hid]
    refine .nested (hw.knows ht) fun u hu he => ?_
    rwa [hw.task_unique hu ht he]

theorem KnowsRun.goes {id : RunId} (hk : w.KnowsRun id) (hg : Goes e w w' news) (hw : w.Coherent) :
    w'.KnowsRun id := by
  cases hk with
  | root hr hroot =>
    obtain ⟨q,hq,hid,-⟩ := hg.root_stays hw hr hroot
    rw [← hid] at hroot ⊢
    exact .root hq hroot
  | nested hid hlt => exact .nested (hid.goes hg hw) (hg.started_above hw hid hlt)

/-- A run that has just started was not known. -/
theorem Goes.newcomer_ne (hg : Goes e w w' news) {q : Run} (hq : q ∈ w'.runs)
    (hnew : ∀ r ∈ w.runs, r.id ≠ q.id) {id : RunId} (hk : w.KnowsRun id) : q.id ≠ id := by
  intro he
  cases hk with
  | root hr => exact hnew _ hr he.symm
  | nested _ hlt =>
    obtain ⟨-,⟨hroot,-⟩ | ⟨t,ht,k,hle,hid,-⟩⟩ := hg.newcomer hq hnew
    · rw [he] at hroot
      cases hroot
    · obtain ⟨rfl,rfl⟩ := RunId.child_inj (hid.symm.trans he)
      exact absurd (hlt t ht rfl) (Nat.not_lt.mpr hle)

/-- A task that has just been dispatched was not known. -/
theorem Goes.dispatch_ne (hg : Goes e w w' news) (hw : w.Coherent) (hw' : w'.Coherent)
    (ht : t ∈ w'.tasks) (hnew : ∀ u ∈ w.tasks, u.id ≠ t.id) {id : TaskId} (hk : w.Knows id) :
    t.id ≠ id := by
  rintro rfl
  obtain ⟨q,hq,hat⟩ := hw'.home t ht
  obtain ⟨⟨r,hr,hid,hopen⟩,-⟩ := hg.dispatch ht hnew hq hat.id
  exact hopen (hk.hasDispatched hw hr (hid.trans hat.id))

end World

/-- Why a run starts: from outside, without results, or by a task that was dispatched. -/
def HasCause (log : List Entry) (id : RunId) (graph : Graph) (first : Scope) : Prop :=
  id.steps = [] ∧ first.results = [] ∨
    ∃ t s k, .dispatches t s ∈ log ∧ id = t.id.child k ∧ t.Starts graph first

/-- What is written down tells of all runs and tasks, and of each of them the same. -/
structure Books (log : List Entry) (w : World) : Prop where
  runs : ∀ r ∈ w.runs, ∃ first, .starts r.id r.schedule.graph first ∈ log ∧
    Schedule.Later (.start r.schedule.graph first) r.schedule
  tasks : ∀ t ∈ w.tasks, ∃ u s, .dispatches u s ∈ log ∧ u.id = t.id ∧ u.node = t.node ∧
    u.scope = t.scope
  known : ∀ id graph first, .starts id graph first ∈ log → w.KnowsRun id
  started : ∀ id graph first, .starts id graph first ∈ log → HasCause log id graph first
  dispatched : ∀ t s, .dispatches t s ∈ log → w.Knows t.id ∧ t.node ∈ s.graph.nodes ∧
    t.scope = s.scope ∧ ∃ first, .starts t.id.run s.graph first ∈ log ∧
      Schedule.Later (.start s.graph first) s
  starts_once : ∀ id graph graph' first first', .starts id graph first ∈ log →
    .starts id graph' first' ∈ log → graph = graph' ∧ first = first'
  dispatches_once : ∀ t u s s', .dispatches t s ∈ log → .dispatches u s' ∈ log → t.id = u.id →
    t = u

namespace Books

variable {e : Engine} {w w' : World} {log : List Entry} {news : List Letter}

theorem runs_goes (h : Books log w) (hg : World.Goes e w w' news) (hw : w.Coherent) {q : Run}
    (hq : q ∈ w'.runs) : ∃ first, .starts q.id q.schedule.graph first ∈ log ++ w.entries w' ∧
      Schedule.Later (.start q.schedule.graph first) q.schedule := by
  by_cases hold : ∃ r ∈ w.runs, r.id = q.id
  · obtain ⟨r,hr,hid⟩ := hold
    obtain ⟨first,hmem,hl⟩ := h.runs r hr
    have hlater : Schedule.Later r.schedule q.schedule := by
      obtain ⟨hs,-⟩ | ⟨fresh,hcourse⟩ := hg.same_run hw hr hq hid.symm
      · rw [hs]
        exact .refl
      · exact hcourse.later
    rw [← hid,hlater.frame.1]
    exact ⟨first,List.mem_append_left _ hmem,hl.trans hlater⟩
  · have hnew (r : Run) (hr : r ∈ w.runs) : r.id ≠ q.id := fun hid => hold ⟨r,hr,hid⟩
    obtain ⟨⟨graph,scope,hs⟩,-⟩ := hg.newcomer hq hnew
    have hentry : .starts q.id q.schedule.graph scope ∈ w.entries w' :=
      World.starts_mem_entries.mpr ⟨q,hq,hnew,rfl,rfl,by rw [hs]; rfl⟩
    refine ⟨scope,List.mem_append_right _ hentry,?_⟩
    rw [hs]
    exact .refl

theorem tasks_goes (h : Books log w) (hg : World.Goes e w w' news) (hw : w.Coherent)
    (hw' : w'.Coherent) {t : Task} (ht : t ∈ w'.tasks) :
    ∃ u s, .dispatches u s ∈ log ++ w.entries w' ∧ u.id = t.id ∧ u.node = t.node ∧
      u.scope = t.scope := by
  obtain ⟨hmem,-⟩ | ⟨-,-,r,hr,hid,hopen⟩ | ⟨v,hv,d,es,hp,-,hfollows⟩ := hg.task_from ht
  · obtain ⟨u,s,hus,hsame⟩ := h.tasks t hmem
    exact ⟨u,s,List.mem_append_left _ hus,hsame⟩
  · have hnew : ∀ u ∈ w.tasks, u.id ≠ t.id := by
      intro u hu he
      rw [← he] at hid hopen
      exact hopen ((hw.knows hu).hasDispatched hw hr hid)
    obtain ⟨q,hq,hat⟩ := hw'.home t ht
    exact ⟨t,q.schedule,List.mem_append_right _ (World.dispatches_mem_entries.mpr
      ⟨ht,hnew,q,hq,hat.id,rfl⟩),rfl,rfl,rfl⟩
  · obtain ⟨u,s,hus,hid,hnode,hscope⟩ := h.tasks v hv
    obtain ⟨p,-,rfl⟩ := Option.map_eq_some_iff.mp hfollows
    exact ⟨u,s,List.mem_append_left _ hus,hid,hnode,hscope⟩

theorem started_goes (h : Books log w) (hg : World.Goes e w w' news) {id : RunId} {graph : Graph}
    {first : Scope} (hmem : .starts id graph first ∈ log ++ w.entries w') :
    HasCause (log ++ w.entries w') id graph first := by
  rcases List.mem_append.mp hmem with hmem | hmem
  · obtain hroot | ⟨t,s,k,hts,hid,hstarts⟩ := h.started id graph first hmem
    · exact .inl hroot
    · exact .inr ⟨t,s,k,List.mem_append_left _ hts,hid,hstarts⟩
  · obtain ⟨q,hq,hnew,rfl,rfl,rfl⟩ := World.starts_mem_entries.mp hmem
    obtain ⟨-,hroot | ⟨t,ht,k,-,hid,hstarts⟩⟩ := hg.newcomer hq hnew
    · exact .inl hroot
    · obtain ⟨u,s,hus,huid,hnode,hscope⟩ := h.tasks t ht
      exact .inr ⟨u,s,k,List.mem_append_left _ hus,huid ▸ hid,hstarts.of_same hnode hscope⟩

theorem dispatched_goes (h : Books log w) (hg : World.Goes e w w' news) (hw : w.Coherent)
    (hw' : w'.Coherent) {t : Task} {s : Schedule}
    (hmem : .dispatches t s ∈ log ++ w.entries w') : w'.Knows t.id ∧ t.node ∈ s.graph.nodes ∧
    t.scope = s.scope ∧ ∃ first, .starts t.id.run s.graph first ∈ log ++ w.entries w' ∧
      Schedule.Later (.start s.graph first) s := by
  rcases List.mem_append.mp hmem with hmem | hmem
  · obtain ⟨hk,hnode,hscope,first,hfirst,hl⟩ := h.dispatched t s hmem
    exact ⟨hk.goes hg hw,hnode,hscope,first,List.mem_append_left _ hfirst,hl⟩
  · obtain ⟨ht,hnew,q,hq,hid,rfl⟩ := World.dispatches_mem_entries.mp hmem
    obtain ⟨-,hscope,hnode⟩ := hg.dispatch ht hnew hq hid
    obtain ⟨first,hfirst,hl⟩ := h.runs_goes hg hw hq
    exact ⟨hw'.knows ht,hnode,hscope,first,hid ▸ hfirst,hl⟩

theorem starts_once_goes (h : Books log w) (hg : World.Goes e w w' news) (hw' : w'.Coherent)
    {id : RunId} {graph graph' : Graph} {first first' : Scope}
    (hmem : .starts id graph first ∈ log ++ w.entries w')
    (hmem' : .starts id graph' first' ∈ log ++ w.entries w') : graph = graph' ∧ first = first' := by
  rcases List.mem_append.mp hmem with hold | hnow
  · rcases List.mem_append.mp hmem' with hold' | hnow'
    · exact h.starts_once id _ _ _ _ hold hold'
    · obtain ⟨q,hq,hnew,hid,-⟩ := World.starts_mem_entries.mp hnow'
      exact absurd hid (hg.newcomer_ne hq hnew (h.known _ _ _ hold))
  · obtain ⟨q,hq,hnew,hid,hgraph,hscope⟩ := World.starts_mem_entries.mp hnow
    rcases List.mem_append.mp hmem' with hold' | hnow'
    · exact absurd hid (hg.newcomer_ne hq hnew (h.known _ _ _ hold'))
    · obtain ⟨p,hp,-,hpid,hpgraph,hpscope⟩ := World.starts_mem_entries.mp hnow'
      obtain rfl := hw'.run_unique hq hp (hid.trans hpid.symm)
      exact ⟨hgraph.symm.trans hpgraph,hscope.symm.trans hpscope⟩

theorem dispatches_once_goes (h : Books log w) (hg : World.Goes e w w' news) (hw : w.Coherent)
    (hw' : w'.Coherent) {t u : Task} {s s' : Schedule}
    (hmem : .dispatches t s ∈ log ++ w.entries w')
    (hmem' : .dispatches u s' ∈ log ++ w.entries w') (hid : t.id = u.id) : t = u := by
  rcases List.mem_append.mp hmem with hold | hnow
  · rcases List.mem_append.mp hmem' with hold' | hnow'
    · exact h.dispatches_once _ _ _ _ hold hold' hid
    · obtain ⟨hu,hnew,-⟩ := World.dispatches_mem_entries.mp hnow'
      exact absurd hid.symm (hg.dispatch_ne hw hw' hu hnew (h.dispatched _ _ hold).1)
  · obtain ⟨ht,hnew,-⟩ := World.dispatches_mem_entries.mp hnow
    rcases List.mem_append.mp hmem' with hold' | hnow'
    · exact absurd hid (hg.dispatch_ne hw hw' ht hnew (h.dispatched _ _ hold').1)
    · exact hw'.task_unique ht (World.dispatches_mem_entries.mp hnow').1 hid

theorem goes (h : Books log w) (hg : World.Goes e w w' news) (hw : w.Coherent)
    (hw' : w'.Coherent) : Books (log ++ w.entries w') w' where
  runs _ hq := h.runs_goes hg hw hq
  tasks _ ht := h.tasks_goes hg hw hw' ht
  known id graph first hmem := by
    rcases List.mem_append.mp hmem with hmem | hmem
    · exact (h.known id graph first hmem).goes hg hw
    · obtain ⟨q,hq,-,rfl,-⟩ := World.starts_mem_entries.mp hmem
      exact hw'.knowsRun hq
  started _ _ _ hmem := h.started_goes hg hmem
  dispatched _ _ hmem := h.dispatched_goes hg hw hw' hmem
  starts_once _ _ _ _ _ hmem hmem' := h.starts_once_goes hg hw' hmem hmem'
  dispatches_once _ _ _ _ hmem hmem' hid := h.dispatches_once_goes hg hw hw' hmem hmem' hid

end Books

namespace Journal

variable {e : Engine} {w : World} {log : List Entry}

theorem reaches (hj : Journal e log w) : Reaches e w := by
  induction hj with
  | world => exact .world
  | step _ hs ih => exact ih.step hs

theorem chronicle (hj : Journal e log w) : Chronicle e (log.filterMap Entry.letter?) w := by
  induction hj with
  | world => exact .world
  | step _ hs ih =>
    rw [List.filterMap_append,World.entries_letters]
    exact ih.step hs

theorem books (hj : Journal e log w) : Books log w := by
  induction hj with
  | world =>
    constructor
    all_goals
      intros
      contradiction
  | step hj hs ih =>
    have hr := hj.reaches
    exact ih.goes (hs.goes hr) hr.coherent (hr.step hs).coherent

/-- What has come in for a run was told by the tasks of its own nodes. -/
theorem told (hj : Journal e log w) {r : Run} (hr : r ∈ w.runs) {event : Event}
    (he : event ∈ r.inbox) :
    ∃ x, .tells x ∈ log ∧ x.task = ⟨r.id,event.node⟩ ∧ x.event = event := by
  obtain ⟨scope,h,s,ht⟩ := hj.chronicle.traces r hr
  have hheard : event ∈ heard (log.filterMap Entry.letter?) (TaskId.mk r.id event.node).run := by
    rw [ht.sent]
    exact List.mem_append_right _ he
  obtain ⟨x,hx,htask,hevent⟩ := hj.chronicle.letter_of_heard hheard rfl
  refine ⟨x,?_,htask,hevent⟩
  obtain ⟨entry,hentry,hletter⟩ := List.mem_filterMap.mp hx
  cases entry with
  | tells => exact Option.some.inj hletter ▸ hentry
  | _ => cases hletter

end Journal

theorem Reaches.journal {e : Engine} {w : World} (hr : Reaches e w) : ∃ log, Journal e log w := by
  induction hr with
  | world => exact ⟨[],.world⟩
  | step _ hs ih =>
    obtain ⟨log,hj⟩ := ih
    exact ⟨_,hj.step hs⟩

end TaskGraph.Engine
