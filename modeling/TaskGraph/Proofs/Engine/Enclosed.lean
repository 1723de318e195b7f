import TaskGraph.Proofs.Engine.Fading
import TaskGraph.Proofs.Graph.Nesting

/-!
What lies inside what. Nested runs are runs of the graphs inside the node that started them, and their
nodes know the tags that are held around them.
-/

namespace TaskGraph.Engine

/-- Whether a node lies inside another, at any depth. -/
def TaskId.IsInside (inner outer : TaskId) : Prop :=
  ∃ k, inner.run.isWithin (outer.child k) = true

namespace World

/-- Started runs hold nothing and run built graphs; in nested ones the tags of the nodes around them
are held. -/
structure Layered (cap : Nat) (w : World) : Prop where
  root : ∀ r ∈ w.runs, r.id.steps = [] →
    r.held = [] ∧ ∃ d : Definition, d.build cap = .ok r.schedule.graph
  task : ∀ t ∈ w.tasks, ∀ r ∈ w.runs, r.id = t.id.run → t.held = r.held
  nested : ∀ t ∈ w.tasks, ∀ r ∈ w.runs, r.id ∈ t.phase.runs →
    r.held = t.held.union t.node.tags ∧ r.schedule.graph ∈ t.node.nested

variable {w v w' : World} {r : Run} {t u : Task} {d : Deed} {cap : Nat}

/-- A run with the same place in a world. -/
def SamePlace (r q : Run) : Prop :=
  q.id = r.id ∧ q.held = r.held ∧ q.schedule.graph = r.schedule.graph

theorem SamePlace.refl (r : Run) : SamePlace r r := ⟨rfl,rfl,rfl⟩

theorem SamePlace.trans {r q p : Run} (h : SamePlace r q) (h' : SamePlace q p) : SamePlace r p :=
  ⟨h'.1.trans h.1,h'.2.1.trans h.2.1,h'.2.2.trans h.2.2⟩

/-- A turn of a run opens none. -/
theorem RunTurn.same (h : RunTurn w r w') (hr : r ∈ w.runs) :
    ∀ q ∈ w'.runs, ∃ p ∈ w.runs, SamePlace p q := by
  obtain ⟨r',fresh,hplace,hruns,-⟩ := h.spec
  intro q hq
  rw [hruns] at hq
  obtain rfl | ⟨hq,-⟩ := (mem_setRun hr hplace.1).mp hq
  · exact ⟨r,hr,hplace⟩
  · exact ⟨q,hq,.refl q⟩

theorem same_post (hw : w.Coherent) (id : RunId) (e : Event) :
    ∀ q ∈ (w.post id e).runs, ∃ p ∈ w.runs, SamePlace p q := by
  intro q hq
  rw [post_runs w id e hw.runs_nodup] at hq
  obtain ⟨r,hr,rfl⟩ := List.mem_map.mp hq
  refine ⟨r,hr,?_⟩
  split <;> exact ⟨rfl,rfl,rfl⟩

theorem Layered.of_same (h : w.Layered cap) (hr : ∀ q ∈ v.runs, ∃ r ∈ w.runs, SamePlace r q)
    (ht : v.tasks ⊆ w.tasks) : v.Layered cap where
  root q hq hroot := by
    obtain ⟨r,hr,hid,hheld,hgraph⟩ := hr q hq
    rw [hheld,hgraph]
    exact h.root r hr (hid ▸ hroot)
  task t htv q hq he := by
    obtain ⟨r,hr,hid,hheld,-⟩ := hr q hq
    rw [hheld]
    exact h.task t (ht htv) r hr (hid ▸ he)
  nested t htv q hq he := by
    obtain ⟨r,hr,hid,hheld,hgraph⟩ := hr q hq
    rw [hheld,hgraph]
    exact h.nested t (ht htv) r hr (hid ▸ he)

theorem Layered.of_alike (h : w.Layered cap) (ha : Alike w v) : v.Layered cap := by
  refine h.of_same (fun q hq => ⟨q,ha.runs ▸ hq,.refl q⟩) ?_
  rw [ha.tasks]
  exact List.Subset.refl _

theorem Layered.post (h : w.Layered cap) (hw : w.Coherent) (id : RunId) (e : Event) :
    (w.post id e).Layered cap := by
  refine h.of_same (same_post hw id e) ?_
  rw [(w.post_frame id e).2.1]
  exact List.Subset.refl _

theorem Layered.runTurn (h : w.Layered cap) (hw : w.Coherent) (hr : r ∈ w.runs)
    (hturn : RunTurn w r w') : w'.Layered cap := by
  have hold := hturn.same hr
  obtain ⟨-,fresh,-,-,htasks,hfresh,-⟩ := hturn.spec
  constructor
  · intro q hq hroot
    obtain ⟨p,hp,hid,hheld,hgraph⟩ := hold q hq
    rw [hheld,hgraph]
    exact h.root p hp (hid ▸ hroot)
  · intro t ht q hq he
    obtain ⟨p,hp,hid,hheld,-⟩ := hold q hq
    rw [htasks] at ht
    rw [hheld]
    rcases List.mem_append.mp ht with ht | ht
    · exact h.task t ht p hp (hid ▸ he)
    · obtain ⟨hrun,hheld',-⟩ := hfresh t ht
      rw [hheld',hw.run_unique hp hr (hid.symm.trans (he.trans hrun))]
  · intro t ht q hq he
    obtain ⟨p,hp,hid,hheld,hgraph⟩ := hold q hq
    rw [htasks] at ht
    rw [hheld,hgraph]
    rcases List.mem_append.mp ht with ht | ht
    · exact h.nested t ht p hp (hid ▸ he)
    · rw [(hfresh t ht).2.2] at he
      cases he

/-- The runs that a task opens are nested in it and in nothing else. -/
theorem Layered.acts (h : w.Layered cap) (hw : w.Coherent) (ht : t ∈ w.tasks)
    (ha : (w.discard t.phase.runs).Acts w' t d) (hf : d.Fits t) : w'.Layered cap := by
  -- The ids of the opened runs are new.
  have hnew {q r : Run} (hq : q ∈ d.opened) (hr : r ∈ w.runs) (hid : r.id = q.id) {P : Prop} : P :=
    absurd hid (hw.opened_fresh ht hf hq r hr)
  constructor
  · intro q hq hroot
    obtain ⟨r,hr,-,rfl⟩ | hq := (ha.mem_runs hw).mp hq
    · exact h.root r hr hroot
    · obtain ⟨k,-,hid⟩ := hf.opened_id hq
      rw [hid] at hroot
      cases hroot
  · intro u hu q hq he
    obtain ⟨r,hr,-,rfl⟩ | hq := (ha.mem_runs hw).mp hq
    · obtain ⟨hu,-⟩ | hu := (ha.mem_tasks hw ht).mp hu
      · exact h.task u hu r hr he
      · obtain ⟨p,-,rfl⟩ := Option.map_eq_some_iff.mp hu
        exact h.task t ht r hr he
    · obtain ⟨hu,-⟩ | hu := (ha.mem_tasks hw ht).mp hu
      · obtain ⟨home,hhome,hat⟩ := hw.home u hu
        exact hnew hq hhome (hat.id.trans he.symm)
      · obtain ⟨p,-,rfl⟩ := Option.map_eq_some_iff.mp hu
        obtain ⟨home,hhome,hat⟩ := hw.home t ht
        exact hnew hq hhome (hat.id.trans he.symm)
  · intro u hu q hq he
    obtain ⟨hu,-⟩ | hu := (ha.mem_tasks hw ht).mp hu
    · obtain ⟨r,hr,-,rfl⟩ | hq := (ha.mem_runs hw).mp hq
      · exact h.nested u hu r hr he
      · obtain ⟨r,hr,hid⟩ := hw.children u hu q.id he
        exact hnew hq hr hid
    · rw [(hf.follower hu).2.2.2.1] at he
      obtain ⟨o,ho,hid⟩ := List.mem_map.mp he
      obtain ⟨r,hr,-,rfl⟩ | hq := (ha.mem_runs hw).mp hq
      · exact hnew ho hr hid.symm
      · obtain ⟨p,-,rfl⟩ := Option.map_eq_some_iff.mp hu
        obtain ⟨g,hg,hn⟩ := hf.opened q hq
        obtain ⟨scope,hs⟩ := hn.schedule
        refine ⟨hf.held q hq,?_⟩
        rw [hs]
        exact hg

theorem Layered.turn (h : w.Layered cap) (hw : w.Coherent) (ht : t ∈ w.tasks) (hd : Turn w w' t) :
    w'.Layered cap := by
  cases hd with
  | idle _ ha => exact h.of_alike ha
  | begins time _ hp ha hd =>
    obtain ⟨hstart,htasks,d,hact,hf⟩ := hw.begun ht hp ha hd
    exact ((h.post hw t.id.run _).of_alike ha).acts hstart (htasks ▸ ht) hact hf
  | acts hl hd =>
    obtain ⟨d,ha,hf,-⟩ := hd
    exact h.acts hw ht ha hf
  | leaves hl ha =>
    have hkept : ({ w with tasks := w.tasks.filter fun other => other.id != t.id } :
        World).Layered cap :=
      h.of_same (fun q hq => ⟨q,hq,.refl q⟩) fun u hu => List.mem_of_mem_filter hu
    exact hkept.of_alike ha

theorem Layered.start (h : w.Layered cap) (hw : w.Coherent) {run : Run} {graph : Graph}
    {definition : Definition} {number : Nat} (hb : definition.build cap = .ok graph)
    (hn : run.IsNew graph) (hheld : run.held = []) (hid : run.id = ⟨number,[]⟩)
    (hfree : ∀ r ∈ w.runs, r.id.root ≠ number) :
    ({ w with runs := w.runs ++ [run] } : World).Layered cap := by
  have hnew {r : Run} (hr : r ∈ w.runs) (he : r.id = run.id) {P : Prop} : P :=
    absurd (by rw [he,hid]) (hfree r hr)
  constructor
  · intro q hq hroot
    rcases List.mem_append.mp hq with hq | hq
    · exact h.root q hq hroot
    · rw [List.mem_singleton.mp hq]
      obtain ⟨scope,hs⟩ := hn.schedule
      exact ⟨hheld,definition,by rw [hs]; exact hb⟩
  · intro t ht q hq he
    rcases List.mem_append.mp hq with hq | hq
    · exact h.task t ht q hq he
    · rw [List.mem_singleton.mp hq] at he
      obtain ⟨home,hhome,hat⟩ := hw.home t ht
      exact hnew hhome (hat.id.trans he.symm)
  · intro t ht q hq he
    rcases List.mem_append.mp hq with hq | hq
    · exact h.nested t ht q hq he
    · rw [List.mem_singleton.mp hq] at he
      obtain ⟨r,hr,hrid⟩ := hw.children t ht run.id he
      exact hnew hr hrid

end World

variable {e : Engine} {w : World}

theorem Reaches.layered (hr : Reaches e w) : w.Layered e.config.maxIterations := by
  induction hr with
  | world =>
    constructor
    all_goals
      intro x hx
      cases hx
  | @step w w' turn hr hs ih =>
    cases hs with
    | start hk hfree hstart =>
      obtain ⟨graph,run,hb,hn,hid,ha,hheld,-⟩ := start_spec hstart
      exact (ih.start hr.coherent hb hn hheld hid hfree).of_alike ha
    | move hm =>
      obtain ⟨r,hrun,-,hturn⟩ | ⟨t,ht,-,hstep⟩ | ⟨-,⟨n,rfl⟩ | ⟨millis,rfl⟩⟩ :=
        World.move_cases hm
      · exact ih.runTurn hr.coherent hrun hturn
      · have hs := hr.coherent.task t ht
        exact ih.turn hr.coherent ht (World.stepTask_turn hs.node hs.phase hstep)
      · obtain ⟨cancelled,ha,-⟩ := w.cancel_alike n
        have hsame : ({ w with cancelled } : World).Layered e.config.maxIterations :=
          ⟨ih.root,ih.task,ih.nested⟩
        exact hsame.of_alike ha
      · exact ⟨ih.root,ih.task,ih.nested⟩
    | agenda ready plans => exact ⟨ih.root,ih.task,ih.nested⟩

namespace World

variable {r : Run} {t : Task} {cap : Nat}

/-- A nested run has a node around it, which belongs to a run that is one level up. -/
theorem Coherent.around (hw : w.Coherent) (hr : r ∈ w.runs) (hn : r.id.steps ≠ []) :
    ∃ t ∈ w.tasks, ∃ q ∈ w.runs, t.At q ∧ r.id ∈ t.phase.runs ∧ (∃ k, r.id = t.id.child k) ∧
      q.id.steps.length < r.id.steps.length := by
  obtain hroot | ⟨t,ht,hmem⟩ := hw.owned r hr
  · exact absurd hroot hn
  obtain ⟨q,hq,hat⟩ := hw.home t ht
  obtain ⟨k,-,hk⟩ := (hw.task t ht).runs r.id hmem
  refine ⟨t,ht,q,hq,hat,hmem,⟨k,hk⟩,?_⟩
  rw [hk,hat.id]
  exact Nat.lt_succ_self _

/-- Every run is the run of a graph that is enclosed by that of its started run. -/
theorem Layered.encloses (hl : w.Layered cap) (hw : w.Coherent) (hr : r ∈ w.runs) :
    ∃ root ∈ w.runs, root.id.steps = [] ∧
      root.schedule.graph.Encloses [] r.held r.schedule.graph := by
  induction hlen : r.id.steps.length using Nat.strong_induction_on generalizing r with
  | _ n ih =>
    by_cases hroot : r.id.steps = []
    · refine ⟨r,hr,hroot,?_⟩
      rw [(hl.root r hr hroot).1]
      exact .self
    · obtain ⟨t,ht,q,hq,hat,hmem,-,hlt⟩ := hw.around hr hroot
      obtain ⟨root,hroot,hsteps,henc⟩ := ih _ (hlen ▸ hlt) hq rfl
      obtain ⟨hheld,hgraph⟩ := hl.nested t ht r hr hmem
      refine ⟨root,hroot,hsteps,?_⟩
      rw [hheld,hl.task t ht q hq hat.id]
      exact henc.inside hat.node hgraph

/-- Every task carries a node of a graph that is enclosed by that of a started run. -/
theorem Layered.site (hl : w.Layered cap) (hw : w.Coherent) (ht : t ∈ w.tasks) :
    ∃ root ∈ w.runs, root.id.steps = [] ∧ ∃ g, root.schedule.graph.Encloses [] t.held g ∧
      t.node ∈ g.nodes := by
  obtain ⟨q,hq,hat⟩ := hw.home t ht
  obtain ⟨root,hroot,hsteps,henc⟩ := hl.encloses hw hq
  refine ⟨root,hroot,hsteps,_,?_,hat.node⟩
  rw [hl.task t ht q hq hat.id]
  exact henc

theorem Layered.tags_nodup (hl : w.Layered cap) (hw : w.Coherent) (ht : t ∈ w.tasks) :
    t.node.tags.Nodup := by
  obtain ⟨root,hroot,hsteps,g,henc,hn⟩ := hl.site hw ht
  obtain ⟨-,d,hb⟩ := hl.root root hroot hsteps
  exact (Definition.nestings_of_build hb henc hn).1

/-- What lies in a run that a task started lies in one that it waits for, and knows the tags of the
task. -/
theorem Layered.inside (hl : w.Layered cap) (hw : w.Coherent) (ht : t ∈ w.tasks) {k : Nat}
    (hr : r ∈ w.runs) (hin : r.id.isWithin (t.id.child k) = true) :
    t.id.child k ∈ t.phase.runs ∧ t.node.tags ⊆ r.held := by
  induction hlen : r.id.steps.length using Nat.strong_induction_on generalizing r with
  | _ n ih =>
    have hnested : r.id.steps ≠ [] := by
      intro hnil
      have := (RunId.isWithin_iff.mp hin).2.length_le
      rw [hnil,TaskId.child] at this
      simp at this
    obtain ⟨u,hu,q,hq,hat,hmem,⟨j,hj⟩,hlt⟩ := hw.around hr hnested
    have hheld := (hl.nested u hu r hr hmem).1
    have hin' := hin
    rw [hj,RunId.child_isWithin] at hin'
    obtain he | hin' := hin'
    · obtain ⟨hid,rfl⟩ := RunId.child_inj he
      obtain rfl := hw.task_unique ht hu hid
      refine ⟨hj ▸ hmem,fun tag htag => ?_⟩
      rw [hheld,NameSet.mem_union]
      exact .inr htag
    · obtain ⟨hmem',hsub⟩ := ih _ (hlen ▸ hlt) hq (hat.id ▸ hin') rfl
      refine ⟨hmem',fun tag htag => ?_⟩
      rw [hheld,hl.task u hu q hq hat.id,NameSet.mem_union]
      exact .inl (hsub htag)

/-- A node that contains another waits for a run inside it, and all its tags are held there. -/
theorem Layered.isInside (hl : w.Layered cap) (hw : w.Coherent) (ht : t ∈ w.tasks)
    {u : Task} (hu : u ∈ w.tasks) (hin : u.id.IsInside t.id) :
    t.phase.runs ≠ [] ∧ t.node.tags ⊆ u.held := by
  obtain ⟨k,hk⟩ := hin
  obtain ⟨q,hq,hat⟩ := hw.home u hu
  obtain ⟨hmem,hsub⟩ := hl.inside hw ht hq (hat.id ▸ hk)
  refine ⟨List.ne_nil_of_mem hmem,?_⟩
  rw [hl.task u hu q hq hat.id]
  exact hsub

end World

end TaskGraph.Engine
