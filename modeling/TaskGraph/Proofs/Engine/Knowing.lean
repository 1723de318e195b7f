import TaskGraph.Proofs.Engine.Letters

/-!
The ids of tasks that an engine knows. Those of all tasks that there are or that were there are known;
whatever comes new gets an id that was not known.
-/

namespace TaskGraph.Engine

namespace World

/-- Whether a task was dispatched: in a started run, or in one of the runs that a known task has
started. -/
inductive Knows (w : World) : TaskId → Prop
  | root {r : Run} {node : String} : r ∈ w.runs → r.id.steps = [] → r.HasDispatched node →
    Knows w ⟨r.id,node⟩
  | nested {id : TaskId} {k : Nat} {node : String} : Knows w id →
    (∀ t ∈ w.tasks, t.id = id → k < t.started) →
    (∀ r ∈ w.runs, r.id = id.child k → r.HasDispatched node) → Knows w ⟨id.child k,node⟩

variable {e : Engine} {w w' : World} {r : Run} {t : Task} {d : Deed} {es : List Event}
  {news : List Letter}

theorem Knows.hasDispatched {id : TaskId} (hk : w.Knows id) (hw : w.Coherent) (hr : r ∈ w.runs)
    (hid : r.id = id.run) : r.HasDispatched id.node := by
  cases hk with
  | root hq _ hd =>
    obtain rfl := hw.run_unique hr hq hid
    exact hd
  | nested _ _ hd => exact hd r hr hid

/-- No known task has started the next run of a task. -/
theorem Knows.ne_child {id : TaskId} (hk : w.Knows id) (ht : t ∈ w.tasks) {k : Nat}
    (hle : t.started ≤ k) : id.run ≠ t.id.child k := by
  intro he
  cases hk with
  | @root r _ _ hroot =>
    have hid : r.id = t.id.child k := he
    rw [hid] at hroot
    cases hroot
  | nested _ hlt =>
    obtain ⟨rfl,rfl⟩ := RunId.child_inj he
    exact absurd (hlt t ht rfl) (Nat.not_lt.mpr hle)

/-- The started run of a known task is there. -/
theorem Knows.root_mem {id : TaskId} (hk : w.Knows id) : ∃ r ∈ w.runs, r.id.root = id.run.root := by
  induction hk with
  | root hr => exact ⟨_,hr,rfl⟩
  | nested _ _ _ ih => exact ih

theorem Task.At.hasDispatched (h : t.At r) : r.HasDispatched t.id.node := by
  cases hl : t.phase.isLeaving with
  | false => exact .inl (h.going hl).1
  | true => exact h.left hl

theorem Coherent.knows (hw : w.Coherent) (ht : t ∈ w.tasks) : w.Knows t.id := by
  induction hlen : t.id.run.steps.length using Nat.strong_induction_on generalizing t with
  | _ n ih =>
    obtain ⟨r,hr,hat⟩ := hw.home t ht
    have hd := Task.At.hasDispatched hat
    obtain hroot | ⟨u,hu,hmem⟩ := hw.owned r hr
    · have hknown := Knows.root hr hroot hd
      rwa [hat.id] at hknown
    · obtain ⟨k,hk,hid⟩ := (hw.task u hu).runs r.id hmem
      rw [hat.id] at hid
      have hup := ih _ (by rw [← hlen,hid]; exact Nat.lt_succ_self _) hu rfl
      have hknown : w.Knows ⟨u.id.child k,t.id.node⟩ := by
        refine .nested hup (fun v hv he => ?_) fun q hq he => ?_
        · rwa [hw.task_unique hv hu he]
        · rwa [hw.run_unique hq hr (he.trans (hid.symm.trans hat.id.symm))]
      rwa [← hid] at hknown

section Steps

theorem Performs.mem_runs (h : Performs e w w' t d es) {q : Run} : q ∈ w'.runs ↔
    (∃ r ∈ w.runs, Stays t r.id ∧ q = r.hear t.id.run es) ∨ q ∈ d.opened := by
  rw [h.runs,List.mem_append,List.mem_map]
  refine or_congr_left (exists_congr fun r => ?_)
  rw [List.mem_filter,Bool.not_eq_true',and_assoc,eq_comm (b := q)]
  exact Iff.rfl

/-- Whence a run comes. -/
theorem Goes.run_from (hg : Goes e w w' news) (hw : w.Coherent) {q : Run} (hq : q ∈ w'.runs) :
    (∃ r ∈ w.runs, q.id = r.id ∧ ∀ node, r.HasDispatched node → q.HasDispatched node) ∨
    (q.id.steps = [] ∧ ∀ r ∈ w.runs, r.id.root ≠ q.id.root) ∨
    ∃ t ∈ w.tasks, ∃ k, t.started ≤ k ∧ q.id = t.id.child k := by
  cases hg with
  | starts _ hroot hfree _ hruns =>
    rw [hruns] at hq
    rcases List.mem_append.mp hq with hq | hq
    · exact .inl ⟨q,hq,rfl,fun _ h => h⟩
    · obtain rfl := List.mem_singleton.mp hq
      exact .inr (.inl ⟨hroot,hfree⟩)
  | @passes r r' _ hr _ hid hcourse hruns =>
    rw [hruns] at hq
    obtain rfl | ⟨hq,-⟩ := (mem_setRun hr hid).mp hq
    · exact .inl ⟨r,hr,hid,fun _ h => hcourse.hasDispatched (hw.run r hr) h⟩
    · exact .inl ⟨q,hq,rfl,fun _ h => h⟩
  | @performs t d es ht hp =>
    obtain ⟨r,hr,-,rfl⟩ | hq := hp.mem_runs.mp hq
    · exact .inl ⟨r,hr,rfl,fun _ h => h⟩
    · exact .inr (.inr ⟨t,ht,hp.fits.opened_id hq⟩)
  | leaves _ _ hruns | waits hruns =>
    rw [hruns] at hq
    exact .inl ⟨q,hq,rfl,fun _ h => h⟩

/-- A started run stays. -/
theorem Goes.root_stays (hg : Goes e w w' news) (hw : w.Coherent) (hr : r ∈ w.runs)
    (hroot : r.id.steps = []) :
    ∃ q ∈ w'.runs, q.id = r.id ∧ ∀ node, r.HasDispatched node → q.HasDispatched node := by
  cases hg with
  | starts _ _ _ _ hruns =>
    rw [hruns]
    exact ⟨r,List.mem_append_left _ hr,rfl,fun _ h => h⟩
  | @passes r₀ r' _ hr₀ _ hid hcourse hruns =>
    rw [hruns]
    by_cases he : r.id = r₀.id
    · obtain rfl := hw.run_unique hr hr₀ he
      exact ⟨r',(mem_setRun hr hid).mpr (.inl rfl),hid,
        fun _ h => hcourse.hasDispatched (hw.run r hr) h⟩
    · exact ⟨r,(mem_setRun hr₀ hid).mpr (.inr ⟨hr,he⟩),rfl,fun _ h => h⟩
  | @performs t d es ht hp =>
    refine ⟨r.hear t.id.run es,hp.mem_runs.mpr (.inl ⟨r,hr,?_,rfl⟩),rfl,fun _ h => h⟩
    -- What a task drops lies in runs that it has started.
    refine stays_iff.mpr fun x hx => ?_
    obtain ⟨k,-,rfl⟩ := (hw.task t ht).runs x hx
    rw [Bool.eq_false_iff]
    intro hin
    have hle := (RunId.isWithin_iff.mp hin).2.length_le
    rw [hroot] at hle
    cases hle
  | leaves _ _ hruns | waits hruns =>
    rw [hruns]
    exact ⟨r,hr,rfl,fun _ h => h⟩

/-- Whence a task comes: it was there and has sent nothing, or it is new, or it has done something. -/
theorem Goes.task_from (hg : Goes e w w' news) {u : Task} (hu : u ∈ w'.tasks) :
    (u ∈ w.tasks ∧ ∀ x ∈ news, x.task ≠ u.id) ∨
    (u.phase = .asking ∧ news = [] ∧ ∃ r ∈ w.runs, r.id = u.id.run ∧
      ¬ r.HasDispatched u.id.node) ∨
    ∃ t ∈ w.tasks, ∃ d es, Performs e w w' t d es ∧ news = t.letters es ∧
      d.follower? t = some u := by
  have hnone {u : Task} : ∀ x ∈ ([] : List Letter), x.task ≠ u.id := by
    intro x hx
    cases hx
  cases hg with
  | starts _ _ _ _ _ htasks | waits _ htasks =>
    rw [htasks] at hu
    exact .inl ⟨hu,hnone⟩
  | @passes r _ _ hr _ _ hcourse _ htasks =>
    rw [htasks] at hu
    rcases List.mem_append.mp hu with hu | hu
    · exact .inl ⟨hu,hnone⟩
    · obtain ⟨hid,hphase,hnew⟩ := hcourse.of_fresh hu
      exact .inr (.inl ⟨hphase,rfl,r,hr,hid.symm,hnew⟩)
  | @performs t d es ht hp =>
    obtain ⟨hu,-,hne⟩ | hu := (hp.tasks u).mp hu
    · refine .inl ⟨hu,fun x hx he => ?_⟩
      obtain ⟨y,hy,rfl⟩ := List.mem_map.mp hx
      exact hne he.symm
    · exact .inr (.inr ⟨t,ht,d,es,hp,rfl,hu⟩)
  | leaves _ _ _ htasks =>
    rw [htasks] at hu
    exact .inl ⟨List.mem_of_mem_filter hu,hnone⟩

/-- Whoever sends a letter is a task that does something. -/
theorem Goes.sender (hg : Goes e w w' news) {x : Letter} (hx : x ∈ news) :
    ∃ t ∈ w.tasks, ∃ d es, Performs e w w' t d es ∧ news = t.letters es ∧ x.event ∈ es ∧
      x.task = t.id ∧ x.tags = t.node.tags := by
  cases hg with
  | @performs t d es ht hp =>
    obtain ⟨y,hy,rfl⟩ := List.mem_map.mp hx
    exact ⟨t,ht,d,es,hp,rfl,hy,rfl,rfl⟩
  | _ => cases hx

/-- What a known task has started stays below what it starts later. -/
theorem Goes.started_above {id : TaskId} {k : Nat} (hg : Goes e w w' news) (hw : w.Coherent)
    (hk : w.Knows id) (hlt : ∀ t ∈ w.tasks, t.id = id → k < t.started) :
    ∀ u ∈ w'.tasks, u.id = id → k < u.started := by
  intro u hu he
  obtain ⟨hu,-⟩ | ⟨-,-,r,hr,hid,hnew⟩ | ⟨t,ht,d,es,hp,-,hfollows⟩ := hg.task_from hu
  · exact hlt u hu he
  · exact absurd (he ▸ hk.hasDispatched hw hr (hid.trans (by rw [he]))) hnew
  · obtain ⟨hid,-,hstarted,-⟩ := hp.fits.follower hfollows
    have hbefore := hlt t ht (hid.symm.trans he)
    omega

/-- What is known stays known. -/
theorem Knows.goes {id : TaskId} (hk : w.Knows id) (hg : Goes e w w' news) (hw : w.Coherent) :
    w'.Knows id := by
  induction hk with
  | root hr hroot hd =>
    obtain ⟨q,hq,hid,hdispatched⟩ := hg.root_stays hw hr hroot
    rw [← hid] at hroot ⊢
    exact .root hq hroot (hdispatched _ hd)
  | @nested id k node hup hlt hd ih =>
    refine .nested ih (hg.started_above hw hup hlt) fun q hq he => ?_
    obtain ⟨r,hr,hid,hdispatched⟩ | ⟨hroot,-⟩ | ⟨t,ht,j,hle,hid⟩ := hg.run_from hw hq
    · exact hdispatched _ (hd r hr (hid.symm.trans he))
    · rw [he] at hroot
      cases hroot
    · obtain ⟨rfl,rfl⟩ := RunId.child_inj (he.symm.trans hid)
      exact absurd (hlt t ht rfl) (Nat.not_lt.mpr hle)

end Steps

end World

variable {e : Engine} {log : List Letter} {w : World}

/-- Only known tasks have sent letters. -/
theorem Chronicle.known (hc : Chronicle e log w) : ∀ x ∈ log, w.Knows x.task := by
  induction hc with
  | world =>
    intro x hx
    cases hx
  | @step log w w' turn hc hs ih =>
    have hw := hc.reaches.coherent
    have hg := hs.goes hc.reaches
    intro x hx
    rcases List.mem_append.mp hx with hx | hx
    · exact (ih x hx).goes hg hw
    · obtain ⟨t,ht,-,-,-,-,-,htask,-⟩ := hg.sender hx
      rw [htask]
      exact (hw.knows ht).goes hg hw

end TaskGraph.Engine
