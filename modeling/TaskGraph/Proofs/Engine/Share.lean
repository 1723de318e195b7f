import TaskGraph.Proofs.Engine.Fading

/-!
What a step does to a started run and all that lies in it: nothing, unless it is their turn. Once they
are cancelled they use no action any more, and there are three things left for them to do.
-/

namespace TaskGraph.Engine

namespace World

section Share

variable (w : World) (n : Nat)

def runsOf : List Run := w.runs.filter fun r => r.id.root == n

def tasksOf : List Task := w.tasks.filter fun t => t.id.run.root == n

/-- The uses of actions by the tasks of a started run, at all depths. -/
def invocationsOf : List Invocation := w.invocations.filter fun i => i.task.run.root == n

end Share

variable {w v w' : World} {r : Run} {t : Task} {d : Deed} {n : Nat}

theorem mem_runsOf : r ∈ w.runsOf n ↔ r ∈ w.runs ∧ r.id.root = n := by simp [runsOf]

theorem mem_tasksOf : t ∈ w.tasksOf n ↔ t ∈ w.tasks ∧ t.id.run.root = n := by simp [tasksOf]

/-- A started run stays as it is, with all that lies in it. -/
structure Spares (n : Nat) (w v : World) : Prop where
  runs : v.runsOf n = w.runsOf n
  tasks : v.tasksOf n = w.tasksOf n
  invocations : v.invocationsOf n = w.invocationsOf n

theorem Spares.trans (h : Spares n w v) (h' : Spares n v w') : Spares n w w' where
  runs := h'.runs.trans h.runs
  tasks := h'.tasks.trans h.tasks
  invocations := h'.invocations.trans h.invocations

theorem Alike.spares (h : Alike w v) (n : Nat) : Spares n w v where
  runs := congrArg (List.filter _) h.runs
  tasks := congrArg (List.filter _) h.tasks
  invocations := congrArg (List.filter _) h.invocations

section Lists

variable {α : Type} {p q : α → Bool} {l : List α}

theorem filter_map_of_fixed {f : α → α}
    (h : ∀ x ∈ l, f x = x ∨ p x = false ∧ p (f x) = false) : (l.map f).filter p = l.filter p := by
  induction l with
  | nil => rfl
  | cons x rest ih =>
    have hrest := ih fun y hy => h y (List.mem_cons_of_mem x hy)
    rw [List.map_cons,List.filter_cons,List.filter_cons,hrest]
    rcases h x List.mem_cons_self with he | ⟨hx,hfx⟩
    · rw [he]
    · rw [hx,hfx]
      rfl

theorem filter_filter_of_imp (h : ∀ x ∈ l, p x = true → q x = true) :
    (l.filter q).filter p = l.filter p := by
  rw [List.filter_filter]
  refine List.filter_congr fun x hx => ?_
  cases hp : p x with
  | false => rfl
  | true => rw [h x hx hp]; rfl

end Lists

theorem setRun_runsOf (hne : r.id.root ≠ n) : (w.setRun r).runsOf n = w.runsOf n := by
  refine filter_map_of_fixed fun old _ => ?_
  by_cases he : old.id = r.id
  · rw [if_pos he,he]
    exact .inr ⟨by simp [hne],by simp [hne]⟩
  · exact .inl (if_neg he)

theorem RunTurn.spares (h : RunTurn w r w') (hne : r.id.root ≠ n) : Spares n w w' := by
  obtain ⟨r',fresh,⟨hid,-⟩,hruns,htasks,hfresh,hinv,-⟩ := h.spec
  refine ⟨?_,?_,congrArg (List.filter _) hinv⟩
  · rw [runsOf,hruns]
    exact setRun_runsOf (hid ▸ hne)
  · have hnone : fresh.filter (fun t => t.id.run.root == n) = [] := by
      refine List.filter_eq_nil_iff.mpr fun t ht => ?_
      rw [(hfresh t ht).1]
      simp [hne]
    rw [tasksOf,htasks,List.filter_append,hnone,List.append_nil]
    rfl

theorem stays_of_root {id : RunId} (ht : t.Sensible) (hne : t.id.run.root ≠ id.root) :
    Stays t id := by
  refine stays_iff.mpr fun x hx => ?_
  obtain ⟨k,-,rfl⟩ := ht.runs x hx
  rw [Bool.eq_false_iff]
  exact fun hw => hne (RunId.isWithin_iff.mp hw).1.symm

theorem Acts.spares (h : w.Coherent) (ht : t ∈ w.tasks) (hne : t.id.run.root ≠ n)
    (ha : (w.discard t.phase.runs).Acts w' t d) (hf : d.Fits t) : Spares n w w' := by
  have hs := h.task t ht
  constructor
  · have hopened : d.opened.filter (fun r => r.id.root == n) = [] := by
      refine List.filter_eq_nil_iff.mpr fun r hr => ?_
      obtain ⟨k,-,hid⟩ := hf.opened_id hr
      rw [hid]
      simp [TaskId.child,hne]
    rw [runsOf,ha.runs_eq h,List.filter_append,hopened,List.append_nil,filter_map_of_fixed,
      filter_filter_of_imp]
    · rfl
    · intro r _ hr
      have hroot : t.id.run.root ≠ r.id.root := by rwa [eq_of_beq hr]
      rw [show r.id.isWithinAny t.phase.runs = false from stays_of_root hs hroot]
      rfl
    · intro r _
      by_cases he : r.id = t.id.run
      · exact .inr ⟨by simp [he,hne],by simp [Deed.receive,he,hne]⟩
      · exact .inl (by simp [Deed.receive,he])
  · have hkept : (w.discard t.phase.runs).tasksOf n = w.tasksOf n := by
      rw [tasksOf,(w.discard_spec t.phase.runs).2.2.1]
      refine filter_filter_of_imp fun u _ hu => ?_
      have hroot : t.id.run.root ≠ u.id.run.root := by rwa [eq_of_beq hu]
      rw [show u.id.run.isWithinAny t.phase.runs = false from stays_of_root hs hroot]
      rfl
    rw [← hkept,tasksOf,ha.tasks]
    cases d.next with
    | none =>
      refine filter_filter_of_imp fun u _ hu => ?_
      rw [bne_iff_ne]
      intro he
      rw [he] at hu
      exact hne (eq_of_beq hu)
    | some p =>
      refine filter_map_of_fixed fun u _ => ?_
      by_cases he : u.id = t.id
      · exact .inr ⟨by simp [he,hne],by simp [he,hne]⟩
      · exact .inl (if_neg he)
  · have hused : d.used.filter (fun i => i.task.run.root == n) = [] := by
      refine List.filter_eq_nil_iff.mpr fun i hi => ?_
      rw [hf.used i hi]
      simp [hne]
    rw [invocationsOf,ha.invocations,List.filter_append,hused,List.nil_append,
      (w.discard_spec t.phase.runs).2.2.2.2]
    rfl

theorem Turn.spares (h : w.Coherent) (ht : t ∈ w.tasks) (hd : Turn w w' t)
    (hne : t.id.run.root ≠ n) : Spares n w w' := by
  cases hd with
  | idle _ ha => exact ha.spares n
  | begins time _ hp ha hd =>
    obtain ⟨hstart,htasks,d,hact,hf⟩ := h.begun ht hp ha hd
    have hframe := w.post_frame t.id.run (.started t.node.id time)
    have hpost : Spares n w (w.post t.id.run (.started t.node.id time)) := by
      refine ⟨?_,congrArg (List.filter _) hframe.2.1,congrArg (List.filter _) hframe.2.2.2⟩
      rw [runsOf,post_runs _ _ _ h.runs_nodup]
      refine filter_map_of_fixed fun r _ => ?_
      by_cases he : r.id = t.id.run
      · exact .inr ⟨by simp [he,hne],by simp [he,hne]⟩
      · exact .inl (if_neg he)
    exact (hpost.trans (ha.spares n)).trans (Acts.spares hstart (htasks ▸ ht) hne hact hf)
  | acts _ hd =>
    obtain ⟨d,ha,hf,-⟩ := hd
    exact ha.spares h ht hne hf
  | leaves _ ha =>
    refine Spares.trans (v := { w with tasks := w.tasks.filter fun other => other.id != t.id })
      ⟨rfl,?_,rfl⟩ (ha.spares n)
    refine filter_filter_of_imp fun u _ hu => ?_
    rw [bne_iff_ne]
    intro he
    rw [he] at hu
    exact hne (eq_of_beq hu)

theorem Turn.cancelled (hd : Turn w w' t) : w'.cancelled = w.cancelled := by
  cases hd with
  | idle _ ha => exact ha.cancelled
  | begins time _ _ ha hd =>
    obtain ⟨d,hact,-,-⟩ := hd
    exact hact.cancelled.trans (ha.cancelled.trans (w.post_frame _ _).2.2.1)
  | acts _ hd =>
    obtain ⟨d,ha,-,-⟩ := hd
    exact ha.cancelled.trans (w.discard_spec t.phase.runs).2.2.2.1
  | leaves _ ha => exact ha.cancelled

theorem Alike.cancels (h : Alike w v) (hn : n ∈ w.cancelled) : n ∈ v.cancelled := by
  rw [h.cancelled]
  exact hn

/-- A step of a started run that is cancelled. -/
inductive Wanes (n : Nat) (w v : World) : Prop
  | run {r r' : Run} : r ∈ w.runs → r.id.root = n → r'.id = r.id → r.Fading r' →
    r'.effort < r.effort → Alike (w.setRun r') v → Wanes n w v
  | acts {t : Task} {d : Deed} : t ∈ w.tasks → t.id.run.root = n → t.phase.isLeaving = false →
    (w.discard t.phase.runs).Acts v t d → d.Fits t → d.used = [] → d.cost < t.phase.effort →
    Wanes n w v
  | leaves {t : Task} : t ∈ w.tasks → t.id.run.root = n → t.phase.isLeaving = true →
    Alike { w with tasks := w.tasks.filter fun other => other.id != t.id } v → Wanes n w v

theorem isCancelled_iff {id : RunId} : w.isCancelled id = true ↔ id.root ∈ w.cancelled := by
  simp [isCancelled]

theorem Turn.wanes (ht : t ∈ w.tasks) (hd : Turn w w' t) (hc : t.id.run.root ∈ w.cancelled) :
    Wanes t.id.run.root w w' := by
  have hcancelled := isCancelled_iff.mpr hc
  cases hd with
  | idle h => rw [hcancelled] at h; cases h
  | begins _ h => rw [hcancelled] at h; cases h
  | acts hl hd =>
    obtain ⟨d,ha,hf,hb⟩ := hd
    have hsame : (w.discard t.phase.runs).isCancelled t.id.run = true := by
      rw [isCancelled,(w.discard_spec t.phase.runs).2.2.2.1]
      exact hcancelled
    obtain ⟨hused,hcost⟩ := hb hsame
    exact .acts ht rfl hl ha hf hused (Nat.lt_of_le_pred t.phase.effort_pos hcost)
  | leaves hl ha => exact .leaves ht rfl hl ha

end World

variable {e : Engine} {w v : World} {turn : Option Nat} {n : Nat}

/-- A step leaves a started run alone unless it is its turn, and if it is cancelled, takes it towards
its end. It stays cancelled. -/
theorem Step.wanes (hs : Step e turn w v) (h : w.Coherent) (hc : n ∈ w.cancelled)
    (hroot : ∃ r ∈ w.runs, r.id.root = n) :
    n ∈ v.cancelled ∧ (turn ≠ some n ∧ World.Spares n w v ∨ turn = some n ∧ World.Wanes n w v) := by
  cases hs with
  | @start _ _ _ _ number _ _ hfree hstart =>
    obtain ⟨graph,run,-,-,hid,ha,-⟩ := start_spec hstart
    obtain ⟨r,hr,hrn⟩ := hroot
    have hnumber : number ≠ n := fun he => hfree r hr (hrn.trans he.symm)
    refine ⟨ha.cancels hc,.inl ⟨nofun,?_⟩⟩
    refine World.Spares.trans (v := { w with runs := w.runs ++ [run] }) ⟨?_,rfl,rfl⟩ (ha.spares n)
    simp [World.runsOf,hid,hnumber]
  | @move _ _ m hm =>
    rcases World.move_cases hm with ⟨r,hr,hturn,ht⟩ | ⟨t,ht,rfl,hstep⟩ | ⟨hturn,⟨k,rfl⟩ | ⟨millis,rfl⟩⟩
    · obtain ⟨-,-,-,-,-,-,-,-,hkept⟩ := ht.spec
      refine ⟨hkept n hc,?_⟩
      rw [m.root?_eq,hturn,Option.map_some]
      by_cases hne : r.id.root = n
      · obtain ⟨r',hid,hf,he,ha⟩ := ht.fading (World.isCancelled_iff.mpr (hne ▸ hc))
        exact .inr ⟨congrArg some hne,.run hr hne hid hf he ha⟩
      · exact .inl ⟨fun he => hne (Option.some.inj he),ht.spares hne⟩
    · have hd := World.stepTask_turn (h.task t ht).node (h.task t ht).phase hstep
      refine ⟨hd.cancelled ▸ hc,?_⟩
      rw [show (Move.step t.id).root? = some t.id.run.root from rfl]
      by_cases hne : t.id.run.root = n
      · exact .inr ⟨congrArg some hne,hne ▸ hd.wanes ht (hne ▸ hc)⟩
      · exact .inl ⟨fun he => hne (Option.some.inj he),hd.spares h ht hne⟩
    · obtain ⟨c,ha,hmem⟩ := w.cancel_alike k
      refine ⟨ha.cancels ((hmem n).mpr (.inr hc)),.inl ⟨by rw [hturn]; nofun,?_⟩⟩
      exact World.Spares.trans (v := { w with cancelled := c }) ⟨rfl,rfl,rfl⟩ (ha.spares n)
    · exact ⟨hc,.inl ⟨by rw [hturn]; nofun,⟨rfl,rfl,rfl⟩⟩⟩
  | agenda => exact ⟨hc,.inl ⟨nofun,⟨rfl,rfl,rfl⟩⟩⟩

end TaskGraph.Engine
