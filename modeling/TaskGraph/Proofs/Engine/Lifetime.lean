import TaskGraph.Proofs.Engine.Results
import TaskGraph.Proofs.Engine.Retrying

/-!
Tasks in endless courses of an engine. A task that can act acts some time, so that attempts which end as
they are supplied, and blocks around them which end, lead to a report.
-/

namespace TaskGraph.Engine

/-- A step, with what it adds to the diary of a task. -/
inductive Noted (e : Engine) (id : TaskId) (log : List Line) (w : World) : List Line → World → Prop
  | own {w' : World} : w.move? e.setting (.step id) = some w' →
    Noted e id log w (log ++ w.lines e.setting w' id) w'
  | aside {w' : World} : Aside e id w w' → Noted e id log w log w'

/-- An endless course of an engine from a world on, with the diary of a task: time goes on, and when
the task can always act it acts. -/
structure Lifetime (e : Engine) (id : TaskId) (log : List Line) (w : World) where
  lines : Nat → List Line
  world : Nat → World
  start : lines 0 = log ∧ world 0 = w
  step : ∀ i, Noted e id (lines i) (world i) (lines (i+1)) (world (i+1))
  time : ∀ bound, ∃ i, bound ≤ (world i).clock
  fair : ∀ i, (∀ j, i ≤ j → ((world j).move? e.setting (.step id)).isSome = true) →
    ∃ j, i ≤ j ∧ (world j).move? e.setting (.step id) = some (world (j+1)) ∧
      lines (j+1) = lines j ++ (world j).lines e.setting (world (j+1)) id

/-- The run of a block around the attempts that a task waits for. -/
def Phase.around? : Phase → Option RunId
  | .always _ _ run | .handling _ _ run => some run
  | _ => none

variable {e : Engine} {id : TaskId} {log log' : List Line} {w w' : World} {t : Task}

theorem Noted.diary (h : Noted e id log w log' w') (hd : Diary e id log w) : Diary e id log' w' := by
  cases h with
  | own hm => exact hd.own hm
  | aside ha => exact hd.aside ha

theorem Noted.step (h : Noted e id log w log' w') : ∃ turn, Step e turn w w' := by
  cases h with
  | own hm => exact ⟨_,.move hm⟩
  | aside ha => exact ha.step

theorem Noted.prefix_log (h : Noted e id log w log' w') : log <+: log' := by
  cases h with
  | own => exact List.prefix_append _ _
  | aside => exact List.prefix_rfl

theorem World.move_step {σ : Setting} (hw : w.Coherent) (ht : t ∈ w.tasks) (hid : t.id = id) :
    w.move? σ (.step id) = w.stepTask σ t := by
  subst hid
  show (w.task? t.id).bind _ = _
  rw [World.task?_of_mem hw.tasks_nodup ht]
  rfl

section Answers

variable {n : GraphNode Graph} {s : Scope} {A : Account} {k j ready : Nat} {x : Line}

/-- Whether an attempt has ended, or something has broken down. -/
def Answered (log : List Line) (k : Nat) : Prop :=
  ∃ y ∈ log, (∃ outcome, y.note = .ends k outcome) ∨ ∃ message, y.note = .breaksDown message

theorem Answered.mono (h : Answered log k) (hs : log ⊆ log') : Answered log' k :=
  h.imp fun _ hy => ⟨hs hy.1,hy.2⟩

theorem Tried.Fits.answers {a : Tried} (h : a.Fits A ready) (hx : x ∈ a.lines)
    (hk : x.note = .begins k) : Answered a.lines k := by
  obtain rfl | hx := List.mem_cons.mp hx
  · cases hk
    exact ⟨⟨a.finish,.ends a.attempt a.outcome⟩,by simp [lines],.inl ⟨_,rfl⟩⟩
  rcases List.mem_append.mp hx with hx | hx
  · have hinner := h.inner x hx
    rw [hk] at hinner
    cases hinner
  · rw [List.mem_singleton.mp hx] at hk
    cases hk

theorem Rounds.answers (h : Rounds n A j ready log) (hx : x ∈ log) (hk : x.note = .begins k) :
    Answered log k := by
  induction h with
  | none => cases hx
  | again _ _ hf _ ih =>
    rcases List.mem_append.mp hx with hx | hx
    · rcases List.mem_append.mp hx with hx | hx
      · exact (ih hx).mono fun y hy => List.mem_append_left _ (List.mem_append_left _ hy)
      · exact (hf.answers hx hk).mono fun y hy => List.mem_append_left _ (List.mem_append_right _ hy)
    · rw [List.mem_singleton.mp hx] at hk
      cases hk

theorem Over.answers {cancelled : Bool} {outcome : Outcome} (h : Over n A j cancelled log outcome)
    (hx : x ∈ log) (hk : x.note = .begins k) : Answered log k := by
  cases h with
  | ended hr _ hf =>
    rcases List.mem_append.mp hx with hx | hx
    · exact (hr.answers hx hk).mono (List.subset_append_left _ _)
    · exact (hf.answers hx hk).mono (List.subset_append_right _ _)
  | stopped hr =>
    rcases List.mem_append.mp hx with hx | hx
    · exact (hr.answers hx hk).mono (List.subset_append_left _ _)
    · rw [List.mem_singleton.mp hx] at hk
      cases hk

theorem Settled.answers {outcome : Outcome} (h : Settled n s A j log outcome) (hx : x ∈ log)
    (hk : x.note = .begins k) : Answered log k := by
  cases h with
  | plain ho | dropped ho => exact ho.answers hx hk
  | always ho =>
    rcases List.mem_append.mp hx with hx | hx
    · exact (ho.answers hx hk).mono (List.subset_append_left _ _)
    · simp only [List.mem_cons,List.not_mem_nil,or_false] at hx
      obtain rfl | rfl := hx <;> cases hk

theorem Life.answers {report : Report} (h : Life n s A log report) (hx : x ∈ log)
    (hk : x.note = .begins k) : Answered log k := by
  cases h with
  | unasked =>
    simp only [List.mem_cons,List.not_mem_nil,or_false] at hx
    obtain rfl | rfl := hx <;> cases hk
  | success hs | cancelled hs | failed hs | handled hs =>
    rcases List.mem_append.mp hx with hx | hx
    · exact (hs.answers hx hk).mono (List.subset_append_left _ _)
    · simp only [List.mem_cons,List.not_mem_nil,or_false] at hx
      rcases hx with rfl | rfl | rfl <;> cases hk
  | broken => exact ⟨_,List.mem_append_right _ List.mem_cons_self,.inr ⟨_,rfl⟩⟩

/-- An attempt that has begun is over, or it is the one that is going on. -/
theorem Living.answers {p : Phase} (h : Living n s A log p) (hx : x ∈ log) (hk : x.note = .begins k) :
    Answered log k ∨ p.attempt? = some k := by
  cases h with
  | asking => cases hx
  | attempting hr _ hinner hp =>
    rcases List.mem_append.mp hx with hx | hx
    · exact .inl ((hr.answers hx hk).mono (List.subset_append_left _ _))
    · obtain rfl | hx := List.mem_cons.mp hx
      · cases hk
        exact .inr hp
      · have hin := hinner x hx
        rw [hk] at hin
        cases hin
  | pausing hr => exact .inl (hr.answers hx hk)
  | always ho =>
    rcases List.mem_append.mp hx with hx | hx
    · exact .inl ((ho.answers hx hk).mono (List.subset_append_left _ _))
    · rw [List.mem_singleton.mp hx] at hk
      cases hk
  | handling hs =>
    rcases List.mem_append.mp hx with hx | hx
    · exact .inl ((hs.answers hx hk).mono (List.subset_append_left _ _))
    · rw [List.mem_singleton.mp hx] at hk
      cases hk
  | leaving hl => exact .inl (hl.answers hx hk)
  | collapsed => exact .inl ⟨_,List.mem_append_right _ List.mem_cons_self,.inr ⟨_,rfl⟩⟩

end Answers

namespace Lifetime

variable (c : Lifetime e id log w)

theorem diary (hd : Diary e id log w) (i : Nat) : Diary e id (c.lines i) (c.world i) := by
  induction i with
  | zero =>
    rw [c.start.1,c.start.2]
    exact hd
  | succ i ih => exact (c.step i).diary ih

theorem prefix_log {i j : Nat} (h : i ≤ j) : c.lines i <+: c.lines j := by
  induction h with
  | refl => exact List.prefix_rfl
  | step _ ih => exact ih.trans (c.step _).prefix_log

theorem lines_ne_nil (hne : log ≠ []) (i : Nat) : c.lines i ≠ [] := by
  intro he
  have hprefix := c.prefix_log (Nat.zero_le i)
  rw [he,c.start.1] at hprefix
  exact hne (List.prefix_nil.mp hprefix)

/-- The run of a task has its node as long as it is there. -/
theorem node_mem (hd : Diary e id log w) (hne : log ≠ []) {n : GraphNode Graph}
    (hn : ∀ r ∈ w.runs, r.id = id.run → n ∈ r.schedule.graph.nodes) (i : Nat) :
    ∀ r ∈ (c.world i).runs, r.id = id.run → n ∈ r.schedule.graph.nodes := by
  induction i with
  | zero =>
    rw [c.start.2]
    exact hn
  | succ i ih =>
    intro q hq hid
    have hdi := c.diary hd i
    obtain ⟨turn,hs⟩ := (c.step i).step
    obtain ⟨r,hr,hrid,hsame⟩ := (hdi.knows (c.lines_ne_nil hne i)).run_from (hs.goes hdi.reaches)
      hdi.reaches.coherent hq hid
    have hmem := ih r hr (hrid.trans hid)
    obtain ⟨hsch,-⟩ | ⟨fresh,hcourse⟩ := hsame
    · rwa [hsch]
    · rwa [hcourse.graph]

theorem clock_mono (hd : Diary e id log w) {i j : Nat} (h : i ≤ j) :
    (c.world i).clock ≤ (c.world j).clock := by
  induction h with
  | refl => exact Nat.le_refl _
  | step _ ih =>
    obtain ⟨turn,hs⟩ := (c.step _).step
    exact Nat.le_trans ih (hs.goes (c.diary hd _).reaches).clock_le

/-- Whether the task acts in a step. -/
def Acts (i : Nat) : Prop :=
  (c.world i).move? e.setting (.step id) = some (c.world (i+1)) ∧
    c.lines (i+1) = c.lines i ++ (c.world i).lines e.setting (c.world (i+1)) id

/-- A task that is not dropped and can act from some time on acts as it is. -/
theorem exists_acts (hd : Diary e id log w)
    (hthere : ∀ i, ∃ r ∈ (c.world i).runs, r.id = id.run) {i : Nat} (ht : t ∈ (c.world i).tasks)
    (hid : t.id = id) (h : (∀ j, i ≤ j → t ∈ (c.world j).tasks) → ∃ k, ∀ j, i ≤ j → k ≤ j →
      ((c.world j).move? e.setting (.step id)).isSome = true) :
    ∃ j, i ≤ j ∧ t ∈ (c.world j).tasks ∧ c.Acts j := by
  by_contra hnever
  have hstays (j : Nat) (hj : i ≤ j) : t ∈ (c.world j).tasks := by
    induction hj with
    | refl => exact ht
    | @step j hj ih =>
      generalize hlog : c.lines (j+1) = log', hworld : c.world (j+1) = w'
      have hstep := c.step j
      rw [hlog,hworld] at hstep
      cases hstep with
      | own hm => exact absurd ⟨j,hj,ih,hworld ▸ hm,hlog.trans (hworld ▸ rfl)⟩ hnever
      | aside ha =>
        refine ((ha.leaves (c.diary hd j).reaches).stays t ih hid).resolve_right fun hdropped => ?_
        obtain ⟨r,hr,hrid⟩ := hthere (j+1)
        exact hdropped r (hworld ▸ hr) hrid
  obtain ⟨k,hk⟩ := h hstays
  obtain ⟨j,hj,hacts⟩ := c.fair (max i k) fun j hj => hk j (by omega) (by omega)
  exact hnever ⟨j,by omega,hstays j (by omega),hacts⟩

/-- A task that waits for a run of its own acts when that is over, or before. -/
theorem acts_when_over (hd : Diary e id log w)
    (hthere : ∀ i, ∃ r ∈ (c.world i).runs, r.id = id.run) {i : Nat} (ht : t ∈ (c.world i).tasks)
    (hid : t.id = id) (hp : t.phase.isNested = true) {run : RunId} (hruns : t.phase.runs = [run])
    (hover : ∃ j, i ≤ j ∧
      (((c.world j).result? run).isSome = true ∨ ∀ r ∈ (c.world j).runs, r.id ≠ run)) :
    ∃ j, i ≤ j ∧ t ∈ (c.world j).tasks ∧ c.Acts j := by
  refine c.exists_acts hd hthere ht hid fun hstays => ?_
  have hmem : run ∈ t.phase.runs := hruns ▸ List.mem_cons_self
  obtain ⟨k,hik,hover⟩ := hover
  have hresult (j : Nat) (hj : k ≤ j) :
      ∃ r ∈ (c.world j).runs, r.id = run ∧ r.result?.isSome = true := by
    induction hj with
    | refl =>
      obtain ⟨r,hr,hrid⟩ := (c.diary hd k).reaches.coherent.children t (hstays k hik) run hmem
      have hover := hover.resolve_right fun hdropped => hdropped r hr hrid
      rw [← hrid,World.result?_of_mem (c.diary hd k).reaches.coherent hr] at hover
      exact ⟨r,hr,hrid,hover⟩
    | @step j hj ih =>
      obtain ⟨r,hr,hrid,hres⟩ := ih
      obtain ⟨q,hq,hqid⟩ := (c.diary hd (j+1)).reaches.coherent.children t
        (hstays (j+1) (by have : k ≤ j := hj; omega)) run hmem
      obtain ⟨result,hres⟩ := Option.isSome_iff_exists.mp hres
      obtain ⟨turn,hs⟩ := (c.step j).step
      refine ⟨q,hq,hqid,?_⟩
      rw [(hs.goes (c.diary hd j).reaches).result_stays (c.diary hd j).reaches.coherent hr hq
        (hqid.trans hrid.symm) hres]
      rfl
  refine ⟨k,fun j hij hkj => ?_⟩
  have hw := (c.diary hd j).reaches.coherent
  obtain ⟨r,hr,hrid,hres⟩ := hresult j hkj
  rw [World.move_step hw (hstays j hij) hid]
  refine (World.stepTask_isSome_iff hp).mpr (.inl fun x hx => ?_)
  rw [hruns,List.mem_singleton] at hx
  rw [hx,← hrid,World.result?_of_mem hw hr]
  exact hres

/-- Whether a course lets the attempts of a task end, as a supply says, and the blocks around them, and
neither cancels the task nor makes it break down. -/
structure Favours (supply : Nat → Outcome) : Prop where
  calm : ∀ i, (c.world i).isCancelled id.run = false
  sound : ∀ i, ∀ x ∈ c.lines i, ∀ message, x.note ≠ .breaksDown message
  supplied : ∀ i, ∀ x ∈ c.lines i, ∀ k outcome, x.note = .ends k outcome → outcome = supply k
  attempts : ∀ i, ∀ x ∈ c.lines i, ∀ k, x.note = .begins k →
    ∃ j, ∃ y ∈ c.lines j, ∃ outcome, y.note = .ends k outcome
  blocks : ∀ i, ∀ t ∈ (c.world i).tasks, t.id = id → ∀ run ∈ t.phase.around?,
    ∃ j, i ≤ j ∧ (((c.world j).result? run).isSome = true ∨ ∀ r ∈ (c.world j).runs, r.id ≠ run)

/-- Whether a task of a node never reports, though its run stays. -/
structure Lingers (n : GraphNode Graph) : Prop where
  home : ∀ i, ∃ r ∈ (c.world i).runs, r.id = id.run ∧ n ∈ r.schedule.graph.nodes
  silent : ∀ i, ∀ x ∈ c.lines i, ∀ report, x.note ≠ .reports report

/-- Whether a course keeps the run of a task, with a node, and lets every run that the task waits for
come to its end, unless it is dropped. -/
structure Bears (n : GraphNode Graph) : Prop where
  home : ∀ i, ∃ r ∈ (c.world i).runs, r.id = id.run ∧ n ∈ r.schedule.graph.nodes
  ends : ∀ i, ∀ t ∈ (c.world i).tasks, t.id = id → ∀ run ∈ t.phase.runs,
    ∃ j, i ≤ j ∧ (((c.world j).result? run).isSome = true ∨ ∀ r ∈ (c.world j).runs, r.id ≠ run)

section Lingering

variable {c} {n : GraphNode Graph} {supply : Nat → Outcome}

theorem isCalm (hd : Diary e id log w) (hf : c.Favours supply) (i : Nat) :
    IsCalm supply (c.lines i) := by
  refine fun x hx => ⟨?_,hf.supplied i x hx⟩
  cases hc : x.moment.cancelled with
  | false => rfl
  | true =>
    have hnow := ((c.diary hd i).past x hx).2 hc
    rw [hf.calm i] at hnow
    cases hnow

/-- Who lingers is there, in a phase that its diary fits. -/
theorem Lingers.living (h : c.Lingers n) (hd : Diary e id log w) (hne : log ≠ [])
    (hn : n.id = id.node) (i : Nat) : ∃ t ∈ (c.world i).tasks, t.id = id ∧ t.node = n ∧
      Living n t.scope .silent (c.lines i) t.phase := by
  obtain ⟨r,hr,hid,hmem⟩ := h.home i
  obtain ⟨s,p,hl,hgone,hthere⟩ := (c.diary hd i).living
    (fun n s => Account.silent_holds e.setting n s) hr hid (c.lines_ne_nil hne i) hmem hn
  by_cases ht : ∃ t ∈ (c.world i).tasks, t.id = id
  · obtain ⟨t,ht,hid⟩ := ht
    obtain ⟨hnode,rfl,rfl⟩ := hthere t ht hid
    exact ⟨t,ht,hid,hnode,hl⟩
  · have hleaving := Phase.eq_leaving (hgone fun t hmem hid => ht ⟨t,hmem,hid⟩)
    subst hleaving
    obtain ⟨report,hlife⟩ := hl.reported
    obtain ⟨front,m,he,-⟩ := hlife.ends
    exact absurd rfl (h.silent i _ (he ▸ List.mem_append_right _ List.mem_cons_self) _)

/-- What a step of the task adds. -/
theorem Acts.enacts {i : Nat} (ha : c.Acts i) (hd : Diary e id log w)
    (ht : t ∈ (c.world i).tasks) (hid : t.id = id) : ∃ q, (c.world i).sequel? e.setting t = some q ∧
      q.Shows t (c.world (i+1)) ∧
      c.lines (i+1) =
        c.lines i ++ (q.written t.node t.scope).map (Line.mk ((c.world i).moment t)) := by
  have hr := (c.diary hd i).reaches
  obtain ⟨u,q,hu,henacts⟩ := World.enacts hr ha.1
  obtain rfl := hr.coherent.task_unique henacts.mem ht (hu.trans hid.symm)
  subst hid
  exact ⟨q,henacts.sequel,henacts.shows,ha.2.trans (congrArg (_ ++ ·) henacts.lines)⟩

theorem Acts.silent {i : Nat} {q : Sequel} (ha : c.Acts i) (hl : c.Lingers n) (hd : Diary e id log w)
    (ht : t ∈ (c.world i).tasks) (hid : t.id = id) (hq : (c.world i).sequel? e.setting t = some q)
    (report : Report) : .reports report ∉ q.notes := by
  intro hr
  obtain ⟨q',hq',-,hlines⟩ := ha.enacts hd ht hid
  obtain rfl := Option.some.inj (hq.symm.trans hq')
  refine hl.silent (i+1) ⟨(c.world i).moment t,.reports report⟩ ?_ report rfl
  rw [hlines]
  exact List.mem_append_right _ (List.mem_map_of_mem (List.mem_append_left _ hr))

section Waiting

variable (hl : c.Lingers n) (hd : Diary e id log w) (hf : c.Favours supply) {i : Nat}
  (ht : t ∈ (c.world i).tasks) (hid : t.id = id)

include hl hd hf ht hid

/-- The pause after an attempt comes to its end. -/
theorem Lingers.resumes {k : Nat} {ends : Timer} (hp : t.phase = .pausing k ends) :
    ∃ j, i ≤ j ∧ (milestones (c.lines j)).length < (milestones (c.lines (j+1))).length := by
  have hcalm (j : Nat) : (c.world j).isCancelled t.id.run = false := hid ▸ hf.calm j
  obtain ⟨j,hj,htj,hacts⟩ := c.exists_acts hd (fun i => (hl.home i).imp fun r hr => ⟨hr.1,hr.2.1⟩)
    ht hid fun hstays => by
      obtain ⟨k,hk⟩ := c.time ends.time
      refine ⟨k,fun j hij hkj => ?_⟩
      have hpassed : (c.world j).hasPassed ends = true :=
        decide_eq_true (Nat.le_trans hk (c.clock_mono hd hkj))
      rw [World.move_step (c.diary hd j).reaches.coherent (hstays j hij) hid,World.stepTask,hp]
      simp only [hcalm j,hpassed,if_true,Bool.false_eq_true,if_false]
      rfl
  obtain ⟨q,hq,-,hlines⟩ := hacts.enacts hd htj hid
  refine ⟨j,hj,?_⟩
  have hbegins : .begins (k+1) ∈ q.written t.node t.scope := by
    simp only [World.sequel?,hp,World.moment,hcalm j,Bool.false_eq_true,if_false] at hq
    split at hq
    · cases hq
      exact List.mem_append_left _ List.mem_cons_self
    · cases hq
  rw [hlines,milestones_append,List.length_append]
  refine Nat.lt_add_of_pos_right (List.length_pos_of_mem (a := ⟨(c.world j).moment t,.begins (k+1)⟩) ?_)
  exact List.mem_filter.mpr ⟨List.mem_map_of_mem hbegins,rfl⟩

/-- Who waits for a block that is over acts. -/
theorem Lingers.acts {run : RunId} (hp : t.phase.around? = some run) :
    ∃ j, i ≤ j ∧ t ∈ (c.world j).tasks ∧ c.Acts j := by
  have hruns : t.phase.isNested = true ∧ t.phase.runs = [run] := by
    cases hphase : t.phase <;> rw [hphase] at hp <;> cases hp <;> exact ⟨rfl,rfl⟩
  exact c.acts_when_over hd (fun i => (hl.home i).imp fun r hr => ⟨hr.1,hr.2.1⟩) ht hid hruns.1 hruns.2
    (hf.blocks i t ht hid run hp)

theorem Lingers.not_handling {k : Nat} {f : Failure} {run : RunId} (hp : t.phase = .handling k f run) :
    False := by
  obtain ⟨j,-,htj,hacts⟩ := hl.acts hd hf ht hid (by rw [hp]; rfl)
  obtain ⟨q,hq,-⟩ := hacts.enacts hd htj hid
  have hsilent := hacts.silent hl hd htj hid hq
  simp only [World.sequel?,hp] at hq
  obtain ⟨r,-,he⟩ := Option.bind_eq_some_iff.mp hq
  cases he
  exact hsilent _ (List.mem_append_right _ List.mem_cons_self)

theorem Lingers.not_always (hne : log ≠ []) (hn : n.id = id.node) {k : Nat} {outcome : Outcome}
    {run : RunId} (hp : t.phase = .always k outcome run) : False := by
  obtain ⟨j,-,htj,hacts⟩ := hl.acts hd hf ht hid (by rw [hp]; rfl)
  obtain ⟨q,hq,hshows,-⟩ := hacts.enacts hd htj hid
  have hsilent := hacts.silent hl hd htj hid hq
  simp only [World.sequel?,hp] at hq
  obtain ⟨r,-,he⟩ := Option.bind_eq_some_iff.mp hq
  cases he
  obtain ⟨u,hu,huid,-⟩ := hl.living hd hne hn (j+1)
  obtain ⟨p,hnext,halike⟩ := hshows.phase u hu (huid.trans hid.symm)
  have hreport (q : Sequel) (hq : ∃ report, .reports report ∈ q.notes)
      (hs : ∀ report, .reports report ∉ (q.after [.closes run r]).notes) : False :=
    hq.elim fun report hr => hs report (List.mem_append_right _ hr)
  obtain ⟨c,ho⟩ | ho | ⟨f,hf',ho⟩ := (Attempt.afterAlways outcome r.handed).cases
  · rw [ho] at hsilent
    exact hreport _ ⟨_,List.mem_cons_self⟩ hsilent
  · rw [ho] at hsilent
    exact hreport _ ⟨_,List.mem_cons_self⟩ hsilent
  · rw [ho,Task.concluded_failed hf'] at hsilent hnext
    cases hh : t.node.handler with
    | none =>
      rw [hh] at hsilent
      exact hreport _ ⟨_,List.mem_cons_self⟩ hsilent
    | some block =>
      rw [hh] at hnext
      cases hnext
      obtain he | ⟨_,_,_,he,-⟩ := halike
      · exact hl.not_handling hd hf hu huid he.symm
      · cases he

end Waiting

/-- As long as no report comes there is always another milestone. -/
theorem Lingers.advances (hl : c.Lingers n) (hd : Diary e id log w) (hne : log ≠ [])
    (hn : n.id = id.node) (hf : c.Favours supply) (i : Nat) :
    ∃ j, (milestones (c.lines i)).length < (milestones (c.lines j)).length := by
  obtain ⟨t,ht,hid,rfl,hliving⟩ := hl.living hd hne hn i
  have hcalm := c.isCalm hd hf i
  generalize hp : t.phase = p at hliving
  generalize hlog : c.lines i = now at hliving hcalm
  cases hliving with
  | asking =>
    have hprefix := c.prefix_log (Nat.zero_le i)
    rw [hlog,c.start.1] at hprefix
    exact absurd (List.prefix_nil.mp hprefix) hne
  | @attempting k ready before inner start _ hr hready hinner =>
    obtain ⟨j,y,hy,outcome,hends⟩ := hf.attempts i ⟨start,.begins (k+1)⟩
      (hlog ▸ List.mem_append_right _ List.mem_cons_self) (k+1) rfl
    have hprefix : milestones (c.lines i) <+: milestones (c.lines (max i j)) :=
      (c.prefix_log (Nat.le_max_left i j)).filter _
    refine ⟨max i j,hlog ▸ Nat.lt_of_le_of_ne hprefix.length_le fun he => ?_⟩
    have hsame := hprefix.eq_of_length he
    have hmem : y ∈ milestones (c.lines i) := by
      rw [hsame]
      refine List.mem_filter.mpr ⟨(c.prefix_log (Nat.le_max_right i j)).subset hy,?_⟩
      rw [hends]
      rfl
    have hnotes := ((hr.keeps fun x hx => hcalm x (List.mem_append_left _ hx)).begun hready hinner).1
    have hmem := List.mem_map_of_mem (f := Line.note) hmem
    rw [hlog,hnotes,hends] at hmem
    simp [RetryPolicy.rounds] at hmem
  | pausing =>
    obtain ⟨j,hj,hlt⟩ := hl.resumes hd hf ht hid hp
    have hprefix : milestones (c.lines i) <+: milestones (c.lines j) := (c.prefix_log hj).filter _
    exact ⟨j+1,hlog ▸ Nat.lt_of_le_of_lt hprefix.length_le hlt⟩
  | always => exact (hl.not_always hd hf ht hid hne hn hp).elim
  | handling => exact (hl.not_handling hd hf ht hid hp).elim
  | leaving hlife =>
    obtain ⟨front,m,he,-⟩ := hlife.ends
    have hmem : ⟨m,_⟩ ∈ c.lines i := hlog ▸ he ▸ List.mem_append_right _ List.mem_cons_self
    exact absurd rfl (hl.silent i _ hmem _)
  | collapsed =>
    exact absurd rfl (hf.sound i _ (hlog ▸ List.mem_append_right _ List.mem_cons_self) _)

/-- Nobody lingers when all attempts and blocks come to an end. -/
theorem Lingers.elim (hl : c.Lingers n) (hd : Diary e id log w) (hne : log ≠ [])
    (hn : n.id = id.node) (hf : c.Favours supply) (hretry : 1 ≤ n.retry.maxAttempts) : False := by
  have hbound (i : Nat) : (milestones (c.lines i)).length ≤ (n.retry.course supply).length := by
    obtain ⟨t,-,-,-,hliving⟩ := hl.living hd hne hn i
    have hle := (hliving.follows hretry (c.isCalm hd hf i)).notes.length_le
    rwa [List.length_map] at hle
  have hgrows (m : Nat) : ∃ i, m ≤ (milestones (c.lines i)).length := by
    induction m with
    | zero => exact ⟨0,Nat.zero_le _⟩
    | succ m ih =>
      obtain ⟨i,hi⟩ := ih
      obtain ⟨j,hj⟩ := hl.advances hd hne hn hf i
      exact ⟨j,Nat.lt_of_le_of_lt hi hj⟩
  obtain ⟨i,hi⟩ := hgrows ((n.retry.course supply).length+1)
  exact absurd (hbound i) (Nat.not_le.mpr hi)

end Lingering

end Lifetime

/-- Every node of a run that there may be was checked. -/
theorem Reaches.usable (hr : Reaches e w) {r : Run} (hmem : r ∈ w.runs) :
    ∀ n ∈ r.schedule.graph.nodes, n.IsUsable := by
  obtain ⟨root,hroot,hsteps,henc⟩ := hr.layered.encloses hr.coherent hmem
  obtain ⟨-,d,hb⟩ := hr.layered.root root hroot hsteps
  obtain ⟨-,hg⟩ := Definition.build_eq_ok.mp hb
  rw [← hg] at henc
  obtain ⟨b,path,seen,hblock,-,hsub⟩ := Block.ofBlock_sees_enclosed "" henc
  rw [← hblock]
  exact Block.toGraph_usable path seen fun s hs => Definition.siteFaults_of_build hb s (hsub hs)

/-- How the attempts of a node come out: they take the whole course, the node ends with the last one,
unless a block runs in any case, and so its run records it. -/
structure ComesOut (n : GraphNode Graph) (supply : Nat → Outcome) (log : List Line) (r : Run)
    (report : Report) : Prop extends Completes n.retry supply report.attempts log where
  ending : n.kind.always? = none → report.ending = (supply report.attempts).ending
  heard : r.HasHeard n.id report
  record : ∀ record, r.schedule.record? n.id = some record → record.status.isTerminal = true →
    record.Tells report

theorem Diary.comesOut {supply : Nat → Outcome} {r : Run} {n : GraphNode Graph}
    (hd : Diary e id log w) (hr : r ∈ w.runs) (hid : r.id = id.run)
    (hn : n ∈ r.schedule.graph.nodes) (hnode : n.id = id.node) (hcalm : IsCalm supply log)
    (hb : ∀ x ∈ log, ∀ message, x.note ≠ .breaksDown message) {m : Moment} {report : Report}
    (hx : ⟨m,.reports report⟩ ∈ log) : ComesOut n supply log r report := by
  obtain ⟨s,p,hl,-⟩ := hd.living (fun n s => Account.silent_holds e.setting n s) hr hid
    (List.ne_nil_of_mem hx) hn hnode
  obtain ⟨-,hlife⟩ := hl.life hx
  obtain ⟨hcompletes,hending⟩ := (hlife.follows (hd.reaches.usable hr n hn).attempts hcalm).2 hb
  have hheard : r.HasHeard n.id report := hnode ▸ hd.heard hx r hr hid
  exact ⟨hcompletes,hending,hheard,fun record hrec ht => hheard.tells hd.reaches hr hrec ht⟩

/-- The attempts of a node that is admitted in a run that is not cancelled follow its policy, with the
pauses between them, whatever they come to. A report comes at the end of them, and it comes if each of
them ends. -/
theorem attempts_follow_policy {supply : Nat → Outcome} {r : Run} {n : GraphNode Graph}
    (hd : Diary e id log w) (hr : r ∈ w.runs) (hid : r.id = id.run)
    (hn : n ∈ r.schedule.graph.nodes) (hnode : n.id = id.node)
    (hc : w.isCancelled id.run = false)
    (hs : ∀ x ∈ log, ∀ k outcome, x.note = .ends k outcome → outcome = supply k)
    (hb : ∀ x ∈ log, ∀ message, x.note ≠ .breaksDown message) :
    Follows n.retry supply log ∧
    (∀ m report, ⟨m,.reports report⟩ ∈ log → ComesOut n supply log r report) ∧
    (log ≠ [] → ∀ c : Lifetime e id log w, c.Favours supply → ∃ i,
      (∀ q ∈ (c.world i).runs, q.id ≠ id.run) ∨
      ∃ q ∈ (c.world i).runs, q.id = id.run ∧ ∃ m report, ⟨m,.reports report⟩ ∈ c.lines i ∧
        ComesOut n supply (c.lines i) q report) := by
  have hcalm : IsCalm supply log := by
    refine fun x hx => ⟨?_,hs x hx⟩
    cases hstamp : x.moment.cancelled with
    | false => rfl
    | true => rw [(hd.past x hx).2 hstamp] at hc; cases hc
  have hretry := (hd.reaches.usable hr n hn).attempts
  refine ⟨?_,fun m report hx => hd.comesOut hr hid hn hnode hcalm hb hx,fun hne c hf => ?_⟩
  · by_cases hne : log = []
    · subst hne
      refine ⟨?_,.nil⟩
      exact List.nil_prefix
    · obtain ⟨s,p,hl,-⟩ := hd.living (fun n s => Account.silent_holds e.setting n s) hr hid hne hn
        hnode
      exact hl.follows hretry hcalm
  · by_contra hnever
    have hmem (i : Nat) := c.node_mem hd hne (n := n)
      (fun q hq hqid => hd.reaches.coherent.run_unique hr hq (hid.trans hqid.symm) ▸ hn) i
    have hthere (i : Nat) : ∃ q ∈ (c.world i).runs, q.id = id.run := by
      by_contra hgone
      exact hnever ⟨i,.inl fun q hq hqid => hgone ⟨q,hq,hqid⟩⟩
    have hlingers : c.Lingers n := by
      refine ⟨fun i => ?_,fun i x hx report hnote => ?_⟩
      · obtain ⟨q,hq,hqid⟩ := hthere i
        exact ⟨q,hq,hqid,hmem i q hq hqid⟩
      · obtain ⟨q,hq,hqid⟩ := hthere i
        have hx : ⟨x.moment,.reports report⟩ ∈ c.lines i := hnote ▸ hx
        exact hnever ⟨i,.inr ⟨q,hq,hqid,x.moment,report,hx,(c.diary hd i).comesOut hq hqid
          (hmem i q hq hqid) hnode (c.isCalm hd hf i) (hf.sound i) hx⟩⟩
    exact hlingers.elim hd hne hnode hf hretry

theorem Noted.subset_start (h : Noted e id log w log' w') (c : Lifetime e id log' w') :
    log ⊆ c.lines 0 := by
  rw [c.start.1]
  exact h.prefix_log.subset

namespace Lifetime

/-- A course that a step comes before. -/
def cons (h : Noted e id log w log' w') (c : Lifetime e id log' w') : Lifetime e id log w where
  lines
    | 0 => log
    | i+1 => c.lines i
  world
    | 0 => w
    | i+1 => c.world i
  start := ⟨rfl,rfl⟩
  step
    | 0 => by
      show Noted e id log w (c.lines 0) (c.world 0)
      rw [c.start.1,c.start.2]
      exact h
    | i+1 => c.step i
  time bound := (c.time bound).elim fun i hi => ⟨i+1,hi⟩
  fair i hall := by
    obtain ⟨j,hj,hacts⟩ := c.fair i fun j hj => hall (j+1) (Nat.le_succ_of_le hj)
    exact ⟨j+1,Nat.le_succ_of_le hj,hacts⟩

/-- When a task is gone there is only time that goes on. -/
def idle (log : List Line) (hgone : ∀ t ∈ w.tasks, t.id ≠ id) : Lifetime e id log w where
  lines _ := log
  world i := { w with clock := w.clock+i }
  start := ⟨rfl,rfl⟩
  step i := .aside (.move (m := .tick 1) nofun rfl)
  time bound := ⟨bound,Nat.le_add_left _ _⟩
  fair i hall := by
    have hsome := hall i (Nat.le_refl i)
    have hnone : w.task? id = none := List.find?_eq_none.mpr fun t ht => by simpa using hgone t ht
    rw [show World.move? e.setting { w with clock := w.clock+i } (.step id) =
      (w.task? id).bind _ from rfl,hnone] at hsome
    cases hsome

variable {supply : Nat → Outcome} {c : Lifetime e id log' w'}

theorem Favours.cons (hf : c.Favours supply) (h : Noted e id log w log' w')
    (hc : w.isCancelled id.run = false) (hb : ∀ t ∈ w.tasks, t.phase.around? = none) :
    (c.cons h).Favours supply where
  calm
    | 0 => hc
    | i+1 => hf.calm i
  sound
    | 0,x,hx => hf.sound 0 x (h.subset_start c hx)
    | i+1,x,hx => hf.sound i x hx
  supplied
    | 0,x,hx => hf.supplied 0 x (h.subset_start c hx)
    | i+1,x,hx => hf.supplied i x hx
  attempts
    | 0,x,hx,k,hk =>
      (hf.attempts 0 x (h.subset_start c hx) k hk).elim fun j hj => ⟨j+1,hj⟩
    | i+1,x,hx,k,hk => (hf.attempts i x hx k hk).elim fun j hj => ⟨j+1,hj⟩
  blocks
    | 0,t,ht,_,run,hrun => by
      rw [hb t ht] at hrun
      cases hrun
    | i+1,t,ht,hid,run,hrun =>
      (hf.blocks i t ht hid run hrun).elim fun j hj => ⟨j+1,Nat.succ_le_succ hj.1,hj.2⟩

theorem Bears.cons {n : GraphNode Graph} (hb : c.Bears n) (h : Noted e id log w log' w')
    (hhome : ∃ r ∈ w.runs, r.id = id.run ∧ n ∈ r.schedule.graph.nodes)
    (hover : ∀ t ∈ w.tasks, t.id = id → ∀ run ∈ t.phase.runs, (w.result? run).isSome = true) :
    (c.cons h).Bears n where
  home
    | 0 => hhome
    | i+1 => hb.home i
  ends
    | 0,t,ht,hid,run,hrun => ⟨0,Nat.le_refl 0,.inl (hover t ht hid run hrun)⟩
    | i+1,t,ht,hid,run,hrun =>
      (hb.ends i t ht hid run hrun).elim fun j hj => ⟨j+1,Nat.succ_le_succ hj.1,hj.2⟩

theorem bears_idle {n : GraphNode Graph} (hgone : ∀ t ∈ w.tasks, t.id ≠ id)
    (hhome : ∃ r ∈ w.runs, r.id = id.run ∧ n ∈ r.schedule.graph.nodes) :
    (idle (e := e) log hgone).Bears n where
  home _ := hhome
  ends _ t ht hid := absurd hid (hgone t ht)

theorem favours_idle (hgone : ∀ t ∈ w.tasks, t.id ≠ id) (hc : w.isCancelled id.run = false)
    (hs : ∀ x ∈ log, (∀ k outcome, x.note = .ends k outcome → outcome = supply k) ∧
      ∀ message, x.note ≠ .breaksDown message)
    (ha : ∀ x ∈ log, ∀ k, x.note = .begins k → ∃ y ∈ log, ∃ outcome, y.note = .ends k outcome) :
    (idle (e := e) log hgone).Favours supply where
  calm _ := hc
  sound _ x hx := (hs x hx).2
  supplied _ x hx := (hs x hx).1
  attempts _ x hx k hk := ⟨0,ha x hx k hk⟩
  blocks _ t ht hid := absurd hid (hgone t ht)

end Lifetime

namespace Bell

/-- Nobody opens at first. -/
abbrev ring : Action where
  name := "ring"
  logged := false
  check _ := .ok ()
  start use := .ended (if use.attempt = 1 then .fault (.failed "nobody") else .done (.string "hello"))

abbrev engine : Engine := { config := {}, pools := {}, setting := { actions := [ring] } }

abbrev definition : Definition where
  name := "visit"
  nodes := [("ring",{
    kind := .action "ring" .null
    retry := some ⟨3,.ofMillis 10,⟨0x3FF0000000000000⟩,none⟩ })]

abbrev door : TaskId := ⟨⟨0,[]⟩,"ring"⟩

def supply : Nat → Outcome
  | 1 => .error (.execution "ring" "nobody")
  | _ => .ok ⟨.string "hello",[]⟩

def first : List Line × World :=
  (engine.started definition).diary engine.setting door [] [.pass ⟨0,[]⟩,.step door]

theorem diary_first : Diary engine door first.1 first.2 := (Diary.started rfl).moves _

/-- Whether a task is in the pause after its first attempt. -/
def isPausing (t : Task) : Bool :=
  match t.phase with
  | .pausing 1 _ => true
  | _ => false

/-- Whether nobody has cancelled the run, and no task waits for a block around its attempts. -/
def isCalm (w : World) : Bool := !w.isCancelled door.run && w.tasks.all (·.phase.around?.isNone)

theorem first_pauses : (first.2.task? door).any isPausing = true ∧ isCalm first.2 = true := by
  decide +kernel

theorem task_isSome : (first.2.task? door).isSome = true := by
  obtain ⟨t,ht,-⟩ := (Option.any_eq_true _ _).mp first_pauses.1
  rw [ht]
  rfl

def task : Task := (first.2.task? door).get task_isSome

theorem task?_eq : first.2.task? door = some task := (Option.some_get task_isSome).symm

/-- When the pause after the first attempt is over. -/
def alarm : Timer :=
  match task.phase with
  | .pausing _ ends => ends
  | _ => ⟨0,0⟩

theorem task_phase : task.phase = .pausing 1 alarm := by
  have h := first_pauses.1
  rw [task?_eq,Option.any_some,isPausing] at h
  unfold alarm
  split at h
  · next hp => rw [hp]
  · cases h

def rested : World := { first.2 with clock := first.2.clock+alarm.time }

def resumed : World := rested.beginAttempt engine.setting task 2

def sequel : Sequel :=
  (task.followed (rested.moment task) 2 (rested.beginning engine.setting task 2)).after [.begins 2]

/-- What is noted of both attempts. -/
def notes : List Line :=
  first.1 ++ (sequel.written task.node task.scope).map (Line.mk (rested.moment task))

theorem noted_rested : Noted engine door first.1 first.2 first.1 rested :=
  .aside (.move (m := .tick alarm.time) nofun rfl)

theorem diary_rested : Diary engine door first.1 rested := noted_rested.diary diary_first

theorem task_mem : task ∈ rested.tasks ∧ task.id = door := World.mem_of_task? task?_eq

theorem isCalm_spec {w : World} (h : isCalm w = true) : w.isCancelled door.run = false ∧
    ∀ t ∈ w.tasks, t.phase.around? = none := by
  obtain ⟨hc,hnone⟩ := Bool.and_eq_true_iff.mp h
  exact ⟨by simpa using hc,fun t ht =>
    Option.isNone_iff_eq_none.mp (List.all_eq_true.mp hnone t ht)⟩

theorem not_cancelled : rested.isCancelled task.id.run = false := by
  rw [task_mem.2]
  exact (isCalm_spec first_pauses.2).1

theorem hasPassed : rested.hasPassed alarm = true := decide_eq_true (Nat.le_add_left _ _)

theorem noted_resumed : Noted engine door first.1 rested notes resumed := by
  have hw := diary_rested.reaches.coherent
  have hm : rested.move? engine.setting (.step door) = some resumed := by
    rw [World.move_step hw task_mem.1 task_mem.2,World.stepTask,task_phase]
    simp only [not_cancelled,hasPassed,if_true,Bool.false_eq_true,if_false]
    rfl
  obtain ⟨t,q,hid,henacts⟩ := World.enacts diary_rested.reaches hm
  obtain rfl := hw.task_unique henacts.mem task_mem.1 (hid.trans task_mem.2.symm)
  have hq : rested.sequel? engine.setting task = some sequel := by
    have hcalm : (rested.moment task).cancelled = false := not_cancelled
    simp only [World.sequel?,task_phase,hcalm,hasPassed,if_true,Bool.false_eq_true,if_false]
    rfl
  obtain rfl := Option.some.inj (henacts.sequel.symm.trans hq)
  have hlines := henacts.lines
  rw [task_mem.2] at hlines
  have hn : Noted engine door first.1 rested
      (first.1 ++ rested.lines engine.setting resumed door) resumed := .own hm
  rwa [hlines] at hn

theorem diary : Diary engine door notes resumed := noted_resumed.diary diary_rested

/-- Whether a node gets three attempts, and needs two of them. -/
def needsTwo (_ : Run) (n : GraphNode Graph) : Bool :=
  n.retry.maxAttempts == 3 && n.retry.lastAttempt supply == 2

/-- Whether a line is none of a breakdown, and none of another outcome. -/
def isSupplied (x : Line) : Bool :=
  match x.note with
  | .ends 1 (.error (.execution "ring" "nobody")) => true
  | .ends 2 (.ok ⟨.string "hello",[]⟩) => true
  | .ends .. | .breaksDown _ => false
  | _ => true

theorem isSupplied_spec {x : Line} (h : isSupplied x = true) :
    (∀ k outcome, x.note = .ends k outcome → outcome = supply k) ∧
      ∀ message, x.note ≠ .breaksDown message := by
  unfold isSupplied at h
  split at h
  · next hx =>
    rw [hx]
    exact ⟨by rintro _ _ ⟨⟩; rfl,nofun⟩
  · next hx =>
    rw [hx]
    exact ⟨by rintro _ _ ⟨⟩; rfl,nofun⟩
  · cases h
  · cases h
  · next hends hbroken =>
    exact ⟨fun k outcome hx => absurd hx (hends k outcome),fun message hx => hbroken message hx⟩

/-- Whether an attempt that began has ended. -/
def isAnswered (x : Line) : Bool :=
  match x.note with
  | .begins k => notes.any fun y => match y.note with
    | .ends j _ => j == k
    | _ => false
  | _ => true

def gone : World := (resumed.move? engine.setting (.step door)).getD resumed

/-- Both attempts are noted, and when it has reported the task is gone. -/
theorem gone_spec : (∀ x ∈ notes, isSupplied x = true ∧ isAnswered x = true) ∧
    (resumed.move? engine.setting (.step door)).isSome = true ∧
    (resumed.lines engine.setting gone door).isEmpty = true ∧
    (∀ t ∈ gone.tasks, t.id ≠ door) ∧ isCalm resumed = true ∧ isCalm gone = true := by
  decide +kernel

theorem noted_gone : Noted engine door notes resumed notes gone := by
  obtain ⟨-,hsome,hnone,-⟩ := gone_spec
  obtain ⟨w,hw⟩ := Option.isSome_iff_exists.mp hsome
  have hm : resumed.move? engine.setting (.step door) = some gone := by rw [gone,hw,Option.getD_some]
  have hn : Noted engine door notes resumed
      (notes ++ resumed.lines engine.setting gone door) gone := .own hm
  rwa [List.isEmpty_iff.mp hnone,List.append_nil] at hn

/-- From the pause on: it ends, the second attempt succeeds, the task leaves, and time goes on. -/
def lifetime : Lifetime engine door first.1 first.2 :=
  (((Lifetime.idle notes gone_spec.2.2.2.1).cons noted_gone).cons noted_resumed).cons noted_rested

theorem favours : lifetime.Favours supply := by
  obtain ⟨hnotes,-,-,hnot,hresumed,hgone⟩ := gone_spec
  obtain ⟨hcr,hbr⟩ := isCalm_spec hresumed
  obtain ⟨hcg,-⟩ := isCalm_spec hgone
  obtain ⟨hcf,hbf⟩ := isCalm_spec first_pauses.2
  have hidle := Lifetime.favours_idle (e := engine) hnot hcg
    (fun x hx => isSupplied_spec (hnotes x hx).1) fun x hx k hk => by
      have hany := (hnotes x hx).2
      rw [isAnswered,hk] at hany
      obtain ⟨y,hy,hends⟩ := List.any_eq_true.mp hany
      refine ⟨y,hy,?_⟩
      split at hends
      · next outcome hnote => exact ⟨outcome,hnote.trans (by rw [eq_of_beq hends])⟩
      · cases hends
  exact ((hidle.cons noted_gone hcr hbr).cons noted_resumed hcf hbf).cons noted_rested hcf hbf

end Bell

/-- The first attempt fails; after a pause the second succeeds, and no third is made. -/
theorem attempts_follow_policy_bell :
    (∃ r ∈ Bell.resumed.runs, ∃ n ∈ r.schedule.graph.nodes, n.retry.maxAttempts = 3 ∧
      n.retry.lastAttempt Bell.supply = 2 ∧ ∃ m report, ⟨m,.reports report⟩ ∈ Bell.notes ∧
        ComesOut n Bell.supply Bell.notes r report) ∧
    ∃ r ∈ Bell.first.2.runs, ∃ n ∈ r.schedule.graph.nodes,
      Follows n.retry Bell.supply Bell.first.1 ∧ Bell.lifetime.Favours Bell.supply ∧
      ∃ i, (∀ q ∈ (Bell.lifetime.world i).runs, q.id ≠ Bell.door.run) ∨
        ∃ q ∈ (Bell.lifetime.world i).runs, q.id = Bell.door.run ∧ ∃ m report,
          ⟨m,.reports report⟩ ∈ Bell.lifetime.lines i ∧
            ComesOut n Bell.supply (Bell.lifetime.lines i) q report := by
  have hspec (x : Line) (hx : x ∈ Bell.notes) :=
    Bell.isSupplied_spec (Bell.gone_spec.1 x hx).1
  constructor
  · obtain ⟨m,report,hreport,-⟩ :=
      exists_report Bell.notes (fun _ => true) (by decide +kernel)
    obtain ⟨r,hr,hid,n,hn,hnid,hneeds⟩ := World.exists_node Bell.resumed Bell.door Bell.needsTwo
      (by decide +kernel)
    obtain ⟨hmax,hlast⟩ := Bool.and_eq_true_iff.mp hneeds
    obtain ⟨-,hcomes,-⟩ := attempts_follow_policy Bell.diary hr hid hn hnid (by decide +kernel)
      (fun x hx => (hspec x hx).1) fun x hx => (hspec x hx).2
    exact ⟨r,hr,n,hn,eq_of_beq hmax,eq_of_beq hlast,m,report,hreport,hcomes m report hreport⟩
  · obtain ⟨r,hr,hid,n,hn,hnid,-⟩ := World.exists_node Bell.first.2 Bell.door Bell.needsTwo
      (by decide +kernel)
    have hearlier (x : Line) (hx : x ∈ Bell.first.1) := hspec x (List.mem_append_left _ hx)
    obtain ⟨hfollows,-,hlive⟩ := attempts_follow_policy Bell.diary_first hr hid hn hnid
      (by decide +kernel) (fun x hx => (hearlier x hx).1) fun x hx => (hearlier x hx).2
    exact ⟨r,hr,n,hn,hfollows,Bell.favours,
      hlive (fun he => absurd (congrArg List.isEmpty he) (by decide +kernel)) Bell.lifetime Bell.favours⟩

end TaskGraph.Engine
