import TaskGraph.Proofs.Engine.Enacting
import TaskGraph.Proofs.Engine.Journal
import TaskGraph.Proofs.Engine.Share

/-!
The diary of a task: what is noted of each of its steps, with the time and whether it was cancelled by
then. What others do adds nothing to it.
-/

namespace TaskGraph.Engine

structure Line where
  moment : Moment
  note : Note

/-- The parts of its node that a task starts when it goes on to a phase. -/
def Phase.openings (n : GraphNode Graph) (s : Scope) (p : Phase) : List Note :=
  p.parts.map fun x => .opens x.1 x.2 (x.1.start? n s)

/-- What is noted of a step. -/
def Sequel.written (q : Sequel) (n : GraphNode Graph) (s : Scope) : List Note :=
  q.notes ++ (q.next.map (Phase.openings n s)).getD []

/-- Apart from the parts that a task starts all that is noted is noted of the step itself. -/
theorem Sequel.mem_notes {q : Sequel} {n : GraphNode Graph} {s : Scope} {note : Note}
    (h : note ∈ q.written n s) (hother : ∀ part run first, note ≠ .opens part run first) :
    note ∈ q.notes := by
  refine (List.mem_append.mp h).resolve_right fun hopens => ?_
  cases hnext : q.next with
  | none =>
    rw [hnext] at hopens
    cases hopens
  | some p =>
    rw [hnext] at hopens
    obtain ⟨x,-,rfl⟩ := List.mem_map.mp hopens
    exact hother _ _ _ rfl

namespace World

/-- The runs for the parts of its node that a task has started, as they are there. -/
def openings (w : World) (p : Phase) : List Note :=
  p.parts.map fun x => .opens x.1 x.2 ((w.run? x.2).map Run.schedule)

/-- What is noted of a step of a task that leads from one world to another. -/
def lines (σ : Setting) (w w' : World) (id : TaskId) : List Line :=
  match w.task? id with
  | none => []
  | some t =>
    match w.sequel? σ t with
    | none => []
    | some q => (q.notes ++ (q.next.map w'.openings).getD []).map (Line.mk (w.moment t))

end World

/-- A step in which a task does nothing. -/
inductive Aside (e : Engine) (id : TaskId) (w w' : World) : Prop
  | move {m : Move} : m ≠ .step id → w.move? e.setting m = some w' → Aside e id w w'
  | outer : Step e none w w' → Aside e id w w'

/-- The worlds that an engine comes to, with all that was noted of a task until then. -/
inductive Diary (e : Engine) (id : TaskId) : List Line → World → Prop
  | world : Diary e id [] e.world
  | own {log : List Line} {w w' : World} : Diary e id log w →
    w.move? e.setting (.step id) = some w' → Diary e id (log ++ w.lines e.setting w' id) w'
  | aside {log : List Line} {w w' : World} : Diary e id log w → Aside e id w w' → Diary e id log w'

variable {e : Engine} {id : TaskId} {log : List Line} {w w' : World} {t u : Task}

theorem Aside.step (h : Aside e id w w') : ∃ turn, Step e turn w w' := by
  cases h with
  | move _ hm => exact ⟨_,.move hm⟩
  | outer hs => exact ⟨none,hs⟩

theorem Diary.reaches (hd : Diary e id log w) : Reaches e w := by
  induction hd with
  | world => exact .world
  | own _ hm ih => exact ih.step (.move hm)
  | aside _ ha ih =>
    obtain ⟨turn,hs⟩ := ha.step
    exact ih.step hs

/-- Of every task there is a diary. -/
theorem Reaches.diary (hr : Reaches e w) (id : TaskId) : ∃ log, Diary e id log w := by
  induction hr with
  | world => exact ⟨[],.world⟩
  | @step w w' turn _ hs ih =>
    obtain ⟨log,hd⟩ := ih
    cases hs with
    | start hk hfree hstart => exact ⟨log,hd.aside (.outer (.start hk hfree hstart))⟩
    | @move _ _ m hm =>
      by_cases h : m = .step id
      · subst h
        exact ⟨_,hd.own hm⟩
      · exact ⟨log,hd.aside (.move h hm)⟩
    | agenda _ ready plans => exact ⟨log,hd.aside (.outer (.agenda w ready plans))⟩

/-- What a task notes in the course of moves, and the world that they lead to; a move that nobody can
make is left out. -/
def World.diary (σ : Setting) (id : TaskId) (log : List Line) (w : World) :
    List Move → List Line × World
  | [] => (log,w)
  | m::rest =>
    match w.move? σ m with
    | none => w.diary σ id log rest
    | some v => v.diary σ id (if m = .step id then log ++ w.lines σ v id else log) rest

theorem Diary.moves (hd : Diary e id log w) (moves : List Move) :
    Diary e id (w.diary e.setting id log moves).1 (w.diary e.setting id log moves).2 := by
  induction moves generalizing log w with
  | nil => exact hd
  | cons m rest ih =>
    unfold World.diary
    split
    · exact ih hd
    · next v hv =>
      split
      · next he =>
        subst he
        exact ih (hd.own hv)
      · next hne => exact ih (hd.aside (.move hne hv))

/-- An engine that has just started a definition. -/
def started (e : Engine) (definition : Definition) : World :=
  match e.start e.world definition [] 0 none with
  | .ok w => w
  | .error _ => e.world

theorem Diary.started {definition : Definition} (hk : definition.isKeyed = true) :
    Diary e id [] (e.started definition) := by
  unfold Engine.started
  split
  · next w hs => exact Diary.world.aside (.outer (.start hk (fun _ hr => absurd hr List.not_mem_nil) hs))
  · exact .world

namespace World

/-- What others do leaves the tasks under an id as they are; at most they dispatch one, or drop it
with its run. -/
structure Leaves (id : TaskId) (w w' : World) : Prop where
  origin : ∀ u ∈ w'.tasks, u.id = id → u ∈ w.tasks ∨ u.phase = .asking ∧
    ∃ r ∈ w.runs, r.id = id.run ∧ ¬ r.HasDispatched id.node
  stays : ∀ t ∈ w.tasks, t.id = id → t ∈ w'.tasks ∨ ∀ r ∈ w'.runs, r.id ≠ id.run

theorem Leaves.of_same (h : w'.tasks = w.tasks) : Leaves id w w' :=
  ⟨fun _ hu _ => .inl (h ▸ hu),fun _ ht _ => .inl (h ▸ ht)⟩

/-- A task that acts is another one. -/
theorem Performs.leaves {d : Deed} {es : List Event} (hp : Performs e w w' t d es) (hw : w.Coherent)
    (ht : t ∈ w.tasks) (hne : t.id ≠ id) : Leaves id w w' where
  origin u hu hid := by
    obtain ⟨hu,-⟩ | hfollows := (hp.tasks u).mp hu
    · exact .inl hu
    · exact absurd ((hp.fits.follower hfollows).1.symm.trans hid) hne
  stays v hv hid := by
    by_cases hs : Stays t v.id.run
    · exact .inl ((hp.tasks v).mpr (.inl ⟨hv,hs,fun he => hne (he.symm.trans hid)⟩))
    · refine .inr fun r hr hrid => ?_
      obtain ⟨home,hhome,hat⟩ := hw.home v hv
      obtain ⟨p,-,hstays,rfl⟩ | hopened := hp.mem_runs.mp hr
      · refine hs ?_
        rw [hid,← hrid]
        exact hstays
      · refine hw.opened_fresh ht hp.fits hopened home hhome ?_
        rw [hrid,hat.id,hid]

end World

open World

/-- A step in which a task does nothing changes no task under its id, unless it dispatches or drops
one. -/
theorem Aside.leaves (h : Aside e id w w') (hr : Reaches e w) : Leaves id w w' := by
  have hw := hr.coherent
  have hmove {m : Move} (hne : m ≠ .step id) (hm : w.move? e.setting m = some w') :
      Leaves id w w' := by
    obtain ⟨r,hrun,-,hturn⟩ | ⟨t,ht,rfl,hstep⟩ | ⟨-,⟨n,rfl⟩ | ⟨millis,rfl⟩⟩ := move_cases hm
    · obtain ⟨-,r',fresh,hid,hcourse,-,htasks,-⟩ := hturn.course
      refine ⟨fun u hu hui => ?_,fun t ht _ => .inl (htasks ▸ List.mem_append_left _ ht)⟩
      rw [htasks] at hu
      refine (List.mem_append.mp hu).imp_right fun hu => ?_
      obtain ⟨hrid,hp,hno⟩ := hcourse.of_fresh hu
      rw [hui] at hrid hno
      exact ⟨hp,r,hrun,hrid.symm,hno⟩
    · have hne : t.id ≠ id := fun he => hne (congrArg Move.step he)
      have hturn := stepTask_turn (hw.task t ht).node (hw.task t ht).phase hstep
      obtain ha | ⟨d,es,hp⟩ | ⟨-,ha⟩ := hturn.performs hr ht
      · exact .of_same ha.tasks
      · exact hp.leaves hw ht hne
      · have hmem {u : Task} : u ∈ w'.tasks ↔ u ∈ w.tasks ∧ u.id ≠ t.id := by
          rw [ha.tasks]
          simp
        exact ⟨fun u hu _ => .inl (hmem.mp hu).1,
          fun v hv hid => .inl (hmem.mpr ⟨hv,fun he => hne (he.symm.trans hid)⟩)⟩
    · obtain ⟨c,ha,-⟩ := w.cancel_alike n
      exact .of_same ha.tasks
    · exact .of_same rfl
  cases h with
  | move hne hm => exact hmove hne hm
  | outer hs =>
    generalize hturn : (none : Option Nat) = turn at hs
    cases hs with
    | start _ _ hstart =>
      obtain ⟨graph,run,-,-,-,ha,-⟩ := start_spec hstart
      exact .of_same ha.tasks
    | move hm =>
      refine hmove ?_ hm
      rintro rfl
      cases hturn
    | agenda => exact .of_same rfl

/-- A step of a task, with what is noted of it. -/
structure Enacts (e : Engine) (w w' : World) (t : Task) (q : Sequel) : Prop where
  mem : t ∈ w.tasks
  sequel : w.sequel? e.setting t = some q
  shows : q.Shows t w'
  lines : w.lines e.setting w' t.id = (q.written t.node t.scope).map (Line.mk (w.moment t))
  /-- Whoever goes on is the same with another phase. -/
  same : ∀ u ∈ w'.tasks, u.id = t.id → u.node = t.node ∧ u.scope = t.scope
  gone : (∀ u ∈ w'.tasks, u.id ≠ t.id) → q.next = none
  home : ∀ r' ∈ w'.runs, r'.id = t.id.run → ∃ r ∈ w.runs, r.id = r'.id ∧ r'.schedule = r.schedule ∧
    r.inbox ⊆ r'.inbox
  clock : w'.clock = w.clock
  cancelled : w'.cancelled = w.cancelled

/-- What is noted of the runs that a task starts is true of them. -/
theorem Sequel.Shows.openings_eq {q : Sequel} (h : q.Shows t w) (hw : w.Coherent) {p : Phase}
    (hp : p ∈ q.next) : w.openings p = p.openings t.node t.scope := by
  refine List.map_congr_left fun x hx => ?_
  obtain ⟨r,hr,hid,hs⟩ := h.opened p hp x hx
  rw [← hid,run?_of_mem hw.runs_nodup hr,hs]
  rfl

theorem World.enacts (hr : Reaches e w) (hm : w.move? e.setting (.step id) = some w') :
    ∃ t q, t.id = id ∧ Enacts e w w' t q := by
  have hw := hr.coherent
  have hw' := (hr.step (.move hm)).coherent
  obtain ⟨t,hfound,hstep⟩ := Option.bind_eq_some_iff.mp hm
  obtain ⟨ht,hid⟩ := mem_of_task? hfound
  obtain ⟨q,hq,hshows⟩ := stepTask_sequel (fun u hu he => hw.task_unique hu ht he) hstep
  have hturn := stepTask_turn (hw.task t ht).node (hw.task t ht).phase hstep
  refine ⟨t,q,hid,ht,hq,hshows,?_,?_,?_,?_,?_,hturn.cancelled⟩
  · rw [lines,hid,hfound]
    simp only [hq,Sequel.written]
    cases hn : q.next with
    | none => rfl
    | some p => simp only [Option.map_some,hshows.openings_eq hw' hn]
  · intro u hu hui
    obtain ha | ⟨d,es,hp⟩ | ⟨-,ha⟩ := hturn.performs hr ht
    · rw [ha.tasks] at hu
      rw [hw.task_unique hu ht hui]
      exact ⟨rfl,rfl⟩
    · obtain ⟨-,-,hne⟩ | hfollows := (hp.tasks u).mp hu
      · exact absurd hui hne
      · obtain ⟨p,-,rfl⟩ := Option.map_eq_some_iff.mp hfollows
        exact ⟨rfl,rfl⟩
    · rw [ha.tasks] at hu
      exact absurd hui (by simpa using (List.mem_filter.mp hu).2)
  · intro hgone
    obtain ha | ⟨d,es,hp⟩ | ⟨hl,-⟩ := hturn.performs hr ht
    · exact absurd rfl (hgone t (ha.tasks ▸ ht))
    · have hnone : d.next = none := by
        cases hn : d.next with
        | none => rfl
        | some p =>
          have hfollows := Deed.follower?_eq (t := t) hn
          have hmem := (hp.tasks _).mpr (.inr hfollows)
          exact (hgone _ hmem rfl).elim
      have hc := hp.fits.gone hnone
      cases hphase : t.phase with
      | collapsed message =>
        simp only [sequel?,hphase,Option.some.injEq] at hq
        rw [← hq]
      | _ =>
        rw [hphase] at hc
        cases hc
    · simp only [sequel?,Phase.eq_leaving hl,Option.some.injEq] at hq
      rw [← hq]
  · intro r' hr' hrid
    obtain ha | ⟨d,es,hp⟩ | ⟨-,ha⟩ := hturn.performs hr ht
    · exact ⟨r',ha.runs ▸ hr',rfl,rfl,List.Subset.refl _⟩
    · obtain ⟨p,hp',-,rfl⟩ | hopened := hp.mem_runs.mp hr'
      · exact ⟨p,hp',rfl,rfl,List.subset_append_left _ _⟩
      · obtain ⟨home,hhome,hat⟩ := hw.home t ht
        exact absurd (hat.id.trans hrid.symm) (hw.opened_fresh ht hp.fits hopened home hhome)
    · exact ⟨r',ha.runs ▸ hr',rfl,rfl,List.Subset.refl _⟩
  · obtain ha | ⟨d,es,hp⟩ | ⟨-,ha⟩ := hturn.performs hr ht
    · exact ha.clock
    · exact hp.clock
    · exact ha.clock

/-- Whoever is cancelled stays so. -/
theorem Step.cancels {turn : Option Nat} (hs : Step e turn w w') (hr : Reaches e w) {n : Nat}
    (hn : n ∈ w.cancelled) : n ∈ w'.cancelled := by
  cases hs with
  | start _ _ hstart =>
    obtain ⟨graph,run,-,-,-,ha,-⟩ := start_spec hstart
    exact ha.cancels hn
  | move hm =>
    obtain ⟨r,-,-,hturn⟩ | ⟨t,ht,-,hstep⟩ | ⟨-,⟨k,rfl⟩ | ⟨millis,rfl⟩⟩ := move_cases hm
    · obtain ⟨-,-,-,-,-,-,-,-,hkept⟩ := hturn.spec
      exact hkept n hn
    · have hsens := hr.coherent.task t ht
      rw [(stepTask_turn hsens.node hsens.phase hstep).cancelled]
      exact hn
    · obtain ⟨c,ha,hmem⟩ := w.cancel_alike k
      exact ha.cancels ((hmem n).mpr (.inr hn))
    · exact hn
  | agenda => exact hn

namespace Diary

/-- What is noted was noted by now; who was cancelled then is cancelled now. -/
theorem past (hd : Diary e id log w) : ∀ x ∈ log, x.moment.time ≤ w.clock ∧
    (x.moment.cancelled = true → w.isCancelled id.run = true) := by
  have hlater {w w' : World} {turn : Option Nat} (hr : Reaches e w) (hs : Step e turn w w')
      {m : Moment} (hm : m.time ≤ w.clock ∧ (m.cancelled = true → w.isCancelled id.run = true)) :
      m.time ≤ w'.clock ∧ (m.cancelled = true → w'.isCancelled id.run = true) := by
    refine ⟨Nat.le_trans hm.1 (hs.goes hr).clock_le,fun hc => ?_⟩
    exact isCancelled_iff.mpr (hs.cancels hr (isCancelled_iff.mp (hm.2 hc)))
  induction hd with
  | world =>
    intro x hx
    cases hx
  | @own log w w' hd hm ih =>
    intro x hx
    refine hlater hd.reaches (.move hm) ?_
    rcases List.mem_append.mp hx with hx | hx
    · exact ih x hx
    · obtain ⟨t,q,hid,henacts⟩ := enacts hd.reaches hm
      rw [← hid,henacts.lines] at hx
      obtain ⟨n,-,rfl⟩ := List.mem_map.mp hx
      rw [← hid]
      exact ⟨Nat.le_refl _,fun hc => hc⟩
  | aside hd ha ih =>
    intro x hx
    obtain ⟨turn,hs⟩ := ha.step
    exact hlater hd.reaches hs (ih x hx)

/-- Only known tasks have something in their diary. -/
theorem knows (hd : Diary e id log w) (hne : log ≠ []) : w.Knows id := by
  induction hd with
  | world => exact absurd rfl hne
  | own hd hm =>
    obtain ⟨t,q,rfl,henacts⟩ := enacts hd.reaches hm
    have hs : Step e _ _ _ := .move hm
    exact (hd.reaches.coherent.knows henacts.mem).goes (hs.goes hd.reaches) hd.reaches.coherent
  | aside hd ha ih =>
    obtain ⟨turn,hs⟩ := ha.step
    exact (ih hne).goes (hs.goes hd.reaches) hd.reaches.coherent

end Diary

end TaskGraph.Engine
