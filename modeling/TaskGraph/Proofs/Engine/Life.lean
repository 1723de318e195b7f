import TaskGraph.Proofs.Engine.Diary

/-!
How the diary of a task reads, from its admission to its report: rounds of attempts that fail and pauses
after them, a last attempt, the block that runs in any case, and the handler of a failure. What stands
in the diary of an attempt is left to an account of the attempts of the node.
-/

namespace TaskGraph.Engine

def Part.isInner : Part → Bool
  | .always _ | .handler _ => false
  | _ => true

/-- Whether a note is one of those that an attempt leaves between its beginning and its end. -/
def Note.isInner : Note → Bool
  | .opens part _ _ => part.isInner
  | .closes _ _ => true
  | _ => false

/-- The attempt that is going on. -/
def Phase.attempt? : Phase → Option Nat
  | .acting attempt .. | .nesting attempt .. => some attempt
  | _ => none

/-- What is told of the attempts of a node, by the number of the attempt and what was noted since it
began: of one that is going on, where it stands, of one that has ended, with which outcome, and whether
one may break down. -/
structure Account where
  upto : Nat → Moment → List Line → Phase → Prop
  whole : Nat → Moment → List Line → Moment → Outcome → Prop
  breaks : Prop

/-- An attempt with its notes. -/
structure Tried where
  attempt : Nat
  start : Moment
  inner : List Line
  finish : Moment
  outcome : Outcome

namespace Tried

def lines (a : Tried) : List Line :=
  ⟨a.start,.begins a.attempt⟩::a.inner ++ [⟨a.finish,.ends a.attempt a.outcome⟩]

/-- Whether an attempt is what an account tells, and did not begin before a time. -/
structure Fits (a : Tried) (A : Account) (ready : Nat) : Prop where
  ready : ready ≤ a.start.time
  inner : ∀ x ∈ a.inner, x.note.isInner = true
  whole : A.whole a.attempt a.start a.inner a.finish a.outcome

end Tried

section Grammar

variable (n : GraphNode Graph) (s : Scope) (A : Account)

/-- Attempts that have failed, each with the pause after it, and when the next one may begin. -/
inductive Rounds : Nat → Nat → List Line → Prop
  | none : Rounds 0 0 []
  | again {k ready : Nat} {log : List Line} {a : Tried} {delay : Duration} : Rounds k ready log →
    a.attempt = k+1 → a.Fits A ready →
    n.retry.verdict (k+1) a.finish.cancelled a.outcome = .again delay →
    Rounds (k+1) (a.finish.time+delay.wait)
      (log ++ a.lines ++ [⟨a.finish,.pauses (k+1) delay⟩])

/-- The attempts are over, after the last one or in the pause after one. -/
inductive Over : Nat → Bool → List Line → Outcome → Prop
  | ended {k ready : Nat} {log : List Line} {a : Tried} {outcome : Outcome} :
    Rounds n A k ready log → a.attempt = k+1 → a.Fits A ready →
    n.retry.verdict (k+1) a.finish.cancelled a.outcome = .ended outcome →
    Over (k+1) a.finish.cancelled (log ++ a.lines) outcome
  | stopped {k ready : Nat} {log : List Line} {m : Moment} : Rounds n A (k+1) ready log →
    m.cancelled = true → Over (k+1) true (log ++ [⟨m,.givesUp (k+1)⟩]) (.error .cancelled)

/-- The outcome of the node is settled, after the block that runs in any case if it has one. -/
inductive Settled : Nat → List Line → Outcome → Prop
  | plain {k : Nat} {cancelled : Bool} {log : List Line} {outcome : Outcome} :
    Over n A k cancelled log outcome → n.kind.always? = none → Settled k log outcome
  | dropped {k : Nat} {cancelled : Bool} {log : List Line} {outcome : Outcome} {block : Graph} :
    Over n A k cancelled log outcome → n.kind.always? = some block →
    (outcome.isCancelled || cancelled) = true → Settled k log (.error .cancelled)
  | always {k : Nat} {cancelled : Bool} {log : List Line} {outcome : Outcome} {block : Graph}
    {m m' : Moment} {run : RunId} {result : RunResult} :
    Over n A k cancelled log outcome → n.kind.always? = some block →
    (outcome.isCancelled || cancelled) = false →
    Settled k (log ++ [⟨m,.opens (.always outcome) run ((Part.always outcome).start? n s)⟩,
      ⟨m',.closes run result⟩]) (Attempt.afterAlways outcome result.handed)

/-- The diary of a task that has reported. -/
inductive Life : List Line → Report → Prop
  | unasked {m : Moment} : m.cancelled = true →
    Life [⟨m,.givesUp 0⟩,⟨m,.reports ⟨.cancelled,0,.ofMillis m.time⟩⟩]
      ⟨.cancelled,0,.ofMillis m.time⟩
  | success {k : Nat} {log : List Line} {c : Completed} {m : Moment} : Settled n s A k log (.ok c) →
    Life (log ++ [⟨m,.reports ⟨.success c.value c.unselected,k,.ofMillis m.time⟩⟩])
      ⟨.success c.value c.unselected,k,.ofMillis m.time⟩
  | cancelled {k : Nat} {log : List Line} {m : Moment} : Settled n s A k log (.error .cancelled) →
    Life (log ++ [⟨m,.reports ⟨.cancelled,k,.ofMillis m.time⟩⟩]) ⟨.cancelled,k,.ofMillis m.time⟩
  | failed {k : Nat} {log : List Line} {f : Failure} {m : Moment} : Settled n s A k log (.error f) →
    f.isRetryable = true → n.handler = none →
    Life (log ++ [⟨m,.reports ⟨.failed f,k,.ofMillis m.time⟩⟩]) ⟨.failed f,k,.ofMillis m.time⟩
  | handled {k : Nat} {log : List Line} {f : Failure} {block : Graph} {m m' : Moment} {run : RunId}
    {result : RunResult} : Settled n s A k log (.error f) → f.isRetryable = true →
    n.handler = some block →
    Life (log ++ [⟨m,.opens (.handler f) run ((Part.handler f).start? n s)⟩,⟨m',.closes run result⟩,
      ⟨m',.reports ⟨.failed f,k,.ofMillis m'.time⟩⟩]) ⟨.failed f,k,.ofMillis m'.time⟩
  | broken {k ready : Nat} {log inner : List Line} {start m m' : Moment} {message : String} :
    Rounds n A k ready log → ready ≤ start.time → (∀ x ∈ inner, x.note.isInner = true) → A.breaks →
    Life (log ++ ⟨start,.begins (k+1)⟩::inner ++ [⟨m,.breaksDown message⟩,
      ⟨m',.reports ⟨.failed (.internal message),1,.ofMillis m'.time⟩⟩])
      ⟨.failed (.internal message),1,.ofMillis m'.time⟩

/-- The diary of a task that stands in a phase. -/
inductive Living : List Line → Phase → Prop
  | asking : Living [] .asking
  | attempting {k ready : Nat} {log inner : List Line} {start : Moment} {p : Phase} :
    Rounds n A k ready log → ready ≤ start.time → (∀ x ∈ inner, x.note.isInner = true) →
    p.attempt? = some (k+1) → A.upto (k+1) start inner p →
    Living (log ++ ⟨start,.begins (k+1)⟩::inner) p
  | pausing {k ready : Nat} {log : List Line} {ends : Timer} : Rounds n A (k+1) ready log →
    ends.time = ready → Living log (.pausing (k+1) ends)
  | always {k : Nat} {cancelled : Bool} {log : List Line} {outcome : Outcome} {block : Graph}
    {m : Moment} {run : RunId} : Over n A k cancelled log outcome → n.kind.always? = some block →
    (outcome.isCancelled || cancelled) = false →
    Living (log ++ [⟨m,.opens (.always outcome) run ((Part.always outcome).start? n s)⟩])
      (.always k outcome run)
  | handling {k : Nat} {log : List Line} {f : Failure} {block : Graph} {m : Moment} {run : RunId} :
    Settled n s A k log (.error f) → f.isRetryable = true → n.handler = some block →
    Living (log ++ [⟨m,.opens (.handler f) run ((Part.handler f).start? n s)⟩]) (.handling k f run)
  | leaving {log : List Line} {report : Report} : Life n s A log report → Living log .leaving
  | collapsed {k ready : Nat} {log inner : List Line} {start m : Moment} {message : String} :
    Rounds n A k ready log → ready ≤ start.time → (∀ x ∈ inner, x.note.isInner = true) → A.breaks →
    Living (log ++ ⟨start,.begins (k+1)⟩::inner ++ [⟨m,.breaksDown message⟩]) (.collapsed message)

end Grammar

/-- What follows when a task goes on: it lives on, or it is gone and has reported. -/
def Sequel.Carries (q : Sequel) (t : Task) (A : Account) (m : Moment) (log : List Line) : Prop :=
  let log := log ++ (q.written t.node t.scope).map (Line.mk m)
  match q.next with
  | some p => Living t.node t.scope A log p
  | none => ∃ report, Life t.node t.scope A log report

namespace Sequel.Carries

variable {t : Task} {A : Account} {m : Moment} {log : List Line} {q : Sequel} {k : Nat}

theorem after {notes : List Note} (h : q.Carries t A m (log ++ notes.map (Line.mk m))) :
    (q.after notes).Carries t A m log := by
  have hlines : log ++ ((q.after notes).written t.node t.scope).map (Line.mk m) =
      log ++ notes.map (Line.mk m) ++ (q.written t.node t.scope).map (Line.mk m) := by
    rw [Sequel.written,Sequel.written,Sequel.after,List.append_assoc notes,List.map_append,
      List.append_assoc]
  unfold Carries at h ⊢
  rw [hlines]
  exact h

theorem reported {ending : Ending}
    (h : Life t.node t.scope A (log ++ [⟨m,.reports ⟨ending,k,.ofMillis m.time⟩⟩])
      ⟨ending,k,.ofMillis m.time⟩) : (Sequel.ofReport m ending k).Carries t A m log := .leaving h

theorem concluded {outcome : Outcome} (h : Settled t.node t.scope A k log outcome) :
    (t.concluded m k outcome).Carries t A m log := by
  obtain ⟨c,rfl⟩ | rfl | ⟨f,hf,rfl⟩ := outcome.cases
  · exact .leaving (.success h)
  · exact .leaving (.cancelled h)
  · rw [Task.concluded_failed hf]
    cases hh : t.node.handler with
    | none => exact .leaving (.failed h hf hh)
    | some block => exact .handling h hf hh

theorem finished {outcome : Outcome} (h : Over t.node A k m.cancelled log outcome) :
    (t.finished m k outcome).Carries t A m log := by
  cases ha : t.node.kind.always? with
  | none =>
    rw [Task.finished_plain ha]
    exact concluded (.plain h ha)
  | some block =>
    rw [Task.finished_always ha]
    split
    · next hc => exact concluded (.dropped h ha hc)
    · next hc => exact .always h ha (by simpa using hc)

theorem judged {ready : Nat} {a : Tried} (h : Rounds t.node A k ready log) (hk : a.attempt = k+1)
    (hf : a.Fits A ready) (hm : a.finish = m) :
    (t.judged m (k+1) a.outcome).Carries t A m (log ++ a.lines) := by
  subst hm
  unfold Task.judged
  cases hv : t.node.retry.verdict (k+1) a.finish.cancelled a.outcome with
  | ended outcome => exact finished (.ended h hk hf hv)
  | again delay => exact .pausing (h.again hk hf hv) rfl

end Sequel.Carries

/-- Whether what an attempt comes to, if it goes on, is a phase of it. -/
def Progress.IsOf (k : Nat) : Progress → Prop
  | .goesOn p => p.attempt? = some k
  | _ => True

section Attempts

variable {σ : Setting} {w : World} {t : Task} {m : Moment} {k : Nat} {limit : Option Timer}

theorem Progress.ofStop_isOf (stop : Task.Stop) : (Progress.ofStop stop).IsOf k := by
  cases stop <;> trivial

theorem Progress.ofAction_isOf (action : String) (outcome : Action.Outcome) :
    (Progress.ofAction action outcome).IsOf k := by
  unfold ofAction
  split <;> trivial

theorem Task.turned_isOf (condition : Value) (cap : Nat) (outputs : List Value) :
    (t.turned m k σ limit condition cap outputs).IsOf k := by
  unfold turned
  split
  · trivial
  split
  · exact Progress.ofStop_isOf _
  · split
    · trivial
    · rfl

theorem Task.turnDone_isOf (outputs : List Value) (handed : Except Failure Value) :
    (t.turnDone m k σ limit outputs handed).IsOf k := by
  unfold turnDone
  split
  · exact turned_isOf _ _ _
  · trivial

theorem Task.bodyDone_isOf (handed : Except Failure Value) : (t.bodyDone k limit handed).IsOf k := by
  unfold bodyDone
  split
  · trivial
  · trivial
  · split
    · rfl
    · trivial

theorem World.beginning_isOf : (w.beginning σ t k).IsOf k := by
  unfold beginning
  split
  · split
    · exact Progress.ofStop_isOf _
    · split
      · trivial
      · unfold invoked
        dsimp only
        split
        · exact Progress.ofAction_isOf _ _
        · rfl
  · rfl
  · split
    · exact Progress.ofStop_isOf _
    · trivial
    · rfl
  · exact Task.turned_isOf _ _ _
  · split
    · exact Progress.ofStop_isOf _
    · trivial
  · rfl

theorem World.staged?_isOf {stage : Stage} {p : Progress} (h : w.staged? σ t k limit stage = some p) :
    p.IsOf k := by
  cases stage with
  | sequence run | fanOut items | recovery body run =>
    obtain ⟨r,-,he⟩ := Option.bind_eq_some_iff.mp h
    cases he
    trivial
  | turn outputs run =>
    obtain ⟨r,-,he⟩ := Option.bind_eq_some_iff.mp h
    cases he
    exact Task.turnDone_isOf _ _
  | guarded run =>
    obtain ⟨r,-,he⟩ := Option.bind_eq_some_iff.mp h
    cases he
    exact Task.bodyDone_isOf _

/-- What becomes of the attempt that is going on. -/
theorem World.progress?_spec {notes : List Note} {p : Progress}
    (h : w.progress? σ t = some (k,notes,p)) :
    t.phase.attempt? = some k ∧ p.IsOf k ∧ ∀ note ∈ notes, note.isInner = true := by
  have hnone : ∀ note ∈ ([] : List Note), note.isInner = true := fun _ hn => absurd hn List.not_mem_nil
  cases hp : t.phase with
  | acting attempt limit outcome ends =>
    simp only [progress?,hp] at h
    split at h
    · cases h
      exact ⟨rfl,trivial,hnone⟩
    split at h
    · cases h
      exact ⟨rfl,Progress.ofAction_isOf _ _,hnone⟩
    split at h
    · cases h
      exact ⟨rfl,trivial,hnone⟩
    · cases h
  | nesting attempt limit stage =>
    obtain ⟨rfl,⟨hs,rfl⟩ | ⟨-,rfl,rfl⟩⟩ := progress?_nesting hp h
    · refine ⟨rfl,staged?_isOf hs,fun note hn => ?_⟩
      obtain ⟨id,-,hid⟩ := List.mem_filterMap.mp hn
      obtain ⟨r,-,rfl⟩ := Option.map_eq_some_iff.mp hid
      rfl
    · exact ⟨rfl,trivial,hnone⟩
  | _ =>
    simp only [progress?,hp] at h
    cases h

theorem Phase.openings_inner {p : Phase} (h : p.attempt? = some k) (n : GraphNode Graph) (s : Scope) :
    ∀ note ∈ p.openings n s, note.isInner = true := by
  intro note hn
  obtain ⟨x,hx,rfl⟩ := List.mem_map.mp hn
  cases p with
  | nesting attempt limit stage =>
    cases stage with
    | fanOut items =>
      obtain ⟨i,hi,rfl⟩ := List.mem_mapIdx.mp hx
      rfl
    | _ =>
      rw [List.mem_singleton.mp hx]
      rfl
  | acting => cases hx
  | _ => cases h

end Attempts

namespace Account

/-- Whether an account tells what an attempt has come to. -/
def Follows (A : Account) (n : GraphNode Graph) (s : Scope) (k : Nat) (start : Moment)
    (inner : List Line) (m : Moment) : Progress → Prop
  | .goesOn p => A.upto k start (inner ++ (p.openings n s).map (Line.mk m)) p
  | .ended outcome => A.whole k start inner m outcome
  | .broken _ => A.breaks

/-- An account that holds of a node, whatever the world is like. -/
structure Holds (A : Account) (σ : Setting) (n : GraphNode Graph) (s : Scope) : Prop where
  begins : ∀ (w : World) (t : Task) (k : Nat), t.node = n → t.scope = s →
    A.Follows n s k (w.moment t) [] (w.moment t) (w.beginning σ t k)
  continues : ∀ (w : World) (t : Task) (k : Nat) (start : Moment) (inner : List Line)
    (notes : List Note) (p : Progress), t.node = n → t.scope = s → A.upto k start inner t.phase →
    start.time ≤ w.clock → w.progress? σ t = some (k,notes,p) →
    A.Follows n s k start (inner ++ notes.map (Line.mk (w.moment t))) (w.moment t) p

/-- The account that tells nothing. -/
def silent : Account := ⟨fun _ _ _ _ => True,fun _ _ _ _ _ => True,True⟩

theorem silent_holds (σ : Setting) (n : GraphNode Graph) (s : Scope) : silent.Holds σ n s := by
  have hf (k : Nat) (start : Moment) (inner : List Line) (m : Moment) (p : Progress) :
      silent.Follows n s k start inner m p := by cases p <;> trivial
  exact ⟨fun _ _ _ _ _ => hf _ _ _ _ _,fun _ _ _ _ _ _ _ _ _ _ _ _ => hf _ _ _ _ _⟩

end Account

namespace Sequel.Carries

variable {σ : Setting} {w : World} {t : Task} {A : Account} {m start : Moment} {log inner : List Line}
  {k ready : Nat} {p : Progress}

/-- An attempt goes on, ends or breaks down. -/
theorem followed (h : Rounds t.node A k ready log) (hready : ready ≤ start.time)
    (hinner : ∀ x ∈ inner, x.note.isInner = true) (hp : p.IsOf (k+1))
    (hf : A.Follows t.node t.scope (k+1) start inner m p) :
    (t.followed m (k+1) p).Carries t A m (log ++ ⟨start,.begins (k+1)⟩::inner) := by
  cases p with
  | goesOn p =>
    have hlater : ∀ x ∈ inner ++ (p.openings t.node t.scope).map (Line.mk m),
        x.note.isInner = true := by
      intro x hx
      rcases List.mem_append.mp hx with hx | hx
      · exact hinner x hx
      · obtain ⟨note,hn,rfl⟩ := List.mem_map.mp hx
        exact Phase.openings_inner hp t.node t.scope note hn
    show Living _ _ _ _ _
    rw [List.append_assoc]
    exact .attempting h hready hlater hp hf
  | ended outcome =>
    refine after ?_
    let a : Tried := ⟨k+1,start,inner,m,outcome⟩
    have hjudged := judged (a := a) h rfl ⟨hready,hinner,hf⟩ rfl
    rw [Tried.lines,← List.append_assoc] at hjudged
    exact hjudged
  | broken message => exact .collapsed h hready hinner hf

end Sequel.Carries

namespace Living

variable {σ : Setting} {w : World} {t : Task} {A : Account} {log : List Line} {q : Sequel}

theorem of_alike {n : GraphNode Graph} {s : Scope} {p p' : Phase} (h : Living n s A log p)
    (hp : p.Alike p') : Living n s A log p' := by
  obtain rfl | ⟨k,a,b,rfl,rfl,htime⟩ := hp
  · exact h
  · cases h with
    | attempting _ _ _ ha => cases ha
    | pausing hr he => exact .pausing hr (htime ▸ he)

/-- An attempt begins. -/
theorem carries_beginning {v : World} {k ready : Nat} (hA : A.Holds σ t.node t.scope)
    (h : Rounds t.node A k ready log) (hready : ready ≤ (w.moment t).time)
    (hv : v.moment t = w.moment t) :
    ((t.followed (w.moment t) (k+1) (v.beginning σ t (k+1))).after [.begins (k+1)]).Carries t A
      (w.moment t) log := by
  have hf := hA.begins v t (k+1) rfl rfl
  rw [hv] at hf
  exact .after (.followed h hready nofun World.beginning_isOf hf)

/-- An attempt that was going on does something. -/
theorem carries_progress {p : Phase} (hA : A.Holds σ t.node t.scope)
    (hl : Living t.node t.scope A log p) (hp : t.phase = p)
    (hpast : ∀ x ∈ log, x.moment.time ≤ w.clock) {x : Nat × List Note × Progress}
    (hx : w.progress? σ t = some x) :
    ((t.followed (w.moment t) x.1 x.2.2).after x.2.1).Carries t A (w.moment t) log := by
  obtain ⟨k,notes,progress⟩ := x
  obtain ⟨hattempt,hof,hnotes⟩ := World.progress?_spec hx
  subst hp
  generalize hp : t.phase = p at hl
  rw [hp] at hattempt
  cases hl with
  | @attempting k' ready log inner start _ hr hready hinner ha hupto =>
    obtain rfl : k'+1 = k := Option.some.inj (ha.symm.trans hattempt)
    have hstart : start.time ≤ w.clock :=
      hpast _ (List.mem_append_right log List.mem_cons_self)
    have hf := hA.continues w t _ start inner notes progress rfl rfl (hp ▸ hupto) hstart hx
    refine .after ?_
    rw [List.append_assoc]
    refine .followed hr hready (fun x hx => ?_) hof hf
    rcases List.mem_append.mp hx with hx | hx
    · exact hinner x hx
    · obtain ⟨note,hn,rfl⟩ := List.mem_map.mp hx
      exact hnotes note hn
  | _ => cases hattempt

/-- A step of a task leads from one stage of its life to the next. -/
theorem carries (hA : A.Holds σ t.node t.scope) (hl : Living t.node t.scope A log t.phase)
    (hpast : ∀ x ∈ log, x.moment.time ≤ w.clock) (hq : w.sequel? σ t = some q) :
    q.Carries t A (w.moment t) log := by
  generalize hp : t.phase = p at hl
  unfold World.sequel? at hq
  cases hl with
  | asking =>
    simp only [hp] at hq
    split at hq
    · next hc =>
      cases hq
      exact .leaving (.unasked hc)
    split at hq
    · cases hq
      have ha := World.setAdmission_alike w ((w.admission.ask t.id t.request).look t.id)
      have hpost := World.post_frame (w.setAdmission ((w.admission.ask t.id t.request).look t.id))
        t.id.run (.started t.node.id w.now)
      exact carries_beginning hA .none (Nat.zero_le _)
        (World.moment_eq (hpost.1.trans ha.clock) (hpost.2.2.1.trans ha.cancelled) t)
    · split at hq
      · cases hq
        exact .asking
      · cases hq
  | attempting hr hready hinner ha hupto =>
    have hliving := Living.attempting (s := t.scope) hr hready hinner ha hupto
    cases p with
    | acting | nesting =>
      simp only [hp] at hq
      obtain ⟨x,hx,he⟩ := Option.bind_eq_some_iff.mp hq
      cases he
      exact carries_progress hA hliving hp hpast hx
    | _ => cases ha
  | pausing hr he =>
    simp only [hp] at hq
    split at hq
    · next hc =>
      cases hq
      have hover := Over.stopped (m := w.moment t) hr hc
      rw [← hc] at hover
      exact .after (.finished hover)
    split at hq
    · next hpassed =>
      cases hq
      refine carries_beginning hA hr ?_ rfl
      rw [← he]
      exact of_decide_eq_true hpassed
    · cases hq
  | always hover ha hc =>
    simp only [hp] at hq
    obtain ⟨r,hr,he⟩ := Option.bind_eq_some_iff.mp hq
    cases he
    refine .after (.concluded ?_)
    rw [List.append_assoc]
    exact .always hover ha hc
  | handling hs hf hh =>
    simp only [hp] at hq
    obtain ⟨r,hr,he⟩ := Option.bind_eq_some_iff.mp hq
    cases he
    refine .after (.reported ?_)
    rw [List.append_assoc,List.append_assoc]
    exact .handled hs hf hh
  | @leaving _ report hlife =>
    simp only [hp] at hq
    cases hq
    exact ⟨report,(List.append_nil log).symm ▸ hlife⟩
  | @collapsed _ _ _ _ _ _ message hr hready hinner hbreaks =>
    simp only [hp] at hq
    cases hq
    refine ⟨⟨.failed (.internal message),1,.ofMillis w.clock⟩,?_⟩
    rw [List.append_assoc _ [_]]
    exact .broken hr hready hinner hbreaks

end Living

end TaskGraph.Engine
