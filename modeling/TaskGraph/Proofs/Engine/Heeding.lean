import TaskGraph.Proofs.Engine.Lifetime
import TaskGraph.Proofs.Engine.Stopping

/-!
What loops come to. A loop in a run that is not cancelled comes to what its condition and its bodies make
it, over some time, and its task breaks down only over a condition that does.
-/

namespace TaskGraph

namespace Engine

section Progress

variable {e : Engine} {id : TaskId} {log : List Line} {w : World} {n : GraphNode Graph} {t : Task}
  {condition : Value} {cap k : Nat} {body : Graph}

theorem Task.turned_goesOn {σ : Setting} {m : Moment} {limit : Option Timer} {outputs : List Value}
    {p : Phase} (h : t.turned m k σ limit condition cap outputs = .goesOn p) :
    p = .nesting k limit (.turn outputs (t.runAt 0)) := by
  unfold turned at h
  split at h
  · cases h
  split at h
  · next fault _ =>
    cases hs : Stop.ofCondition fault <;> rw [hs] at h <;> cases h
  · split at h
    · cases h
    · cases h
      rfl

/-- Where an attempt of a loop goes on it starts its next turn. -/
theorem World.progress?_turn {σ : Setting} (hk : t.node.kind = .loop condition cap body)
    {limit : Option Timer} {outputs : List Value} {run : RunId}
    (hp : t.phase = .nesting k limit (.turn outputs run)) {k' : Nat} {notes : List Note}
    {p : Progress} (h : w.progress? σ t = some (k',notes,p)) : k' = k ∧
      ∀ phase, p = .goesOn phase → ∃ v run', phase = .nesting k limit (.turn (outputs ++ [v]) run') := by
  obtain ⟨rfl,⟨hq,-⟩ | ⟨-,-,rfl⟩⟩ := World.progress?_nesting hp h
  · refine ⟨rfl,fun phase hphase => ?_⟩
    subst hphase
    obtain ⟨r,-,he⟩ := Option.bind_eq_some_iff.mp hq
    have hdone := Option.some.inj he
    cases hh : r.handed with
    | error f =>
      rw [hh] at hdone
      cases hdone
    | ok v =>
      rw [hh] at hdone
      simp only [Task.turnDone,hk] at hdone
      exact ⟨v,_,Task.turned_goesOn hdone⟩
  · exact ⟨rfl,fun _ hphase => (by cases hphase)⟩

/-- An attempt that does not go on is over. -/
theorem Task.followed_answers (t : Task) (m : Moment) (k : Nat) (p : Progress) :
    (∃ phase, p = .goesOn phase) ∨ ∃ note ∈ (t.followed m k p).notes,
      (∃ outcome, note = .ends k outcome) ∨ ∃ message, note = .breaksDown message := by
  cases p with
  | goesOn phase => exact .inl ⟨phase,rfl⟩
  | ended outcome => exact .inr ⟨_,List.mem_cons_self,.inl ⟨outcome,rfl⟩⟩
  | broken message => exact .inr ⟨_,List.mem_cons_self,.inr ⟨message,rfl⟩⟩

variable {c : Lifetime e id log w}

/-- Where an attempt of a loop that has begun stands. -/
theorem Lifetime.Bears.standing (hb : c.Bears n) (hd : Diary e id log w) (hn : n.id = id.node)
    (hk : n.kind = .loop condition cap body) {i : Nat} {x : Line} (hx : x ∈ c.lines i)
    (hbegins : x.note = .begins k) : Answered (c.lines i) k ∨ ∃ t ∈ (c.world i).tasks, t.id = id ∧
      t.node = n ∧ ∃ limit outputs run, t.phase = .nesting k limit (.turn outputs run) ∧
        outputs.length < cap := by
  obtain ⟨r,hr,hid,hmem⟩ := hb.home i
  obtain ⟨s,p,hl,hgone,hthere⟩ := (c.diary hd i).living
    (fun n s => Account.looped_holds e.setting n s) hr hid (List.ne_nil_of_mem hx) hmem hn
  refine or_iff_not_imp_left.mpr fun hopen => ?_
  have hattempt := (hl.answers hx hbegins).resolve_left hopen
  have hat : ∃ t ∈ (c.world i).tasks, t.id = id := by
    by_contra hnone
    have hleaving := Phase.eq_leaving (hgone fun t ht hid => hnone ⟨t,ht,hid⟩)
    rw [hleaving] at hattempt
    cases hattempt
  obtain ⟨t,ht,htid⟩ := hat
  obtain ⟨hnode,-,hphase⟩ := hthere t ht htid
  refine ⟨t,ht,htid,hnode,?_⟩
  rw [hphase]
  rw [Account.looped,hk] at hl
  generalize c.lines i = now at hl
  cases hl with
  | attempting _ _ _ ha hupto =>
    obtain ⟨limit,results,run,rfl,-,hturning⟩ := hupto
    cases ha.symm.trans hattempt
    obtain ⟨-,-,hlt⟩ := hturning
    exact ⟨limit,_,run,rfl,by rwa [List.length_map]⟩
  | _ => cases hattempt

/-- Every attempt of a loop that has begun is over some time. The induction is on how many turns it may
still take. -/
theorem Lifetime.Bears.answers (hb : c.Bears n) (hd : Diary e id log w) (hn : n.id = id.node)
    (hk : n.kind = .loop condition cap body) (gap i : Nat) {x : Line} (hx : x ∈ c.lines i)
    (hbegins : x.note = .begins k)
    (hgap : ∀ t ∈ (c.world i).tasks, t.id = id → ∀ limit outputs run,
      t.phase = .nesting k limit (.turn outputs run) → cap ≤ outputs.length+gap) :
    ∃ j, Answered (c.lines j) k := by
  induction gap generalizing i with
  | zero =>
    obtain hanswered | ⟨t,ht,hid,-,limit,outputs,run,hp,hlt⟩ := hb.standing hd hn hk hx hbegins
    · exact ⟨i,hanswered⟩
    · exact absurd hlt (Nat.not_lt.mpr (hgap t ht hid limit outputs run hp))
  | succ gap ih =>
    obtain hanswered | ⟨t,ht,hid,rfl,limit,outputs,run,hp,-⟩ := hb.standing hd hn hk hx hbegins
    · exact ⟨i,hanswered⟩
    have hrun : run ∈ t.phase.runs := by
      rw [hp]
      exact List.mem_cons_self
    obtain ⟨j,hij,htj,hacts⟩ := c.acts_when_over hd (fun i => (hb.home i).imp fun r hr => ⟨hr.1,hr.2.1⟩)
      ht hid (by rw [hp]; rfl) (by rw [hp]; rfl) (hb.ends i t ht hid run hrun)
    obtain ⟨q,hq,hshows,hlines⟩ := hacts.enacts hd htj hid
    simp only [World.sequel?,hp] at hq
    obtain ⟨⟨k',notes,p⟩,hprogress,he⟩ := Option.bind_eq_some_iff.mp hq
    cases he
    obtain ⟨rfl,hnext⟩ := World.progress?_turn hk hp hprogress
    obtain ⟨phase,rfl⟩ | ⟨note,hnote,hover⟩ :=
      t.followed_answers ((c.world j).moment t) k' p
    · obtain ⟨v,run',rfl⟩ := hnext phase rfl
      refine ih (j+1) ((c.prefix_log (Nat.le_succ_of_le hij)).subset hx) ?_
      intro u hu huid limit' outputs' run'' hup
      obtain ⟨p,hpnext,halike⟩ := hshows.phase u hu (huid.trans hid.symm)
      cases hpnext
      obtain hsame | ⟨_,_,_,hpause,-⟩ := halike
      · rw [hup] at hsame
        cases hsame
        have hle := hgap t ht hid limit outputs run hp
        rw [List.length_append,List.length_singleton]
        omega
      · cases hpause
    · refine ⟨j+1,⟨(c.world j).moment t,note⟩,?_,hover⟩
      rw [hlines]
      refine List.mem_append_right _ (List.mem_map_of_mem (List.mem_append_left _ ?_))
      exact List.mem_append_right _ hnote

end Progress

section Claims

variable {σ : Setting} {e : Engine} {id : TaskId} {log inner : List Line} {w : World}
  {n : GraphNode Graph} {s : Scope} {condition : Value} {cap : Nat} {body : Graph}
  {start m : Moment} {outcome : Outcome}

theorem ofCondition_isCancelled {fault : Template.ConditionFault} {f : Failure}
    (h : Task.Stop.ofCondition fault = .failed f) : Outcome.isCancelled (.error f) = false := by
  rw [ofCondition_failed h]
  rfl

/-- Without a cancellation an attempt does not end as cancelled. -/
theorem Looped.isCancelled (h : Looped σ n s condition cap body start inner m outcome)
    (hm : m.cancelled = false)
    (hr : ∀ x ∈ inner, ∀ run result, x.note = .closes run result → result.status ≠ .cancelled) :
    outcome.isCancelled = false := by
  cases h with
  | done | capped | late => rfl
  | undecided _ _ hf => exact ofCondition_isCancelled hf
  | failed =>
    unfold RunResult.failure
    split <;> rfl
  | bodyCancelled _ hc => exact absurd hc (hr _ (List.mem_append_right _ List.mem_cons_self) _ _ rfl)
  | cancelled _ hc =>
    rw [hm] at hc
    cases hc

/-- What an attempt of a loop that is over has come to: its body never ran more often than is allowed,
and unless its time was up it heeds its condition and its bodies, whatever these do in turns that never
began. -/
structure Tried.Heeds (σ : Setting) (n : GraphNode Graph) (s : Scope) (condition : Value) (cap : Nat)
    (body : Graph) (a : Tried) : Prop where
  told : Looped σ n s condition cap body a.start a.inner a.finish a.outcome
  bounded : turnsBegun a.inner ≤ cap
  heeds : ∀ bodies : Nat → RunResult, (∀ i r, (taken a.inner)[i]? = some r → bodies i = r) →
    Engine.Heeds σ s condition cap bodies a.outcome ∨ ∃ d, n.timeout = some d ∧
      a.outcome = .error (.timeout d) ∧ a.start.time+d.wait ≤ a.finish.time

/-- What a task of a loop has noted. -/
structure LoopLog (σ : Setting) (n : GraphNode Graph) (s : Scope) (condition : Value) (cap : Nat)
    (body : Graph) (log : List Line) (phase : Option Phase) : Prop where
  turning : ∀ k limit stage, phase = some (.nesting k limit stage) → ∃ start results run inner,
    stage = .turn (results.map RunResult.output) run ∧ ⟨start,.begins k⟩::inner <:+ log ∧
      Turning σ s condition cap body start results run inner ∧ turnsBegun inner ≤ cap
  ended : ∀ x ∈ log, ∀ k outcome, x.note = .ends k outcome → ∃ a : Tried, a.attempt = k ∧
    a.outcome = outcome ∧ a.finish = x.moment ∧ a.lines <:+: log ∧
      a.Heeds σ n s condition cap body
  broken : ∀ x ∈ log, ∀ message, x.note = .breaksDown message →
    ∃ start results inner m fault message, Turns σ s condition cap body start results inner m ∧
      proceeds σ s condition (results.map RunResult.output) = .error fault ∧
      Task.Stop.ofCondition fault = .collapsed message

theorem Living.loopLog {p : Phase}
    (h : Living n s (.looping σ n s condition cap body) log p)
    (hc : ∀ x ∈ log, x.moment.cancelled = false)
    (hr : ∀ x ∈ log, ∀ run result, x.note = .closes run result → result.status ≠ .cancelled) :
    LoopLog σ n s condition cap body log (some p) where
  turning := by
    rintro k limit stage ⟨⟩
    cases h with
    | attempting _ _ _ ha hupto =>
      cases ha
      obtain ⟨limit,results,run,hphase,-,hturning⟩ := hupto
      cases hphase
      exact ⟨_,results,run,_,rfl,List.suffix_append _ _,hturning,hturning.counts.2⟩
  ended := by
    intro x hx k outcome hends
    obtain ⟨a,hattempt,houtcome,hfinish,hin,hlooped⟩ := h.tellsEnds x hx k outcome hends
    subst houtcome
    have hnot : a.outcome.isCancelled = false := by
      refine Looped.isCancelled hlooped ?_ fun y hy => hr y (hin.subset ?_)
      · rw [hfinish]
        exact hc x hx
      · exact List.mem_append_left _ (List.mem_cons_of_mem _ hy)
    exact ⟨a,hattempt,rfl,hfinish,hin,hlooped,hlooped.turnsBegun_le,fun bodies => hlooped.heeds hnot⟩
  broken := fun x hx message hb => h.breaks hx hb

end Claims

namespace Stir

abbrev stir : Action where
  name := "stir"
  logged := false
  check _ := .ok ()
  start _ := .ended (.done (.string "lumps"))

abbrev engine : Engine := { config := {}, pools := {}, setting := { actions := [stir] } }

/-- Stirs as long as there are lumps, but not more than twice. -/
abbrev definition : Definition where
  name := "sauce"
  nodes := [("sauce",{
    kind := .loop (.bool true) (some 2) (.steps [("spoon",{ kind := .action "stir" .null })]) })]

abbrev sauce : TaskId := ⟨⟨0,[]⟩,"sauce"⟩

abbrev spoon (k : Nat) : TaskId := ⟨sauce.child k,"spoon"⟩

abbrev inner (k : Nat) : List Move :=
  let run := (spoon k).run
  [.pass run,.step (spoon k),.step (spoon k),.take run,.pass run,.take run,.pass run]

abbrev moves : List Move := [.pass sauce.run,.step sauce] ++ inner 0 ++ [.step sauce] ++ inner 1

/-- The second turn is over, and the task has not yet seen it. -/
def stirred : List Line × World := (engine.started definition).diary engine.setting sauce [] moves

theorem stirred_spec : Diary engine sauce stirred.1 stirred.2 := (Diary.started rfl).moves moves

/-- What a step of the task leads to. -/
def next (w : World) : World := (w.move? engine.setting (.step sauce)).getD w

def logged (log : List Line) (w : World) : List Line := log ++ w.lines engine.setting (next w) sauce

theorem noted {w : World} {log : List Line}
    (h : (w.move? engine.setting (.step sauce)).isSome = true) :
    Noted engine sauce log w (logged log w) (next w) := by
  obtain ⟨v,hv⟩ := Option.isSome_iff_exists.mp h
  have hm : w.move? engine.setting (.step sauce) = some (next w) := by rw [next,hv,Option.getD_some]
  exact .own hm

def capped : List Line × World := (logged stirred.1 stirred.2,next stirred.2)

def isLoop (_ : Run) (n : GraphNode Graph) : Bool :=
  match n.kind with
  | .loop (.bool true) 2 _ => true
  | _ => false

def hasCapped (x : Line) : Bool :=
  match x.note with
  | .ends 1 (.error (.loopCapExceeded 2)) => true
  | _ => false

/-- Whether what a task of the loop waits for is over. -/
def isOver (t : Task) : Bool :=
  t.id != sauce || t.phase.runs.all fun run => (stirred.2.result? run).isSome

theorem facts : (stirred.2.move? engine.setting (.step sauce)).isSome = true ∧
    (capped.2.move? engine.setting (.step sauce)).isSome = true ∧
    ((next capped.2).tasks.all fun t => t.id != sauce) = true ∧
    stirred.2.tasks.all isOver = true ∧ (capped.2.tasks.all fun t => t.phase.runs.isEmpty) = true ∧
    capped.1.any hasCapped = true ∧ stirred.2.isCancelled sauce.run = false ∧
    capped.2.isCancelled sauce.run = false := by
  decide +kernel


def isFirst (x : Line) : Bool :=
  match x.note with
  | .begins 1 => true
  | _ => false

theorem capped_spec : Diary engine sauce capped.1 capped.2 := (noted facts.1).diary stirred_spec

theorem gone : ∀ t ∈ (next capped.2).tasks, t.id ≠ sauce := by
  intro t ht hid
  have hall := List.all_eq_true.mp facts.2.2.1 t ht
  rw [hid] at hall
  cases hall

/-- The cap is reached, the task leaves, and time goes on. -/
def lifetime : Lifetime engine sauce stirred.1 stirred.2 :=
  ((Lifetime.idle (logged capped.1 capped.2) gone).cons (noted facts.2.1)).cons (noted facts.1)

theorem home_stays (i : Nat) : ((lifetime.world i).run? sauce.run).isSome = true := by
  rcases i with _ | _ | i
  · decide +kernel
  · decide +kernel
  · have hlast : ((next capped.2).run? sauce.run).isSome = true := by decide +kernel
    exact hlast

theorem bears {r : Run} {n : GraphNode Graph} (hr : r ∈ stirred.2.runs) (hid : r.id = sauce.run)
    (hn : n ∈ r.schedule.graph.nodes) : lifetime.Bears n := by
  have home (i : Nat) : ∃ r ∈ (lifetime.world i).runs, r.id = sauce.run ∧ n ∈ r.schedule.graph.nodes := by
    obtain ⟨q,hq⟩ := Option.isSome_iff_exists.mp (home_stays i)
    obtain ⟨hmem,hqid⟩ := World.mem_of_run? hq
    refine ⟨q,hmem,hqid,lifetime.node_mem stirred_spec ?_ (fun p hp hpid => ?_) i q hmem hqid⟩
    · exact fun he => absurd (congrArg List.isEmpty he) (by decide +kernel)
    · rwa [stirred_spec.reaches.coherent.run_unique hp hr (hpid.trans hid.symm)]
  obtain ⟨-,-,-,hstirred,hcapped,-⟩ := facts
  refine ((Lifetime.bears_idle gone (home 2)).cons (noted facts.2.1) (home 1) ?_).cons
    (noted facts.1) (home 0) ?_
  · intro t ht hid run hrun
    have hnone := List.all_eq_true.mp hcapped t ht
    rw [List.isEmpty_iff.mp hnone] at hrun
    cases hrun
  · intro t ht hid run hrun
    have hover := List.all_eq_true.mp hstirred t ht
    rw [isOver,hid,bne_self_eq_false,Bool.false_or] at hover
    exact List.all_eq_true.mp hover run hrun

end Stir

end Engine

namespace Template

/-- A time stamp whose pattern ends in the middle of a part. -/
def brokenStamp : String := "\x7b\x7btimestamp \"%:\"\x7d\x7d"

def stamp : Call := ⟨.name "timestamp",[.literal (.string "%:")],[]⟩

def isStamp (body : Option Body) : Bool :=
  match body with
  | some [.output ⟨1,1⟩ ⟨.name name,[.literal (.string pattern)],[]⟩] =>
    name == "timestamp" && pattern == "%:"
  | _ => false

theorem eq_of_isStamp {body : Option Body} (h : isStamp body = true) :
    body = some [.output ⟨1,1⟩ stamp] := by
  unfold isStamp at h
  split at h
  · simp_all [stamp]
  · cases h

/-- Whoever renders it breaks down. -/
theorem renderText_brokenStamp (world : Surroundings) (root : Value) :
    renderText world brokenStamp root = .error ⟨.brokenPattern,some ⟨1,1⟩⟩ := by
  obtain ⟨n,hn⟩ : ∃ n, depthFor brokenStamp root = n+1 :=
    Nat.exists_eq_succ_of_ne_zero (Nat.mul_ne_zero (by simp) (by simp))
  have hparse : parse? brokenStamp = some [.output ⟨1,1⟩ stamp] := eq_of_isStamp (by decide +kernel)
  have hstamp : Helper.timestamp world [{ value := .string "%:" }] = .error .brokenPattern := rfl
  unfold renderText
  rw [hparse,hn]
  simp [inTurn,renderElement,stamp,Setting.nameOf,Setting.expandAll,Setting.expand,
    Setting.expandOptions,atPlace,apply,Helper.call?,hstamp,bind,Except.bind,Except.mapError,
    Call.isBare]

end Template

namespace Engine

theorem proceeds_brokenStamp (σ : Setting) (s : Scope) (outputs : List Value) :
    proceeds σ s (.string Template.brokenStamp) outputs =
      .error (.render ⟨.brokenPattern,some ⟨1,1⟩⟩) := by
  have hmarks : Template.hasMarks Template.brokenStamp = true := by decide +kernel
  rw [proceeds,Template.evaluate,Template.renderString,if_pos hmarks,
    Template.renderText_brokenStamp]
  rfl

namespace Watch

abbrev definition : Definition where
  name := "night"
  nodes := [("watch",{
    kind := .loop (.string Template.brokenStamp) none
      (.steps [("spoon",{ kind := .action "stir" .null })]) })]

abbrev watch : TaskId := ⟨⟨0,[]⟩,"watch"⟩

/-- The loop is about to begin. -/
def asking : World :=
  ((Stir.engine.started definition).diary Stir.engine.setting watch [] [.pass watch.run]).2

def granted (t : Task) : Admission TaskId := (asking.admission.ask t.id t.request).look t.id

def isLoop (n : GraphNode Graph) : Bool :=
  match n.kind with
  | .loop (.string s) _ _ => s == Template.brokenStamp
  | _ => false

theorem isLoop_spec {n : GraphNode Graph} (h : isLoop n = true) :
    ∃ cap body, n.kind = .loop (.string Template.brokenStamp) cap body := by
  unfold isLoop at h
  split at h
  · next s cap body hk => exact ⟨cap,body,by rw [hk,eq_of_beq h]⟩
  · cases h

/-- The attempt has begun, and its condition is not decided yet. -/
def begun (t : Task) : World :=
  (asking.setAdmission (granted t)).post t.id.run (.started t.node.id asking.now)

def broken (t : Task) : World := (begun t).collapse t Template.Cause.brokenPattern.message

def isAsking (t : Task) : Bool :=
  match t.phase with
  | .asking => isLoop t.node && t.node.timeout.isNone && (granted t).isGranted t.id &&
    !asking.isCancelled t.id.run && !(begun t).isCancelled t.id.run
  | _ => false

theorem stepTask_asking {t : Task} (ht : isAsking t = true) :
    asking.stepTask Stir.engine.setting t = some (broken t) := by
  unfold isAsking at ht
  split at ht
  · next hp =>
    simp only [Bool.and_eq_true,Option.isNone_iff_eq_none,Bool.not_eq_true'] at ht
    obtain ⟨⟨⟨⟨hloop,htimeout⟩,hgranted⟩,hcalm⟩,hbegun⟩ := ht
    obtain ⟨cap,body,hk⟩ := isLoop_spec hloop
    have hturn : (begun t).beginAttempt Stir.engine.setting t 1 = broken t := by
      have hfault : Template.evaluate Stir.engine.setting.surroundings (t.turnScope []).value _ = _ :=
        proceeds_brokenStamp Stir.engine.setting t.scope []
      simp only [World.beginAttempt,hk,World.startLimit,htimeout,World.loopTurn,hbegun,hfault,
        Bool.false_eq_true,if_false]
      rfl
    rw [World.stepTask,hp]
    simp only [hcalm,Bool.false_eq_true,if_false]
    exact (if_pos hgranted).trans (congrArg some hturn)
  · cases ht

/-- The task is gone; its run takes note of that and ends. -/
def moves : List Move :=
  [.step watch,.take watch.run,.pass watch.run,.take watch.run,.pass watch.run]

def ended? : Option World := do (broken (← asking.task? watch)).moves? Stir.engine.setting moves

def hasFailed (r : Run) (n : GraphNode Graph) : Bool :=
  isLoop n && (r.schedule.record? n.id).any fun record => record.status == .failed &&
    match record.failure with
    | some (.internal _) => true
    | _ => false

theorem facts : (asking.task? watch).any isAsking = true ∧ ended?.any (fun w =>
    !w.isCancelled watch.run && (w.run? watch.run).any fun r =>
      (r.schedule.graph.node? watch.node).any (hasFailed r)) = true := by decide +kernel

theorem reaches_ended {w : World} (hw : ended? = some w) : Reaches Stir.engine w := by
  obtain ⟨t,ht,hmoves⟩ := Option.bind_eq_some_iff.mp hw
  have hstarted : Reaches Stir.engine asking :=
    ((Diary.started rfl).moves [.pass watch.run]).reaches
  obtain ⟨u,hu,hasks⟩ := (Option.any_eq_true _ _).mp facts.1
  cases ht.symm.trans hu
  have hmove : asking.move? Stir.engine.setting (.step watch) = some (broken t) := by
    show (asking.task? watch).bind _ = _
    rw [ht]
    exact stepTask_asking hasks
  exact ((hstarted.step (.move hmove)).moves hmoves).1

end Watch

end Engine

end TaskGraph
