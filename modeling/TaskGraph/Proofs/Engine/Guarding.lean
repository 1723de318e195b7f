import TaskGraph.Proofs.Engine.Handling
import TaskGraph.Proofs.Engine.Results
import TaskGraph.Proofs.Engine.Retrying

/-!
Guarded nodes. What an attempt of one runs and what it comes to, and how the outcome of the last attempt
and of the block that runs in any case make the end of the node.
-/

namespace TaskGraph

theorem RunResult.failure_isRetryable (r : RunResult) : r.failure.isRetryable = true := by
  unfold failure
  split <;> rfl

/-- What a run hands on, by its status. -/
theorem RunResult.handed_cases (r : RunResult) :
    r.status = .success ∧ r.handed = .ok r.output ∨
    r.status = .cancelled ∧ r.handed = .error .cancelled ∨
    r.status = .failed ∧ r.handed = .error r.failure := by
  unfold handed
  cases r.status with
  | success => exact .inl ⟨rfl,rfl⟩
  | cancelled => exact .inr (.inl ⟨rfl,rfl⟩)
  | failed => exact .inr (.inr ⟨rfl,rfl⟩)

namespace Attempt

variable {f : Failure}

theorem recovered_failed (hf : f.isRetryable = true) (body : Failure) :
    recovered body (.error f) = .error (.recovery body f) := by
  cases f with
  | cancelled => cases hf
  | _ => rfl

theorem afterAlways_failed (hf : f.isRetryable = true) (outcome : Outcome) :
    afterAlways outcome (.error f) =
      match outcome with
      | .ok _ => .error (.always f)
      | .error first => .error first := by
  cases f with
  | cancelled => cases hf
  | _ => rfl

end Attempt

namespace Engine

section Attempts

variable (n : GraphNode Graph) (s : Scope) (body : Graph) (recovery : Option Graph) (start : Moment)

/-- How far an attempt has come: its body runs, or the body has failed and its recovery runs, which
knows the failure. -/
inductive Guards : List Line → Stage → Prop
  | body {run : RunId} : Guards [⟨start,.opens .body run (some (.start body s))⟩] (.guarded run)
  | recovery {m : Moment} {run run' : RunId} {r : RunResult} {block : Graph} : r.status = .failed →
    recovery = some block → Guards [⟨start,.opens .body run (some (.start body s))⟩,
      ⟨m,.closes run r⟩,⟨m,.opens (.recovery r.failure) run'
        (some (.start block (s.bind "error" (r.failure.binding n.id))))⟩] (.recovery r.failure run')

/-- What an attempt has come to. -/
inductive Guarded : List Line → Moment → Outcome → Prop
  | body {inner : List Line} {m : Moment} {run : RunId} {r : RunResult} :
    Guards n s body recovery start inner (.guarded run) → r.status = .success →
    Guarded (inner ++ [⟨m,.closes run r⟩]) m (.ok ⟨r.output,[]⟩)
  | bodyCancelled {inner : List Line} {m : Moment} {run : RunId} {r : RunResult} :
    Guards n s body recovery start inner (.guarded run) → r.status = .cancelled →
    Guarded (inner ++ [⟨m,.closes run r⟩]) m (.error .cancelled)
  | bodyFailed {inner : List Line} {m : Moment} {run : RunId} {r : RunResult} :
    Guards n s body recovery start inner (.guarded run) → r.status = .failed → recovery = none →
    Guarded (inner ++ [⟨m,.closes run r⟩]) m (.error r.failure)
  | recovered {inner : List Line} {m : Moment} {run : RunId} {r : RunResult} {f : Failure} :
    Guards n s body recovery start inner (.recovery f run) → r.status = .success →
    Guarded (inner ++ [⟨m,.closes run r⟩]) m (.ok ⟨r.output,[]⟩)
  | recoveryCancelled {inner : List Line} {m : Moment} {run : RunId} {r : RunResult} {f : Failure} :
    Guards n s body recovery start inner (.recovery f run) → r.status = .cancelled →
    Guarded (inner ++ [⟨m,.closes run r⟩]) m (.error .cancelled)
  | recoveryFailed {inner : List Line} {m : Moment} {run : RunId} {r : RunResult} {f : Failure} :
    Guards n s body recovery start inner (.recovery f run) → r.status = .failed →
    Guarded (inner ++ [⟨m,.closes run r⟩]) m (.error (.recovery f r.failure))
  | late {inner : List Line} {m : Moment} {stage : Stage} {d : Duration} :
    Guards n s body recovery start inner stage → n.timeout = some d → start.time+d.wait ≤ m.time →
    Guarded inner m (.error (.timeout d))

end Attempts

/-- Whether a recovery starts. -/
def Note.isRecovery : Note → Bool
  | .opens (.recovery _) .. => true
  | _ => false

/-- Whether a run has ended as failed. -/
def Note.isFailure : Note → Bool
  | .closes _ r => r.status == .failed
  | _ => false

/-- What is told of the attempts of a guarded node. They do not break down. -/
def Account.guarding (n : GraphNode Graph) (s : Scope) (body : Graph) (recovery : Option Graph) :
    Account where
  upto k start inner phase := ∃ limit stage, phase = .nesting k limit stage ∧
    limit.map Timer.time = n.timeout.map (fun d => start.time+d.wait) ∧
    Guards n s body recovery start inner stage
  whole _ start inner finish outcome := Guarded n s body recovery start inner finish outcome
  breaks := False

/-- What is told of the attempts of guarded nodes, and nothing of others. -/
def Account.guarded (n : GraphNode Graph) (s : Scope) : Account :=
  match n.kind with
  | .guarded body recovery _ => .guarding n s body recovery
  | _ => silent

section Holds

variable {σ : Setting} {w : World} {t : Task} {k : Nat} {body : Graph} {recovery always : Option Graph}

/-- The recovery is over. -/
theorem Guards.recoveryDone {n : GraphNode Graph} {s : Scope} {start : Moment} {inner : List Line} {run : RunId} {f : Failure}
    (h : Guards n s body recovery start inner (.recovery f run)) (m : Moment)
    (r : RunResult) : Guarded n s body recovery start (inner ++ [⟨m,.closes run r⟩]) m
      (Attempt.recovered f r.handed) := by
  obtain ⟨hs,hh⟩ | ⟨hs,hh⟩ | ⟨hs,hh⟩ := r.handed_cases
  · rw [hh]
    exact .recovered h hs
  · rw [hh]
    exact .recoveryCancelled h hs
  · rw [hh,Attempt.recovered_failed r.failure_isRetryable]
    exact .recoveryFailed h hs

/-- The recovery runs if there is one and the body has failed, and in no other case. -/
theorem Guarded.recovers {n : GraphNode Graph} {s : Scope} {start m : Moment} {inner : List Line}
    {outcome : Outcome} (h : Guarded n s body recovery start inner m outcome) :
    inner.any (fun x => x.note.isRecovery) =
      (recovery.isSome && inner.any fun x => x.note.isFailure) := by
  cases h with
  | body h hs | bodyCancelled h hs =>
    cases h
    simp [Note.isRecovery,Note.isFailure,hs]
  | bodyFailed h hs hr =>
    cases h
    simp [Note.isRecovery,hr]
  | recovered h | recoveryCancelled h | recoveryFailed h =>
    cases h with
    | recovery hs hr => simp [Note.isRecovery,Note.isFailure,hs,hr]
  | late h =>
    cases h with
    | body => simp [Note.isRecovery,Note.isFailure]
    | recovery hs hr => simp [Note.isRecovery,Note.isFailure,hs,hr]

variable (hk : t.node.kind = .guarded body recovery always)

include hk

theorem World.beginning_guarded : w.beginning σ t k =
    .goesOn (.nesting k (w.startLimit t).2 (.guarded (t.runAt 0))) := by
  rw [beginning,hk]

theorem Phase.openings_guarded (limit : Option Timer) (run : RunId) :
    (Phase.nesting k limit (.guarded run)).openings t.node t.scope =
      [.opens .body run (some (.start body t.scope))] := by
  rw [openings,parts,List.map_singleton,Part.start?_guarded hk]

theorem Phase.openings_recovery {block : Graph} (hr : recovery = some block) (limit : Option Timer)
    (f : Failure) (run : RunId) :
    (Phase.nesting k limit (.recovery f run)).openings t.node t.scope =
      [.opens (.recovery f) run
        (some (.start block (t.scope.bind "error" (f.binding t.node.id))))] := by
  subst hr
  rw [openings,parts,List.map_singleton,Part.start?_recovery hk]

/-- The body is over. -/
theorem Guards.bodyDone {start : Moment} {inner : List Line} {run : RunId} {limit : Option Timer}
    (h : Guards t.node t.scope body recovery start inner (.guarded run))
    (hl : limit.map Timer.time = t.node.timeout.map fun d => start.time+d.wait) (m : Moment)
    (r : RunResult) : (Account.guarded t.node t.scope).Follows t.node t.scope k start
      (inner ++ [⟨m,.closes run r⟩]) m (t.bodyDone k limit r.handed) := by
  obtain ⟨hs,hh⟩ | ⟨hs,hh⟩ | ⟨hs,hh⟩ := r.handed_cases
  · rw [hh,Account.guarded,hk]
    exact .body h hs
  · rw [hh,Account.guarded,hk]
    exact .bodyCancelled h hs
  · rw [hh,Task.bodyDone_failed r.failure_isRetryable,Account.guarded,hk]
    cases hr : recovery with
    | none => exact .bodyFailed (hr ▸ h) hs rfl
    | some block =>
      refine ⟨limit,_,rfl,hl,?_⟩
      rw [Phase.openings_recovery hk hr]
      cases h
      exact .recovery hs rfl

omit hk in
theorem Account.guarded_holds (σ : Setting) (n : GraphNode Graph) (s : Scope) :
    (Account.guarded n s).Holds σ n s := by
  cases hk : n.kind with
  | guarded body recovery always =>
    constructor
    · rintro w t k rfl rfl
      rw [World.beginning_guarded hk,Account.guarded,hk]
      refine ⟨_,_,rfl,w.startLimit_time t,?_⟩
      rw [Phase.openings_guarded hk]
      exact .body
    · rintro w t k start inner notes p rfl rfl hupto hstart hp
      rw [Account.guarded,hk] at hupto
      obtain ⟨limit,stage,hphase,hl,hg⟩ := hupto
      obtain ⟨-,⟨hq,rfl⟩ | ⟨hpassed,rfl,rfl⟩⟩ := World.progress?_nesting hphase hp
      · generalize hstage : stage = stage' at hg
        cases hg with
        | body =>
          subst hstage
          obtain ⟨r,hr,he⟩ := Option.bind_eq_some_iff.mp hq
          cases he
          rw [show w.closings (Stage.guarded _).runs = _ from World.closings_one hr]
          exact Guards.bodyDone hk .body hl _ r
        | recovery hs hb =>
          subst hstage
          obtain ⟨r,hr,he⟩ := Option.bind_eq_some_iff.mp hq
          cases he
          rw [show w.closings (Stage.recovery _ _).runs = _ from World.closings_one hr,
            Account.guarded,hk]
          exact (Guards.recovery hs hb).recoveryDone _ r
      · obtain ⟨d,hd,he,hle⟩ := World.late_of_limit hl hpassed
        rw [he,Account.guarded,hk,List.map_nil,List.append_nil]
        exact .late hg hd hle
  | _ =>
    rw [Account.guarded,hk]
    exact silent_holds σ n s

end Holds

section Conclusion

variable (n : GraphNode Graph) (s : Scope) (always : Option Graph)

/-- What a block sees that runs after an outcome: a failure is known there. -/
def Scope.after (s : Scope) (node : String) : Outcome → Scope
  | .ok _ => s
  | .error f => s.bind "error" (f.binding node)

/-- What is noted of the block that runs in any case. -/
def alwaysLines (block : Graph) (outcome : Outcome) (m m' : Moment) (run : RunId)
    (result : RunResult) : List Line :=
  [⟨m,.opens (.always outcome) run (some (.start block (Scope.after s n.id outcome)))⟩,
    ⟨m',.closes run result⟩]

/-- What becomes of the outcome of the attempts: what is noted of the block that runs in any case, and
how the node ends. -/
inductive Concludes (cancelled : Bool) (outcome : Outcome) : List Line → Ending → Prop
  | plain : always = none → Concludes cancelled outcome [] outcome.ending
  | dropped {block : Graph} : always = some block → (outcome.isCancelled || cancelled) = true →
    Concludes cancelled outcome [] .cancelled
  | success {block : Graph} {m m' : Moment} {run : RunId} {result : RunResult} {c : Completed} :
    always = some block → cancelled = false → result.status = .success → outcome = .ok c →
    Concludes cancelled outcome (alwaysLines n s block outcome m m' run result)
      (.success c.value c.unselected)
  | alwaysFailed {block : Graph} {m m' : Moment} {run : RunId} {result : RunResult} {c : Completed} :
    always = some block → cancelled = false → result.status = .failed → outcome = .ok c →
    Concludes cancelled outcome (alwaysLines n s block outcome m m' run result)
      (.failed (.always result.failure))
  | failed {block : Graph} {m m' : Moment} {run : RunId} {result : RunResult} {f : Failure} :
    always = some block → cancelled = false → result.status ≠ .cancelled → f.isRetryable = true →
    outcome = .error f →
    Concludes cancelled outcome (alwaysLines n s block outcome m m' run result) (.failed f)
  | cancelled {block : Graph} {m m' : Moment} {run : RunId} {result : RunResult} :
    always = some block → cancelled = false → outcome.isCancelled = false →
    result.status = .cancelled →
    Concludes cancelled outcome (alwaysLines n s block outcome m m' run result) .cancelled

end Conclusion

section Conclusions

variable {n : GraphNode Graph} {s : Scope} {A : Account} {k : Nat} {log : List Line}
  {outcome : Outcome} {body block : Graph} {recovery always : Option Graph}

theorem Part.start?_always (ha : n.kind.always? = some block) : (Part.always outcome).start? n s =
    some (.start block (Scope.after s n.id outcome)) := by
  obtain ⟨body,recovery,hk⟩ := NodeKind.always?_eq_some.mp ha
  cases outcome with
  | ok c => exact start?_always_ok hk s c
  | error f => exact start?_always_error hk s f

/-- How the block ends decides, unless the attempts have failed already. -/
theorem Concludes.afterAlways {m m' : Moment} {run : RunId} (result : RunResult)
    (ha : always = some block) (hc : outcome.isCancelled = false) :
    Concludes n s always false outcome (alwaysLines n s block outcome m m' run result)
      (Attempt.afterAlways outcome result.handed).ending := by
  obtain ⟨hs,hh⟩ | ⟨hs,hh⟩ | ⟨hs,hh⟩ := result.handed_cases
  all_goals rw [hh]
  · obtain ⟨c,rfl⟩ | rfl | ⟨f,hf,rfl⟩ := outcome.cases
    · exact .success ha rfl hs rfl
    · cases hc
    · rw [Attempt.afterAlways,Outcome.ending_failed hf]
      exact .failed ha rfl (by rw [hs]; exact nofun) hf rfl
  · exact .cancelled ha rfl hc hs
  · rw [Attempt.afterAlways_failed result.failure_isRetryable]
    obtain ⟨c,rfl⟩ | rfl | ⟨f,hf,rfl⟩ := outcome.cases
    · exact .alwaysFailed ha rfl hs rfl
    · cases hc
    · rw [Outcome.ending_failed hf]
      exact .failed ha rfl (by rw [hs]; exact nofun) hf rfl

/-- A settled outcome is one of the attempts, and what the block makes of it that runs in any case. -/
theorem Settled.concludes (h : Settled n s A k log outcome) : ∃ cancelled tried front block,
    Over n A k cancelled front tried ∧ log = front ++ block ∧
      Concludes n s n.kind.always? cancelled tried block outcome.ending := by
  cases h with
  | plain ho ha => exact ⟨_,_,_,[],ho,(List.append_nil _).symm,.plain ha⟩
  | dropped ho ha hc => exact ⟨_,_,_,[],ho,(List.append_nil _).symm,.dropped ha hc⟩
  | always ho ha hc =>
    obtain ⟨hcancelled,rfl⟩ := Bool.or_eq_false_iff.mp hc
    refine ⟨_,_,_,_,ho,rfl,?_⟩
    rw [Part.start?_always ha]
    exact .afterAlways _ ha hcancelled

/-- How a task of a guarded node ends: it was cancelled before its first attempt, or its attempts came
to an outcome, and what the block made of it that runs in any case is what the task reports, when the
handler of a failure is over. -/
inductive EndsGuarded (n : GraphNode Graph) (s : Scope) (body : Graph) (recovery always : Option Graph) :
    List Line → Report → Prop
  | unasked {m : Moment} {time : Instant} : m.cancelled = true →
    EndsGuarded n s body recovery always [⟨m,.givesUp 0⟩,⟨m,.reports ⟨.cancelled,0,time⟩⟩]
      ⟨.cancelled,0,time⟩
  | tried {cancelled : Bool} {outcome : Outcome} {front block rest : List Line} {m : Moment}
    {report : Report} :
    Over n (.guarding n s body recovery) report.attempts cancelled front outcome →
    Concludes n s always cancelled outcome block report.ending →
    (rest = [] ∨ ∃ f run first result m m', report.ending = .failed f ∧
      rest = [⟨m,.opens (.handler f) run first⟩,⟨m',.closes run result⟩]) →
    EndsGuarded n s body recovery always (front ++ block ++ rest ++ [⟨m,.reports report⟩]) report

theorem Life.endsGuarded {report : Report} (h : Life n s (.guarding n s body recovery) log report)
    (hk : n.kind = .guarded body recovery always) :
    EndsGuarded n s body recovery always log report := by
  have ha : n.kind.always? = always := by rw [hk]; rfl
  have hplain {k : Nat} {log : List Line} {outcome : Outcome} {m : Moment} {ending : Ending}
      {time : Instant} (hs : Settled n s (.guarding n s body recovery) k log outcome)
      (he : outcome.ending = ending) : EndsGuarded n s body recovery always
        (log ++ [⟨m,.reports ⟨ending,k,time⟩⟩]) ⟨ending,k,time⟩ := by
    obtain ⟨cancelled,tried,front,block,ho,rfl,hc⟩ := hs.concludes
    rw [he,ha] at hc
    have hends : EndsGuarded n s body recovery always
        (front ++ block ++ [] ++ [⟨m,.reports ⟨ending,k,time⟩⟩]) ⟨ending,k,time⟩ :=
      .tried ho hc (.inl rfl)
    rwa [List.append_nil] at hends
  cases h with
  | unasked hm => exact .unasked hm
  | success hs => exact hplain hs rfl
  | cancelled hs => exact hplain hs rfl
  | failed hs hf => exact hplain hs (Outcome.ending_failed hf)
  | @handled k log f _ m m' run result hs hf =>
    obtain ⟨cancelled,tried,front,block,ho,rfl,hc⟩ := hs.concludes
    rw [Outcome.ending_failed hf,ha] at hc
    let report : Report := ⟨.failed f,k,.ofMillis m'.time⟩
    have hends : EndsGuarded n s body recovery always (front ++ block ++
        [⟨m,.opens (.handler f) run ((Part.handler f).start? n s)⟩,⟨m',.closes run result⟩] ++
        [⟨m',.reports report⟩]) report := .tried ho hc (.inr ⟨f,run,_,result,m,m',rfl,rfl⟩)
    simpa only [List.append_assoc,List.cons_append,List.nil_append] using hends
  | broken _ _ _ hb => exact hb.elim

/-- How often the block was started that runs in any case. -/
def finals (log : List Line) : Nat := log.countP fun x => x.note.stage == 1

theorem finals_append (log log' : List Line) : finals (log ++ log') = finals log + finals log' :=
  List.countP_append

theorem finals_of_stage (h : ∀ x ∈ log, x.note.stage = 0) : finals log = 0 := by
  refine List.countP_eq_zero.mpr fun x hx he => ?_
  rw [h x hx] at he
  cases he

theorem Settled.finals_le (h : Settled n s A k log outcome) : finals log ≤ 1 := by
  cases h with
  | plain ho | dropped ho => exact Nat.le_trans (Nat.le_of_eq (finals_of_stage ho.stage)) (Nat.zero_le 1)
  | always ho =>
    rw [finals_append,finals_of_stage ho.stage]
    exact Nat.le_refl 1

theorem Life.finals_le {report : Report} (h : Life n s A log report) : finals log ≤ 1 := by
  have hrest {log rest : List Line} {k : Nat} {outcome : Outcome} (hs : Settled n s A k log outcome)
      (hr : finals rest = 0) : finals (log ++ rest) ≤ 1 := by
    rw [finals_append,hr]
    exact hs.finals_le
  cases h with
  | unasked => exact Nat.zero_le 1
  | success hs | cancelled hs | failed hs | handled hs => exact hrest hs rfl
  | broken hr _ hinner =>
    rw [finals_append,finals_of_stage (hr.stage_begun hinner)]
    exact Nat.zero_le 1

/-- The block that runs in any case is started once at most. -/
theorem Living.finals_le {p : Phase} (h : Living n s A log p) : finals log ≤ 1 := by
  have hzero {log : List Line} (h : ∀ x ∈ log, x.note.stage = 0) : finals log ≤ 1 :=
    Nat.le_trans (Nat.le_of_eq (finals_of_stage h)) (Nat.zero_le 1)
  cases h with
  | asking => exact Nat.zero_le 1
  | attempting hr _ hinner => exact hzero (hr.stage_begun hinner)
  | pausing hr => exact hzero hr.stage
  | always ho =>
    rw [finals_append,finals_of_stage ho.stage]
    exact Nat.le_refl 1
  | handling hs =>
    rw [finals_append]
    exact hs.finals_le
  | leaving hl => exact hl.finals_le
  | collapsed hr _ hinner =>
    rw [finals_append,finals_of_stage (hr.stage_begun hinner)]
    exact Nat.zero_le 1

end Conclusions

/-- The attempts of a guarded node run its body, and its recovery after a failure of the body. When the
last attempt is over, the block that runs in any case is started once, without a limit, unless the node
is cancelled by then, and the node ends as the outcomes of both say. -/
theorem guarded_nodes_follow_their_blocks {e : Engine} {id : TaskId} {log : List Line} {w : World}
    {r : Run} {n : GraphNode Graph} {body : Graph} {recovery always : Option Graph}
    (hd : Diary e id log w) (hr : r ∈ w.runs) (hid : r.id = id.run)
    (hn : n ∈ r.schedule.graph.nodes) (hnode : n.id = id.node)
    (hk : n.kind = .guarded body recovery always) :
    (∀ t ∈ w.tasks, t.id = id →
      Living n t.scope (.guarding n t.scope body recovery) log t.phase ∧
      (t.phase.isNested = true → w.Waits e t) ∧
      ∀ k outcome run, t.phase = .always k outcome run →
        ((w.move? e.setting (.step id)).isSome = true ↔ (w.result? run).isSome = true)) ∧
    (∃ s, ∀ x ∈ log, ∀ k outcome, x.note = .ends k outcome → ∃ a : Tried, a.attempt = k ∧
      a.finish = x.moment ∧ a.lines <:+: log ∧
      Guarded n s body recovery a.start a.inner a.finish outcome ∧
      a.inner.any (fun x => x.note.isRecovery) =
        (recovery.isSome && a.inner.any fun x => x.note.isFailure)) ∧
    finals log ≤ 1 ∧
    ∀ m report, ⟨m,.reports report⟩ ∈ log → r.HasHeard n.id report ∧
      ∃ s, EndsGuarded n s body recovery always log report := by
  have haccount (s : Scope) : Account.guarded n s = .guarding n s body recovery := by
    rw [Account.guarded,hk]
  have hliving (hne : log ≠ []) :=
    hd.living (fun n s => Account.guarded_holds e.setting n s) hr hid hne hn hnode
  refine ⟨fun t ht htid => ⟨?_,fun hruns => hd.reaches.waits ht hruns,fun k outcome run hp => ?_⟩,?_,?_,
    fun m report hx => ?_⟩
  · have hl := (hd.story fun n s => Account.guarded_holds e.setting n s).living t ht htid
    obtain rfl := hd.reaches.coherent.node_eq ht hr (hid.trans (by rw [htid])) hn
      (hnode.trans (by rw [htid]))
    rwa [haccount] at hl
  · have hacts := (hd.reaches.waits ht (by rw [hp]; rfl)).acts
    rw [htid,hp] at hacts
    simpa [Phase.runs,Phase.limit?,World.limitPassed] using hacts
  · obtain rfl | hne := eq_or_ne log []
    · exact ⟨default,fun _ hx => absurd hx List.not_mem_nil⟩
    obtain ⟨s,p,hl,-⟩ := hliving hne
    rw [haccount] at hl
    refine ⟨s,fun x hx k outcome hends => ?_⟩
    obtain ⟨a,hattempt,-,hfinish,hin,hguarded⟩ := hl.tellsEnds x hx k outcome hends
    exact ⟨a,hattempt,hfinish,hin,hguarded,Guarded.recovers hguarded⟩
  · obtain rfl | hne := eq_or_ne log []
    · exact Nat.zero_le 1
    · obtain ⟨s,p,hl,-⟩ := hliving hne
      exact hl.finals_le
  · obtain ⟨s,p,hl,-⟩ := hliving (List.ne_nil_of_mem hx)
    obtain ⟨-,hlife⟩ := hl.life hx
    rw [haccount] at hlife
    exact ⟨hnode ▸ hd.heard hx r hr hid,s,hlife.endsGuarded hk⟩

namespace Roast

abbrev burn : Action where
  name := "burn"
  logged := false
  check _ := .ok ()
  start _ := .ended (.fault (.failed "smoke"))

abbrev serve : Action where
  name := "serve"
  logged := false
  check _ := .ok ()
  start _ := .ended (.done (.string "bread"))

abbrev engine : Engine := { config := {}, pools := {}, setting := { actions := [burn,serve] } }

abbrev definition : Definition where
  name := "dinner"
  nodes := [("roast",{
    kind := .guarded (.steps [("cook",{ kind := .action "burn" .null })])
      (some (.steps [("cook",{ kind := .action "serve" .null })]))
      (some (.steps [("cook",{ kind := .action "burn" .null })])) })]

abbrev roast : TaskId := ⟨⟨0,[]⟩,"roast"⟩

abbrev cook (k : Nat) : TaskId := ⟨roast.child k,"cook"⟩

/-- A block runs to its end, and the task goes on. -/
abbrev block (k : Nat) : List Move :=
  let run := (cook k).run
  [.pass run,.step (cook k),.step (cook k),.take run,.pass run,.take run,.pass run,.step roast]

abbrev moves : List Move := [.pass roast.run,.step roast] ++ block 0 ++ block 1 ++ block 2

def diary : List Line × World := (engine.started definition).diary engine.setting roast [] moves

theorem diary_spec : Diary engine roast diary.1 diary.2 := (Diary.started rfl).moves moves

def hasBlocks (_ : Run) (n : GraphNode Graph) : Bool :=
  match n.kind with
  | .guarded _ (some _) (some _) => true
  | _ => false

def failsLate (report : Report) : Bool :=
  match report.ending with
  | .failed (.always _) => true
  | _ => false

end Roast

/-- The meal is burnt, and something else is served, but what follows fails. -/
theorem guarded_nodes_follow_their_blocks_roast : ∃ r ∈ Roast.diary.2.runs,
    ∃ n ∈ r.schedule.graph.nodes, ∃ s body recovery always f report,
      n.kind = .guarded body (some recovery) (some always) ∧
      (∃ m, ⟨m,.reports report⟩ ∈ Roast.diary.1) ∧ report.ending = .failed (.always f) ∧
      finals Roast.diary.1 = 1 ∧ r.HasHeard n.id report ∧
      EndsGuarded n s body (some recovery) (some always) Roast.diary.1 report := by
  obtain ⟨r,hr,hid,n,hn,hnode,hkind⟩ := World.exists_node Roast.diary.2 Roast.roast Roast.hasBlocks
    (by decide +kernel)
  obtain ⟨m,report,hreport,hfails⟩ := exists_report Roast.diary.1 Roast.failsLate (by decide +kernel)
  unfold Roast.hasBlocks at hkind
  unfold Roast.failsLate at hfails
  split at hkind
  · next body recovery always hk =>
    split at hfails
    · next f he =>
      obtain ⟨-,-,-,hends⟩ := guarded_nodes_follow_their_blocks Roast.diary_spec hr hid hn hnode hk
      obtain ⟨hheard,s,hends⟩ := hends m report hreport
      exact ⟨r,hr,n,hn,s,body,recovery,always,f,report,hk,⟨m,hreport⟩,he,by decide +kernel,hheard,hends⟩
    · cases hfails
  · cases hkind

end Engine

end TaskGraph
