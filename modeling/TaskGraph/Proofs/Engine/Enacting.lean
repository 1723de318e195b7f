import TaskGraph.Proofs.Engine.Sequel

/-!
What `World.sequel?` says of a step is what happens in it: one lemma a function that carries on a task.
-/

namespace TaskGraph.Engine

/-- What is done with a result and what is said of it come together. -/
theorem exists_of_bind {α β γ : Type} {P : γ → β → Prop} {o : Option α} {f : α → β} {g : α → γ}
    {v : β} (h : (o.bind fun a => some (f a)) = some v) (hP : ∀ a, P (g a) (f a)) :
    ∃ p, (o.bind fun a => some (g a)) = some p ∧ P p v := by
  obtain ⟨a,ha,he⟩ := Option.bind_eq_some_iff.mp h
  cases he
  exact ⟨g a,Option.bind_eq_some_iff.mpr ⟨a,ha,rfl⟩,hP a⟩

namespace World

variable {σ : Setting} {w v : World} {t : Task} {attempt : Nat}

theorem moment_eq (hc : v.clock = w.clock) (hk : v.cancelled = w.cancelled) (t : Task) :
    v.moment t = w.moment t := by
  rw [moment,moment,hc,isCancelled,isCancelled,hk]

theorem Alike.moment (h : Alike w v) (t : Task) : v.moment t = w.moment t :=
  moment_eq h.clock h.cancelled t

theorem discard_moment (w : World) (ids : List RunId) (t : Task) :
    (w.discard ids).moment t = w.moment t :=
  moment_eq (w.discard_spec ids).1 (w.discard_spec ids).2.2.2.1 t

/-- The runs that a fan-out starts: one for each item, with the item and its place. -/
theorem nestItems_opens (w : World) (t : Task) (binding : String) (template : Graph) (index : Nat)
    (items : List Value) :
    let started := w.nestItems t binding template index items
    (∃ k, started.2.1 = { t with started := k }) ∧
      started.2.2 = items.mapIdx (fun i v => (v,t.runAt i)) ∧ w.runs ⊆ started.1.runs ∧
      ∀ i, ∀ h : i < items.length, ∃ r ∈ started.1.runs, r.id = t.runAt i ∧
        r.schedule = .start template (t.itemScope binding (index+i) items[i]) := by
  induction items generalizing w t index with
  | nil =>
    refine ⟨⟨t.started,rfl⟩,rfl,List.Subset.refl _,fun i h => ?_⟩
    cases h
  | cons item rest ih =>
    let first := t.nestedRun s!"{t.node.id}[{index}]" template (t.itemScope binding index item)
    let v : World := { w with runs := w.runs ++ [first] }
    let u : Task := { t with started := t.started+1 }
    obtain ⟨⟨k,hu⟩,hruns,hkept,hopened⟩ := ih v u (index+1)
    have hnext (i : Nat) : u.runAt i = t.runAt (i+1) := by
      simp only [Task.runAt,u,Nat.add_assoc,Nat.add_comm 1]
    refine ⟨⟨k,hu⟩,?_,fun r hr => hkept (List.mem_append_left _ hr),fun i hi => ?_⟩
    · rw [List.mapIdx_cons]
      refine congrArg (List.cons _) (hruns.trans ?_)
      simp only [hnext]
    · cases i with
      | zero => exact ⟨first,hkept (List.mem_append_right _ List.mem_cons_self),rfl,rfl⟩
      | succ i =>
        obtain ⟨r,hr,hid,hs⟩ := hopened i (Nat.lt_of_succ_lt_succ hi)
        refine ⟨r,hr,hid.trans (hnext i),hs.trans ?_⟩
        rw [Nat.add_assoc,Nat.add_comm 1]
        rfl

/-- An event that is sent to a run comes in. -/
theorem mem_inbox_of_post (w : World) (id : RunId) (e : Event) {r : Run}
    (hr : r ∈ (w.post id e).runs) (hid : r.id = id) : e ∈ r.inbox := by
  unfold post at hr
  split at hr
  · next q hq =>
    rw [(wakeRun_alike _ id).runs] at hr
    obtain ⟨old,-,rfl⟩ := List.mem_map.mp hr
    split
    · exact List.mem_append_right _ List.mem_cons_self
    · next hne =>
      rw [if_neg hne] at hid
      exact absurd (hid.trans (mem_of_run? hq).2.symm) hne
  · next hnone =>
    have hne := List.find?_eq_none.mp hnone r hr
    rw [hid,beq_self_eq_true] at hne
    exact absurd rfl hne

end World

namespace Sequel.Shows

open World

variable {σ : Setting} {w v : World} {t : Task} {attempt : Nat} {q : Sequel}

theorem after (h : q.Shows t w) {notes : List Note} (hn : ∀ report, .reports report ∉ notes) :
    (q.after notes).Shows t w where
  phase := h.phase
  told report hr := h.told report ((List.mem_append.mp hr).resolve_left (hn report))
  opened := h.opened

/-- A task goes on to a phase, and what it has started is there. -/
theorem of_setTask {notes : List Note} {p p' : Phase} {k : Nat}
    (hn : ∀ report, .reports report ∉ notes) (hp : p.Alike p')
    (ho : ∀ x ∈ p.parts, ∃ r ∈ w.runs, r.id = x.2 ∧ x.1.start? t.node t.scope = some r.schedule) :
    (Sequel.mk notes (some p)).Shows t (w.setTask { t with phase := p', started := k }) where
  phase u hu hid := by
    obtain rfl := eq_of_setTask hu hid
    exact ⟨p,rfl,hp⟩
  told report hr := absurd hr (hn report)
  opened := by
    rintro _ ⟨⟩
    exact ho

theorem of_nest {graph : Graph} {scope : Scope} {part : Part} {p : Phase}
    (hp : p.parts = [(part,t.runAt 0)])
    (hs : part.start? t.node t.scope = some (.start graph scope)) (label : String) :
    (Sequel.mk [] (some p)).Shows t
      (({ w with runs := w.runs ++ [t.nestedRun label graph scope] } : World).setTask
        { t with phase := p, started := t.started+1 }) := by
  refine of_setTask (fun _ => List.not_mem_nil) (.inl rfl) fun x hx => ?_
  rw [hp,List.mem_singleton] at hx
  subst hx
  exact ⟨_,List.mem_append_right _ List.mem_cons_self,rfl,hs⟩

theorem of_report (ending : Ending) :
    (Sequel.ofReport (w.moment t) ending attempt).Shows t (w.report t ending attempt) where
  phase u hu hid := by
    obtain rfl := eq_of_setTask hu hid
    exact ⟨.leaving,rfl,.inl rfl⟩
  told report hr r hrun hid := by
    cases List.mem_singleton.mp hr
    exact w.mem_inbox_of_post _ _ hrun hid
  opened := by
    rintro _ ⟨⟩ x hx
    cases hx

theorem of_conclude (outcome : Outcome) :
    (t.concluded (w.moment t) attempt outcome).Shows t (w.conclude t attempt outcome) := by
  obtain ⟨c,rfl⟩ | rfl | ⟨f,hf,rfl⟩ := outcome.cases
  · exact of_report _
  · exact of_report _
  · rw [conclude_failed hf,Task.concluded_failed hf]
    cases hh : t.node.handler with
    | none => exact of_report _
    | some handler => exact of_nest rfl (Part.start?_handler hh _ _) _

theorem of_finishAttempts (outcome : Outcome) :
    (t.finished (w.moment t) attempt outcome).Shows t (w.finishAttempts t attempt outcome) := by
  cases ha : t.node.kind.always? with
  | none =>
    rw [finishAttempts_plain ha,Task.finished_plain ha]
    exact of_conclude outcome
  | some block =>
    obtain ⟨body,recovery,hk⟩ := NodeKind.always?_eq_some.mp ha
    rw [finishAttempts_always ha,Task.finished_always ha]
    have hc : (w.moment t).cancelled = w.isCancelled t.id.run := rfl
    rw [hc]
    split
    · exact of_conclude _
    · refine of_nest rfl ?_ _
      cases outcome with
      | ok c => exact Part.start?_always_ok hk _ _
      | error f => exact Part.start?_always_error hk _ _

theorem of_afterAttempt (outcome : Outcome) :
    (t.judged (w.moment t) attempt outcome).Shows t (w.afterAttempt t attempt outcome) := by
  unfold afterAttempt Task.judged
  have hc : (w.moment t).cancelled = w.isCancelled t.id.run := rfl
  rw [hc]
  cases t.node.retry.verdict attempt (w.isCancelled t.id.run) outcome with
  | ended final => exact of_finishAttempts final
  | again delay =>
    refine of_setTask ?_ (.inr ⟨_,_,_,rfl,rfl,rfl⟩) fun x hx => ?_
    · intro report hr
      cases List.mem_singleton.mp hr
    · cases hx

/-- An attempt has ended. -/
theorem of_ended (outcome : Outcome) :
    (t.followed (w.moment t) attempt (.ended outcome)).Shows t (w.afterAttempt t attempt outcome) := by
  refine (of_afterAttempt outcome).after fun report hr => ?_
  cases List.mem_singleton.mp hr

theorem of_collapse (message : String) :
    (t.followed (w.moment t) attempt (.broken message)).Shows t (w.collapse t message) := by
  refine of_setTask ?_ (.inl rfl) fun x hx => ?_
  · intro report hr
    cases List.mem_singleton.mp hr
  · cases hx

theorem of_stop (s : Task.Stop) :
    (t.followed (w.moment t) attempt (.ofStop s)).Shows t (w.stop t attempt s) := by
  cases s with
  | failed f => exact of_ended _
  | collapsed message => exact of_collapse message

theorem of_afterAction (action : String) (outcome : Action.Outcome) :
    (t.followed (w.moment t) attempt (.ofAction action outcome)).Shows t
      (w.afterAction t attempt action outcome) := by
  cases outcome with
  | done v => exact of_ended _
  | fault f =>
    cases f with
    | collapse message => exact of_collapse message
    | _ => exact of_ended _

theorem of_invoke (action : String) (params : Value) :
    (t.followed (w.moment t) attempt (w.invoked σ t attempt action params)).Shows t
      (w.invoke σ t attempt action params) := by
  let use := w.use t attempt action params
  let used := { w with invocations := ⟨t.id,w.clock,use,σ.actions.logs use⟩::w.invocations }
  have hused : (used.startLimit t).2 = (w.startLimit t).2 ∧ ∀ d,
      ((used.startLimit t).1.startTimer d).2 = ((w.startLimit t).1.startTimer d).2 := by
    unfold startLimit
    cases t.node.timeout <;> exact ⟨rfl,fun _ => rfl⟩
  unfold invoke invoked
  dsimp only
  by_cases hwait : (σ.actions.start use).wait = 0
  · rw [if_pos hwait]
    refine Eq.mpr (congrArg _ (if_pos hwait)) ?_
    exact of_afterAction (w := used) action (σ.actions.start use).outcome
  · rw [if_neg hwait]
    refine Eq.mpr (congrArg _ (if_neg hwait)) ?_
    refine of_setTask (fun _ => List.not_mem_nil) (.inl ?_) fun x hx => ?_
    · rw [← hused.1,← hused.2]
      rfl
    · cases hx

theorem of_loopTurn {condition : Value} {cap : Nat} {body : Graph} {limit : Option Timer}
    (hk : t.node.kind = .loop condition cap body) (outputs : List Value) :
    (t.followed (w.moment t) attempt
      (t.turned (w.moment t) attempt σ limit condition cap outputs)).Shows t
      (w.loopTurn σ t attempt limit condition cap body outputs) := by
  unfold loopTurn Task.turned
  have hc : (w.moment t).cancelled = w.isCancelled t.id.run := rfl
  rw [hc]
  split
  · exact of_ended _
  · dsimp only
    cases Template.evaluate σ.surroundings (t.turnScope outputs).value condition with
    | error f => exact of_stop _
    | ok holds =>
      dsimp only
      cases Attempt.turn cap outputs.length outputs holds with
      | ended outcome => exact of_ended _
      | body => exact of_nest rfl (Part.start?_turn hk _ _) _

theorem of_nestItems {binding : String} {template : Graph} {list : Value} {limit : Option Timer}
    (hk : t.node.kind = .forEach list binding template) (items : List Value) :
    (t.followed (w.moment t) attempt (.goesOn (.nesting attempt limit
      (.fanOut (items.mapIdx fun i v => (v,t.runAt i)))))).Shows t
      (let (v,u,runs) := w.nestItems t binding template 0 items
      v.nesting u attempt limit (.fanOut runs)) := by
  obtain ⟨⟨k,hu⟩,hruns,-,hopened⟩ := w.nestItems_opens t binding template 0 items
  generalize w.nestItems t binding template 0 items = started at hu hruns hopened
  obtain ⟨v,u,runs⟩ := started
  dsimp only at hu hruns hopened ⊢
  subst hu hruns
  refine of_setTask (fun _ => List.not_mem_nil) (.inl rfl) fun x hx => ?_
  rw [Phase.parts] at hx
  obtain ⟨i,hi,rfl⟩ := List.mem_mapIdx.mp hx
  rw [List.length_mapIdx] at hi
  obtain ⟨r,hr,hid,hs⟩ := hopened i hi
  rw [Nat.zero_add] at hs
  refine ⟨r,hr,by simpa using hid,?_⟩
  rw [hs,List.getElem_mapIdx]
  exact Part.start?_item hk _ _ _

theorem of_beginAttempt : (t.followed (w.moment t) attempt (w.beginning σ t attempt)).Shows t
    (w.beginAttempt σ t attempt) := by
  have hlimit := (startLimit_alike w t).moment t
  unfold beginAttempt beginning
  cases hk : t.node.kind with
  | action name params =>
    dsimp only
    cases Template.renderValue σ.surroundings t.scope.value params with
    | error f => exact of_stop _
    | ok params =>
      dsimp only
      split
      · exact of_ended _
      · exact of_invoke name params
  | sequence body => exact of_nest rfl (Part.start?_sequence hk _) _
  | forEach list binding template =>
    have hitems : (do
        let v ← (Template.renderValue σ.surroundings t.scope.value list).mapError Task.Stop.ofTemplate
        (Attempt.items v).mapError Task.Stop.failed) = t.items σ list := rfl
    dsimp only
    rw [hitems]
    cases t.items σ list with
    | error s => exact of_stop s
    | ok items =>
      cases items with
      | nil => exact of_ended _
      | cons item rest =>
        rw [← hlimit]
        exact of_nestItems hk (item::rest)
  | loop condition cap body =>
    dsimp only
    rw [← hlimit]
    exact of_loopTurn hk []
  | branch arms fallback =>
    dsimp only
    cases Task.select σ t.scope.value fallback arms with
    | error s => exact of_stop s
    | ok selected =>
      rw [← hk]
      exact of_ended _
  | guarded body recovery always => exact of_nest rfl (Part.start?_guarded hk _) _

theorem of_afterBody (limit : Option Timer) (handed : Except Failure Value) :
    (t.followed (w.moment t) attempt (t.bodyDone attempt limit handed)).Shows t
      (w.afterBody t attempt limit handed) := by
  cases handed with
  | ok v => exact of_ended _
  | error f =>
    obtain rfl | hf := f.eq_cancelled_or
    · exact of_ended _
    rw [afterBody_failed hf,Task.bodyDone_failed hf]
    cases hr : t.node.kind.recovery? with
    | none => exact of_ended _
    | some recovery =>
      obtain ⟨body,always,hk⟩ := NodeKind.recovery?_eq_some.mp hr
      exact of_nest rfl (Part.start?_recovery hk _ _) _

theorem of_afterStage {limit : Option Timer} {stage : Stage}
    (h : w.afterStage σ t attempt limit stage = some v) :
    ∃ p, w.staged? σ t attempt limit stage = some p ∧
      (t.followed (w.moment t) attempt p).Shows t v := by
  have hm (ids : List RunId) := w.discard_moment ids t
  cases stage with
  | sequence run =>
    refine exists_of_bind h fun r => ?_
    rw [← hm [run]]
    exact of_ended _
  | fanOut items =>
    refine exists_of_bind h fun results => ?_
    rw [← hm (Stage.fanOut items).runs]
    exact of_ended _
  | turn outputs run =>
    obtain ⟨r,hr,he⟩ := Option.bind_eq_some_iff.mp h
    refine ⟨_,Option.bind_eq_some_iff.mpr ⟨r,hr,rfl⟩,?_⟩
    rw [← hm [run]]
    cases hv : r.handed with
    | error f =>
      rw [hv] at he
      cases he
      exact of_ended _
    | ok v =>
      rw [hv] at he
      unfold Task.turnDone
      cases hk : t.node.kind with
      | loop condition cap body =>
        rw [hk] at he
        cases he
        exact of_loopTurn hk _
      | _ =>
        rw [hk] at he
        cases he
        exact of_ended _
  | guarded run =>
    refine exists_of_bind h fun r => ?_
    rw [← hm [run]]
    exact of_afterBody limit _
  | recovery body run =>
    refine exists_of_bind h fun r => ?_
    rw [← hm [run]]
    exact of_ended _

/-- As long as the runs of a stage are not over there is nothing to do. -/
theorem staged?_of_afterStage {limit : Option Timer} {stage : Stage}
    (h : w.afterStage σ t attempt limit stage = none) :
    w.staged? σ t attempt limit stage = none := by
  have hnone {α : Type} {o : Option α} {f : α → Option World} {g : α → Option Progress}
      (hf : ∀ a, f a ≠ none) (ho : o.bind f = none) : o.bind g = none := by
    cases o with
    | none => rfl
    | some a => exact absurd ho (hf a)
  cases stage with
  | turn outputs run =>
    refine hnone (fun r => ?_) h
    dsimp only
    split <;> exact Option.some_ne_none _
  | _ => exact hnone (fun _ => Option.some_ne_none _) h

end Sequel.Shows

namespace World

variable {σ : Setting} {w w' : World} {t : Task}

/-- A task that makes a look in vain, or is admitted and begins. -/
theorem seekAdmission_sequel (hu : ∀ u ∈ w.tasks, u.id = t.id → u = t) (hp : t.phase = .asking)
    (hc : w.isCancelled t.id.run = false) (h : w.seekAdmission σ t = some w') :
    ∃ q, w.sequel? σ t = some q ∧ q.Shows t w' := by
  have hnot : ¬ (w.moment t).cancelled = true := by simp [moment,hc]
  unfold sequel?
  simp only [hp]
  rw [if_neg hnot]
  unfold seekAdmission at h
  dsimp only at h
  split at h
  · next hg =>
    cases h
    refine ⟨_,if_pos hg,Sequel.Shows.after ?_ fun report hr => ?_⟩
    · have ha := setAdmission_alike w ((w.admission.ask t.id t.request).look t.id)
      have hpost := World.post_frame (w.setAdmission ((w.admission.ask t.id t.request).look t.id))
        t.id.run (.started t.node.id w.now)
      rw [← moment_eq (hpost.1.trans ha.clock) (hpost.2.2.1.trans ha.cancelled) t]
      exact .of_beginAttempt
    · cases List.mem_singleton.mp hr
  next hg =>
  rw [if_neg hg]
  split at h
  · next hl =>
    cases h
    refine ⟨_,if_pos hl,⟨fun u hmem hid => ?_,fun report hr => ?_,?_⟩⟩
    · have htasks : (if ((w.admission.ask t.id t.request).look t.id).waitsForTags t.id then
          { w with admission := (w.admission.ask t.id t.request).look t.id }
          else w.setAdmission ((w.admission.ask t.id t.request).look t.id)).tasks = w.tasks := by
        split
        · rfl
        · exact (setAdmission_alike w _).tasks
      rw [htasks] at hmem
      obtain rfl := hu u hmem hid
      exact ⟨.asking,rfl,.inl hp.symm⟩
    · cases hr
    · rintro _ ⟨⟩ x hx
      cases hx
  · cases h

theorem acting_progress {attempt : Nat} {limit : Option Timer} {outcome : Action.Outcome}
    {ends : Timer} (hp : t.phase = .acting attempt limit outcome ends)
    (h : w.stepTask σ t = some w') : ∃ p, w.progress? σ t = some (attempt,[],p) ∧
      (t.followed (w.moment t) attempt p).Shows t w' := by
  simp only [stepTask,hp] at h
  simp only [progress?,hp]
  split at h
  · next hk =>
    cases h
    exact ⟨_,if_pos hk,.of_ended _⟩
  next hk =>
  rw [if_neg hk]
  split at h
  · next he =>
    cases h
    exact ⟨_,if_pos he,.of_afterAction _ outcome⟩
  next he =>
  rw [if_neg he]
  split at h
  · next hl =>
    cases h
    refine ⟨_,if_pos hl,?_⟩
    rw [← w.discard_moment t.phase.runs t]
    exact .of_ended _
  · cases h

theorem nesting_progress {attempt : Nat} {limit : Option Timer} {stage : Stage}
    (hp : t.phase = .nesting attempt limit stage) (h : w.stepTask σ t = some w') :
    ∃ notes p, w.progress? σ t = some (attempt,notes,p) ∧ (∀ report, .reports report ∉ notes) ∧
      (t.followed (w.moment t) attempt p).Shows t w' := by
  simp only [stepTask,hp] at h
  simp only [progress?,hp]
  split at h
  · next v hv =>
    cases h
    obtain ⟨p,hs,hshows⟩ := Sequel.Shows.of_afterStage hv
    rw [hs]
    refine ⟨_,p,rfl,fun report hr => ?_,hshows⟩
    obtain ⟨id,-,hid⟩ := List.mem_filterMap.mp hr
    obtain ⟨r,-,hn⟩ := Option.map_eq_some_iff.mp hid
    cases hn
  · next hv =>
    rw [Sequel.Shows.staged?_of_afterStage hv]
    split at h
    · next hl =>
      cases h
      refine ⟨[],t.late,if_pos hl,fun _ => List.not_mem_nil,?_⟩
      rw [← w.discard_moment t.phase.runs t]
      exact .of_ended _
    · cases h

/-- What is said of a step of a task is what happens. -/
theorem stepTask_sequel (hu : ∀ u ∈ w.tasks, u.id = t.id → u = t) (h : w.stepTask σ t = some w') :
    ∃ q, w.sequel? σ t = some q ∧ q.Shows t w' := by
  have hone {n : Note} (hn : ∀ report, n ≠ .reports report) : ∀ report, .reports report ∉ [n] :=
    fun report hr => hn report (List.mem_singleton.mp hr).symm
  cases hp : t.phase with
  | asking =>
    simp only [stepTask,hp] at h
    split at h
    · next hk =>
      cases h
      have hcancelled : (w.moment t).cancelled = true := hk
      simp only [sequel?,hp]
      refine ⟨_,if_pos hcancelled,Sequel.Shows.after ?_ (hone (by simp))⟩
      rw [← (setAdmission_alike w (w.admission.leave t.id)).moment t]
      exact .of_report .cancelled
    · next hk => exact seekAdmission_sequel hu hp (by simpa using hk) h
  | acting attempt limit outcome ends =>
    obtain ⟨p,hprogress,hshows⟩ := acting_progress hp h
    have hnone : ∀ report, .reports report ∉ ([] : List Note) := fun _ => List.not_mem_nil
    refine ⟨_,?_,hshows.after hnone⟩
    simp only [sequel?,hp,hprogress,Option.bind_eq_bind,Option.bind_some]
  | nesting attempt limit stage =>
    obtain ⟨notes,p,hprogress,hn,hshows⟩ := nesting_progress hp h
    refine ⟨_,?_,hshows.after hn⟩
    simp only [sequel?,hp,hprogress,Option.bind_eq_bind,Option.bind_some]
  | pausing attempt ends =>
    have hc : (w.moment t).cancelled = w.isCancelled t.id.run := rfl
    simp only [stepTask,hp] at h
    simp only [sequel?,hp,hc]
    split at h
    · next hk =>
      cases h
      exact ⟨_,if_pos hk,(Sequel.Shows.of_finishAttempts _).after (hone (by simp))⟩
    next hk =>
    rw [if_neg hk]
    split at h
    · next he =>
      cases h
      exact ⟨_,if_pos he,Sequel.Shows.of_beginAttempt.after (hone (by simp))⟩
    · cases h
  | always attempt outcome run =>
    simp only [stepTask,hp] at h
    simp only [sequel?,hp]
    refine exists_of_bind h fun r => Sequel.Shows.after ?_ (hone (by simp))
    rw [← w.discard_moment [run] t]
    exact .of_conclude _
  | handling attempt f run =>
    simp only [stepTask,hp] at h
    simp only [sequel?,hp]
    refine exists_of_bind h fun r => Sequel.Shows.after ?_ (hone (by simp))
    rw [← w.discard_moment [run] t]
    exact .of_report _
  | leaving =>
    simp only [stepTask,hp] at h
    simp only [sequel?,hp]
    cases h
    refine ⟨_,rfl,⟨fun u hmem hid => ?_,fun report hr => ?_,?_⟩⟩
    · exact absurd hid (by simpa using (List.mem_filter.mp hmem).2)
    · cases hr
    · rintro _ ⟨⟩
  | collapsed message =>
    simp only [stepTask,hp] at h
    simp only [sequel?,hp]
    cases h
    refine ⟨_,rfl,⟨fun u hmem hid => ?_,fun report hr r hrun hid => ?_,?_⟩⟩
    · exact absurd hid (by simpa using (List.mem_filter.mp hmem).2)
    · cases List.mem_singleton.mp hr
      exact w.mem_inbox_of_post _ _ hrun hid
    · rintro _ ⟨⟩

end World

end TaskGraph.Engine
