import TaskGraph.Proofs.Engine.Deed

/-!
Every function that carries on a task does something that fits. One lemma a function; later ones use
those of the functions called.
-/

namespace TaskGraph

namespace Outcome

variable {targets : List String}

theorem fits_error (f : Failure) : Outcome.Fits targets (.error f) := trivial

theorem fits_value (v : Value) : Outcome.Fits targets (.ok ⟨v,[]⟩) := List.nil_subset _

theorem fits_ofValue (r : Except Failure Value) : Outcome.Fits targets (.ofValue r) := by
  cases r with
  | ok v => exact fits_value v
  | error f => exact fits_error f

theorem fits_selection (selected : List String) :
    Outcome.Fits targets (.ok (Attempt.selection selected targets)) :=
  List.filter_subset_self _

theorem fits_collect (cancelled : Bool) (items : List (Value × RunResult)) :
    Outcome.Fits targets (Attempt.collect cancelled items) := by
  unfold Attempt.collect
  split
  · exact fits_error _
  · split
    · exact fits_value _
    · exact fits_error _

theorem fits_recovered (body : Failure) (r : Except Failure Value) :
    Outcome.Fits targets (Attempt.recovered body r) := by
  unfold Attempt.recovered
  split
  · exact fits_value _
  · exact fits_error _
  · exact fits_error _

theorem fits_afterAlways {outcome : Outcome} (h : outcome.Fits targets)
    (r : Except Failure Value) : Outcome.Fits targets (Attempt.afterAlways outcome r) := by
  unfold Attempt.afterAlways
  split
  · exact h
  · exact fits_error _
  · split <;> exact fits_error _

theorem fits_turn {cap iteration : Nat} {outputs : List Value} {holds : Bool} {outcome : Outcome}
    (h : Attempt.turn cap iteration outputs holds = .ended outcome) :
    Outcome.Fits targets outcome := by
  unfold Attempt.turn at h
  split at h
  · cases h
    exact fits_value _
  · split at h
    · cases h
      exact fits_error _
    · cases h

end Outcome

/-- What a retry policy makes of an outcome still fits, and needs no handler after a cancellation. -/
theorem RetryPolicy.verdict_ended {policy : RetryPolicy} {attempt : Nat} {cancelled : Bool}
    {outcome final : Outcome} {targets : List String} (hf : outcome.Fits targets)
    (h : policy.verdict attempt cancelled outcome = .ended final) :
    final.Fits targets ∧ (cancelled = true → final.isPlain = true) := by
  unfold verdict at h
  split at h
  · cases h
    exact ⟨hf,fun _ => rfl⟩
  · cases h
    exact ⟨trivial,fun _ => rfl⟩
  · split at h
    · cases h
      exact ⟨trivial,fun _ => rfl⟩
    next hc =>
    split at h
    · cases h
    · cases h
      exact ⟨trivial,fun ht => absurd ht hc⟩

theorem RetryPolicy.verdict_again {policy : RetryPolicy} {attempt : Nat} {cancelled : Bool}
    {outcome : Outcome} {delay : Duration}
    (h : policy.verdict attempt cancelled outcome = .again delay) : cancelled = false := by
  unfold verdict at h
  split at h
  · cases h
  · cases h
  · split at h
    · cases h
    next hc => simpa using hc

namespace Engine.World

variable {σ : Setting} {w v : World} {t : Task} {bound : Nat}

/-- A task reports, after it has left, if it was never admitted. -/
theorem reportAfter_does (acts : List (Admission.Act TaskId)) (hv : Alike w v)
    (hadm : v.admission = acts.foldl Admission.act w.admission)
    (hacts : acts = [] ∨ acts = [.leave t.id]) (ending : Ending)
    (hu : ending.unselected ⊆ t.node.kind.targets) (attempts : Nat) :
    w.Does (v.report t ending attempts) t 3 := by
  have hp := v.post_frame t.id.run (.finished t.node.id ⟨ending,attempts,v.now⟩)
  refine ⟨{ posted := some ⟨ending,attempts,v.now⟩, next := some .leaving, acts },?_,?_,?_⟩
  · refine ⟨hp.1.trans hv.clock,?_,?_,hp.2.2.1.trans hv.cancelled,hp.2.2.2.trans hv.invocations,
      (v.post_admission _ _).trans hadm,?_⟩
    · exact (post_congr hv.runs _ _).trans (List.append_nil _).symm
    · rw [report,setTask,hp.2.1,hv.tasks]
      rfl
    · rintro r ⟨⟩
      rw [now,now,hv.clock]
  · constructor
    · rfl
    · intro r hr
      cases hr
    · intro r hr
      cases hr
    · rfl
    · rintro p ⟨⟩
      trivial
    · rintro r ⟨⟩
      exact hu
    · rintro - p ⟨⟩
      rfl
    · intro h
      cases h
    · intro i hi
      cases hi
    · intro r hr
      cases hr
    · exact hacts.imp id .inr
    · rintro p ⟨⟩
      rfl
    · rintro p ⟨⟩ hc
      cases hc
    · rintro p ⟨⟩ hr
      exact absurd rfl hr
    · rintro ⟨⟩
    · rintro p ⟨⟩ hw
      cases hw
    · rintro p ⟨⟩ hw
      cases hw
    · exact .inl rfl
    · rintro ⟨⟩
  · exact fun _ => ⟨rfl,Nat.le_refl _⟩

theorem report_does (ending : Ending) (hu : ending.unselected ⊆ t.node.kind.targets)
    (attempts : Nat) : w.Does (w.report t ending attempts) t 3 :=
  reportAfter_does [] (.refl w) rfl (.inl rfl) ending hu attempts

/-- A task that goes on without having started anything, or that breaks down. -/
theorem goOn_does {p : Phase} (acts : List (Admission.Act TaskId)) (hv : Alike w v)
    (hadm : v.admission = acts.foldl Admission.act w.admission)
    (hacts : acts = [] ∧ p.isCollapsed = false ∨ acts = [.leave t.id] ∧ p.isAtWork = false)
    (ha : p.isActing = true → t.node.kind.isAction = true) (hl : p.isLeaving = false)
    (hq : p.isAsking = false) (hr : p.runs = []) (hk : p.Fits t.node.kind.targets)
    (hb : p.effort ≤ bound) : w.Does (v.setTask { t with phase := p }) t bound := by
  refine ⟨{ next := some p, acts },?_,?_,?_⟩
  · refine ⟨hv.clock,?_,?_,hv.cancelled,hv.invocations,hadm,?_⟩
    · exact hv.runs.trans (List.append_nil _).symm
    · rw [setTask,hv.tasks]
      rfl
    · rintro r ⟨⟩
  · constructor
    · rfl
    · intro r hr
      cases hr
    · intro r hr
      cases hr
    · exact hr
    · rintro q ⟨⟩
      exact hk
    · rintro r ⟨⟩
    · intro h
      cases h
    · exact fun _ => ⟨p,rfl,hl⟩
    · intro i hi
      cases hi
    · intro r hr
      cases hr
    · exact hacts.imp And.left fun h => .inr h.1
    · rintro q ⟨⟩
      exact hq
    · rintro q ⟨⟩ hc
      refine (hacts.resolve_left fun h => ?_).1
      rw [h.2] at hc
      cases hc
    · rintro q ⟨⟩ hne
      exact absurd hr hne
    · rintro ⟨⟩
    · rintro q ⟨⟩ hw
      obtain ⟨hkept,-⟩ | ⟨-,hno⟩ := hacts
      · exact .inl hkept
      · rw [hno] at hw
        cases hw
    · rintro q ⟨⟩
      exact ha
    · exact .inl rfl
    · rintro ⟨⟩
  · intro _
    refine ⟨rfl,?_⟩
    simpa [Deed.cost] using hb

/-- A task starts nested runs. It keeps what it holds, or gives its slot back. -/
theorem open_does {p : Phase} {opened : List Run} {n : Nat} (acts : List (Admission.Act TaskId))
    (hv : Alike { w with runs := w.runs ++ opened } v)
    (hadm : v.admission = acts.foldl Admission.act w.admission)
    (hacts : acts = [] ∧ t.node.kind.isAction = false ∨
      acts = [.releaseSlot t.id] ∧ p.isHandling = true)
    (hn : n = t.started+opened.length)
    (hids : opened.map Run.id = (List.range' t.started opened.length).map t.id.child)
    (hnew : ∀ r ∈ opened, ∃ g ∈ t.node.nested, r.IsNew g)
    (hinner : ∀ r ∈ opened, t.Starts r.schedule.graph r.schedule.scope)
    (hheld : ∀ r ∈ opened, r.held = t.held.union t.node.tags) (hp : p.runs = opened.map Run.id)
    (hl : p.isBlock = true) (hf : p.Fits t.node.kind.targets)
    (hb : p.effort+3*opened.length ≤ bound) :
    w.Does (v.setTask { t with phase := p, started := n }) t bound := by
  subst hn
  obtain ⟨hleaving,hasking,hcollapsed⟩ := Phase.of_isBlock hl
  refine ⟨{ opened, next := some p, acts },
    ⟨hv.clock,hv.runs,?_,hv.cancelled,hv.invocations,hadm,nofun⟩,?_,?_⟩
  · rw [setTask,hv.tasks]
  · constructor
    · exact hids
    · exact hnew
    · exact hinner
    · exact hp
    · rintro q ⟨⟩
      exact hf
    · rintro r ⟨⟩
    · intro h
      cases h
    · exact fun _ => ⟨p,rfl,hleaving⟩
    · intro i hi
      cases hi
    · exact hheld
    · exact hacts.imp And.left fun h => .inl h.1
    · rintro q ⟨⟩
      exact hasking
    · rintro q ⟨⟩ hc
      rw [hcollapsed] at hc
      cases hc
    · rintro q ⟨⟩ -
      exact hacts.imp And.right And.left
    · rintro ⟨⟩
    · rintro q ⟨⟩ -
      exact hacts.imp_left And.left
    · rintro q ⟨⟩ ha
      rw [Phase.not_isActing_of_isBlock hl] at ha
      cases ha
    · exact .inl rfl
    · rintro ⟨⟩
  · intro _
    refine ⟨rfl,?_⟩
    simpa [Deed.cost] using hb

theorem nest_does {p : Phase} {graph : Graph} (acts : List (Admission.Act TaskId)) (hv : Alike w v)
    (hadm : v.admission = acts.foldl Admission.act w.admission)
    (hacts : acts = [] ∧ t.node.kind.isAction = false ∨
      acts = [.releaseSlot t.id] ∧ p.isHandling = true)
    (hid : t.node.id = t.id.node) {scope : Scope} (hg : t.Starts graph scope) (label : String)
    (hp : p.runs = [(t.nestedRun label graph scope).id]) (hl : p.isBlock = true)
    (hf : p.Fits t.node.kind.targets) (hb : p.effort+3 ≤ bound) :
    w.Does (({ v with runs := v.runs ++ [t.nestedRun label graph scope] } : World).setTask
      { t with phase := p, started := t.started+1 }) t bound := by
  have hopened : Alike { w with runs := w.runs ++ [t.nestedRun label graph scope] }
      { v with runs := v.runs ++ [t.nestedRun label graph scope] } :=
    ⟨hv.clock,congrArg (· ++ _) hv.runs,hv.tasks,hv.cancelled,hv.invocations⟩
  refine open_does acts hopened hadm hacts rfl ?_ ?_ ?_ ?_ hp hl hf hb
  · simp [Task.nestedRun_id hid]
  · intro r hr
    rw [List.mem_singleton.mp hr]
    exact ⟨graph,hg.mem,t.nestedRun_isNew label graph scope⟩
  · intro r hr
    rw [List.mem_singleton.mp hr]
    exact hg
  · intro r hr
    rw [List.mem_singleton.mp hr]
    rfl

/-- Nodes of other kinds than actions start nested runs and keep what they hold. -/
theorem isAction_of_mem {graph : Graph} (h : graph ∈ t.node.kind.nested) :
    t.node.kind.isAction = false := by
  cases hk : t.node.kind with
  | action => simp [hk,NodeKind.nested] at h
  | _ => rfl

theorem conclude_plain {outcome : Outcome} (ho : outcome.Fits t.node.kind.targets)
    (hp : outcome.isPlain = true) (attempt : Nat) :
    w.Does (w.conclude t attempt outcome) t 3 := by
  cases outcome with
  | ok c => exact report_does (.success c.value c.unselected) ho attempt
  | error f =>
    cases f with
    | cancelled => exact report_does .cancelled (List.nil_subset _) attempt
    | _ => cases hp

theorem conclude_does (hid : t.node.id = t.id.node) {outcome : Outcome}
    (ho : outcome.Fits t.node.kind.targets) (attempt : Nat) :
    w.Does (w.conclude t attempt outcome) t 7 := by
  unfold conclude
  split
  · next c => exact (report_does (.success c.value c.unselected) ho attempt).mono (by decide)
  · exact (report_does .cancelled (List.nil_subset _) attempt).mono (by decide)
  next f _ =>
  split
  · exact (report_does (.failed f) (List.nil_subset _) attempt).mono (by decide)
  next handler hh =>
  simp only [nest_eq]
  exact nest_does [.releaseSlot t.id] (setAdmission_alike w _)
    (setAdmission_admission w _) (.inr ⟨rfl,rfl⟩) hid (.handler f hh) _ rfl rfl trivial
    (Nat.le_refl _)

theorem finishAttempts_does (hid : t.node.id = t.id.node) {outcome : Outcome}
    (ho : outcome.Fits t.node.kind.targets) (attempt : Nat)
    (hp : w.isCancelled t.id.run = true → outcome.isPlain = true) :
    w.Does (w.finishAttempts t attempt outcome) t 3 := by
  cases hc : w.isCancelled t.id.run with
  | true =>
    unfold finishAttempts
    split
    · rw [hc,Bool.or_true,if_pos rfl]
      exact conclude_plain (Outcome.fits_error .cancelled) rfl attempt
    · exact conclude_plain ho (hp hc) attempt
  | false =>
    refine Does.of_running hc (b := 11) ?_
    unfold finishAttempts
    split
    · next body recovery block hk =>
      split
      · exact (conclude_plain (Outcome.fits_error .cancelled) rfl attempt).mono (by decide)
      have hg : block ∈ t.node.kind.nested := by simp [hk,NodeKind.nested]
      simp only [nest_eq]
      refine nest_does [] (.refl w) rfl (.inl ⟨rfl,isAction_of_mem hg⟩) hid ?_ _ rfl rfl ho
        (Nat.le_refl _)
      cases outcome with
      | ok => exact .always hk
      | error f => exact .alwaysAfter f hk
    · exact (conclude_does hid ho attempt).mono (by decide)

theorem afterAttempt_does (hid : t.node.id = t.id.node) {outcome : Outcome}
    (ho : outcome.Fits t.node.kind.targets) (attempt : Nat) :
    w.Does (w.afterAttempt t attempt outcome) t 3 := by
  unfold afterAttempt
  split
  · next final hv =>
    obtain ⟨hf,hp⟩ := RetryPolicy.verdict_ended ho hv
    exact finishAttempts_does hid hf attempt hp
  · next delay hv =>
    have hc := RetryPolicy.verdict_again hv
    refine Does.of_running hc (b := 4) ?_
    exact goOn_does [] (startTimer_alike w delay) rfl (.inl ⟨rfl,rfl⟩) nofun rfl rfl rfl trivial
      (Nat.le_refl _)

theorem collapse_does (message : String) : w.Does (w.collapse t message) t 3 :=
  goOn_does [.leave t.id] (setAdmission_alike w _) (setAdmission_admission w _)
    (.inr ⟨rfl,rfl⟩) nofun rfl rfl rfl trivial (Nat.le_refl _)

theorem stop_does (hid : t.node.id = t.id.node) (attempt : Nat) (s : Task.Stop) :
    w.Does (w.stop t attempt s) t 3 := by
  cases s with
  | failed f => exact afterAttempt_does hid (Outcome.fits_error f) attempt
  | collapsed message => exact collapse_does message

theorem afterAction_does (hid : t.node.id = t.id.node) (attempt : Nat) (action : String)
    (outcome : Action.Outcome) : w.Does (w.afterAction t attempt action outcome) t 3 := by
  unfold afterAction
  split
  · exact afterAttempt_does hid (Outcome.fits_value _) attempt
  · exact afterAttempt_does hid (Outcome.fits_error _) attempt
  · exact collapse_does _
  · exact afterAttempt_does hid (Outcome.fits_error _) attempt

/-- An action is used before anything else that the attempt does. -/
theorem invoke_does (hid : t.node.id = t.id.node) (hk : t.node.kind.isAction = true)
    (hb : t.phase.isFresh = true) (hc : w.isCancelled t.id.run = false) (attempt : Nat)
    (action : String) (params : Value) :
    w.Does (w.invoke σ t attempt action params) t bound := by
  unfold invoke
  dsimp only
  split
  · refine Does.of_used ?_ hk hb hc (afterAction_does hid attempt action _)
    rfl
  · refine Does.of_used ?_ hk hb hc (b := 4) (goOn_does []
      ((startLimit_alike _ t).trans (startTimer_alike _ _)) (startLimit_admission _ t)
      (.inl ⟨rfl,rfl⟩) (fun _ => hk) rfl rfl rfl trivial (Nat.le_refl _))
    rfl

theorem loopTurn_does (hid : t.node.id = t.id.node) {condition : Value} {cap : Nat} {body : Graph}
    (hk : t.node.kind = .loop condition cap body) (attempt : Nat) (limit : Option Timer)
    (outputs : List Value) :
    w.Does (w.loopTurn σ t attempt limit condition cap body outputs) t 3 := by
  unfold loopTurn
  split
  · exact afterAttempt_does hid (Outcome.fits_error _) attempt
  next hc =>
  refine Does.of_running (by simpa using hc) (b := 7) ?_
  dsimp only
  split
  · exact (stop_does hid attempt _).mono (by decide)
  · split
    · next outcome ho =>
      exact (afterAttempt_does hid (Outcome.fits_turn ho) attempt).mono (by decide)
    · have hg : body ∈ t.node.kind.nested := by simp [hk,NodeKind.nested]
      exact nest_does [] (.refl w) rfl (.inl ⟨rfl,isAction_of_mem hg⟩) hid (.turn outputs hk) _ rfl
        rfl trivial (Nat.le_refl _)

theorem nestItems_spec (hid : t.node.id = t.id.node) {list : Value} {binding : String}
    {template : Graph} (hk : t.node.kind = .forEach list binding template) (index : Nat)
    (items : List Value) :
    ∃ opened runs, w.nestItems t binding template index items =
        ({ w with runs := w.runs ++ opened },{ t with started := t.started+items.length },runs) ∧
      opened.length = items.length ∧ runs.map Prod.snd = opened.map Run.id ∧
      opened.map Run.id = (List.range' t.started opened.length).map t.id.child ∧
      ∀ r ∈ opened, r.IsNew template ∧ t.Starts r.schedule.graph r.schedule.scope ∧
        r.held = t.held.union t.node.tags := by
  induction items generalizing w t index with
  | nil =>
    refine ⟨[],[],?_,rfl,rfl,rfl,?_⟩
    · simp [nestItems]
    · intro r hr
      cases hr
  | cons item rest ih =>
    let first := t.nestedRun s!"{t.node.id}[{index}]" template (t.itemScope binding index item)
    obtain ⟨opened,runs,he,hl,hr,hids,hnew⟩ :=
      ih (w := { w with runs := w.runs ++ [first] }) (t := { t with started := t.started+1 }) hid
        hk (index+1)
    refine ⟨first::opened,(item,first.id)::runs,?_,?_,?_,?_,?_⟩
    · simp only [nestItems,nest_eq]
      rw [he]
      simp only [List.append_assoc,List.singleton_append,List.length_cons,Nat.add_assoc,
        Nat.add_comm 1]
      rfl
    · simp [hl]
    · simp [hr]
    · rw [List.map_cons,hids,List.length_cons,List.range'_succ,List.map_cons]
      exact congrArg (· :: _) (Task.nestedRun_id hid _ _ _)
    · intro r hr
      rcases List.mem_cons.mp hr with rfl | hr
      · exact ⟨t.nestedRun_isNew _ _ _,.item index item hk,rfl⟩
      · obtain ⟨hfresh,hstarts,hheld⟩ := hnew r hr
        exact ⟨hfresh,hstarts.of_same rfl rfl,hheld⟩

/-- An attempt begins only as long as nothing is cancelled. -/
theorem beginAttempt_does (hid : t.node.id = t.id.node) (hb : t.phase.isFresh = true)
    (hc : w.isCancelled t.id.run = false) (attempt : Nat) :
    w.Does (w.beginAttempt σ t attempt) t bound := by
  have hnode {g : Graph} (h : g ∈ t.node.kind.nested) : g ∈ t.node.nested := List.mem_append_left _ h
  unfold beginAttempt
  split
  · next name params hk =>
    split
    · exact (stop_does hid attempt _).of_running hc
    · rw [if_neg (by simp [hc])]
      exact invoke_does hid (by rw [hk]; rfl) hb hc attempt _ _
  · next body hk =>
    simp only [nest_eq]
    refine Does.of_running hc (b := 7) ?_
    have hg : body ∈ t.node.kind.nested := by simp [hk,NodeKind.nested]
    exact nest_does [] (startLimit_alike w t) (startLimit_admission w t)
      (.inl ⟨rfl,isAction_of_mem hg⟩) hid (.sequence hk) _ rfl rfl trivial (Nat.le_refl _)
  · next items binding template hk =>
    dsimp only
    split
    · exact (stop_does hid attempt _).of_running hc
    · exact (afterAttempt_does hid (Outcome.fits_collect _ _) attempt).of_running hc
    · next values _ _ =>
      have ha := startLimit_alike w t
      obtain ⟨opened,runs,he,hl,hr,hids,hnew⟩ :=
        nestItems_spec (w := (w.startLimit t).1) hid hk 0 values
      rw [he]
      refine Does.of_running hc (b := 4+3*opened.length) ?_
      have hg : template ∈ t.node.kind.nested := by simp [hk,NodeKind.nested]
      have hopened : Alike { w with runs := w.runs ++ opened }
          { (w.startLimit t).1 with runs := (w.startLimit t).1.runs ++ opened } :=
        ⟨ha.clock,congrArg (· ++ opened) ha.runs,ha.tasks,ha.cancelled,ha.invocations⟩
      exact open_does [] (p := .nesting attempt _ (.fanOut runs)) hopened
        (startLimit_admission w t) (.inl ⟨rfl,isAction_of_mem hg⟩) (by rw [hl]) hids
        (fun r hr => ⟨template,hnode hg,(hnew r hr).1⟩) (fun r hr => (hnew r hr).2.1)
        (fun r hr => (hnew r hr).2.2) hr rfl trivial (Nat.le_refl _)
  · next condition cap body hk =>
    exact Does.of_alike (startLimit_alike w t) (startLimit_admission w t)
      ((loopTurn_does hid hk attempt _ _).of_running ((startLimit_alike w t).isCancelled _ ▸ hc))
  · next arms fallback hk =>
    split
    · exact (stop_does hid attempt _).of_running hc
    · exact (afterAttempt_does hid (Outcome.fits_selection _) attempt).of_running hc
  · next body _ _ hk =>
    simp only [nest_eq]
    refine Does.of_running hc (b := 11) ?_
    have hg : body ∈ t.node.kind.nested := by simp [hk,NodeKind.nested]
    exact nest_does [] (startLimit_alike w t) (startLimit_admission w t)
      (.inl ⟨rfl,isAction_of_mem hg⟩) hid (.guarded hk) _ rfl rfl trivial (Nat.le_refl _)

theorem afterBody_does (hid : t.node.id = t.id.node) (attempt : Nat) (limit : Option Timer)
    (handed : Except Failure Value) : w.Does (w.afterBody t attempt limit handed) t 7 := by
  unfold afterBody
  split
  · exact (afterAttempt_does hid (Outcome.fits_value _) attempt).mono (by decide)
  · exact (afterAttempt_does hid (Outcome.fits_error _) attempt).mono (by decide)
  · next f _ =>
    split
    · next recovery _ hk =>
      have hg : recovery ∈ t.node.kind.nested := by simp [hk,NodeKind.nested]
      simp only [nest_eq]
      exact nest_does [] (.refl w) rfl (.inl ⟨rfl,isAction_of_mem hg⟩) hid (.recovery f hk) _ rfl
        rfl trivial (Nat.le_refl _)
    · exact (afterAttempt_does hid (Outcome.fits_error _) attempt).mono (by decide)

/-- Once its runs are over, a stage is left. -/
theorem afterStage_does (hid : t.node.id = t.id.node) {attempt : Nat} {limit : Option Timer}
    {stage : Stage} (h : w.afterStage σ t attempt limit stage = some v) :
    (w.discard stage.runs).Does v t ((Phase.nesting attempt limit stage).effort-1) := by
  cases stage with
  | sequence run =>
    obtain ⟨r,hr,he⟩ := Option.bind_eq_some_iff.mp h
    cases he
    exact afterAttempt_does hid (Outcome.fits_ofValue _) attempt
  | fanOut items =>
    obtain ⟨r,hr,he⟩ := Option.bind_eq_some_iff.mp h
    cases he
    exact afterAttempt_does hid (Outcome.fits_collect _ _) attempt
  | turn outputs run =>
    obtain ⟨r,hr,he⟩ := Option.bind_eq_some_iff.mp h
    dsimp only at he
    split at he
    · next hk =>
      cases he
      exact loopTurn_does hid hk attempt limit _
    · cases he
      exact afterAttempt_does hid (Outcome.fits_ofValue _) attempt
  | guarded run =>
    obtain ⟨r,hr,he⟩ := Option.bind_eq_some_iff.mp h
    cases he
    exact afterBody_does hid attempt limit _
  | recovery body run =>
    obtain ⟨r,hr,he⟩ := Option.bind_eq_some_iff.mp h
    cases he
    exact afterAttempt_does hid (Outcome.fits_recovered _ _) attempt

theorem timeOut_does (hid : t.node.id = t.id.node) (attempt : Nat) :
    (w.discard t.phase.runs).Does (w.timeOut t attempt) t 3 :=
  afterAttempt_does hid (Outcome.fits_error _) attempt

theorem Alike.post (h : Alike w v) (id : RunId) (e : Event) : Alike (w.post id e) (v.post id e) := by
  have hw := w.post_frame id e
  have hv := v.post_frame id e
  refine ⟨?_,post_congr h.runs id e,?_,?_,?_⟩
  · rw [hw.1,hv.1,h.clock]
  · rw [hw.2.1,hv.2.1,h.tasks]
  · rw [hw.2.2.1,hv.2.2.1,h.cancelled]
  · rw [hw.2.2.2,hv.2.2.2,h.invocations]

/-- A step of a task: it waits on; or, being admitted, it makes a start and begins its first attempt; or
it drops what it waits for and does something; or it leaves. A cancelled task neither waits nor
begins. -/
inductive Turn (w w' : World) (t : Task) : Prop
  | idle : w.isCancelled t.id.run = false → Alike w w' → t.phase = .asking →
    w'.admission = (w.admission.ask t.id t.request).look t.id → Turn w w' t
  | begins {v : World} (time : Instant) : w.isCancelled t.id.run = false → t.phase = .asking →
    Alike (w.post t.id.run (.started t.node.id time)) v → v.Does w' t 0 →
    v.admission = (w.admission.ask t.id t.request).look t.id →
    v.admission.isGranted t.id = true → time = w.now → Turn w w' t
  | acts : t.phase.isLeaving = false →
    (w.discard t.phase.runs).Does w' t (t.phase.effort-1) →
    (t.phase = .asking → w.isCancelled t.id.run = true ∧ w'.admission = w.admission.leave t.id) →
    (∀ u ∈ w'.tasks, u.id = t.id → t.phase.Allows u.phase) → Turn w w' t
  | leaves : t.phase.isLeaving = true →
    Alike { w with tasks := w.tasks.filter fun other => other.id != t.id } w' →
    w'.admission = w.admission.leave t.id → Turn w w' t

/-- What a phase without runs does, it does without dropping any. -/
theorem Turn.of_does (hl : t.phase.isLeaving = false) (hr : t.phase.runs = [])
    (hd : w.Does v t (t.phase.effort-1))
    (ha : t.phase = .asking → w.isCancelled t.id.run = true ∧ v.admission = w.admission.leave t.id)
    (hf : ∀ u ∈ v.tasks, u.id = t.id → t.phase.Allows u.phase) : Turn w v t := by
  refine .acts hl ?_ ha hf
  rw [hr]
  exact hd.of_alike w.discard_nil.symm w.discard_nil_admission.symm

theorem eq_of_setTask {u t' : Task} (hu : u ∈ (w.setTask t').tasks) (hid : u.id = t'.id) :
    u = t' := by
  obtain ⟨old,-,rfl⟩ := List.mem_map.mp hu
  split
  · rfl
  · next hne =>
    rw [if_neg hne] at hid
    exact absurd hid hne

theorem breakDown_does (hp : t.phase.isCollapsed = true) (message : String) (attempts : Nat) :
    let v := w.post t.id.run (.finished t.node.id ⟨.failed (.internal message),attempts,w.now⟩)
    w.Does { v with tasks := v.tasks.filter fun other => other.id != t.id } t 2 := by
  have hpost :=
    w.post_frame t.id.run (.finished t.node.id ⟨.failed (.internal message),attempts,w.now⟩)
  refine ⟨{ posted := some ⟨.failed (.internal message),attempts,w.now⟩, next := none },?_,?_,
    fun _ => ⟨rfl,Nat.le_refl _⟩⟩
  · refine ⟨hpost.1,(List.append_nil _).symm,?_,hpost.2.2.1,hpost.2.2.2,w.post_admission _ _,?_⟩
    · exact congrArg (List.filter fun other => other.id != t.id) hpost.2.1
    · rintro r ⟨⟩
      rfl
  · constructor
    · rfl
    · intro r hr
      cases hr
    · intro r hr
      cases hr
    · rfl
    · rintro p ⟨⟩
    · rintro r ⟨⟩
      exact List.nil_subset _
    · rintro - p ⟨⟩
    · intro h
      cases h
    · intro i hi
      cases hi
    · intro r hr
      cases hr
    · exact .inl rfl
    · rintro p ⟨⟩
    · rintro p ⟨⟩
    · rintro p ⟨⟩
    · exact fun _ => hp
    · rintro p ⟨⟩
    · rintro p ⟨⟩
    · exact .inl rfl
    · rintro - r ⟨⟩
      exact ⟨message,rfl⟩

theorem seekAdmission_turn (hid : t.node.id = t.id.node) (hp : t.phase = .asking)
    (hc : w.isCancelled t.id.run = false) (h : w.seekAdmission σ t = some v) : Turn w v t := by
  unfold seekAdmission at h
  dsimp only at h
  split at h
  · next hg =>
    cases h
    have ha := setAdmission_alike w ((w.admission.ask t.id t.request).look t.id)
    have hpost := ha.post t.id.run (.started t.node.id w.now)
    have hk := (w.post_frame t.id.run (.started t.node.id w.now)).2.2.1
    have hadm := (post_admission _ t.id.run (.started t.node.id w.now)).trans
      (setAdmission_admission w ((w.admission.ask t.id t.request).look t.id))
    refine .begins w.now hc hp hpost (beginAttempt_does hid (by rw [hp]; rfl) ?_ 1) hadm
      (hadm.symm ▸ hg) rfl
    rw [hpost.isCancelled,isCancelled,hk]
    exact hc
  · split at h
    · cases h
      refine .idle hc ?_ hp ?_
      · split
        · exact ⟨rfl,rfl,rfl,rfl,rfl⟩
        · exact setAdmission_alike w _
      · split
        · rfl
        · exact setAdmission_admission w _
    · cases h

theorem stepTask_turn (hid : t.node.id = t.id.node) (hf : t.phase.Fits t.node.kind.targets)
    (h : w.stepTask σ t = some v) : Turn w v t := by
  have hnot {p : Phase} (hp : t.phase = p) (hq : p.isAsking = false) {P : Prop} :
      t.phase = .asking → P := by
    intro h
    rw [← hp,h] at hq
    cases hq
  have hany {p : Phase} (hp : t.phase = p) (hq : ∀ q, p.Allows q) :
      ∀ u ∈ v.tasks, u.id = t.id → t.phase.Allows u.phase := fun u _ _ => hp ▸ hq u.phase
  unfold stepTask at h
  dsimp only at h
  split at h
  · next hp =>
    split at h
    · next hc =>
      cases h
      have hadm := setAdmission_admission w (w.admission.leave t.id)
      refine Turn.of_does (by rw [hp]; rfl) (by rw [hp]; rfl) (hp ▸ ?_)
        (fun _ => ⟨hc,(post_admission _ _ _).trans hadm⟩) (hp ▸ fun u hu hui => ?_)
      · exact reportAfter_does [.leave t.id] (setAdmission_alike w _) hadm (.inr rfl)
          .cancelled (List.nil_subset _) 0
      · rw [eq_of_setTask hu hui]
        rfl
    · next hc => exact seekAdmission_turn hid hp (by simpa using hc) h
  · next attempt limit outcome ends hp =>
    have hl : t.phase.isLeaving = false := by rw [hp]; rfl
    have hr : t.phase.runs = [] := by rw [hp]; rfl
    split at h
    · cases h
      exact Turn.of_does hl hr (hp ▸ afterAttempt_does hid (Outcome.fits_error _) attempt)
        (hnot hp rfl) (hany hp fun _ => trivial)
    split at h
    · cases h
      exact Turn.of_does hl hr (hp ▸ afterAction_does hid attempt _ outcome) (hnot hp rfl)
        (hany hp fun _ => trivial)
    split at h
    · cases h
      refine .acts hl ((timeOut_does hid attempt).mono ?_) (hnot hp rfl) (hany hp fun _ => trivial)
      rw [hp]
      exact Nat.le_refl _
    · cases h
  · next attempt limit stage hp =>
    have hl : t.phase.isLeaving = false := by rw [hp]; rfl
    split at h
    · next hs =>
      cases h
      refine .acts hl ?_ (hnot hp rfl) (hany hp fun _ => trivial)
      rw [hp]
      exact afterStage_does hid hs
    · split at h
      · cases h
        refine .acts hl ((timeOut_does hid attempt).mono ?_) (hnot hp rfl) (hany hp fun _ => trivial)
        rw [hp]
        cases stage with
        | guarded => exact show 3 ≤ 7 by omega
        | _ => exact Nat.le_refl 3
      · cases h
  · next attempt ends hp =>
    have hl : t.phase.isLeaving = false := by rw [hp]; rfl
    have hr : t.phase.runs = [] := by rw [hp]; rfl
    split at h
    · cases h
      exact Turn.of_does hl hr
        (hp ▸ finishAttempts_does hid (Outcome.fits_error _) attempt fun _ => rfl) (hnot hp rfl)
        (hany hp fun _ => trivial)
    next hc =>
    split at h
    · cases h
      exact Turn.of_does hl hr (beginAttempt_does hid (by rw [hp]; rfl) (by simpa using hc) _)
        (hnot hp rfl) (hany hp fun _ => trivial)
    · cases h
  · next attempt outcome run hp =>
    obtain ⟨r,hr,he⟩ := Option.bind_eq_some_iff.mp h
    cases he
    refine .acts (by rw [hp]; rfl) ?_ (hnot hp rfl) (hany hp fun _ => trivial)
    rw [hp] at hf ⊢
    exact conclude_does hid (Outcome.fits_afterAlways hf _) attempt
  · next attempt f run hp =>
    obtain ⟨r,hr,he⟩ := Option.bind_eq_some_iff.mp h
    cases he
    refine .acts (by rw [hp]; rfl) ?_ (hnot hp rfl) (hp ▸ fun u hu hui => ?_)
    · rw [hp]
      exact report_does (.failed f) (List.nil_subset _) attempt
    · rw [eq_of_setTask hu hui]
      rfl
  · next hp =>
    cases h
    have ha := setAdmission_alike w (w.admission.leave t.id)
    refine .leaves (by rw [hp]; rfl) ⟨ha.clock,ha.runs,?_,ha.cancelled,ha.invocations⟩
      (setAdmission_admission w _)
    exact congrArg (List.filter fun other => other.id != t.id) ha.tasks
  · next message hp =>
    cases h
    refine Turn.of_does (by rw [hp]; rfl) (by rw [hp]; rfl) ?_ (hnot hp rfl) fun u hu hui => ?_
    · have hcollapsed : t.phase.isCollapsed = true := by
        rw [hp]
        rfl
      rw [hp]
      exact breakDown_does hcollapsed message 1
    · exact absurd hui (by simpa using (List.mem_filter.mp hu).2)

end Engine.World

end TaskGraph
