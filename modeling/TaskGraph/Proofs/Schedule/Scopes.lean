import TaskGraph.Proofs.Schedule.Advance

/-!
What the nodes of a run see: the bindings that the run started with, the results of the nodes of the
run that have succeeded, and under all other ids the results that the run started with.
-/

namespace TaskGraph.Schedule

/-- How a scope shows the results in a schedule to the nodes of a run that started with another. -/
structure Shows (s : Schedule) (first scope : Scope) : Prop where
  bindings : scope.bindings = first.bindings
  succeeded : ∀ id, s.status id = .success → id ∈ s.graph.ids ∧
    ∃ r v, s.record? id = some r ∧ r.result = some v ∧ scope.result? id = some v
  others : ∀ id, s.status id ≠ .success → scope.result? id = first.result? id

/-- A change after which no record has succeeded that had not before. -/
def BringsNoSuccess (f : Record → Record × Bool) : Prop :=
  ∀ r, (f r).1.status = .success → r.status = .success

theorem finish_bringsNoSuccess {status : Status} (hs : status ≠ .success) (now : Instant)
    {change : Record → Record} (hc : ∀ r, (change r).status = r.status) :
    BringsNoSuccess fun r => r.finish status now change := by
  intro r h
  dsimp only at h
  unfold Record.finish at h
  split at h
  · exact h
  · rw [hc] at h
    exact absurd h hs

theorem skip_bringsNoSuccess (now : Instant) (reason : SkipReason) :
    BringsNoSuccess fun r => r.skip now reason :=
  finish_bringsNoSuccess (by decide) now fun _ => rfl

theorem cancel_bringsNoSuccess (now : Instant) (attempts : Nat) :
    BringsNoSuccess fun r => r.cancel now attempts :=
  finish_bringsNoSuccess (by decide) now fun _ => rfl

theorem start_bringsNoSuccess (time : Instant) : BringsNoSuccess fun r => r.start time := by
  intro r h
  dsimp only at h
  unfold Record.start at h
  split at h
  · cases h
  · exact h

theorem change_scope (s : Schedule) (id : String) (f : Record → Record × Bool) :
    (s.change id f).scope = s.scope := by
  unfold change
  split <;> rfl

theorem pass_scope (s : Schedule) (now : Instant) : (s.pass now).1.scope = s.scope := by
  rw [pass_fst]
  exact resolveDead_induction (P := fun t => t.scope = s.scope)
    (fun t n _ ht _ _ => (t.change_scope n.id _).trans ht) s rfl

/-- What an event adds to the results: nothing, or the value of a node that reports success. -/
inductive Gains (s t : Schedule) : Event → Prop
  | nothing {e : Event} : t.scope = s.scope →
    (∀ id, t.status id = .success → s.status id = .success) → Gains s t e
  | value {id : String} {report : Report} {v : Value} {unselected : List String} {r : Record} :
    report.ending = .success v unselected → t.scope = s.scope.recordResult id v →
    t.record? id = some r → r.status = .success → r.result = some v →
    (∀ other, other ≠ id → t.status other = .success → s.status other = .success) →
    Gains s t (.finished id report)

section Apply

variable {s : Schedule} {now : Instant} {report : Report} {r : Record} {id other : String}

theorem settle_of_terminal (h : r.status.isTerminal = true) : settle now report r = (r,false) := by
  unfold settle
  cases report.ending <;> simp [Record.succeed,Record.fail,Record.cancel,Record.finish,h]

theorem settle_of_success (now : Instant) {v : Value} {unselected : List String}
    (he : report.ending = .success v unselected) (ho : r.status.isTerminal = false) :
    (settle now report r).1.result = some v ∧ (settle now report r).2 = true := by
  unfold settle
  simp [he,Record.succeed,Record.finish,ho,Record.stampFinished]

theorem skips_scope (s : Schedule) (now : Instant) (reason : SkipReason) (targets : List String) :
    (targets.foldl (fun s t => s.change t (·.skip now reason)) s).scope = s.scope := by
  induction targets generalizing s with
  | nil => rfl
  | cons t rest ih => exact (ih (s.change t (·.skip now reason))).trans (s.change_scope t _)

/-- A report of success counts when its node had not ended. -/
theorem finished_scope (h : s.record? id = some r) (now : Instant) (report : Report) :
    (s.apply now (.finished id report)).scope = match report.ending with
    | .success v _ => if r.status.isTerminal then s.scope else s.scope.recordResult id v
    | _ => s.scope := by
  rw [apply_finished_some s now h,applyReport]
  cases he : report.ending with
  | success v unselected =>
    simp only [skips_scope,s.node_of_record? h]
    cases ht : r.status.isTerminal with
    | true =>
      rw [settle_of_terminal ht]
      rfl
    | false =>
      rw [(settle_of_success now he ht).2]
      rfl
  | failed | cancelled => rfl

theorem change_success {f : Record → Record × Bool} (hf : Record.Respects f)
    (hn : BringsNoSuccess f) (hs : (s.change id f).status other = .success) :
    s.status other = .success := by
  rw [status,record?_change s hf] at hs
  cases hr : s.record? other with
  | none =>
    rw [hr] at hs
    cases hs
  | some r =>
    rw [hr] at hs
    rw [s.status_eq hr]
    by_cases ho : other = id
    · exact hn r (by simpa [ho] using hs)
    · simpa [ho] using hs

/-- Nobody succeeds because of the report of another node. -/
theorem finished_success (h : s.record? id = some r) (hne : other ≠ id)
    (hs : (s.apply now (.finished id report)).status other = .success) :
    s.status other = .success := by
  rw [status,record?_finished s now h] at hs
  cases hr : s.record? other with
  | none =>
    rw [hr] at hs
    cases hs
  | some q =>
    rw [hr,Option.map_some] at hs
    rw [s.status_eq hr]
    simp only [reported,if_neg hne] at hs
    split at hs
    · exact skip_bringsNoSuccess now _ q hs
    · exact hs

theorem apply_gains (s : Schedule) (now : Instant) (e : Event) : s.Gains (s.apply now e) e := by
  cases e with
  | started id time =>
    exact .nothing (s.change_scope id _) fun other hs =>
      change_success (Record.start_respects time) (start_bringsNoSuccess time) hs
  | finished id report =>
    cases hr : s.record? id with
    | none =>
      rw [apply_finished_none s now hr]
      exact .nothing rfl fun _ hs => hs
    | some r =>
      have hscope := finished_scope hr now report
      cases ht : r.status.isTerminal with
      | true =>
        have hsame : (s.apply now (.finished id report)).record? id = some r :=
          apply_of_terminal s now _ hr ht
        refine .nothing ?_ fun other hs => ?_
        · rw [hscope]
          cases report.ending <;> simp [ht]
        · by_cases hne : other = id
          · rw [hne] at hs ⊢
            rw [status_eq _ hsame] at hs
            rw [s.status_eq hr,hs]
          · exact finished_success hr hne hs
      | false =>
        have hself := status_finished_self now hr ht report
        cases he : report.ending with
        | success v unselected =>
          rw [he,ht] at hscope
          have hended := settle_isTerminal now report r
          refine .value he hscope ?_ ?_ (settle_of_success now he ht).1
            fun other hne hs => finished_success hr hne hs
          · rw [record?_finished s now hr,hr,Option.map_some,reported,if_pos rfl]
            rw [(Record.skip_respects now (.branchNotTaken id) _).2 hended,ite_self]
          · rw [settle_status now report ht,he]
            rfl
        | failed | cancelled =>
          rw [he] at hscope hself
          refine .nothing hscope fun other hs => ?_
          by_cases hne : other = id
          · rw [hne,hself] at hs
            cases hs
          · exact finished_success hr hne hs

end Apply

namespace Shows

variable {s t : Schedule} {first : Scope}

theorem start (graph : Graph) (first : Scope) :
    (Schedule.start graph first).Shows first first where
  bindings := rfl
  succeeded id h := by
    rw [start_status] at h
    cases h
  others _ _ := rfl

/-- What is shown stays as it is where no node succeeds. -/
theorem carry (h : s.Shows first s.scope) (hg : t.graph = s.graph) (hscope : t.scope = s.scope)
    (hkeep : ∀ id r, s.record? id = some r → r.status = .success → t.record? id = some r)
    (hnew : ∀ id, t.status id = .success → s.status id = .success) : t.Shows first t.scope where
  bindings := hscope ▸ h.bindings
  succeeded id hid := by
    obtain ⟨hmem,r,v,hr,hv,hresult⟩ := h.succeeded id (hnew id hid)
    have hsuccess : r.status = .success := (s.status_eq hr).symm.trans (hnew id hid)
    exact ⟨hg ▸ hmem,r,v,hkeep id r hr hsuccess,hv,hscope ▸ hresult⟩
  others id hid := by
    rw [hscope]
    refine h.others id fun hs => hid ?_
    have hstarted : s.status id ≠ .pending := by rw [hs]; decide
    obtain ⟨r,hr,hrs⟩ := s.record?_of_status hstarted
    rw [t.status_eq (hkeep id r hr (hrs.trans hs)),hrs,hs]

theorem change (h : s.Shows first s.scope) {f : Record → Record × Bool} (hf : Record.Respects f)
    (hn : BringsNoSuccess f) (id : String) :
    (s.change id f).Shows first (s.change id f).scope :=
  h.carry (change_graph s id f) (change_scope s id f)
    (fun _ _ hr hs => change_of_terminal s hf hr (by rw [hs]; rfl))
    fun _ hs => change_success hf hn hs

theorem pass (h : s.Shows first s.scope) (now : Instant) :
    (s.pass now).1.Shows first (s.pass now).1.scope := by
  have hdead : (s.resolveDead now).Shows first (s.resolveDead now).scope := by
    refine resolveDead_induction (P := fun t => t.Shows first t.scope) ?_ s h
    intro t n reason ht _ _
    exact ht.change (Record.skip_respects now reason) (skip_bringsNoSuccess now reason) n.id
  rw [pass_fst]
  exact ⟨hdead.bindings,hdead.succeeded,hdead.others⟩

/-- With the success of a node its result is shown, under the id of the node. -/
theorem gain (h : s.Shows first s.scope) (hg : t.graph = s.graph) {id : String} {v : Value}
    {r : Record} (hid : id ∈ t.graph.ids) (hscope : t.scope = s.scope.recordResult id v)
    (hr : t.record? id = some r) (hs : r.status = .success) (hv : r.result = some v)
    (hkeep : ∀ id r, s.record? id = some r → r.status = .success → t.record? id = some r)
    (hnew : ∀ other, other ≠ id → t.status other = .success → s.status other = .success) :
    t.Shows first t.scope where
  bindings := by
    rw [hscope]
    exact h.bindings
  succeeded other ho := by
    by_cases he : other = id
    · rw [he,hscope]
      exact ⟨hid,r,v,hr,hv,Fields.get?_insert_self id v s.scope.results⟩
    · obtain ⟨hmem,q,u,hq,hu,hresult⟩ := h.succeeded other (hnew other he ho)
      have hsuccess : q.status = .success := (s.status_eq hq).symm.trans (hnew other he ho)
      rw [hscope]
      exact ⟨hg ▸ hmem,q,u,hkeep other q hq hsuccess,hu,
        (Fields.get?_insert_of_ne he v s.scope.results).trans hresult⟩
  others other ho := by
    have he : other ≠ id := by
      rintro rfl
      exact ho ((t.status_eq hr).trans hs)
    have hbefore : s.status other ≠ .success := by
      refine fun hbefore => ho ?_
      have hstarted : s.status other ≠ .pending := by rw [hbefore]; decide
      obtain ⟨q,hq,hqs⟩ := s.record?_of_status hstarted
      rw [t.status_eq (hkeep other q hq (hqs.trans hbefore)),hqs,hbefore]
    rw [hscope]
    exact (Fields.get?_insert_of_ne he v s.scope.results).trans (h.others other hbefore)

theorem apply (h : s.Shows first s.scope) (hs : s.IsTable) (now : Instant) (e : Event) :
    (s.apply now e).Shows first (s.apply now e).scope := by
  have hgraph := (s.apply_frame now e).1
  have hkeep (id : String) (r : Record) (hr : s.record? id = some r)
      (hsuccess : r.status = .success) : (s.apply now e).record? id = some r :=
    apply_of_terminal s now e hr (by rw [hsuccess]; rfl)
  cases s.apply_gains now e with
  | nothing hscope hnew => exact h.carry hgraph hscope hkeep hnew
  | value _ hscope hr hsuccess hv hnew =>
    exact h.gain hgraph ((hs.apply now _).record?.mpr ⟨_,hr⟩) hscope hr hsuccess hv hkeep hnew

theorem sweep (h : s.Shows first s.scope) (now : Instant) :
    (s.sweep now).Shows first (s.sweep now).scope := by
  refine h.carry rfl rfl ?_ ?_
  · intro id r hr hs
    exact sweep_of_terminal s now hr (by rw [hs]; rfl)
  · intro id hs
    rw [status,record?_sweep] at hs
    rw [status]
    cases hr : s.record? id with
    | none =>
      rw [hr] at hs
      cases hs
    | some r =>
      rw [hr] at hs
      exact cancel_bringsNoSuccess now 0 r hs

end Shows

/-- Whatever happens in a run, its scope shows the results of its own nodes, and besides them what
it started with. -/
theorem Later.shows {graph : Graph} {first : Scope} {s : Schedule}
    (h : Later (start graph first) s) : s.Shows first s.scope := by
  induction h with
  | refl => exact .start graph first
  | pass now _ ih => exact ih.pass now
  | event now e hl ih => exact ih.apply (hl.table (.start graph first)) now e
  | sweep now _ ih => exact ih.sweep now

end TaskGraph.Schedule
