import TaskGraph.Proofs.Schedule.Run

/-!
How the states of nodes go on: out of waiting, and from running to an end, never back. Whatever happens
to a schedule, the list of its states goes on like this, node by node.
-/

namespace TaskGraph

/-- How the state of a node may change: not at all, out of waiting, or from running to an end. -/
def Status.Advances (a b : Status) : Prop :=
  b = a ∨ a = .pending ∨ a = .running ∧ b.isTerminal = true

/-- How a list of states may change: the same nodes in the same order, each going on by itself. -/
def StatusesAdvance (before after : List (String × Status)) : Prop :=
  List.Forall₂ (fun a b => b.1 = a.1 ∧ a.2.Advances b.2) before after

namespace Status.Advances

theorem refl (a : Status) : a.Advances a := .inl rfl

/-- What has not ended may end in any way. -/
theorem of_end {a b : Status} (ha : a.isTerminal = true → b = a) (hb : b.isTerminal = true) :
    a.Advances b := by
  cases ht : a.isTerminal with
  | true => exact .inl (ha ht)
  | false =>
    cases a with
    | pending => exact .inr (.inl rfl)
    | running => exact .inr (.inr ⟨rfl,hb⟩)
    | _ => cases ht

theorem of_terminal {a b : Status} (h : a.Advances b) (ha : a.isTerminal = true) : b = a := by
  rcases h with rfl | rfl | ⟨rfl,-⟩
  · rfl
  · cases ha
  · cases ha

theorem trans {a b c : Status} (hab : a.Advances b) (hbc : b.Advances c) : a.Advances c := by
  rcases hab with rfl | rfl | ⟨rfl,hb⟩
  · exact hbc
  · exact .inr (.inl rfl)
  · exact .inr (.inr ⟨rfl,hbc.of_terminal hb ▸ hb⟩)

end Status.Advances

namespace StatusesAdvance

variable {a b c : List (String × Status)}

theorem refl (a : List (String × Status)) : StatusesAdvance a a :=
  List.forall₂_same.mpr fun x _ => ⟨rfl,.refl x.2⟩

theorem trans (hab : StatusesAdvance a b) (hbc : StatusesAdvance b c) : StatusesAdvance a c := by
  induction hab generalizing c with
  | nil =>
    cases hbc
    exact .nil
  | cons hx _ ih =>
    cases hbc with
    | cons hy hrest => exact .cons ⟨hy.1.trans hx.1,hx.2.trans hy.2⟩ (ih hrest)

end StatusesAdvance

/-- Nodes that have all ended are counted once each. -/
theorem Summary.ofRecords_total {records : List Record}
    (h : ∀ r ∈ records, r.status.isTerminal = true) :
    let s := Summary.ofRecords records
    s.succeeded + s.failed + s.skipped + s.blocked + s.cancelled = records.length := by
  induction records with
  | nil => rfl
  | cons r rest ih =>
    have hr : r.status.isTerminal = true := h r List.mem_cons_self
    have hrest := ih fun q hq => h q (List.mem_cons_of_mem r hq)
    simp only [Summary.ofRecords,List.countP_cons,List.length_cons] at hrest ⊢
    cases hs : r.status with
    | skipped =>
      cases hb : r.isBlocked <;> simp <;> omega
    | pending | running =>
      rw [hs] at hr
      cases hr
    | _ =>
      simp
      omega

namespace Schedule

variable {s t : Schedule}

theorem advances_change {f : Record → Record × Bool} (hf : Record.Respects f)
    (ha : ∀ r : Record, r.status.Advances (f r).1.status) (s : Schedule) (id other : String) :
    (s.status other).Advances ((s.change id f).status other) := by
  rw [status,status,record?_change s hf]
  cases s.record? other with
  | none => exact .refl _
  | some r =>
    by_cases ho : other = id
    · simpa [ho] using ha r
    · simpa [ho] using Status.Advances.refl r.status

theorem skip_advances (now : Instant) (reason : SkipReason) (r : Record) :
    r.status.Advances (r.skip now reason).1.status :=
  .of_end (fun ht => by rw [(Record.skip_respects now reason r).2 ht])
    (r.skip_isTerminal now reason)

theorem settle_advances (now : Instant) (report : Report) (r : Record) :
    r.status.Advances (settle now report r).1.status :=
  .of_end (fun ht => by rw [(settle_respects now report r).2 ht]) (settle_isTerminal now report r)

theorem start_advances (time : Instant) (r : Record) :
    r.status.Advances (r.start time).1.status := by
  by_cases hp : r.status = .pending
  · exact .inr (.inl hp)
  · simpa [Record.start,hp] using Status.Advances.refl r.status

theorem cancel_isTerminal (now : Instant) (r : Record) :
    (r.cancel now 0).1.status.isTerminal = true := by
  cases ht : r.status.isTerminal with
  | false => simp [Record.cancel_of_open ht,Status.isTerminal]
  | true => rw [(Record.cancel_respects now 0 r).2 ht,ht]

theorem cancel_advances (now : Instant) (r : Record) :
    r.status.Advances (r.cancel now 0).1.status :=
  .of_end (fun ht => by rw [(Record.cancel_respects now 0 r).2 ht]) (cancel_isTerminal now r)

theorem pass_advances (s : Schedule) (now : Instant) (id : String) :
    (s.status id).Advances ((s.pass now).1.status id) := by
  rw [pass_fst,dispatch_status]
  refine resolveDead_induction (P := fun t => (s.status id).Advances (t.status id)) ?_ s (.refl _)
  intro t n reason ht hn hd
  exact ht.trans (advances_change (Record.skip_respects now reason) (skip_advances now reason) t _ id)

theorem apply_advances (s : Schedule) (now : Instant) (e : Event) (id : String) :
    (s.status id).Advances ((s.apply now e).status id) := by
  cases e with
  | started other time =>
    exact advances_change (Record.start_respects time) (start_advances time) s other id
  | finished other report =>
    cases ho : s.record? other with
    | none =>
      rw [apply_finished_none s now ho]
      exact .refl _
    | some r =>
      rw [status,status,record?_finished s now ho]
      cases s.record? id with
      | none => exact .refl _
      | some q =>
        have hsettle : q.status.Advances
            (if id = other then (settle now report q).1 else q).status := by
          split
          · exact settle_advances now report q
          · exact .refl _
        simp only [Option.map_some,Option.getD_some,reported]
        split
        · exact hsettle.trans (skip_advances now (.branchNotTaken other) _)
        · exact hsettle

theorem sweep_advances (s : Schedule) (now : Instant) (id : String) :
    (s.status id).Advances ((s.sweep now).status id) := by
  rw [status,status,record?_sweep]
  cases s.record? id with
  | none => exact .refl _
  | some r => exact cancel_advances now r

theorem Later.advances (h : Later s t) (id : String) : (s.status id).Advances (t.status id) := by
  induction h with
  | refl => exact .refl _
  | pass now _ ih => exact ih.trans (pass_advances _ now id)
  | event now e _ ih => exact ih.trans (apply_advances _ now e id)
  | sweep now _ ih => exact ih.trans (sweep_advances _ now id)

theorem Later.frame (h : Later s t) :
    t.graph = s.graph ∧ t.records.map Record.node = s.records.map Record.node := by
  induction h with
  | refl => exact ⟨rfl,rfl⟩
  | @pass t now _ ih =>
    obtain ⟨hg,-,hn⟩ := resolveDead_frame now t
    rw [pass_fst]
    exact ⟨hg.trans ih.1,hn.trans ih.2⟩
  | @event t now e _ ih =>
    obtain ⟨hg,hn⟩ := apply_frame t now e
    exact ⟨hg.trans ih.1,hn.trans ih.2⟩
  | @sweep t now _ ih =>
    exact ⟨ih.1,(sweep_nodes t now).trans ih.2⟩

theorem Later.table (h : Later s t) (hs : s.IsTable) : t.IsTable := by
  obtain ⟨hg,hn⟩ := h.frame
  exact hn.trans (hs.trans (congrArg Graph.ids hg.symm))

theorem IsTable.statuses_eq (h : s.IsTable) (hd : s.graph.ids.Nodup) :
    s.statuses = s.graph.ids.map fun id => (id,s.status id) := by
  rw [← h,List.map_map,statuses]
  refine List.map_congr_left fun r hr => ?_
  rw [Function.comp_apply,s.status_eq (h.record?_of_mem hd hr)]

theorem IsTable.statuses_ids (h : s.IsTable) : s.statuses.map (·.1) = s.graph.ids := by
  rw [← h,statuses,List.map_map]
  rfl

/-- Whatever happens to a schedule, the list of its states goes on node by node. -/
theorem Later.statuses_advance (h : Later s t) (hs : s.IsTable) (hd : s.graph.ids.Nodup) :
    StatusesAdvance s.statuses t.statuses := by
  have hg := h.frame.1
  rw [hs.statuses_eq hd,(h.table hs).statuses_eq (hg ▸ hd),hg,StatusesAdvance,
    List.forall₂_map_left_iff,List.forall₂_map_right_iff]
  exact List.forall₂_same.mpr fun id _ => ⟨rfl,h.advances id⟩

theorem start_statuses (graph : Graph) (scope : Scope) :
    (start graph scope).statuses = graph.ids.map (·,.pending) := by
  rw [statuses,start,List.map_map,Graph.ids,List.map_map]
  rfl

theorem sweep_isTerminal (s : Schedule) (now : Instant) :
    ∀ r ∈ (s.sweep now).records, r.status.isTerminal = true := by
  intro r hr
  obtain ⟨q,-,rfl⟩ := List.mem_map.mp hr
  exact cancel_isTerminal now q

end Schedule

end TaskGraph
