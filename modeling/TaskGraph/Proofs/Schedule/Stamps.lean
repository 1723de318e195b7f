import TaskGraph.Proofs.Schedule.Run

/-!
Where the times in the records of a run come from: a node started when its start says so, and finished
when its report says so, or at its start if that was later.
-/

namespace TaskGraph

/-- How the times of a record agree with what has happened. -/
structure Record.Stamped (h : History) (id : String) (r : Record) : Prop where
  started : ∀ time, r.started = some time → .started id time ∈ h.events
  unfinished : r.status.isTerminal = false → r.finished = none
  finished : id ∈ h.dispatched → ∀ time, r.finished = some time →
    ∃ report, .finished id report ∈ h.events ∧ (time = report.time ∨ r.started = some time)

namespace Schedule

/-- The times of a report and of the start are kept. -/
theorem settle_times (now : Instant) (report : Report) {r : Record}
    (h : r.status.isTerminal = false) : (settle now report r).1.started = r.started ∧
      ∀ time, (settle now report r).1.finished = some time →
        time = report.time ∨ r.started = some time := by
  have hstamp : (settle now report r).1.started = r.started ∧
      (settle now report r).1.finished = (r.stampFinished report.time).finished := by
    unfold settle
    cases report.ending <;> simp [Record.succeed,Record.fail,Record.cancel,Record.finish,h,
      Record.stampFinished]
  refine ⟨hstamp.1,fun time hf => ?_⟩
  rw [hstamp.2,Record.stampFinished,Option.some.injEq] at hf
  cases hs : r.started with
  | none =>
    rw [hs] at hf
    exact .inl hf.symm
  | some start =>
    rw [hs] at hf
    dsimp only at hf
    split at hf
    · exact .inr (congrArg some hf)
    · exact .inl hf.symm

end Schedule

namespace Record.Stamped

variable {h h' : History} {id : String} {r : Record}

theorem mono (hr : r.Stamped h id) (he : ∀ e ∈ h.events, e ∈ h'.events)
    (hd : id ∈ h'.dispatched → id ∈ h.dispatched ∨ r.status.isTerminal = false) :
    r.Stamped h' id where
  started time ht := he _ (hr.started time ht)
  unfinished := hr.unfinished
  finished hin time ht := by
    obtain hin | hopen := hd hin
    · obtain ⟨report,hm,htime⟩ := hr.finished hin time ht
      exact ⟨report,he _ hm,htime⟩
    · rw [hr.unfinished hopen] at ht
      cases ht

theorem event (hr : r.Stamped h id) (e : Event) : r.Stamped (h ++ [.event e]) id := by
  refine hr.mono (fun x hx => ?_) fun hin => ?_
  · rw [History.events_event]
    exact List.mem_append_left _ hx
  · rw [History.dispatched_event] at hin
    exact .inl hin

/-- What was not dispatched may end at any time. -/
theorem ended (hr : r.Stamped h id) (hid : id ∉ h.dispatched) {q : Record}
    (hq : q.started = r.started) (ht : q.status.isTerminal = true) : q.Stamped h id where
  started time hs := hr.started time (hq ▸ hs)
  unfinished ho := by
    rw [ht] at ho
    cases ho
  finished hin := absurd hin hid

theorem skip (hr : r.Stamped h id) (hid : id ∉ h.dispatched) (now : Instant) (reason : SkipReason) :
    (r.skip now reason).1.Stamped h id := by
  refine hr.ended hid ?_ (r.skip_isTerminal now reason)
  unfold Record.skip Record.finish
  split <;> rfl

theorem cancel (hr : r.Stamped h id) (hid : id ∉ h.dispatched) (now : Instant) (attempts : Nat) :
    (r.cancel now attempts).1.Stamped h id := by
  cases ho : r.status.isTerminal with
  | true => rwa [(Record.cancel_respects now attempts r).2 ho]
  | false =>
    rw [Record.cancel_of_open ho]
    exact hr.ended hid rfl rfl

theorem start (hr : r.Stamped h id) (time : Instant) :
    (r.start time).1.Stamped (h ++ [.event (.started id time)]) id := by
  by_cases hp : r.status = .pending
  · have hopen : r.status.isTerminal = false := by
      rw [hp]
      rfl
    have hnone := hr.unfinished hopen
    rw [Record.start,if_pos hp]
    constructor
    · rintro _ ⟨⟩
      rw [History.events_event]
      exact List.mem_append_right _ (List.mem_singleton_self _)
    · exact fun _ => hnone
    · intro _ ended he
      rw [show r.finished = some ended from he] at hnone
      cases hnone
  · rw [Record.start,if_neg hp]
    exact hr.event _

theorem settle (hr : r.Stamped h id) (ho : r.status.isTerminal = false) (now : Instant)
    (report : Report) :
    (Schedule.settle now report r).1.Stamped (h ++ [.event (.finished id report)]) id := by
  obtain ⟨hstarted,hfinished⟩ := Schedule.settle_times now report ho
  constructor
  · rw [hstarted]
    exact (hr.event _).started
  · intro hopen
    rw [Schedule.settle_isTerminal] at hopen
    cases hopen
  · intro _ time ht
    rw [hstarted,History.events_event]
    exact ⟨report,List.mem_append_right _ (List.mem_singleton_self _),hfinished time ht⟩

end Record.Stamped

namespace Schedule

/-- The times of all records agree with what has happened. -/
def Stamped (h : History) (s : Schedule) : Prop :=
  ∀ id r, s.record? id = some r → r.Stamped h id

namespace Stamped

variable {h : History} {s : Schedule}

theorem start (graph : Graph) (scope : Scope) : Stamped [] (Schedule.start graph scope) := by
  intro id r hr
  obtain ⟨n,-,rfl⟩ := start_record? hr
  constructor
  · rintro time ⟨⟩
  · exact fun _ => rfl
  · intro hin
    cases hin

theorem skip (hs : Stamped h s) (hc : Consistent h s) (now : Instant) {n : GraphNode Graph}
    {reason : SkipReason} (hd : s.deadReason? n = some reason) :
    Stamped h (s.change n.id (·.skip now reason)) := by
  intro id r hr
  rw [record?_change s (Record.skip_respects now reason)] at hr
  obtain ⟨q,hq,rfl⟩ := Option.map_eq_some_iff.mp hr
  split
  · next he =>
    have hout := hc.not_dispatched_of_open (deadReason?_eq_some.mp hd).1
    exact (hs id q hq).skip (he ▸ hout) now reason
  · exact hs id q hq

theorem dispatch (hs : Stamped h s) :
    Stamped (h ++ s.ready.map (.dispatch ·.id)) s.dispatch := by
  intro id r hr
  refine (hs id r hr).mono (fun e he => ?_) fun hin => ?_
  · rwa [History.events_dispatches]
  · rw [History.dispatched_dispatches,List.mem_append] at hin
    refine hin.imp (fun hin => hin) fun hin => ?_
    obtain ⟨n,hn,rfl⟩ := List.mem_map.mp hin
    have hp := (isOpen_iff.mp (s.mem_ready.mp hn).2.1).1
    rw [← s.status_eq hr,hp]
    rfl

theorem started (hs : Stamped h s) (now : Instant) (id : String) (time : Instant) :
    Stamped (h ++ [.event (.started id time)]) (s.apply now (.started id time)) := by
  intro other r hr
  rw [record?_started] at hr
  obtain ⟨q,hq,rfl⟩ := Option.map_eq_some_iff.mp hr
  split
  · next he => exact he ▸ (hs other q hq).start time
  · exact (hs other q hq).event _

theorem finished (hs : Stamped h s) (hc : Consistent h s) (now : Instant) {id : String}
    {report : Report} (ha : s.Awaits (.finished id report)) :
    Stamped (h ++ [.event (.finished id report)]) (s.apply now (.finished id report)) := by
  obtain ⟨r,hr⟩ := hc.table.record?.mp (hc.known id ha.1)
  have hopen : r.status.isTerminal = false := s.status_eq hr ▸ hc.unfinished id ha.1
  intro other q' hq'
  rw [record?_finished s now hr] at hq'
  obtain ⟨q,hq,rfl⟩ := Option.map_eq_some_iff.mp hq'
  by_cases he : other = id
  · subst he
    obtain rfl : r = q := Option.some.inj (hr.symm.trans hq)
    have hsettled := (hs other r hr).settle hopen now report
    -- A record that has ended is not skipped any more.
    rw [reported,if_pos rfl]
    split
    · rwa [(Record.skip_respects now _ _).2 (settle_isTerminal now report r)]
    · exact hsettled
  · have hkept := (hs other q hq).event (.finished id report)
    rw [reported,if_neg he]
    split
    · next hu =>
      have hout := hc.not_dispatched_of_unselected ha hu
      rw [← History.dispatched_event h (.finished id report)] at hout
      exact hkept.skip hout now _
    · exact hkept

/-- What is cancelled in the end was never dispatched. -/
theorem sweep (hs : Stamped h s) (hc : Consistent h s) (hi : s.inFlight = []) (now : Instant) :
    Stamped h (s.sweep now) := by
  intro id q' hq'
  rw [record?_sweep] at hq'
  obtain ⟨q,hq,rfl⟩ := Option.map_eq_some_iff.mp hq'
  cases ho : q.status.isTerminal with
  | true =>
    rw [(Record.cancel_respects now 0 q).2 ho]
    exact hs id q hq
  | false =>
    refine (hs id q hq).cancel (fun hin => ?_) now 0
    have hended := (hc.ended id hin (hi ▸ List.not_mem_nil)).1
    rw [s.status_eq hq,ho] at hended
    cases hended

end Stamped

variable {graph : Graph} {scope : Scope} {h : History} {s : Schedule}

theorem Reaches.stamped (hr : Reaches graph scope h s) (hg : graph.Sound) : Stamped h s := by
  induction hr with
  | start => exact .start graph scope
  | @pass h s now hr ih =>
    have hkept : Consistent h (s.resolveDead now) ∧ Stamped h (s.resolveDead now) :=
      resolveDead_induction (P := fun t => Consistent h t ∧ Stamped h t)
        (fun t n reason ht hn hd => ⟨ht.1.skip hn hd,ht.2.skip ht.1 now hd⟩) s
        ⟨hr.consistent hg,ih⟩
    exact hkept.2.dispatch
  | @event h s e now hr ha ih =>
    cases e with
    | started id time => exact ih.started now id time
    | finished id report => exact ih.finished (hr.consistent hg) now ha

/-- What has been heard of was dispatched. -/
theorem Reaches.dispatched_of_event (hr : Reaches graph scope h s) (hg : graph.Sound) :
    ∀ e ∈ h.events, e.node ∈ h.dispatched := by
  induction hr with
  | start =>
    intro e he
    cases he
  | pass now hr ih =>
    intro e he
    rw [History.events_dispatches] at he
    rw [History.dispatched_dispatches]
    exact List.mem_append_left _ (ih e he)
  | @event h s e now hr ha ih =>
    intro x hx
    rw [History.dispatched_event]
    rw [History.events_event,List.mem_append,List.mem_singleton] at hx
    obtain hx | rfl := hx
    · exact ih x hx
    · exact (hr.consistent hg).dispatched _ ha.mem

/-- What was dispatched is under way or has reported. -/
theorem Reaches.reported_of_dispatched (hr : Reaches graph scope h s) :
    ∀ id ∈ h.dispatched, id ∈ s.inFlight ∨ ∃ report, .finished id report ∈ h.events := by
  induction hr with
  | start =>
    intro id hid
    cases hid
  | @pass h s now hr ih =>
    intro id hid
    rw [History.events_dispatches,pass_fst,dispatch_inFlight,List.mem_append,
      (resolveDead_frame now s).2.1]
    rw [History.dispatched_dispatches,List.mem_append] at hid
    obtain hid | hid := hid
    · exact (ih id hid).imp_left .inl
    · exact .inl (.inr hid)
  | @event h s e now hr ha ih =>
    intro id hid
    rw [History.dispatched_event] at hid
    rw [History.events_event]
    obtain hin | ⟨report,hm⟩ := ih id hid
    · cases e with
      | started other time =>
        rw [inFlight_started]
        exact .inl hin
      | finished other report =>
        by_cases he : id = other
        · subst he
          exact .inr ⟨report,List.mem_append_right _ (List.mem_singleton_self _)⟩
        · rw [inFlight_finished,List.mem_filter]
          exact .inl ⟨hin,by simpa using he⟩
    · exact .inr ⟨report,List.mem_append_left _ hm⟩

end Schedule

end TaskGraph
