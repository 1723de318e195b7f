import TaskGraph.Proofs.Graph.Causes
import TaskGraph.Proofs.Schedule.Skipping
import TaskGraph.Proofs.Schedule.Verdict

/-!
What comes first in every run, whatever the order of events: what a node needs has succeeded when it
starts, and what is given up because of that is skipped by then, so that a failure of the node cannot
be the reason.
-/

namespace TaskGraph.Schedule

section Precedence

variable {graph : Graph} {fate : String → Fate} {scope : Scope} {h : History} {s t : Schedule}

/-- How a schedule agrees with what comes first in every run. -/
structure Timely (fate : String → Fate) (h : History) (s : Schedule) : Prop where
  preempted : ∀ first ∈ h.dispatched, ∀ id, s.graph.Preempted fate first id → s.status id = .skipped
  blocked : ∀ id r, s.record? id = some r → r.isBlocked = true →
    ∃ cause ∈ h.dispatched, s.graph.Hindered fate s.status cause id

section First

variable {first : String}

/-- What has to succeed before a node starts has succeeded when it is ready. -/
theorem Faithful.success_of_presumes (hf : Faithful fate h s) {id : String}
    (hp : s.graph.Presumes first id)
    (hready : ∀ n ∈ s.graph.nodes, n.id = first → n.isReady s.status = true) :
    s.status id = .success := by
  induction hp with
  | needs hn hneeds => exact hneeds _ (hready _ hn rfl)
  | @through n id other hn hneeds _ ih =>
    have hs : s.status id = .success := hneeds _ (hready n hn rfl)
    have hd : id ∈ h.dispatched := by
      by_contra hnot
      obtain hi | hi := hf.idle id hnot
      · rw [hs] at hi
        cases hi
      · rw [hs] at hi
        cases hi
    exact ih fun m hm hid => hf.ready m hm (hid ▸ hd)

/-- Where nothing is dead, all has been skipped that is given up before a ready node starts. -/
theorem Faithful.skipped_of_preempted (hf : Faithful fate h s) (hc : Consistent h s)
    (hnone : ∀ n ∈ s.graph.nodes, s.deadReason? n = none)
    (hready : ∀ n ∈ s.graph.nodes, n.id = first → n.isReady s.status = true) {id : String}
    (hp : s.graph.Preempted fate first id) : s.status id = .skipped := by
  unfold Graph.Preempted at hp
  induction hp with
  | leftOut hn hleft =>
    obtain ⟨b,hb,hpresumed,htarget,hl⟩ := hleft
    have hsucc := hf.success_of_presumes hpresumed hready
    exact hf.leftOut _ hn (Graph.isLeftOut_iff.mpr ⟨b,hb,hsucc,htarget,hl⟩)
  | @ruledOut n ids hn _ _ hu ih =>
    have hu := GraphNode.resolution_keeps (Status.skipping_keeps ih) hu
    have hnot : n.id ∉ h.dispatched := by
      intro hd
      have hready := hf.ready n hn hd
      rw [GraphNode.not_isReady_of_unsatisfied hu] at hready
      cases hready
    -- Otherwise it would be open and dead.
    refine (hf.idle n.id hnot).resolve_left fun hpending => ?_
    have ho : s.isOpen n.id = true :=
      isOpen_iff.mpr ⟨hpending,fun hin => hnot (hc.dispatched _ hin)⟩
    cases hd : n.dependency with
    | none => simp [GraphNode.resolution,hd] at hu
    | some d =>
      have hu : Dependency.resolve s.status d = .unsatisfied := by
        simpa [GraphNode.resolution,hd] using hu
      have hdead := deadReason?_eq_some.mpr ⟨ho,d,hd,hu,rfl⟩
      rw [hnone n hn] at hdead
      cases hdead

end First

theorem skip_isBlocked {r : Record} {now : Instant} {branch : String}
    (hb : (r.skip now (.branchNotTaken branch)).1.isBlocked = true) : r.isBlocked = true := by
  cases ht : r.status.isTerminal with
  | true => rwa [(Record.skip_respects now (.branchNotTaken branch) r).2 ht] at hb
  | false =>
    rw [Record.skip_of_open ht] at hb
    cases hb

/-- Reports block nobody. -/
theorem reported_isBlocked {now : Instant} {id other : String} {report : Report} {r : Record}
    (hb : (reported now id report other r).isBlocked = true) : r.isBlocked = true := by
  obtain ⟨m,⟨hreason,-⟩,hm⟩ := reported_eq now id report other r
  have hkept (hb : m.isBlocked = true) : r.isBlocked = true := by
    rwa [Record.isBlocked,hreason] at hb
  rw [hm] at hb
  split at hb
  · exact hkept (skip_isBlocked hb)
  · exact hkept hb

namespace Timely

variable {later : History} {n : GraphNode Graph} {reason : SkipReason}

/-- A step that dispatches nodes and blocks nodes only in time. -/
theorem step (hs : Timely fate h s) (hk : Keeps s t) (hg : t.graph = s.graph)
    (hd : h.dispatched ⊆ later.dispatched)
    (hfirst : ∀ first ∈ later.dispatched, first ∈ h.dispatched ∨
      ∀ id, s.graph.Preempted fate first id → t.status id = .skipped)
    (hnew : ∀ id q, t.record? id = some q → q.isBlocked = true →
      (∃ r, s.record? id = some r ∧ r.isBlocked = true) ∨
        ∃ cause ∈ later.dispatched, s.graph.Hindered fate t.status cause id) :
    Timely fate later t where
  preempted first hmem id hp := by
    rw [hg] at hp
    obtain hold | hnow := hfirst first hmem
    · have hskipped := hs.preempted first hold id hp
      rw [hk.status (by rw [hskipped]; rfl),hskipped]
    · exact hnow id hp
  blocked id q hq hb := by
    rw [hg]
    obtain ⟨r,hr,hrb⟩ | hnow := hnew id q hq hb
    · obtain ⟨cause,hcause,hh⟩ := hs.blocked id r hr hrb
      exact ⟨cause,hd hcause,hh.keep fun id ht => hk.status ht⟩
    · exact hnow

theorem start (graph : Graph) (scope : Scope) : Timely fate [] (Schedule.start graph scope) where
  preempted first hmem := by cases hmem
  blocked id r hr hb := by
    obtain ⟨n,-,rfl⟩ := start_record? hr
    cases hb

theorem skip (hs : Timely fate h s) (hr : Reasoned h s) (hf : Faithful fate h s)
    (hc : Consistent h s) {now : Instant} (hn : n ∈ s.graph.nodes)
    (hd : s.deadReason? n = some reason) :
    Timely fate h (s.change n.id (·.skip now reason)) := by
  have hst := status_skip now hc.table hn hd
  obtain ⟨ho,d,hdep,hu,rfl⟩ := deadReason?_eq_some.mp hd
  have hresp := Record.skip_respects now (s.skipReason d)
  have hk : Keeps s (s.change n.id (·.skip now (s.skipReason d))) :=
    fun id r hrec ht => change_of_terminal s hresp hrec ht
  refine hs.step hk (change_graph s n.id _) (List.Subset.refl _) (fun first hmem => .inl hmem)
    fun id q hq hb => ?_
  rw [record?_change s hresp,Option.map_eq_some_iff] at hq
  obtain ⟨r,hrec,rfl⟩ := hq
  split at hb
  next he =>
    subst he
    have hpending := (isOpen_iff.mp ho).1
    have hopen : r.status.isTerminal = false := by
      rw [← s.status_eq hrec,hpending]
      rfl
    rw [Record.skip_of_open hopen] at hb
    have hskipped := (hst n.id).trans (if_pos rfl)
    -- It waits, so nothing that has been dispatched has given it up.
    have hfree (cause : String) (hcause : cause ∈ h.dispatched) :
        ¬ s.graph.Preempted fate cause n.id := by
      intro hp
      rw [hs.preempted cause hcause n.id hp] at hpending
      cases hpending
    obtain ⟨ids,hreason⟩ : ∃ ids, s.skipReason d = .blocked ids := by
      cases hreason : s.skipReason d with
      | blocked ids => exact ⟨ids,rfl⟩
      | branchNotTaken | deadPath => simp [Record.isBlocked,hreason] at hb
    have hj := hr.justifies_skipReason hdep hu
    rw [hreason] at hj
    obtain ⟨hne,hall⟩ := hj
    obtain ⟨other,hother⟩ := List.exists_mem_of_ne_nil ids hne
    obtain ⟨href,q,hq,hterminal,hstop⟩ := hall other hother
    rw [← s.status_eq hq] at hterminal hstop
    refine .inr ?_
    obtain hbroke | hblocked := or_assoc.mpr hstop
    · have hdispatched : other ∈ h.dispatched := by
        by_contra hnot
        obtain hi | hi := hf.idle other hnot <;> simp [hi] at hbroke
      rw [← hk.status hterminal] at hbroke
      exact ⟨other,hdispatched,.broken hn hskipped href hbroke (hfree other hdispatched)⟩
    · obtain ⟨cause,hcause,hh⟩ := hs.blocked other q hq hblocked
      have hh := hh.keep fun id ht => hk.status ht
      exact ⟨cause,hcause,.behind hn hskipped href hh (hfree cause hcause)⟩
  · exact .inl ⟨r,hrec,hb⟩

theorem dispatch (hs : Timely fate h s) (hf : Faithful fate h s) (hc : Consistent h s)
    (hg : s.graph.Sound) (hnone : ∀ n ∈ s.graph.nodes, s.deadReason? n = none) :
    Timely fate (h ++ s.ready.map (.dispatch ·.id)) s.dispatch := by
  have hdispatched := h.dispatched_dispatches s.ready
  refine hs.step (fun id r hrec _ => hrec) rfl ?_ (fun first hmem => ?_)
    fun id q hq hb => .inl ⟨q,hq,hb⟩
  · rw [hdispatched]
    exact List.subset_append_left _ _
  · rw [hdispatched] at hmem
    refine (List.mem_append.mp hmem).imp_right fun hready id hp => ?_
    obtain ⟨n,hn,rfl⟩ := List.mem_map.mp hready
    obtain ⟨hm,-,hr⟩ := s.mem_ready.mp hn
    refine hf.skipped_of_preempted hc hnone (fun m hmem hid => ?_) hp
    rwa [hg.eq_of_id hmem hm hid]

theorem event (hs : Timely fate h s) (hc : Consistent h s) (now : Instant) {e : Event}
    (ha : s.Awaits e) : Timely fate (h ++ [.event e]) (s.apply now e) := by
  have hdispatched := h.dispatched_event e
  refine hs.step (fun id r hrec ht => apply_of_terminal s now e hrec ht) (apply_frame s now e).1 ?_
    (fun first hmem => .inl (hdispatched ▸ hmem)) fun id q hq hb => .inl ?_
  · rw [hdispatched]
    exact List.Subset.refl _
  cases e with
  | started other time =>
    rw [record?_started,Option.map_eq_some_iff] at hq
    obtain ⟨r,hrec,rfl⟩ := hq
    refine ⟨r,hrec,?_⟩
    split at hb
    · rwa [Record.isBlocked,(r.start_keepsSkip time).1] at hb
    · exact hb
  | finished other report =>
    obtain ⟨r₀,hr₀⟩ := hc.table.record?.mp (hc.known other ha.1)
    rw [record?_finished s now hr₀,Option.map_eq_some_iff] at hq
    obtain ⟨r,hrec,rfl⟩ := hq
    exact ⟨r,hrec,reported_isBlocked hb⟩

end Timely

theorem Reaches.timely (hr : Reaches graph scope h s) (hg : graph.Sound)
    (hp : ∀ n ∈ graph.nodes, n.isPositive = true) (hf : h.Follows graph fate) :
    Timely fate h s := by
  induction hr with
  | start => exact .start graph scope
  | @pass h s now hr ih =>
    rw [History.Follows,History.events_dispatches] at hf
    have hkept : (Timely fate h (s.resolveDead now) ∧ Reasoned h (s.resolveDead now) ∧
        Faithful fate h (s.resolveDead now) ∧ Consistent h (s.resolveDead now)) ∧
          (s.resolveDead now).graph = graph := by
      refine resolveDead_induction (P := fun t => (Timely fate h t ∧ Reasoned h t ∧
        Faithful fate h t ∧ Consistent h t) ∧ t.graph = graph) ?_ s
        ⟨⟨ih hf,hr.reasoned hg,hr.faithful hg hp hf,hr.consistent hg⟩,hr.graph_eq⟩
      rintro t n reason ⟨⟨ht,hreasoned,hfaithful,hc⟩,rfl⟩ hn hd
      exact ⟨⟨ht.skip hreasoned hfaithful hc hn hd,hreasoned.skip hg hn hd,
        hfaithful.skip hc hg hp hn hd,hc.skip hn hd⟩,change_graph t n.id _⟩
    obtain ⟨⟨ht,-,hfaithful,hc⟩,hgraph⟩ := hkept
    refine ht.dispatch hfaithful hc (hgraph ▸ hg) ?_
    rw [(resolveDead_frame now s).1]
    exact resolveDead_none_dead now (hr.consistent hg).table
  | @event h s e now hr ha ih =>
    rw [History.Follows,History.events_event] at hf
    exact (ih fun id report hm => hf id report (List.mem_append_left _ hm)).event
      (hr.consistent hg) now ha

end Precedence

end TaskGraph.Schedule
