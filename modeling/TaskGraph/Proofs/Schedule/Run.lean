import TaskGraph.Proofs.Schedule.Pass

/-!
Runs of a schedule: passes and events in any order. Every node is dispatched at most once, when it is
ready; what is dispatched is not skipped, and a node that has ended stays as it is.
-/

namespace TaskGraph

def Event.node : Event → String
  | .started node _ | .finished node _ => node

inductive Occurrence where
  | dispatch (node : String)
  | event (e : Event)

abbrev History := List Occurrence

namespace History

/-- The nodes that were dispatched, the first one first. -/
def dispatched (h : History) : List String :=
  h.filterMap fun
    | .dispatch node => some node
    | .event _ => none

/-- The events that were applied, the first one first. -/
def events (h : History) : List Event :=
  h.filterMap fun
    | .dispatch _ => none
    | .event e => some e

theorem dispatched_dispatches (h : History) (nodes : List (GraphNode Graph)) :
    dispatched (h ++ nodes.map (.dispatch ·.id)) = h.dispatched ++ nodes.map GraphNode.id := by
  simp [dispatched,List.filterMap_append,List.filterMap_map]

theorem dispatched_event (h : History) (e : Event) :
    dispatched (h ++ [.event e]) = h.dispatched := by
  simp [dispatched]

theorem events_dispatches (h : History) (nodes : List (GraphNode Graph)) :
    events (h ++ nodes.map (.dispatch ·.id)) = h.events := by
  simp [events,List.filterMap_append,List.filterMap_map]

theorem events_event (h : History) (e : Event) : events (h ++ [.event e]) = h.events ++ [e] := by
  simp [events]

end History

namespace Schedule

/-- The events that may come: the node is under way, and its report leaves out none but its own
targets. -/
def Awaits (s : Schedule) : Event → Prop
  | .started id _ => id ∈ s.inFlight
  | .finished id report => id ∈ s.inFlight ∧
    ∀ n ∈ s.graph.nodes, n.id = id → report.ending.unselected ⊆ n.kind.targets

theorem Awaits.mem {s : Schedule} {e : Event} (h : s.Awaits e) : e.node ∈ s.inFlight := by
  cases e with
  | started => exact h
  | finished => exact h.1

/-- The schedules that a run of a graph comes to, and what has happened on the way. -/
inductive Reaches (graph : Graph) (scope : Scope) : History → Schedule → Prop
  | start : Reaches graph scope [] (start graph scope)
  | pass {h : History} {s : Schedule} (now : Instant) : Reaches graph scope h s →
    Reaches graph scope (h ++ (s.pass now).2.map (.dispatch ·.id)) (s.pass now).1
  | event {h : History} {s : Schedule} {e : Event} (now : Instant) : Reaches graph scope h s →
    s.Awaits e → Reaches graph scope (h ++ [.event e]) (s.apply now e)

/-- What a schedule may come to when anything happens, expected or not. -/
inductive Later (s : Schedule) : Schedule → Prop
  | refl : Later s s
  | pass {t : Schedule} (now : Instant) : Later s t → Later s (t.pass now).1
  | event {t : Schedule} (now : Instant) (e : Event) : Later s t → Later s (t.apply now e)
  | sweep {t : Schedule} (now : Instant) : Later s t → Later s (t.sweep now)

theorem Later.trans {s t u : Schedule} (h : Later s t) (h' : Later t u) : Later s u := by
  induction h' with
  | refl => exact h
  | pass now _ ih => exact .pass now ih
  | event now e _ ih => exact .event now e ih
  | sweep now _ ih => exact .sweep now ih

theorem Later.of_terminal {s t : Schedule} (h : Later s t) {id : String} {r : Record}
    (hr : s.record? id = some r) (ht : r.status.isTerminal = true) : t.record? id = some r := by
  induction h with
  | refl => exact hr
  | pass now _ ih => exact pass_of_terminal _ now ih ht
  | event now e _ ih => exact apply_of_terminal _ now e ih ht
  | sweep now _ ih => exact sweep_of_terminal _ now ih ht

section Status

variable {s : Schedule} (now : Instant) {id other : String}

theorem status_of_terminal {t : Schedule} (h : Later s t) (ht : (s.status id).isTerminal = true) :
    t.status id = s.status id := by
  obtain ⟨r,hr,hs⟩ := s.record?_of_isTerminal ht
  rw [t.status_eq (h.of_terminal hr (hs ▸ ht)),hs]

theorem status_started (s : Schedule) (now : Instant) (id other : String) (time : Instant) :
    (s.apply now (.started id time)).status other = s.status other ∨
    other = id ∧ s.status other = .pending ∧
      (s.apply now (.started id time)).status other = .running := by
  simp only [status,record?_started]
  cases hr : s.record? other with
  | none => exact .inl rfl
  | some r =>
    by_cases ho : other = id
    · by_cases hp : r.status = .pending
      · exact .inr ⟨ho,by simp [hp],by simp [ho,Record.start,hp]⟩
      · exact .inl (by simp [ho,Record.start,hp])
    · exact .inl (by simp [ho])

theorem status_finished_self {r : Record} (h : s.record? id = some r)
    (ho : r.status.isTerminal = false) (report : Report) :
    (s.apply now (.finished id report)).status id = report.ending.status := by
  rw [status_eq _ (by rw [record?_finished s now h,h]; rfl),reported]
  have ht := settle_isTerminal now report r
  have hs := (Record.skip_respects now (.branchNotTaken id) (settle now report r).1).2 ht
  simp only [if_true,hs,ite_self]
  exact settle_status now report ho

theorem status_finished_of_ne {r q : Record} (h : s.record? id = some r)
    (hq : s.record? other = some q) (hne : other ≠ id) (ho : q.status.isTerminal = false)
    (report : Report) : (s.apply now (.finished id report)).status other =
      if other ∈ report.ending.unselected then .skipped else s.status other := by
  rw [status_eq _ (by rw [record?_finished s now h,hq]; rfl),s.status_eq hq,reported]
  simp only [if_neg hne]
  split
  · rw [Record.skip_of_open ho]
  · rfl

end Status

/-- How a schedule agrees with what has happened. -/
structure Consistent (h : History) (s : Schedule) : Prop where
  table : s.IsTable
  nodup : h.dispatched.Nodup
  inFlight_nodup : s.inFlight.Nodup
  known : ∀ id ∈ s.inFlight, id ∈ s.graph.ids
  dispatched : ∀ id ∈ s.inFlight, id ∈ h.dispatched
  unfinished : ∀ id ∈ s.inFlight, (s.status id).isTerminal = false
  running : ∀ id, s.status id = .running → id ∈ s.inFlight
  ended : ∀ id ∈ h.dispatched, id ∉ s.inFlight →
    (s.status id).isTerminal = true ∧ s.status id ≠ .skipped
  selected : ∀ n ∈ s.graph.nodes, ∀ id ∈ h.dispatched, id ∈ n.kind.targets →
    s.status n.id = .success

namespace Consistent

variable {h : History} {s : Schedule}

theorem not_dispatched_of_open (hs : Consistent h s) {id : String} (ho : s.isOpen id = true) :
    id ∉ h.dispatched := by
  intro hd
  obtain ⟨hp,hi⟩ := isOpen_iff.mp ho
  have ht := (hs.ended id hd hi).1
  rw [hp] at ht
  cases ht

theorem start (graph : Graph) (scope : Scope) : Consistent [] (Schedule.start graph scope) where
  table := by simp [IsTable,Schedule.start,Graph.ids]
  nodup := List.nodup_nil
  inFlight_nodup := List.nodup_nil
  known := by simp [Schedule.start]
  dispatched := by simp [Schedule.start]
  unfinished := by simp [Schedule.start]
  running := by
    intro id hr
    rw [start_status] at hr
    cases hr
  ended := by simp [History.dispatched]
  selected := by simp [History.dispatched]

theorem skip (hs : Consistent h s) {now : Instant} {n : GraphNode Graph} {reason : SkipReason}
    (hn : n ∈ s.graph.nodes) (hd : s.deadReason? n = some reason) :
    Consistent h (s.change n.id (·.skip now reason)) := by
  have hst := status_skip now hs.table hn hd
  have ho := (deadReason?_eq_some.mp hd).1
  have hp := isOpen_iff.mp ho
  constructor
  · exact hs.table.change n.id _
  · exact hs.nodup
  · rw [change_inFlight]
    exact hs.inFlight_nodup
  · rw [change_inFlight,change_graph]
    exact hs.known
  · rw [change_inFlight]
    exact hs.dispatched
  · intro id hid
    rw [change_inFlight] at hid
    have hne : id ≠ n.id := fun he => hp.2 (he ▸ hid)
    rw [hst,if_neg hne]
    exact hs.unfinished id hid
  · intro id hr
    rw [hst] at hr
    split at hr
    · cases hr
    · rw [change_inFlight]
      exact hs.running id hr
  · intro id hid hi
    rw [change_inFlight] at hi
    have hne : id ≠ n.id := fun he => hs.not_dispatched_of_open ho (he ▸ hid)
    rw [hst,if_neg hne]
    exact hs.ended id hid hi
  · intro m hm id hid ht
    rw [change_graph] at hm
    have hsel := hs.selected m hm id hid ht
    have hne : m.id ≠ n.id := by
      intro he
      rw [he,hp.1] at hsel
      cases hsel
    rw [hst,if_neg hne]
    exact hsel

theorem resolveDead (hs : Consistent h s) (now : Instant) : Consistent h (s.resolveDead now) :=
  resolveDead_induction (fun _ _ _ ht hn hd => ht.skip hn hd) s hs

theorem dispatch (hs : Consistent h s) (hg : s.graph.Sound) :
    Consistent (h ++ s.ready.map (.dispatch ·.id)) s.dispatch := by
  have hready (id : String) (hid : id ∈ s.ready.map GraphNode.id) :
      ∃ n ∈ s.graph.nodes, n.id = id ∧ s.isOpen id = true ∧ n.isReady s.status = true := by
    obtain ⟨n,hn,rfl⟩ := List.mem_map.mp hid
    obtain ⟨hm,ho,hr⟩ := s.mem_ready.mp hn
    exact ⟨n,hm,rfl,ho,hr⟩
  have hsub : (s.ready.map GraphNode.id).Nodup := by
    refine List.Nodup.sublist ?_ hg.nodup
    exact List.Sublist.map _ List.filter_sublist
  constructor
  · exact hs.table
  · rw [History.dispatched_dispatches]
    refine List.nodup_append.mpr ⟨hs.nodup,hsub,fun a ha b hb he => ?_⟩
    obtain ⟨n,-,-,ho,-⟩ := hready b hb
    exact hs.not_dispatched_of_open ho (he ▸ ha)
  · refine List.nodup_append.mpr ⟨hs.inFlight_nodup,hsub,fun a ha b hb he => ?_⟩
    obtain ⟨n,-,-,ho,-⟩ := hready b hb
    exact (isOpen_iff.mp ho).2 (he ▸ ha)
  · intro id hid
    rcases List.mem_append.mp hid with hid | hid
    · exact hs.known id hid
    · obtain ⟨n,hn,rfl,-⟩ := hready id hid
      exact Graph.mem_ids_of_mem hn
  · intro id hid
    rw [History.dispatched_dispatches]
    exact List.mem_append.mpr ((List.mem_append.mp hid).imp (hs.dispatched id) (fun h => h))
  · intro id hid
    rw [dispatch_status]
    rcases List.mem_append.mp hid with hid | hid
    · exact hs.unfinished id hid
    · obtain ⟨n,-,-,ho,-⟩ := hready id hid
      rw [(isOpen_iff.mp ho).1]
      rfl
  · exact fun id hr => List.mem_append_left _ (hs.running id hr)
  · intro id hid hi
    rw [dispatch_inFlight,List.mem_append,not_or] at hi
    rw [History.dispatched_dispatches,List.mem_append] at hid
    exact hs.ended id (hid.resolve_right hi.2) hi.1
  · intro n hn id hid ht
    rw [History.dispatched_dispatches,List.mem_append] at hid
    rcases hid with hid | hid
    · exact hs.selected n hn id hid ht
    · obtain ⟨m,hm,rfl,-,hr⟩ := hready id hid
      exact (hg.gated n hn m hm ht).success hr

theorem started (hs : Consistent h s) (now : Instant) {id : String} (hid : id ∈ s.inFlight)
    (time : Instant) :
    Consistent (h ++ [.event (.started id time)]) (s.apply now (.started id time)) := by
  have hst (other : String) := s.status_started now id other time
  have hin := inFlight_started s now id time
  constructor
  · exact hs.table.apply now _
  · rw [History.dispatched_event]
    exact hs.nodup
  · rw [hin]
    exact hs.inFlight_nodup
  · rw [hin,(apply_frame s now _).1]
    exact hs.known
  · rw [hin,History.dispatched_event]
    exact hs.dispatched
  · intro other ho
    rw [hin] at ho
    rcases hst other with he | ⟨-,-,he⟩
    · rw [he]
      exact hs.unfinished other ho
    · rw [he]
      rfl
  · intro other hr
    rw [hin]
    rcases hst other with he | ⟨rfl,-,-⟩
    · exact hs.running other (he ▸ hr)
    · exact hid
  · intro other ho hi
    rw [hin] at hi
    rw [History.dispatched_event] at ho
    have hne : other ≠ id := fun he => hi (he ▸ hid)
    rw [(hst other).resolve_right fun he => hne he.1]
    exact hs.ended other ho hi
  · intro n hn other ho ht
    rw [(apply_frame s now _).1] at hn
    rw [History.dispatched_event] at ho
    have hsel := hs.selected n hn other ho ht
    rcases hst n.id with he | ⟨-,hp,-⟩
    · rw [he,hsel]
    · rw [hp] at hsel
      cases hsel

/-- The targets that a branch leaves out have not been dispatched: they wait for its success. -/
theorem not_dispatched_of_unselected (hs : Consistent h s) {id : String} {report : Report}
    (ha : s.Awaits (.finished id report)) {other : String}
    (ho : other ∈ report.ending.unselected) : other ∉ h.dispatched := by
  intro hd
  obtain ⟨n,hn,rfl⟩ := Graph.mem_ids.mp (hs.known id ha.1)
  have hsel := hs.selected n hn other hd (ha.2 n hn rfl ho)
  have hopen := hs.unfinished n.id ha.1
  rw [hsel] at hopen
  cases hopen

/-- A report changes no other node but targets that are left out, which have not been dispatched. -/
theorem status_finished_other (hs : Consistent h s) (now : Instant) {id : String} {report : Report}
    (ha : s.Awaits (.finished id report)) {other : String} (hne : other ≠ id) :
    (s.apply now (.finished id report)).status other = s.status other ∨
    other ∈ report.ending.unselected ∧ other ∉ h.dispatched ∧
      (s.apply now (.finished id report)).status other = .skipped := by
  obtain ⟨r,hr⟩ := hs.table.record?.mp (hs.known id ha.1)
  have hlater : Later s (s.apply now (.finished id report)) := .event now _ .refl
  cases ht : (s.status other).isTerminal with
  | true => exact .inl (status_of_terminal hlater ht)
  | false =>
    cases hq : s.record? other with
    | none => exact .inl (by simp [status,record?_finished s now hr,hq])
    | some q =>
      have hst := status_finished_of_ne now hr hq hne (s.status_eq hq ▸ ht) report
      by_cases hu : other ∈ report.ending.unselected
      · rw [if_pos hu] at hst
        exact .inr ⟨hu,hs.not_dispatched_of_unselected ha hu,hst⟩
      · rw [if_neg hu] at hst
        exact .inl hst

theorem finished (hs : Consistent h s) (now : Instant) {id : String} {report : Report}
    (ha : s.Awaits (.finished id report)) :
    Consistent (h ++ [.event (.finished id report)]) (s.apply now (.finished id report)) := by
  obtain ⟨r,hr⟩ := hs.table.record?.mp (hs.known id ha.1)
  have hopen : r.status.isTerminal = false := s.status_eq hr ▸ hs.unfinished id ha.1
  have hself := status_finished_self now hr hopen report
  have hlater : Later s (s.apply now (.finished id report)) := .event now _ .refl
  have hin := inFlight_finished s now id report
  -- The other nodes under way keep their states.
  have hother (other : String) (hi : other ∈ s.inFlight) (hne : other ≠ id) :
      (s.apply now (.finished id report)).status other = s.status other := by
    rcases hs.status_finished_other now ha hne with hk | ⟨-,hn,-⟩
    · exact hk
    · exact absurd (hs.dispatched other hi) hn
  have hmem (other : String) : other ∈ (s.apply now (.finished id report)).inFlight ↔
      other ∈ s.inFlight ∧ other ≠ id := by
    simp [hin]
  constructor
  · exact hs.table.apply now _
  · rw [History.dispatched_event]
    exact hs.nodup
  · rw [hin]
    exact hs.inFlight_nodup.filter _
  · intro other hi
    rw [(apply_frame s now _).1]
    exact hs.known other ((hmem other).mp hi).1
  · intro other hi
    rw [History.dispatched_event]
    exact hs.dispatched other ((hmem other).mp hi).1
  · intro other hi
    obtain ⟨hi,hne⟩ := (hmem other).mp hi
    rw [hother other hi hne]
    exact hs.unfinished other hi
  · intro other hrun
    have hne : other ≠ id := by
      rintro rfl
      have ht := report.ending.status_isTerminal
      rw [← hself,hrun] at ht
      cases ht
    rcases hs.status_finished_other now ha hne with hk | ⟨-,-,hk⟩
    · exact (hmem other).mpr ⟨hs.running other (hk ▸ hrun),hne⟩
    · rw [hk] at hrun
      cases hrun
  · intro other ho hi
    rw [History.dispatched_event] at ho
    by_cases he : other = id
    · rw [he,hself]
      exact ⟨report.ending.status_isTerminal,report.ending.status_ne_skipped⟩
    · have hend := hs.ended other ho fun h => hi ((hmem other).mpr ⟨h,he⟩)
      rw [status_of_terminal hlater hend.1]
      exact hend
  · intro n hn other ho ht
    rw [(apply_frame s now _).1] at hn
    rw [History.dispatched_event] at ho
    have hsel := hs.selected n hn other ho ht
    rw [status_of_terminal hlater (by rw [hsel]; rfl),hsel]

end Consistent

variable {graph : Graph} {scope : Scope} {h : History} {s : Schedule}

theorem Reaches.graph_eq (hr : Reaches graph scope h s) : s.graph = graph := by
  induction hr with
  | start => rfl
  | pass now _ ih => rw [pass_graph,ih]
  | event now _ _ ih => rw [(apply_frame _ now _).1,ih]

theorem Reaches.consistent (hr : Reaches graph scope h s) (hg : graph.Sound) : Consistent h s := by
  induction hr with
  | start => exact .start graph scope
  | @pass h s now hr ih =>
    have hrd := ih.resolveDead now
    have hgd : (s.resolveDead now).graph.Sound := by
      rw [(resolveDead_frame now s).1,hr.graph_eq]
      exact hg
    exact hrd.dispatch hgd
  | @event h s e now _ ha ih =>
    cases e with
    | started id time => exact ih.started now ha time
    | finished id report => exact ih.finished now ha

/-- A pass for which one scan is enough. -/
theorem Reaches.scan (hr : Reaches graph scope h s) (now : Instant)
    (hd : ∀ n ∈ (s.scan now).graph.nodes, (s.scan now).deadReason? n = none) :
    Reaches graph scope (h ++ (s.scan now).ready.map (.dispatch ·.id)) (s.scan now).dispatch := by
  rw [← resolveDead_eq_scan hd]
  exact hr.pass now

end Schedule

end TaskGraph
