import TaskGraph.Proofs.Graph.Evaluation
import TaskGraph.Proofs.Schedule.Dispatch

/-!
Runs in which it is settled in advance how each node ends. Without negations a complete run comes to
what looking at the nodes one after another comes to, whatever the order of events.
-/

namespace TaskGraph

/-- Every node that reports in a history does so as settled in advance. -/
def History.Follows (graph : Graph) (fate : String → Fate) (h : History) : Prop :=
  ∀ id report, .finished id report ∈ h.events → ∀ n ∈ graph.nodes, n.id = id →
    report.ending = (fate id).ending n.kind.targets

namespace Fate

theorem status_ending (f : Fate) (targets : List String) : (f.ending targets).status = f.status := by
  cases f <;> rfl

theorem mem_unselected {f : Fate} {targets : List String} {id : String} :
    id ∈ (f.ending targets).unselected ↔ id ∈ targets ∧ f.leavesOut id = true := by
  cases f <;> simp [ending,Ending.unselected,leavesOut]

end Fate

namespace Schedule

/-- How a schedule agrees with what was settled in advance. -/
structure Faithful (fate : String → Fate) (h : History) (s : Schedule) : Prop where
  outcome : ∀ id ∈ h.dispatched, (s.status id).isTerminal = true → s.status id = (fate id).status
  idle : ∀ id, id ∉ h.dispatched → s.status id = .pending ∨ s.status id = .skipped
  leftOut : ∀ n ∈ s.graph.nodes, s.graph.isLeftOut fate s.status n.id = true →
    s.status n.id = .skipped
  skipped : ∀ n ∈ s.graph.nodes, s.status n.id = .skipped →
    s.graph.isLeftOut fate s.status n.id = true ∨ n.resolution s.status = .unsatisfied
  ready : ∀ n ∈ s.graph.nodes, n.id ∈ h.dispatched → n.isReady s.status = true

namespace Faithful

variable {fate : String → Fate} {h : History} {s : Schedule}

/-- Nodes that were skipped for a reason, and nodes that were dispatched when they were ready, stay
so. -/
theorem carry {t : Schedule} (hf : Faithful fate h s) (hk : Status.Keeps s.status t.status)
    (hg : t.graph = s.graph)
    (hp : ∀ n ∈ s.graph.nodes, n.isPositive = true) :
    (∀ n ∈ t.graph.nodes, s.status n.id = .skipped →
      t.graph.isLeftOut fate t.status n.id = true ∨ n.resolution t.status = .unsatisfied) ∧
    ∀ n ∈ t.graph.nodes, n.id ∈ h.dispatched → n.isReady t.status = true := by
  rw [hg]
  constructor
  · intro n hn hs
    rcases hf.skipped n hn hs with hleft | hu
    · exact .inl (Graph.isLeftOut_keeps hk hleft)
    · exact .inr (GraphNode.resolution_keeps hk hu)
  · intro n hn hd
    exact GraphNode.isReady_keeps hk (hp n hn) (hf.ready n hn hd)

theorem start (graph : Graph) (scope : Scope) : Faithful fate [] (Schedule.start graph scope) := by
  have hp := start_status graph scope
  constructor
  · intro id hid
    cases hid
  · exact fun id _ => .inl (hp id)
  · intro n hn hl
    obtain ⟨b,hb,hs,-⟩ := Graph.isLeftOut_iff.mp hl
    rw [hp] at hs
    cases hs
  · intro n hn hs
    rw [hp] at hs
    cases hs
  · intro n hn hid
    cases hid

theorem skip (hf : Faithful fate h s) (hc : Consistent h s) (hg : s.graph.Sound)
    (hp : ∀ n ∈ s.graph.nodes, n.isPositive = true) {now : Instant} {n : GraphNode Graph}
    {reason : SkipReason} (hn : n ∈ s.graph.nodes) (hd : s.deadReason? n = some reason) :
    Faithful fate h (s.change n.id (·.skip now reason)) := by
  have hst := status_skip now hc.table hn hd
  obtain ⟨ho,d,hdep,hu,-⟩ := deadReason?_eq_some.mp hd
  have hgraph := change_graph s n.id (·.skip now reason)
  have hpending := (isOpen_iff.mp ho).1
  have hk : Status.Keeps s.status (s.change n.id (·.skip now reason)).status := by
    intro id ht
    have hne : id ≠ n.id := by
      rintro rfl
      rw [hpending] at ht
      cases ht
    rw [hst,if_neg hne]
  obtain ⟨hskipped,hready⟩ := hf.carry hk hgraph hp
  constructor
  · intro id hid ht
    have hne : id ≠ n.id := fun he => hc.not_dispatched_of_open ho (he ▸ hid)
    rw [hst,if_neg hne] at ht ⊢
    exact hf.outcome id hid ht
  · intro id hid
    rw [hst]
    split
    · exact .inr rfl
    · exact hf.idle id hid
  · intro m hm hl
    rw [hgraph] at hm hl
    obtain ⟨b,hb,hs,ht,hleft⟩ := Graph.isLeftOut_iff.mp hl
    rw [hst] at hs ⊢
    split at hs
    · cases hs
    split
    · rfl
    · exact hf.leftOut m hm (Graph.isLeftOut_iff.mpr ⟨b,hb,hs,ht,hleft⟩)
  · intro m hm hs
    by_cases he : m.id = n.id
    · rw [hg.eq_of_id (hgraph ▸ hm) hn he]
      have hres : n.resolution s.status = .unsatisfied := by
        simpa [GraphNode.resolution,hdep] using hu
      exact .inr (GraphNode.resolution_keeps hk hres)
    · rw [hst,if_neg he] at hs
      exact hskipped m hm hs
  · exact hready

theorem dispatch (hf : Faithful fate h s) (hg : s.graph.Sound) :
    Faithful fate (h ++ s.ready.map (.dispatch ·.id)) s.dispatch := by
  have hready (id : String) (hid : id ∈ s.ready.map GraphNode.id) :
      ∃ n ∈ s.graph.nodes, n.id = id ∧ s.status id = .pending ∧ n.isReady s.status = true := by
    obtain ⟨n,hn,rfl⟩ := List.mem_map.mp hid
    obtain ⟨hm,ho,hr⟩ := s.mem_ready.mp hn
    exact ⟨n,hm,rfl,(isOpen_iff.mp ho).1,hr⟩
  constructor
  · intro id hid ht
    rw [dispatch_status] at ht ⊢
    rw [History.dispatched_dispatches,List.mem_append] at hid
    rcases hid with hid | hid
    · exact hf.outcome id hid ht
    · obtain ⟨n,-,-,hp,-⟩ := hready id hid
      rw [hp] at ht
      cases ht
  · intro id hid
    rw [History.dispatched_dispatches,List.mem_append,not_or] at hid
    exact hf.idle id hid.1
  · exact hf.leftOut
  · exact hf.skipped
  · intro n hn hid
    rw [History.dispatched_dispatches,List.mem_append] at hid
    rcases hid with hid | hid
    · exact hf.ready n hn hid
    · obtain ⟨m,hm,he,-,hr⟩ := hready n.id hid
      rwa [hg.eq_of_id hm hn he] at hr

theorem started (hf : Faithful fate h s) (hc : Consistent h s)
    (hp : ∀ n ∈ s.graph.nodes, n.isPositive = true) (now : Instant) {id : String}
    (hid : id ∈ s.inFlight) (time : Instant) :
    Faithful fate (h ++ [.event (.started id time)]) (s.apply now (.started id time)) := by
  have hst (other : String) := s.status_started now id other time
  have hgraph := (apply_frame s now (.started id time)).1
  have hl : Later s (s.apply now (.started id time)) := .event now _ .refl
  have hback (other : String) (st : Status) (hne : st ≠ .running)
      (h : (s.apply now (.started id time)).status other = st) : s.status other = st := by
    rcases hst other with he | ⟨-,-,he⟩
    · rw [← he,h]
    · rw [he] at h
      exact absurd h.symm hne
  obtain ⟨hskipped,hready⟩ := hf.carry (fun _ ht => status_of_terminal hl ht) hgraph hp
  constructor
  · intro other ho ht
    rw [History.dispatched_event] at ho
    rcases hst other with he | ⟨-,-,he⟩
    · rw [he] at ht ⊢
      exact hf.outcome other ho ht
    · rw [he] at ht
      cases ht
  · intro other ho
    rw [History.dispatched_event] at ho
    rcases hst other with he | ⟨rfl,-,-⟩
    · rw [he]
      exact hf.idle other ho
    · exact absurd (hc.dispatched other hid) ho
  · intro n hn hleft
    rw [hgraph] at hn hleft
    obtain ⟨b,hb,hs,ht,hf'⟩ := Graph.isLeftOut_iff.mp hleft
    have hs' := hback b.id .success (by decide) hs
    have hskip := hf.leftOut n hn (Graph.isLeftOut_iff.mpr ⟨b,hb,hs',ht,hf'⟩)
    rw [status_of_terminal hl (by rw [hskip]; rfl),hskip]
  · intro n hn hs
    exact hskipped n hn (hback n.id .skipped (by decide) hs)
  · intro n hn ho
    rw [History.dispatched_event] at ho
    exact hready n hn ho

section Finished

variable {n : GraphNode Graph} {report : Report} (hc : Consistent h s)
  (ha : s.Awaits (.finished n.id report))
  (he : report.ending = (fate n.id).ending n.kind.targets)

include hc ha he

/-- A branch that reports skips what it leaves out; what was left out before is skipped already. -/
theorem leftOut_finished (hf : Faithful fate h s) (now : Instant) (hn : n ∈ s.graph.nodes)
    (hd : s.graph.Sound) {m : GraphNode Graph} (hm : m ∈ s.graph.nodes)
    (hleft : s.graph.isLeftOut fate (s.apply now (.finished n.id report)).status m.id = true) :
    (s.apply now (.finished n.id report)).status m.id = .skipped := by
  obtain ⟨r,hr⟩ := hc.table.record?.mp (Graph.mem_ids_of_mem hn)
  have hl : Later s (s.apply now (.finished n.id report)) := .event now _ .refl
  obtain ⟨b,hb,hs,ht,hf'⟩ := Graph.isLeftOut_iff.mp hleft
  by_cases hne : b.id = n.id
  · have hbn := hd.eq_of_id hb hn hne
    rw [hbn] at ht hf'
    have hu : m.id ∈ report.ending.unselected := by
      rw [he]
      exact Fate.mem_unselected.mpr ⟨ht,hf'⟩
    have hm' := hc.not_dispatched_of_unselected ha hu
    have hmn : m.id ≠ n.id := fun he => hm' (he ▸ hc.dispatched n.id ha.1)
    obtain ⟨q,hq⟩ := hc.table.record?.mp (Graph.mem_ids_of_mem hm)
    rcases hf.idle m.id hm' with hi | hi
    · have hq' : q.status.isTerminal = false := by
        rw [← s.status_eq hq,hi]
        rfl
      rw [status_finished_of_ne now hr hq hmn hq',if_pos hu]
    · rw [status_of_terminal hl (by rw [hi]; rfl),hi]
  · have hs' : s.status b.id = .success := by
      rcases hc.status_finished_other now ha hne with hk | ⟨-,-,hk⟩
      · rw [← hk,hs]
      · rw [hk] at hs
        cases hs
    have hskip := hf.leftOut m hm (Graph.isLeftOut_iff.mpr ⟨b,hb,hs',ht,hf'⟩)
    rw [status_of_terminal hl (by rw [hskip]; rfl),hskip]

theorem finished (hf : Faithful fate h s) (hp : ∀ n ∈ s.graph.nodes, n.isPositive = true)
    (now : Instant) (hn : n ∈ s.graph.nodes) (hd : s.graph.Sound) :
    Faithful fate (h ++ [.event (.finished n.id report)])
      (s.apply now (.finished n.id report)) := by
  obtain ⟨r,hr⟩ := hc.table.record?.mp (Graph.mem_ids_of_mem hn)
  have hself := status_finished_self now hr (s.status_eq hr ▸ hc.unfinished n.id ha.1) report
  have hgraph := (apply_frame s now (.finished n.id report)).1
  have hl : Later s (s.apply now (.finished n.id report)) := .event now _ .refl
  have hdisp := hc.dispatched n.id ha.1
  have hother (id : String) (hne : id ≠ n.id) := hc.status_finished_other now ha hne
  obtain ⟨hskipped,hready⟩ := hf.carry (fun _ ht => status_of_terminal hl ht) hgraph hp
  constructor
  · intro id hid ht
    rw [History.dispatched_event] at hid
    by_cases hne : id = n.id
    · rw [hne,hself,he,Fate.status_ending]
    · rcases hother id hne with hs | ⟨-,hn',-⟩
      · rw [hs] at ht ⊢
        exact hf.outcome id hid ht
      · exact absurd hid hn'
  · intro id hid
    rw [History.dispatched_event] at hid
    have hne : id ≠ n.id := fun he => hid (he ▸ hdisp)
    rcases hother id hne with hs | ⟨-,-,hs⟩
    · rw [hs]
      exact hf.idle id hid
    · exact .inr hs
  · intro m hm hleft
    rw [hgraph] at hm hleft
    exact leftOut_finished hc ha he hf now hn hd hm hleft
  · intro m hm hs
    by_cases hne : m.id = n.id
    · rw [hne,hself] at hs
      exact absurd hs report.ending.status_ne_skipped
    · rcases hother m.id hne with hk | ⟨hu,-,-⟩
      · exact hskipped m hm (hk ▸ hs)
      · have hsucc : (s.apply now (.finished n.id report)).status n.id = .success := by
          rw [hself]
          cases hend : report.ending with
          | success => rfl
          | failed | cancelled =>
            rw [hend] at hu
            cases hu
        rw [he] at hu
        obtain ⟨ht,hf'⟩ := Fate.mem_unselected.mp hu
        rw [hgraph]
        exact .inl (Graph.isLeftOut_iff.mpr ⟨n,hn,hsucc,ht,hf'⟩)
  · intro m hm hid
    rw [History.dispatched_event] at hid
    exact hready m hm hid

end Finished

end Faithful

section Run

variable {graph : Graph} {scope : Scope} {fate : String → Fate} {h : History} {s : Schedule}

theorem Reaches.faithful (hr : Reaches graph scope h s) (hg : graph.Sound)
    (hp : ∀ n ∈ graph.nodes, n.isPositive = true) (hf : h.Follows graph fate) :
    Faithful fate h s := by
  induction hr with
  | start => exact .start graph scope
  | @pass h s now hr ih =>
    rw [History.Follows,History.events_dispatches] at hf
    have hdead : Faithful fate h (s.resolveDead now) ∧ Consistent h (s.resolveDead now) ∧
        (s.resolveDead now).graph = graph := by
      refine resolveDead_induction (P := fun t => Faithful fate h t ∧ Consistent h t ∧
        t.graph = graph) ?_ s ⟨ih hf,hr.consistent hg,hr.graph_eq⟩
      rintro t n reason ⟨ht,hc,rfl⟩ hn hd
      exact ⟨ht.skip hc hg hp hn hd,hc.skip hn hd,change_graph t n.id _⟩
    exact hdead.1.dispatch (hdead.2.2 ▸ hg)
  | @event h s e now hr ha ih =>
    rw [History.Follows,History.events_event] at hf
    have hbefore : h.Follows graph fate := fun id report hm =>
      hf id report (List.mem_append_left _ hm)
    have hc := hr.consistent hg
    have hgraph := hr.graph_eq
    subst hgraph
    cases e with
    | started id time => exact (ih hbefore).started hc hp now ha time
    | finished id report =>
      obtain ⟨n,hn,rfl⟩ := Graph.mem_ids.mp (hc.known id ha.1)
      have he := hf n.id report (List.mem_append_right _ List.mem_cons_self) n hn rfl
      exact (ih hbefore).finished hc ha he hp now hn hg

/-- When nothing is under way any more, every node has the state that the others imply. -/
theorem Reaches.balanced (hr : Reaches graph scope h s) (hg : graph.Sound)
    (hp : ∀ n ∈ graph.nodes, n.isPositive = true) (hf : h.Follows graph fate) (now : Instant)
    (hi : (s.pass now).1.inFlight = []) : graph.Balanced fate (s.pass now).1.status := by
  have hpass : Reaches graph scope _ (s.pass now).1 := hr.pass now
  have hfaith : Faithful fate _ (s.pass now).1 := hpass.faithful hg hp (by
    rw [History.Follows,History.events_dispatches]
    exact hf)
  have hgraph := hpass.graph_eq
  intro n hn
  have ht := hr.isTerminal_of_idle hg now hi n.id (Graph.mem_ids_of_mem hn)
  rw [Graph.verdict]
  by_cases hd : n.id ∈ History.dispatched (h ++ (s.pass now).2.map (.dispatch ·.id))
  · have hleft : graph.isLeftOut fate (s.pass now).1.status n.id = false := by
      rw [Bool.eq_false_iff]
      intro hl
      have hskip := hfaith.leftOut n (hgraph ▸ hn) (hgraph ▸ hl)
      exact hpass.not_skipped hg hd hskip
    have hready := hfaith.ready n (hgraph ▸ hn) hd
    rw [hleft,hready]
    exact hfaith.outcome n.id hd ht
  · have hskip : (s.pass now).1.status n.id = .skipped := by
      rcases hfaith.idle n.id hd with hs | hs
      · rw [hs] at ht
        cases ht
      · exact hs
    rcases hfaith.skipped n (hgraph ▸ hn) hskip with hl | hu
    · rw [hgraph] at hl
      rw [hl]
      exact hskip
    · rw [GraphNode.not_isReady_of_unsatisfied hu,Bool.not_false,Bool.or_true]
      exact hskip

end Run

/-- Let it be settled in advance how each node ends that runs, and let no dependency contain a negation.
Then every complete run, for any order of events and any order of definitions, leaves every node in
the state that comes from looking at the nodes one after another, each after those it waits for. -/
theorem complete_run_evaluates {cap cap' : Nat} {d d' : Definition} {g g' graph graph' : Graph}
    {fate : String → Fate} {order : List (GraphNode Graph)} {scope : Scope} {h : History}
    {s : Schedule} (hb : d.build cap = .ok g) (hk : d.isKeyed = true) (hc : g.Contains graph)
    (hp : ∀ n ∈ graph.nodes, n.isPositive = true) (ho : graph.IsOrder order)
    (hb' : d'.build cap' = .ok g') (hk' : d'.isKeyed = true) (hc' : g'.Contains graph')
    (hre : graph.Reorders graph') (hr : Reaches graph' scope h s) (hf : h.Follows graph' fate)
    (now : Instant) (hi : (s.pass now).1.inFlight = []) :
    ∀ id ∈ graph.ids, (s.pass now).1.status id = graph.evaluate fate order id := by
  have hg := Definition.sound_of_build hb hk hc
  have hg' := Definition.sound_of_build hb' hk' hc'
  have hrun := hr.balanced hg' (hre.isPositive hp) hf now hi
  exact hg.balanced_unique (hre.symm.balanced hrun) (hg.evaluate_balanced ho)

namespace Detour

/-- The same nodes, defined the other way round. -/
abbrev mirrored : Definition := { Definition.detour with nodes := Definition.detour.nodes.reverse }

abbrev mirroredGraph : Graph := mirrored.block.toGraph standardCap

theorem mirrored_build : mirrored.build standardCap = .ok mirroredGraph := rfl

theorem mirrored_isKeyed : mirrored.isKeyed = true := rfl

theorem mirrored_reorders : mirroredGraph.Reorders graph :=
  Graph.reorders_of_perm (List.reverse_perm _) none none

theorem mirrored_isOrder : mirroredGraph.IsOrder mirroredGraph.nodes.reverse :=
  ⟨List.reverse_perm _,by decide⟩

def fate (id : String) : Fate :=
  if id = "pick" then .success .null ["short"]
  else if id = "join" then .failed (.internal "out of order")
  else .success .null []

theorem follows : History.Follows graph fate [.dispatch "pick",.event (.finished "pick" taken),
    .dispatch "short",.event (.finished "short" done),.dispatch "join",
    .event (.finished "join" failed)] := by
  have hpick : ∀ n ∈ graph.nodes, n.id = "pick" → n.kind.targets = ["short","long"] := by decide
  have hshort : ∀ n ∈ graph.nodes, n.id = "short" → n.kind.targets = [] := by decide
  intro id report he n hn hid
  simp only [History.events,List.filterMap_cons,List.filterMap_nil,List.mem_cons,
    List.not_mem_nil,or_false,Event.finished.injEq] at he
  rcases he with ⟨rfl,rfl⟩ | ⟨rfl,rfl⟩ | ⟨rfl,rfl⟩
  · rw [hpick n hn hid]
    rfl
  · rw [hshort n hn hid]
    rfl
  · rfl

end Detour

/-- A run of the detour, seen from its mirrored definition: the join fails, what follows the long way
is skipped. -/
theorem complete_run_evaluates_detour :
    Detour.mirroredGraph.evaluate Detour.fate Detour.mirroredGraph.nodes.reverse "join" = .failed ∧
    ∀ id ∈ Detour.mirroredGraph.ids, (Detour.broken.pass Detour.time).1.status id =
      Detour.mirroredGraph.evaluate Detour.fate Detour.mirroredGraph.nodes.reverse id := by
  have hi : (Detour.broken.pass Detour.time).1.inFlight = [] := by
    rw [Detour.broken_pass]
    decide
  refine ⟨by decide,?_⟩
  exact complete_run_evaluates Detour.mirrored_build Detour.mirrored_isKeyed (.self _) (by decide)
    Detour.mirrored_isOrder Definition.detour_build Definition.detour_isKeyed (.self _)
    Detour.mirrored_reorders Detour.reaches_broken Detour.follows Detour.time hi

end Schedule

end TaskGraph
