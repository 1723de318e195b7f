import TaskGraph.Proofs.Graph.Evaluation
import TaskGraph.Proofs.Graph.Grounded
import TaskGraph.Proofs.Schedule.Routing

/-!
Why nodes are skipped. The reason of a record is borne out by the table and the history, whenever it
is looked at later, and in a complete run the reasons lead back to where they come from: to a node that
failed or was cancelled, or to a branch that went another way.
-/

namespace TaskGraph

/-- However one goes on, one comes to a goal, and there is always a way to go on. -/
inductive Leads (next : String → String → Prop) (goal : String → Prop) : String → Prop
  | here {id : String} : goal id → Leads next goal id
  | on {id : String} : (∃ other, next id other) → (∀ other, next id other → Leads next goal other) →
    Leads next goal id

theorem Leads.exists_goal {next : String → String → Prop} {goal : String → Prop} {id : String}
    (hl : Leads next goal id) : ∃ other, goal other := by
  induction hl with
  | here hg => exact ⟨_,hg⟩
  | on hway _ ih =>
    obtain ⟨other,hother⟩ := hway
    exact ih other hother

/-- Of the ways to end, skipping is the fourth. -/
theorem Status.eq_skipped {s : Status} (ht : s.isTerminal = true) (hs : s ≠ .success)
    (hf : s ≠ .failed) (hc : s ≠ .cancelled) : s = .skipped := by
  cases s with
  | skipped => rfl
  | pending | running => cases ht
  | success => exact absurd rfl hs
  | failed => exact absurd rfl hf
  | cancelled => exact absurd rfl hc

namespace RunResult

variable (result : RunResult)

def Skips (id : String) (reason : SkipReason) : Prop :=
  ∃ r, result.record? id = some r ∧ r.status = .skipped ∧ r.skipReason = some reason

def Broke (id : String) : Prop :=
  result.statusOf? id = some .failed ∨ result.statusOf? id = some .cancelled

/-- A blocked node names the nodes that block it. -/
def Blames (id other : String) : Prop := ∃ ids, result.Skips id (.blocked ids) ∧ other ∈ ids

/-- A node may refer to nodes that are skipped by design. -/
def LeansOn (graph : Graph) (id other : String) : Prop :=
  (∃ n ∈ graph.nodes, n.id = id ∧ other ∈ n.references) ∧
    ∃ reason, result.Skips other reason ∧ reason.isByDesign = true

def IsLeftOut (id : String) : Prop := ∃ branch, result.Skips id (.branchNotTaken branch)

theorem Skips.unique {result : RunResult} {id : String} {a b : SkipReason}
    (ha : result.Skips id a) (hb : result.Skips id b) : a = b := by
  obtain ⟨r,hr,-,hra⟩ := ha
  obtain ⟨q,hq,-,hqb⟩ := hb
  obtain rfl : r = q := Option.some.inj (hr.symm.trans hq)
  exact Option.some.inj (hra.symm.trans hqb)

end RunResult

namespace Record

/-- A change that leaves alone whether and why a record is skipped. -/
def KeepsSkip (r q : Record) : Prop :=
  q.skipReason = r.skipReason ∧ (q.status = .skipped ↔ r.status = .skipped)

theorem KeepsSkip.refl (r : Record) : r.KeepsSkip r := ⟨rfl,.rfl⟩

theorem start_keepsSkip (r : Record) (time : Instant) : r.KeepsSkip (r.start time).1 := by
  by_cases hp : r.status = .pending
  · simp [KeepsSkip,start,hp]
  · simp [KeepsSkip,start,hp]

end Record

namespace Schedule

theorem settle_keepsSkip (now : Instant) (report : Report) (r : Record) :
    r.KeepsSkip (settle now report r).1 := by
  cases ht : r.status.isTerminal with
  | true =>
    rw [(settle_respects now report r).2 ht]
    exact .refl r
  | false =>
    have hr : r.status ≠ .skipped := by
      intro he
      rw [he] at ht
      cases ht
    refine ⟨?_,iff_of_false ?_ hr⟩
    · unfold settle
      cases report.ending <;>
        simp [Record.succeed,Record.fail,Record.cancel,Record.finish,ht,Record.stampFinished]
    · rw [settle_status now report ht]
      exact report.ending.status_ne_skipped

/-- A report may leave a node out; apart from that it skips nobody. -/
theorem reported_eq (now : Instant) (id : String) (report : Report) (other : String) (r : Record) :
    ∃ m, r.KeepsSkip m ∧ reported now id report other r =
      if other ∈ report.ending.unselected then (m.skip now (.branchNotTaken id)).1 else m := by
  refine ⟨_,?_,rfl⟩
  split
  · exact settle_keepsSkip now report r
  · exact .refl r

/-- A node that keeps those that depend on it from running has ended in such a way. -/
def Stops (s : Schedule) (id : String) : Prop :=
  ∃ r, s.record? id = some r ∧ r.status.isTerminal = true ∧
    (r.status = .failed ∨ r.status = .cancelled ∨ r.isBlocked = true)

/-- A node that is skipped, though no failure has kept it from running. -/
def IsBypassed (s : Schedule) (id : String) : Prop :=
  ∃ r, s.record? id = some r ∧ r.status = .skipped ∧ r.isBlocked = false

/-- A node may be skipped for a reason: a branch that has succeeded has left it out, nodes that it
refers to are skipped by design and suffice to rule it out, or nodes that it refers to stop it. -/
def Justifies (h : History) (s : Schedule) (n : GraphNode Graph) : SkipReason → Prop
  | .branchNotTaken branch => ∃ b ∈ s.graph.nodes, b.id = branch ∧ s.status branch = .success ∧
      n.id ∈ b.kind.targets ∧ ∃ report, .finished branch report ∈ h.events ∧
        report.ending.status = .success ∧ n.id ∈ report.ending.unselected
  | .deadPath _ => n.isPositive = true → ∃ ids : List String,
      (∀ id ∈ ids, id ∈ n.references ∧ s.IsBypassed id) ∧
        n.resolution (Status.skipping ids) = .unsatisfied
  | .blocked ids => ids ≠ [] ∧ ∀ id ∈ ids, id ∈ n.references ∧ s.Stops id

/-- Records have reasons if and only if they are skipped, and the reasons are justified. -/
structure Reasoned (h : History) (s : Schedule) : Prop where
  skipped : ∀ id r, s.record? id = some r → (r.status = .skipped ↔ ∃ a, r.skipReason = some a)
  justified : ∀ n ∈ s.graph.nodes, ∀ r reason, s.record? n.id = some r →
    r.skipReason = some reason → Justifies h s n reason

section Steps

variable {h later : History} {s t : Schedule} {n : GraphNode Graph} {reason : SkipReason}

/-- What has ended stays as it is. -/
def Keeps (s t : Schedule) : Prop :=
  ∀ id r, s.record? id = some r → r.status.isTerminal = true → t.record? id = some r

theorem Keeps.status (hk : Keeps s t) {id : String} (ht : (s.status id).isTerminal = true) :
    t.status id = s.status id := by
  obtain ⟨r,hr,hs⟩ := s.record?_of_isTerminal ht
  rw [t.status_eq (hk id r hr (hs ▸ ht)),hs]

/-- Justifications rest on records that have ended, so that they last. -/
theorem Justifies.keep (hj : Justifies h s n reason) (hk : Keeps s t) (hg : t.graph = s.graph)
    (he : h.events ⊆ later.events) : Justifies later t n reason := by
  cases reason with
  | branchNotTaken branch =>
    obtain ⟨b,hb,rfl,hs,ht,report,hm,hr⟩ := hj
    have hs' : t.status b.id = .success := by rw [hk.status (by rw [hs]; rfl),hs]
    exact ⟨b,hg ▸ hb,rfl,hs',ht,report,he hm,hr⟩
  | deadPath ids =>
    intro hp
    obtain ⟨ids,hids,hu⟩ := hj hp
    refine ⟨ids,fun id hid => ⟨(hids id hid).1,?_⟩,hu⟩
    obtain ⟨r,hr,hs,hb⟩ := (hids id hid).2
    exact ⟨r,hk id r hr (by rw [hs]; rfl),hs,hb⟩
  | blocked ids =>
    refine ⟨hj.1,fun id hid => ⟨(hj.2 id hid).1,?_⟩⟩
    obtain ⟨r,hr,ht,hs⟩ := (hj.2 id hid).2
    exact ⟨r,hk id r hr ht,ht,hs⟩

/-- On a dead path something has been skipped before. -/
theorem Justifies.exists_bypassed {ids : List String} (hj : Justifies h s n (.deadPath ids))
    (hf : n.IsFilled) (hp : n.isPositive = true) : ∃ id ∈ n.references, s.IsBypassed id := by
  obtain ⟨skipped,hskipped,hu⟩ := hj hp
  cases hd : n.dependency with
  | none => simp [GraphNode.resolution,hd] at hu
  | some d =>
    have hpos : d.hasNegation = false := by simpa [GraphNode.isPositive,hd] using hp
    simp only [GraphNode.resolution,hd,Option.map_some,Option.getD_some] at hu
    obtain ⟨id,-,hs⟩ := Dependency.exists_unsatisfied d hpos (hf d hd) hu
    exact ⟨id,hskipped id (Status.skipping_unsatisfied.mp hs)⟩

/-- A step that gives no reasons but justified ones. -/
theorem Reasoned.step (hr : Reasoned h s) (hk : Keeps s t) (hg : t.graph = s.graph)
    (he : h.events ⊆ later.events)
    (hnew : ∀ id q, t.record? id = some q → ∃ r, s.record? id = some r ∧ (r.KeepsSkip q ∨
      q.status = .skipped ∧ ∃ reason, q.skipReason = some reason ∧
        ∀ n ∈ s.graph.nodes, n.id = id → Justifies later t n reason)) : Reasoned later t where
  skipped id q hq := by
    obtain ⟨r,hrec,⟨hreason,hst⟩ | ⟨hst,reason,hreason,-⟩⟩ := hnew id q hq
    · rw [hst,hreason]
      exact hr.skipped id r hrec
    · exact iff_of_true hst ⟨reason,hreason⟩
  justified n hn q reason hq hreason := by
    rw [hg] at hn
    obtain ⟨r,hrec,⟨hkept,-⟩ | ⟨-,given,hgiven,hj⟩⟩ := hnew n.id q hq
    · exact (hr.justified n hn r reason hrec (hkept ▸ hreason)).keep hk hg he
    · obtain rfl := Option.some.inj (hgiven.symm.trans hreason)
      exact hj n hn rfl

namespace Reasoned

theorem start (graph : Graph) (scope : Scope) : Reasoned [] (Schedule.start graph scope) := by
  have hrec (id : String) (r : Record) (hr : (Schedule.start graph scope).record? id = some r) :
      r.status = .pending ∧ r.skipReason = none := by
    obtain ⟨n,-,rfl⟩ := start_record? hr
    exact ⟨rfl,rfl⟩
  constructor
  · intro id r hr
    obtain ⟨hs,hn⟩ := hrec id r hr
    simp [hs,hn]
  · intro n _ r reason hr hreason
    rw [(hrec n.id r hr).2] at hreason
    cases hreason

/-- What a dead node is told is what its table says. -/
theorem justifies_skipReason (hr : Reasoned h s) {d : Dependency} (hd : n.dependency = some d)
    (hu : Dependency.resolve s.status d = .unsatisfied) : Justifies h s n (s.skipReason d) := by
  have href (id : String) : id ∈ NameSet.ofList d.references ↔ id ∈ n.references := by
    rw [NameSet.mem_ofList,Dependency.mem_references,GraphNode.mem_references]
    simp [hd]
  cases hb : (NameSet.ofList d.references).filter s.blocks with
  | nil =>
    have he : s.skipReason d = .deadPath (NameSet.ofList d.references) := by
      simp only [skipReason,hb]
    rw [he]
    intro hp
    have hpos : d.hasNegation = false := by simpa [GraphNode.isPositive,hd] using hp
    -- What does not succeed among the references has been skipped, as nothing else blocks.
    refine ⟨n.references.filter fun id => Resolution.ofStatus (s.status id) = .unsatisfied,
      fun id hid => ?_,?_⟩
    · obtain ⟨hmem,hs⟩ := List.mem_filter.mp hid
      obtain ⟨ht,hne⟩ := Resolution.ofStatus_eq_unsatisfied.mp (by simpa using hs)
      refine ⟨hmem,?_⟩
      have hfree : s.blocks id = false := by
        have hnot := List.filter_eq_nil_iff.mp hb id ((href id).mpr hmem)
        simpa using hnot
      obtain ⟨r,hrec,hst⟩ := s.record?_of_isTerminal ht
      simp only [blocks,hrec,Bool.or_eq_false_iff,beq_eq_false_iff_ne] at hfree
      obtain ⟨⟨hfail,hcancel⟩,hblocked⟩ := hfree
      exact ⟨r,hrec,Status.eq_skipped (hst ▸ ht) (hst ▸ hne) hfail hcancel,hblocked⟩
    · simp only [GraphNode.resolution,hd,Option.map_some,Option.getD_some]
      refine Dependency.unsatisfied_mono d hpos (fun id hid hs => ?_) hu
      rw [Status.skipping_unsatisfied,List.mem_filter]
      exact ⟨GraphNode.mem_references.mpr ⟨d,hd,hid⟩,by simpa using hs⟩
  | cons first rest =>
    have he : s.skipReason d = .blocked (first::rest) := by simp only [skipReason,hb]
    rw [he]
    refine ⟨List.cons_ne_nil _ _,fun id hid => ?_⟩
    rw [← hb,List.mem_filter] at hid
    refine ⟨(href id).mp hid.1,?_⟩
    cases hrec : s.record? id with
    | none => simp [blocks,hrec] at hid
    | some r =>
      obtain ⟨-,hblocks⟩ := hid
      simp only [blocks,hrec,Bool.or_eq_true,beq_iff_eq] at hblocks
      refine ⟨r,hrec,?_,or_assoc.mp hblocks⟩
      rcases hblocks with (hs | hs) | hblocked
      · rw [hs]
        rfl
      · rw [hs]
        rfl
      · have hsome : ∃ a, r.skipReason = some a := by
          cases hreason : r.skipReason with
          | none => simp [Record.isBlocked,hreason] at hblocked
          | some a => exact ⟨a,rfl⟩
        rw [(hr.skipped id r hrec).mpr hsome]
        rfl

theorem skip (hr : Reasoned h s) (hg : s.graph.Sound) {now : Instant} (hn : n ∈ s.graph.nodes)
    (hd : s.deadReason? n = some reason) : Reasoned h (s.change n.id (·.skip now reason)) := by
  obtain ⟨ho,d,hdep,hu,rfl⟩ := deadReason?_eq_some.mp hd
  have hresp := Record.skip_respects now (s.skipReason d)
  have hk : Keeps s (s.change n.id (·.skip now (s.skipReason d))) :=
    fun id r hrec ht => change_of_terminal s hresp hrec ht
  have hgraph := change_graph s n.id (·.skip now (s.skipReason d))
  refine hr.step hk hgraph (List.Subset.refl _) fun id q hq => ?_
  rw [record?_change s hresp,Option.map_eq_some_iff] at hq
  obtain ⟨r,hrec,rfl⟩ := hq
  refine ⟨r,hrec,?_⟩
  split
  · next he =>
    subst he
    have hopen : r.status.isTerminal = false := by
      rw [← s.status_eq hrec,(isOpen_iff.mp ho).1]
      rfl
    rw [Record.skip_of_open hopen]
    refine .inr ⟨rfl,_,rfl,fun m hm hid => ?_⟩
    rw [hg.eq_of_id hm hn hid]
    exact (hr.justifies_skipReason hdep hu).keep hk hgraph (List.Subset.refl _)
  · exact .inl (.refl r)

theorem dispatch (hr : Reasoned h s) :
    Reasoned (h ++ s.ready.map (.dispatch ·.id)) s.dispatch := by
  refine hr.step (fun id r hrec _ => hrec) rfl ?_ fun id q hq => ⟨q,hq,.inl (.refl q)⟩
  rw [History.events_dispatches]
  exact List.Subset.refl _

theorem started (hr : Reasoned h s) (now : Instant) (id : String) (time : Instant) :
    Reasoned (h ++ [.event (.started id time)]) (s.apply now (.started id time)) := by
  refine hr.step (fun other r hrec ht => apply_of_terminal s now _ hrec ht)
    (apply_frame s now _).1 ?_ fun other q hq => ?_
  · rw [History.events_event]
    exact List.subset_append_left _ _
  · rw [record?_started,Option.map_eq_some_iff] at hq
    obtain ⟨r,hrec,rfl⟩ := hq
    refine ⟨r,hrec,.inl ?_⟩
    split
    · exact r.start_keepsSkip time
    · exact .refl r

theorem finished (hr : Reasoned h s) (hs : Consistent h s) (now : Instant) {id : String}
    {report : Report} (ha : s.Awaits (.finished id report)) :
    Reasoned (h ++ [.event (.finished id report)]) (s.apply now (.finished id report)) := by
  obtain ⟨b,hb,rfl⟩ := Graph.mem_ids.mp (hs.known id ha.1)
  obtain ⟨r₀,hr₀⟩ := hs.table.record?.mp (hs.known b.id ha.1)
  have hself := status_finished_self now hr₀ (s.status_eq hr₀ ▸ hs.unfinished b.id ha.1) report
  have hgraph := (apply_frame s now (.finished b.id report)).1
  refine hr.step (fun other r hrec ht => apply_of_terminal s now _ hrec ht) hgraph ?_
    fun other q hq => ?_
  · rw [History.events_event]
    exact List.subset_append_left _ _
  rw [record?_finished s now hr₀,Option.map_eq_some_iff] at hq
  obtain ⟨r,hrec,rfl⟩ := hq
  refine ⟨r,hrec,?_⟩
  obtain ⟨m,hsettled,hm⟩ := reported_eq now b.id report other r
  rw [hm]
  split
  · next hu =>
    cases ht : m.status.isTerminal with
    | true =>
      rw [(Record.skip_respects now (.branchNotTaken b.id) m).2 ht]
      exact .inl hsettled
    | false =>
      have hsucc : report.ending.status = .success := by
        cases he : report.ending with
        | success => rfl
        | failed | cancelled =>
          rw [he] at hu
          cases hu
      rw [Record.skip_of_open ht]
      refine .inr ⟨rfl,_,rfl,fun n _ hid => ?_⟩
      subst hid
      refine ⟨b,hgraph ▸ hb,rfl,hself.trans hsucc,ha.2 b hb rfl hu,report,?_,hsucc,hu⟩
      rw [History.events_event]
      exact List.mem_append_right _ List.mem_cons_self
  · exact .inl hsettled

end Reasoned

end Steps

variable {graph : Graph} {scope : Scope} {h : History} {s : Schedule}

theorem Reaches.reasoned (hr : Reaches graph scope h s) (hg : graph.Sound) : Reasoned h s := by
  induction hr with
  | start => exact .start graph scope
  | @pass h s now hr ih =>
    have hkept : Reasoned h (s.resolveDead now) ∧ (s.resolveDead now).graph = graph :=
      resolveDead_induction (P := fun t => Reasoned h t ∧ t.graph = graph) (fun t n reason ht hn hd =>
        ⟨ht.1.skip (ht.2 ▸ hg) hn hd,(change_graph t n.id _).trans ht.2⟩) s ⟨ih,hr.graph_eq⟩
    exact hkept.1.dispatch
  | @event h s e now hr ha ih =>
    cases e with
    | started id time => exact ih.started now id time
    | finished id report => exact ih.finished (hr.consistent hg) now ha

section Explanation

variable {result : RunResult}

/-- What a table of records says is what the result says that is made of them. -/
structure Tells (result : RunResult) (s : Schedule) : Prop where
  record? : ∀ id, result.record? id = s.record? id

theorem Tells.broke_or_blocked (ht : Tells result s) (hr : Reasoned h s) {id : String}
    (hs : s.Stops id) : result.Broke id ∨ ∃ ids, result.Skips id (.blocked ids) := by
  obtain ⟨r,hrec,-,hf | hc | hb⟩ := hs
  · exact .inl (.inl (by rw [RunResult.statusOf?,ht.record?,hrec,Option.map_some,hf]))
  · exact .inl (.inr (by rw [RunResult.statusOf?,ht.record?,hrec,Option.map_some,hc]))
  · obtain ⟨ids,hids⟩ : ∃ ids, r.skipReason = some (.blocked ids) := by
      unfold Record.isBlocked at hb
      split at hb
      · next ids he => exact ⟨ids,he⟩
      · cases hb
    exact .inr ⟨ids,r,(ht.record? id).trans hrec,(hr.skipped id r hrec).mpr ⟨_,hids⟩,hids⟩

theorem Tells.justifies (ht : Tells result s) (hr : Reasoned h s) (hs : s.IsTable) {id : String}
    {reason : SkipReason} (hk : result.Skips id reason) :
    ∃ n ∈ s.graph.nodes, n.id = id ∧ Justifies h s n reason := by
  obtain ⟨r,hrec,-,hreason⟩ := hk
  rw [ht.record?] at hrec
  obtain ⟨n,hn,rfl⟩ := Graph.mem_ids.mp (hs.record?.mpr ⟨r,hrec⟩)
  exact ⟨n,hn,rfl,hr.justified n hn r reason hrec hreason⟩

/-- The induction follows the dependencies, among which all blockers are. -/
theorem Tells.blames_leads (ht : Tells result s) (hr : Reasoned h s) (hs : s.IsTable)
    (hg : s.graph.Sound) (id : String) :
    ∀ ids, result.Skips id (.blocked ids) → Leads result.Blames result.Broke id := by
  induction id using hg.wellFounded.induction with
  | _ id ih =>
    intro ids hk
    obtain ⟨n,hn,rfl,hne,hall⟩ := ht.justifies hr hs hk
    refine .on ?_ fun other hother => ?_
    · obtain ⟨first,hfirst⟩ := List.exists_mem_of_ne_nil ids hne
      exact ⟨first,ids,hk,hfirst⟩
    · obtain ⟨ids',hk',hmem⟩ := hother
      cases hk.unique hk'
      obtain ⟨href,hstop⟩ := hall other hmem
      rcases ht.broke_or_blocked hr hstop with hbroke | ⟨further,hfurther⟩
      · exact .here hbroke
      · exact ih other (hg.mem_dependencies hn href) further hfurther

theorem Tells.leansOn_leads (ht : Tells result s) (hr : Reasoned h s) (hs : s.IsTable)
    (hg : s.graph.Sound) (hf : s.graph.Grounded) (hp : ∀ n ∈ s.graph.nodes, n.isPositive = true)
    (id : String) : ∀ reason, result.Skips id reason → reason.isByDesign = true →
      Leads (result.LeansOn s.graph) result.IsLeftOut id := by
  induction id using hg.wellFounded.induction with
  | _ id ih =>
    intro reason hk hdesign
    cases reason with
    | branchNotTaken branch => exact .here ⟨branch,hk⟩
    | blocked ids => cases hdesign
    | deadPath ids =>
      obtain ⟨n,hn,rfl,hj⟩ := ht.justifies hr hs hk
      obtain ⟨other,href,r,hrec,hst,hb⟩ := hj.exists_bypassed (hf.filled n hn) (hp n hn)
      obtain ⟨a,ha⟩ := (hr.skipped other r hrec).mp hst
      refine .on ⟨other,⟨n,hn,rfl,href⟩,a,⟨r,(ht.record? other).trans hrec,hst,ha⟩,?_⟩ ?_
      · cases a with
        | blocked ids => simp [Record.isBlocked,ha] at hb
        | branchNotTaken | deadPath => rfl
      · rintro next ⟨⟨m,hm,hid,href'⟩,a',hk',ha'⟩
        rw [hg.eq_of_id hm hn hid] at href'
        exact ih next (hg.mem_dependencies hn href') a' hk' ha'

theorem Tells.broke_of_failed (ht : Tells result s) (hr : Reasoned h s) (hs : s.IsTable)
    (hg : s.graph.Sound) {id : String} (hmem : id ∈ s.graph.ids)
    (hend : (s.status id).isTerminal = true)
    (hf : RunResult.isAcceptable s.records id = false) : ∃ n ∈ s.graph.nodes, result.Broke n.id := by
  obtain ⟨r,hrec⟩ := hs.record?.mp hmem
  have hacc : r.isAcceptable = false := by
    have hfind : RunResult.find? s.records id = some r := hrec
    simpa [RunResult.isAcceptable,hfind] using hf
  rw [s.status_eq hrec] at hend
  have hbroke (id : String) (hb : result.Broke id) : ∃ n ∈ s.graph.nodes, result.Broke n.id := by
    obtain ⟨q,hq⟩ : ∃ q, s.record? id = some q := by
      rw [← ht.record?]
      rcases hb with hb | hb <;> obtain ⟨q,hq,-⟩ := Option.map_eq_some_iff.mp hb <;> exact ⟨q,hq⟩
    obtain ⟨n,hn,rfl⟩ := Graph.mem_ids.mp (hs.record?.mpr ⟨q,hq⟩)
    exact ⟨n,hn,hb⟩
  have hstatus (st : Status) (hst : r.status = st) : result.statusOf? id = some st := by
    rw [RunResult.statusOf?,ht.record?,hrec,Option.map_some,hst]
  cases hst : r.status with
  | pending | running =>
    rw [hst] at hend
    cases hend
  | success => simp [Record.isAcceptable,hst] at hacc
  | failed => exact hbroke id (.inl (hstatus _ hst))
  | cancelled => exact hbroke id (.inr (hstatus _ hst))
  | skipped =>
    obtain ⟨a,ha⟩ := (hr.skipped id r hrec).mp hst
    have hk : result.Skips id a := ⟨r,(ht.record? id).trans hrec,hst,ha⟩
    cases a with
    | branchNotTaken | deadPath =>
      simp [Record.isAcceptable,hst,ha,SkipReason.isByDesign] at hacc
    | blocked ids =>
      obtain ⟨other,hother⟩ := (ht.blames_leads hr hs hg id ids hk).exists_goal
      exact hbroke other hother

end Explanation

/-- In every complete run of a graph that was built, outermost or nested, that was not cancelled: a
blocked node names some of the nodes that it refers to, each of which failed, was cancelled or is
blocked itself, and following the names always comes to a node that failed or was cancelled. A node that
is left out by a branch names a branch that succeeded and whose report does not select it. Without
negations, going from a node on a dead path to references that are skipped by design always comes to a
node that is left out by a branch. The run fails only if a node failed or was cancelled. -/
theorem skips_are_explained {cap : Nat} {d : Definition} {g : Graph} (hb : d.build cap = .ok g)
    (hk : d.isKeyed = true) (hc : g.Contains graph) (hr : Reaches graph scope h s) (now : Instant)
    (hi : (s.pass now).1.inFlight = []) (later : Instant) (name : String) :
    let result := ((s.pass now).1.sweep later).result name false
    (∀ id ids, result.Skips id (.blocked ids) → ids ≠ [] ∧
      (∃ n ∈ graph.nodes, n.id = id ∧ ids ⊆ n.references) ∧
      (∀ other ∈ ids, result.Broke other ∨ ∃ further, result.Skips other (.blocked further)) ∧
      Leads result.Blames result.Broke id) ∧
    (∀ id branch, result.Skips id (.branchNotTaken branch) →
      result.statusOf? branch = some .success ∧ ∃ b ∈ graph.nodes, b.id = branch ∧
        id ∈ b.kind.targets ∧ ∃ report, .finished branch report ∈ h.events ∧
          report.ending.status = .success ∧ ¬ report.ending.Selects b.kind.targets id) ∧
    ((∀ n ∈ graph.nodes, n.isPositive = true) → ∀ id ids, result.Skips id (.deadPath ids) →
      Leads (result.LeansOn graph) result.IsLeftOut id) ∧
    (result.status = .failed → ∃ n ∈ graph.nodes, result.Broke n.id) := by
  have hg := Definition.sound_of_build hb hk hc
  have hf := Definition.grounded_of_build hb hc
  have hpass : Reaches graph scope _ (s.pass now).1 := hr.pass now
  have hended := hr.isTerminal_of_idle hg now hi
  have hs := (hpass.consistent hg).table
  have hreasons := hpass.reasoned hg
  have hgraph := hpass.graph_eq
  have hevents : History.events (h ++ (s.pass now).2.map (.dispatch ·.id)) = h.events :=
    History.events_dispatches h _
  generalize (s.pass now).1 = t at *
  subst hgraph
  rw [sweep_eq_self hs hg.nodup hended later]
  have ht : Tells (t.result name false) t := ⟨fun _ => rfl⟩
  refine ⟨?_,?_,?_,?_⟩
  · intro id ids hskip
    obtain ⟨n,hn,rfl,hne,hall⟩ := ht.justifies hreasons hs hskip
    refine ⟨hne,⟨n,hn,rfl,fun other hother => (hall other hother).1⟩,fun other hother => ?_,?_⟩
    · exact ht.broke_or_blocked hreasons (hall other hother).2
    · exact ht.blames_leads hreasons hs hg n.id ids hskip
  · intro id branch hskip
    obtain ⟨n,-,rfl,b,hb,rfl,hst,htarget,report,hm,hsucc,hleft⟩ := ht.justifies hreasons hs hskip
    rw [hevents] at hm
    obtain ⟨q,hq,hqs⟩ := t.record?_of_status (show t.status b.id ≠ .pending by rw [hst]; decide)
    refine ⟨?_,b,hb,rfl,htarget,report,hm,hsucc,fun hsel => hsel.2.2 hleft⟩
    rw [RunResult.statusOf?,ht.record?,hq,Option.map_some,hqs,hst]
  · intro hp id ids hskip
    exact ht.leansOn_leads hreasons hs hg hf hp id _ hskip rfl
  · intro hfailed
    obtain ⟨id,hid,hacc⟩ : ∃ id ∈ t.graph.terminal, RunResult.isAcceptable t.records id = false := by
      have hall : t.graph.terminal.all (RunResult.isAcceptable t.records) = false := by
        cases ha : t.graph.terminal.all (RunResult.isAcceptable t.records) with
        | false => rfl
        | true => simp [result,RunResult.assemble,ha] at hfailed
      obtain ⟨id,hid,ha⟩ := List.all_eq_false.mp hall
      exact ⟨id,hid,by simpa using ha⟩
    have hmem := hf.terminal id hid
    exact ht.broke_of_failed hreasons hs hg hmem (hended id hmem) hacc

/-- The last node of the way not taken is on a dead path, which goes back to the branch; the run fails
because the join did. -/
theorem skips_are_explained_detour :
    let result := ((Detour.broken.pass Detour.time).1.sweep Detour.time).result "detour" false
    Leads (result.LeansOn Detour.graph) result.IsLeftOut "last" ∧
      ∃ n ∈ Detour.graph.nodes, result.Broke n.id := by
  have hi : (Detour.broken.pass Detour.time).1.inFlight = [] := by
    rw [Detour.broken_pass]
    decide
  obtain ⟨-,-,hdead,hfailed⟩ := skips_are_explained Definition.detour_build
    Definition.detour_isKeyed (.self _) Detour.reaches_broken Detour.time hi Detour.time "detour"
  refine ⟨hdead (by decide) "last" ["late"] ?_,hfailed ?_⟩
  · rw [Detour.broken_pass]
    exact ⟨_,rfl,by decide,by decide⟩
  · rw [Detour.broken_pass]
    decide

end Schedule

end TaskGraph
