import TaskGraph.Engine.Task
import TaskGraph.Proofs.Schedule.Dispatch

/-!
Routing by branches. The history of a run says what became of its nodes: a target is dispatched only
after every branch that may select it has reported that it does, and what a branch leaves out is
skipped for good.
-/

namespace TaskGraph

/-- Of the targets of a branch, a success selects those that it does not leave out. -/
def Ending.Selects (e : Ending) (targets : List String) (id : String) : Prop :=
  e.status = .success ∧ id ∈ targets ∧ id ∉ e.unselected

namespace History

theorem mem_events {h : History} {e : Event} : e ∈ h.events ↔ .event e ∈ h := by
  rw [events,List.mem_filterMap]
  constructor
  · rintro ⟨o,ho,he⟩
    cases o with
    | dispatch => cases he
    | event => cases he; exact ho
  · exact fun he => ⟨_,he,rfl⟩

/-- What stands in a longer history stood in the shorter one, or is new and comes after all of it. -/
theorem split_append {h new before after : History} {o : Occurrence}
    (he : h ++ new = before ++ o::after) : (∃ rest, h = before ++ o::rest) ∨ h ⊆ before ∧ o ∈ new := by
  obtain ⟨mid,hb,hn⟩ | ⟨mid,hh,hn⟩ := List.append_eq_append_iff.mp he
  · refine .inr ⟨hb ▸ List.subset_append_left h mid,?_⟩
    rw [hn]
    exact List.mem_append_right _ List.mem_cons_self
  · cases mid with
    | nil =>
      rw [List.append_nil] at hh
      refine .inr ⟨hh ▸ List.Subset.refl _,?_⟩
      rw [← show o::after = new from hn]
      exact List.mem_cons_self
    | cons x rest =>
      obtain ⟨rfl,-⟩ := List.cons.inj hn
      exact .inl ⟨rest,hh⟩

/-- Whether targets were dispatched only after all branches that may select them did so. -/
def IsRouted (h : History) (nodes : List (GraphNode Graph)) : Prop :=
  ∀ before id after, h = before ++ .dispatch id::after → ∀ n ∈ nodes, id ∈ n.kind.targets →
    ∃ report, .finished n.id report ∈ events before ∧ report.ending.Selects n.kind.targets id

theorem IsRouted.append {h : History} {nodes : List (GraphNode Graph)} (hr : h.IsRouted nodes)
    {new : History} (hn : ∀ id, .dispatch id ∈ new → ∀ n ∈ nodes, id ∈ n.kind.targets →
      ∃ report, .finished n.id report ∈ h.events ∧ report.ending.Selects n.kind.targets id) :
    IsRouted (h ++ new) nodes := by
  intro before id after he n hnode ht
  obtain ⟨rest,rfl⟩ | ⟨hsub,hid⟩ := split_append he
  · exact hr before id rest rfl n hnode ht
  · obtain ⟨report,hm,hs⟩ := hn id hid n hnode ht
    exact ⟨report,mem_events.mpr (hsub (mem_events.mp hm)),hs⟩

end History

namespace Schedule

/-- What a history tells of the states of nodes: who was not dispatched waits or is skipped, who has
succeeded has reported it, and what a report leaves out is skipped. -/
structure Told (h : History) (s : Schedule) : Prop where
  idle : ∀ id, id ∉ h.dispatched → s.status id = .pending ∨ s.status id = .skipped
  succeeded : ∀ id, s.status id = .success →
    ∃ report, .finished id report ∈ h.events ∧ report.ending.status = .success
  leftOut : ∀ id report, .finished id report ∈ h.events → ∀ target ∈ report.ending.unselected,
    s.status target = .skipped
  routed : h.IsRouted s.graph.nodes

namespace Told

variable {h : History} {s : Schedule}

theorem start (graph : Graph) (scope : Scope) : Told [] (Schedule.start graph scope) where
  idle id _ := .inl (start_status graph scope id)
  succeeded := by
    intro id hs
    rw [start_status] at hs
    cases hs
  leftOut := by simp [History.events]
  routed := by
    intro before id after he
    simp at he

theorem skip (ht : Told h s) (hs : Consistent h s) {now : Instant} {n : GraphNode Graph}
    {reason : SkipReason} (hn : n ∈ s.graph.nodes) (hd : s.deadReason? n = some reason) :
    Told h (s.change n.id (·.skip now reason)) := by
  have hst := status_skip now hs.table hn hd
  have hp := (isOpen_iff.mp (deadReason?_eq_some.mp hd).1).1
  constructor
  · intro id hid
    rw [hst]
    split
    · exact .inr rfl
    · exact ht.idle id hid
  · intro id hsucc
    rw [hst] at hsucc
    split at hsucc
    · cases hsucc
    · exact ht.succeeded id hsucc
  · intro id report hm target hu
    rw [hst,ht.leftOut id report hm target hu,ite_self]
  · rw [change_graph]
    exact ht.routed

theorem dispatch (ht : Told h s) (hg : s.graph.Sound) :
    Told (h ++ s.ready.map (.dispatch ·.id)) s.dispatch where
  idle id hid := by
    rw [History.dispatched_dispatches,List.mem_append,not_or] at hid
    exact ht.idle id hid.1
  succeeded := by
    rw [History.events_dispatches]
    exact ht.succeeded
  leftOut := by
    rw [History.events_dispatches]
    exact ht.leftOut
  routed := by
    refine ht.routed.append fun id hid n hn hidn => ?_
    obtain ⟨m,hm,he⟩ := List.mem_map.mp hid
    cases he
    obtain ⟨hmg,ho,hready⟩ := s.mem_ready.mp hm
    -- A target waits for the success of the branch, whose report has not left it out.
    have hsucc := (hg.gated n hn m hmg hidn).success hready
    obtain ⟨report,hrep,hst⟩ := ht.succeeded n.id hsucc
    refine ⟨report,hrep,hst,hidn,fun hu => ?_⟩
    have hk := ht.leftOut n.id report hrep m.id hu
    rw [(isOpen_iff.mp ho).1] at hk
    cases hk

theorem started (ht : Told h s) (hs : Consistent h s) (now : Instant) {id : String}
    (hid : id ∈ s.inFlight) (time : Instant) :
    Told (h ++ [.event (.started id time)]) (s.apply now (.started id time)) := by
  have hst (other : String) := s.status_started now id other time
  constructor
  · intro other ho
    rw [History.dispatched_event] at ho
    have hne : other ≠ id := fun he => ho (he ▸ hs.dispatched id hid)
    rw [(hst other).resolve_right fun h => hne h.1]
    exact ht.idle other ho
  · intro other hsucc
    rw [History.events_event]
    have hold : s.status other = .success := by
      rcases hst other with he | ⟨-,-,he⟩
      · exact he ▸ hsucc
      · rw [he] at hsucc
        cases hsucc
    obtain ⟨report,hm,hr⟩ := ht.succeeded other hold
    exact ⟨report,List.mem_append_left _ hm,hr⟩
  · intro other report hm target hu
    rw [History.events_event,List.mem_append] at hm
    have hm' := hm.resolve_right (by simp)
    have hk := ht.leftOut other report hm' target hu
    rw [(hst target).resolve_right fun h => by rw [h.2.1] at hk; cases hk]
    exact hk
  · rw [(apply_frame s now _).1]
    exact ht.routed.append (by simp)

theorem finished (ht : Told h s) (hs : Consistent h s) (hg : s.graph.Sound) (now : Instant)
    {id : String} {report : Report} (ha : s.Awaits (.finished id report)) :
    Told (h ++ [.event (.finished id report)]) (s.apply now (.finished id report)) := by
  obtain ⟨r,hr⟩ := hs.table.record?.mp (hs.known id ha.1)
  have hopen : r.status.isTerminal = false := s.status_eq hr ▸ hs.unfinished id ha.1
  have hself := status_finished_self now hr hopen report
  have hlater : Later s (s.apply now (.finished id report)) := .event now _ .refl
  constructor
  · intro other ho
    rw [History.dispatched_event] at ho
    have hne : other ≠ id := fun he => ho (he ▸ hs.dispatched id ha.1)
    rcases hs.status_finished_other now ha hne with hk | ⟨-,-,hk⟩
    · rw [hk]
      exact ht.idle other ho
    · exact .inr hk
  · intro other hsucc
    rw [History.events_event]
    by_cases he : other = id
    · subst he
      exact ⟨report,List.mem_append_right _ List.mem_cons_self,hself ▸ hsucc⟩
    · have hold : s.status other = .success := by
        rcases hs.status_finished_other now ha he with hk | ⟨-,-,hk⟩
        · exact hk ▸ hsucc
        · rw [hk] at hsucc
          cases hsucc
      obtain ⟨report',hm,hst⟩ := ht.succeeded other hold
      exact ⟨report',List.mem_append_left _ hm,hst⟩
  · intro other report' hm target hu
    rw [History.events_event,List.mem_append,List.mem_singleton] at hm
    rcases hm with hm | hm
    · have hk := ht.leftOut other report' hm target hu
      rw [status_of_terminal hlater (by rw [hk]; rfl),hk]
    · cases hm
      -- A target that is left out now was not dispatched, so it waits or is skipped already.
      have hnd := hs.not_dispatched_of_unselected ha hu
      have hne : target ≠ id := fun he => hnd (he ▸ hs.dispatched id ha.1)
      rcases ht.idle target hnd with hp | hk
      · obtain ⟨n,hn,rfl⟩ := Graph.mem_ids.mp (hs.known id ha.1)
        have hmem := (hg.targets n hn target (ha.2 n hn rfl hu)).2
        obtain ⟨q,hq⟩ := hs.table.record?.mp hmem
        have hqo : q.status.isTerminal = false := by
          rw [← s.status_eq hq,hp]
          rfl
        rw [status_finished_of_ne now hr hq hne hqo,if_pos hu]
      · rw [status_of_terminal hlater (by rw [hk]; rfl),hk]
  · rw [(apply_frame s now _).1]
    exact ht.routed.append (by simp)

end Told

variable {graph : Graph} {scope : Scope} {h : History} {s : Schedule}

theorem Reaches.told (hr : Reaches graph scope h s) (hg : graph.Sound) : Told h s := by
  induction hr with
  | start => exact .start graph scope
  | @pass h s now hr ih =>
    have hkept : Consistent h (s.resolveDead now) ∧ Told h (s.resolveDead now) :=
      resolveDead_induction (P := fun t => Consistent h t ∧ Told h t)
        (fun t n reason ht hn hd => ⟨ht.1.skip hn hd,ht.2.skip ht.1 hn hd⟩) s
        ⟨hr.consistent hg,ih⟩
    have hgd : (s.resolveDead now).graph.Sound := by
      rw [(resolveDead_frame now s).1,hr.graph_eq]
      exact hg
    exact hkept.2.dispatch hgd
  | @event h s e now hr ha ih =>
    have hs := hr.consistent hg
    cases e with
    | started id time => exact ih.started hs now ha time
    | finished id report => exact ih.finished hs (hr.graph_eq ▸ hg) now ha

end Schedule

section Evaluation

theorem nodup_eraseDups (l : List String) : l.eraseDups.Nodup := by
  generalize hn : l.length = n
  induction n using Nat.strongRecOn generalizing l with
  | _ n ih =>
    subst hn
    cases l with
    | nil => exact List.nodup_nil
    | cons a rest =>
      rw [List.eraseDups_cons,List.nodup_cons]
      refine ⟨by simp,ih _ ?_ _ rfl⟩
      have := List.length_filter_le (fun b => !b == a) rest
      rw [List.length_cons]
      omega

theorem NodeKind.mem_targets {arms : List Arm} {fallback : List String} {id : String} :
    id ∈ (NodeKind.branch arms fallback : NodeKind Graph).targets ↔
      id ∈ fallback ∨ ∃ arm ∈ arms, id ∈ arm.targets := by
  rw [targets,List.mem_eraseDups,List.mem_append,List.mem_flatMap,or_comm]

/-- What a branch reports that selects some of its targets. -/
def Attempt.routing (selected targets : List String) : Ending :=
  .success (selection selected targets).value (selection selected targets).unselected

variable {selected targets : List String} {id : String}

theorem Attempt.mem_unselected :
    id ∈ (routing selected targets).unselected ↔ id ∈ targets ∧ id ∉ selected := by
  simp [routing,Ending.unselected,selection]

theorem Attempt.routing_selects (hsub : selected ⊆ targets) :
    (routing selected targets).Selects targets id ↔ id ∈ selected := by
  constructor
  · rintro ⟨-,ht,hu⟩
    by_contra hn
    exact hu (mem_unselected.mpr ⟨ht,hn⟩)
  · exact fun hs => ⟨rfl,hsub hs,fun hu => (mem_unselected.mp hu).2 hs⟩

namespace Engine

variable {σ : Setting} {scope : Value} {fallback : List String} {arms : List Arm}

/-- What is selected are the targets of an arm, or the fallback. -/
theorem Task.select_subset {kind : NodeKind Graph} (hk : kind = .branch arms fallback)
    (h : Task.select σ scope fallback arms = .ok selected) : selected ⊆ kind.targets := by
  have hfrom : selected = fallback ∨ ∃ arm ∈ arms, selected = arm.targets := by
    clear hk
    induction arms with
    | nil =>
      cases h
      exact .inl rfl
    | cons arm rest ih =>
      unfold Task.select at h
      split at h
      · cases h
      · cases h
        exact .inr ⟨arm,List.mem_cons_self,rfl⟩
      · exact (ih h).imp_right fun ⟨a,ha,he⟩ => ⟨a,List.mem_cons_of_mem arm ha,he⟩
  intro id hid
  rw [hk,NodeKind.mem_targets]
  obtain rfl | ⟨arm,harm,rfl⟩ := hfrom
  · exact .inl hid
  · exact .inr ⟨arm,harm,hid⟩

/-- A branch that can be evaluated reports what it selects at once. -/
theorem World.beginAttempt_branch {w : World} {t : Task} (hk : t.node.kind = .branch arms fallback)
    (h : Task.select σ t.scope.value fallback arms = .ok selected) (attempt : Nat) :
    w.beginAttempt σ t attempt =
      w.report t (Attempt.routing selected t.node.kind.targets) attempt := by
  simp only [beginAttempt,hk,h,afterAttempt,RetryPolicy.verdict,finishAttempts,conclude,
    Attempt.routing]

end Engine

end Evaluation

namespace Schedule

/-- In a run of a graph that was built a target of branches is dispatched only after each of them has
reported that it selects it. A target that a branch has not selected is skipped and stays so, and is
never dispatched. Whenever a branch is evaluated, what it selects and what it leaves out are together
its targets, each one or the other, and nothing is left out twice. -/
theorem routing_is_followed {cap : Nat} {d : Definition} {g graph : Graph} {scope : Scope}
    {h : History} {s : Schedule} (hb : d.build cap = .ok g) (hk : d.isKeyed = true)
    (hc : g.Contains graph) (hr : Reaches graph scope h s) {branch : GraphNode Graph}
    (hn : branch ∈ graph.nodes) :
    (∀ before id after, h = before ++ .dispatch id::after → id ∈ branch.kind.targets →
      ∃ report, .finished branch.id report ∈ History.events before ∧
        report.ending.Selects branch.kind.targets id) ∧
    (∀ report, .finished branch.id report ∈ h.events → report.ending.status = .success →
      ∀ id ∈ branch.kind.targets, ¬ report.ending.Selects branch.kind.targets id →
        id ∉ h.dispatched ∧ ∀ t, Later s t → t.status id = .skipped) ∧
    ∀ (σ : Engine.Setting) (w : Engine.World) (t : Engine.Task) (attempt : Nat) (arms : List Arm)
      (fallback selected : List String), t.node = branch →
      branch.kind = .branch arms fallback →
      Engine.Task.select σ t.scope.value fallback arms = .ok selected →
      let ending := Attempt.routing selected branch.kind.targets
      w.beginAttempt σ t attempt = w.report t ending attempt ∧
      (∀ id, ending.Selects branch.kind.targets id ↔ id ∈ selected) ∧
      (∀ id, id ∈ selected ∨ id ∈ ending.unselected ↔
        id ∈ fallback ∨ ∃ arm ∈ arms, id ∈ arm.targets) ∧
      (∀ id ∈ selected, id ∉ ending.unselected) ∧ ending.unselected.Nodup := by
  have hg := Definition.sound_of_build hb hk hc
  have ht := hr.told hg
  refine ⟨?_,?_,?_⟩
  · intro before id after he hid
    exact ht.routed before id after he branch (hr.graph_eq.symm ▸ hn) hid
  · intro report hm hst id hid hnot
    have hu : id ∈ report.ending.unselected := by
      by_contra hu
      exact hnot ⟨hst,hid,hu⟩
    have hskipped := ht.leftOut branch.id report hm id hu
    refine ⟨fun hd => hr.not_skipped hg hd hskipped,fun t hl => ?_⟩
    rw [status_of_terminal hl (by rw [hskipped]; rfl),hskipped]
  · intro σ w t attempt arms fallback selected hnode hkind hs
    subst hnode
    have hsub := Engine.Task.select_subset hkind hs
    refine ⟨Engine.World.beginAttempt_branch hkind hs attempt,
      fun id => Attempt.routing_selects hsub,fun id => ?_,fun id hid hu => ?_,?_⟩
    · rw [Attempt.mem_unselected,← NodeKind.mem_targets,← hkind]
      constructor
      · rintro (hid | hid)
        · exact hsub hid
        · exact hid.1
      · intro hid
        by_cases hsel : id ∈ selected
        · exact .inl hsel
        · exact .inr ⟨hid,hsel⟩
    · exact (Attempt.mem_unselected.mp hu).2 hid
    · have hnodup : t.node.kind.targets.Nodup := by
        rw [hkind]
        exact nodup_eraseDups _
      exact hnodup.filter _

namespace Detour

abbrev pick : GraphNode Graph where
  id := "pick"
  description := none
  kind := .branch [⟨.bool true,["short"]⟩] ["long"]
  dependency := none
  tags := []
  retry := .once
  timeout := none
  handler := none

theorem pick_mem : pick ∈ graph.nodes := List.mem_of_mem_head? rfl

/-- A task that carries the branch, about to evaluate it. -/
abbrev picker : Engine.Task where
  id := ⟨⟨0,[]⟩,"pick"⟩
  node := pick
  scope := {}
  path := ""
  held := []

end Detour

/-- The branch takes the short way, which is dispatched only then; the long way is given up for good. -/
theorem routing_is_followed_detour :
    (∃ report, .finished "pick" report ∈
        History.events [.dispatch "pick",.event (.finished "pick" Detour.taken)] ∧
      report.ending.Selects ["short","long"] "short") ∧
    (∀ t, Later Detour.joining t → t.status "long" = .skipped) ∧
    (Attempt.routing ["short"] ["short","long"]).unselected.Nodup ∧
    ∀ id, (Attempt.routing ["short"] ["short","long"]).Selects ["short","long"] id ↔ id = "short" := by
  obtain ⟨hbefore,hleft,heval⟩ := routing_is_followed Definition.detour_build
    Definition.detour_isKeyed (.self _) Detour.reaches_joining Detour.pick_mem
  refine ⟨?_,fun t ht => ?_,?_⟩
  · exact hbefore [.dispatch "pick",.event (.finished "pick" Detour.taken)] "short" _ rfl (by decide)
  · have hnot : ¬ Detour.taken.ending.Selects Detour.pick.kind.targets "long" := by
      rintro ⟨-,-,hu⟩
      exact hu (by decide)
    exact (hleft Detour.taken (by simp [History.events]) rfl "long" (by decide) hnot).2 t ht
  · let w : Engine.World := { admission := .start {} 1 }
    obtain ⟨-,hsel,-,-,hnodup⟩ := heval { actions := [] } w Detour.picker 1 _ _ ["short"] rfl rfl rfl
    exact ⟨hnodup,fun id => (hsel id).trans List.mem_singleton⟩

end Schedule

end TaskGraph
