import TaskGraph.Proofs.Engine.Coherent

/-!
The turns of a run: what a pass, an event and a cancellation do to it, and that runs and tasks go on
fitting together.
-/

namespace TaskGraph

namespace Schedule

variable {s : Schedule}

theorem IsTable.pass (h : s.IsTable) (now : Instant) : (s.pass now).1.IsTable := h.resolveDead

theorem pass_inFlight (s : Schedule) (now : Instant) :
    (s.pass now).1.inFlight = s.inFlight ++ (s.pass now).2.map GraphNode.id := by
  rw [pass_fst,pass_snd,dispatch_inFlight,(resolveDead_frame now s).2.1]

/-- What a pass dispatches is a node of the graph that was not under way and had not ended. -/
theorem of_mem_pass {now : Instant} {n : GraphNode Graph} (hn : n ∈ (s.pass now).2) :
    n ∈ s.graph.nodes ∧ n.id ∉ s.inFlight ∧ (s.status n.id).isTerminal = false := by
  obtain ⟨hg,hi,-⟩ := resolveDead_frame now s
  rw [pass_snd] at hn
  obtain ⟨hm,ho,-⟩ := (s.resolveDead now).mem_ready.mp hn
  obtain ⟨hp,hf⟩ := isOpen_iff.mp ho
  refine ⟨hg ▸ hm,hi ▸ hf,?_⟩
  rw [Bool.eq_false_iff]
  intro ht
  have hk : (s.pass now).1.status n.id = s.status n.id :=
    status_of_terminal (.pass now .refl) ht
  rw [pass_fst,dispatch_status,hp] at hk
  rw [← hk] at ht
  cases ht

theorem pass_nodup (hd : s.graph.ids.Nodup) (now : Instant) :
    ((s.pass now).2.map GraphNode.id).Nodup := by
  have hsub : ((s.pass now).2.map GraphNode.id).Sublist s.graph.ids := by
    rw [pass_snd,← (resolveDead_frame now s).1]
    exact List.Sublist.map _ List.filter_sublist
  exact hd.sublist hsub

theorem finished_isTerminal (h : s.IsTable) (now : Instant) {id : String} (hid : id ∈ s.graph.ids)
    (report : Report) : ((s.apply now (.finished id report)).status id).isTerminal = true := by
  obtain ⟨r,hr⟩ := h.record?.mp hid
  cases ht : r.status.isTerminal with
  | false =>
    rw [status_finished_self now hr ht]
    exact report.ending.status_isTerminal
  | true =>
    rw [status_eq _ (apply_of_terminal s now _ hr ht)]
    exact ht

theorem mem_inFlight_apply {now : Instant} {e : Event} {id : String} :
    id ∈ (s.apply now e).inFlight ↔ id ∈ s.inFlight ∧ (e.isReport = true → id ≠ e.node) := by
  cases e with
  | started other time => simp [inFlight_started,Event.isReport]
  | finished other report => simp [inFlight_finished,Event.isReport,Event.node]

/-- What is awaited goes on being awaited, unless its node reports. -/
theorem Awaits.apply {e : Event} (h : s.Awaits e) (now : Instant) {first : Event}
    (hne : first.isReport = true → e.node ≠ first.node) : (s.apply now first).Awaits e := by
  have hg := (apply_frame s now first).1
  cases e with
  | started id time => exact mem_inFlight_apply.mpr ⟨h,hne⟩
  | finished id report =>
    refine ⟨mem_inFlight_apply.mpr ⟨h.1,hne⟩,?_⟩
    rw [hg]
    exact h.2

/-- What a schedule becomes when nodes are dispatched. -/
structure Grows (s t : Schedule) (nodes : List (GraphNode Graph)) : Prop where
  graph : t.graph = s.graph
  table : s.IsTable → t.IsTable
  inFlight : t.inFlight = s.inFlight ++ nodes.map GraphNode.id
  later : Later s t
  fresh : ∀ n ∈ nodes,
    n ∈ s.graph.nodes ∧ n.id ∉ s.inFlight ∧ (s.status n.id).isTerminal = false
  nodup : s.graph.ids.Nodup → (nodes.map GraphNode.id).Nodup

theorem Grows.refl (s : Schedule) : Grows s s [] where
  graph := rfl
  table h := h
  inFlight := (List.append_nil _).symm
  later := .refl
  fresh _ hn := absurd hn List.not_mem_nil
  nodup _ := List.nodup_nil

theorem grows_pass (s : Schedule) (now : Instant) : Grows s (s.pass now).1 (s.pass now).2 where
  graph := pass_graph s now
  table h := h.pass now
  inFlight := pass_inFlight s now
  later := .pass now .refl
  fresh _ hn := of_mem_pass hn
  nodup hd := pass_nodup hd now

theorem Awaits.grows {e : Event} {t : Schedule} {nodes : List (GraphNode Graph)} (h : s.Awaits e)
    (hg : Grows s t nodes) : t.Awaits e := by
  have hi {id : String} (hid : id ∈ s.inFlight) : id ∈ t.inFlight := by
    rw [hg.inFlight]
    exact List.mem_append_left _ hid
  cases e with
  | started id time => exact hi h
  | finished id report =>
    refine ⟨hi h.1,?_⟩
    rw [hg.graph]
    exact h.2

end Schedule

namespace Engine

def Run.task (r : Run) (n : GraphNode Graph) : Task where
  id := ⟨r.id,n.id⟩
  node := n
  scope := r.schedule.scope
  path := r.path
  held := r.held

namespace World

variable {w v w' : World} {r r' : Run} {t : Task}

theorem publish_eq (r : Run) (time : Nat) (finished : Bool) :
    ∃ published, r.publish time finished = { r with published } := by
  unfold Run.publish
  split
  · exact ⟨r.published,rfl⟩
  · exact ⟨_,rfl⟩

/-- The schedule after a turn of a run, and the nodes dispatched. -/
def passed (w : World) (r : Run) : Schedule × List (GraphNode Graph) :=
  if r.stopped || w.isCancelled r.id then (r.schedule,[]) else r.schedule.pass w.now

theorem pass_eq (w : World) (r : Run) : w.pass r =
    let after := ({ r with schedule := (w.passed r).1, phase := .waiting } : Run).publish w.clock false
    if (w.passed r).1.inFlight.isEmpty then w.close after
    else (w.setRun after).spawn after (w.passed r).2 := rfl

/-- A pass that leaves nothing under way ends the run. -/
theorem pass_closed (hi : (w.passed r).1.inFlight = []) : ∃ published, w.pass r =
    w.setRun { r with
      schedule := (w.passed r).1.sweep w.now
      phase := .ended (((w.passed r).1.sweep w.now).result r.name (r.stopped || w.isCancelled r.id))
        w.clock
      published } := by
  obtain ⟨p,hp⟩ := publish_eq { r with schedule := (w.passed r).1, phase := .waiting } w.clock false
  obtain ⟨q,hq⟩ := publish_eq
    { r with schedule := (w.passed r).1.sweep w.now, phase := .waiting, published := p } w.clock true
  refine ⟨q,?_⟩
  simp only [pass_eq,hi,List.isEmpty_nil,if_true,hp,close,hq]

/-- Otherwise the run waits, and what was dispatched has tasks. -/
theorem pass_waiting (hi : (w.passed r).1.inFlight ≠ []) : ∃ published, Alike
    { w.setRun { r with schedule := (w.passed r).1, phase := .waiting, published } with
      tasks := w.tasks ++ (w.passed r).2.map { r with schedule := (w.passed r).1 }.task }
    (w.pass r) := by
  obtain ⟨p,hp⟩ := publish_eq { r with schedule := (w.passed r).1, phase := .waiting } w.clock false
  have hb : ¬ (w.passed r).1.inFlight.isEmpty = true := by
    rw [List.isEmpty_iff]
    exact hi
  refine ⟨p,?_⟩
  simp only [pass_eq,hp,if_neg hb,spawn]
  exact foldl_alike (fun w t => wake_alike w _) _ _

theorem pass_admission (w : World) (r : Run) : (w.pass r).admission = w.admission := by
  simp only [pass_eq]
  split
  · rfl
  · exact foldl_wake_admission _ _ _

theorem passed_grows (w : World) (r : Run) :
    Schedule.Grows r.schedule (w.passed r).1 (w.passed r).2 := by
  unfold passed
  split
  · exact .refl _
  · exact Schedule.grows_pass _ _

/-- A run that is over has nothing under way, and no task that goes on. -/
theorem Coherent.close (h : w.Coherent) (hr : r ∈ w.runs) (hi : (w.passed r).1.inFlight = [])
    (result : RunResult) (time : Nat) (published : List (Nat × Snapshot)) :
    (w.setRun { r with
      schedule := (w.passed r).1.sweep w.now, phase := .ended result time, published }).Coherent := by
  have hg := w.passed_grows r
  have hs := h.run r hr
  have hnone (id : String) : id ∉ r.schedule.inFlight := by
    intro hid
    have hmem := List.mem_append_left ((w.passed r).2.map GraphNode.id) hid
    rw [← hg.inFlight,hi] at hmem
    cases hmem
  refine h.setRun { r with
      schedule := (w.passed r).1.sweep w.now, phase := .ended result time, published } hr rfl
    rfl (List.append_nil _).symm ?_ ?_ ?_ List.nodup_nil ?_ ?_
  · constructor
    · exact hg.graph ▸ hs.graph
    · exact (hg.table hs.table).sweep w.now
    · intro id hid
      rw [show ((w.passed r).1.sweep w.now).inFlight = [] from hi] at hid
      cases hid
    · intro e he
      exact absurd (hs.awaited e he).mem (hnone e.node)
    · exact hs.reports
    · intro hp
      cases hp
    · exact fun _ => hi
  · intro t ht ha
    refine ⟨ha.id,hg.graph ▸ ha.node,fun hl => absurd (ha.going hl).1 (hnone _),fun hl => .inr ?_⟩
    have ht := (ha.left hl).resolve_left (hnone _)
    have hk := Schedule.status_of_terminal (.sweep w.now hg.later) ht
    rw [hk]
    exact ht
  · intro id hid
    rw [show ((w.passed r).1.sweep w.now).inFlight = [] from hi] at hid
    cases hid
  · intro t ht
    cases ht
  · intro t ht
    cases ht

/-- The run that waits after a pass. -/
theorem passed_sensible (hs : r.Sensible) (hi : (w.passed r).1.inFlight ≠ [])
    (published : List (Nat × Snapshot)) :
    ({ r with schedule := (w.passed r).1, phase := .waiting, published } : Run).Sensible := by
  have hg := w.passed_grows r
  constructor
  · exact hg.graph ▸ hs.graph
  · exact hg.table hs.table
  · intro id hid
    rw [hg.inFlight] at hid
    rw [hg.graph]
    rcases List.mem_append.mp hid with hid | hid
    · exact hs.known id hid
    · obtain ⟨n,hn,rfl⟩ := List.mem_map.mp hid
      exact Graph.mem_ids_of_mem (hg.fresh n hn).1
  · exact fun e he => (hs.awaited e he).grows hg
  · exact hs.reports
  · exact fun _ => hi
  · intro he
    cases he

theorem passed_at (w : World) (ha : t.At r) (published : List (Nat × Snapshot)) :
    t.At { r with schedule := (w.passed r).1, phase := .waiting, published } := by
  have hg := w.passed_grows r
  refine ⟨ha.id,hg.graph ▸ ha.node,fun hl => ⟨?_,(ha.going hl).2⟩,fun hl => ?_⟩
  · rw [hg.inFlight]
    exact List.mem_append_left _ (ha.going hl).1
  · rcases ha.left hl with hin | hterm
    · left
      rw [hg.inFlight]
      exact List.mem_append_left _ hin
    · right
      rw [Schedule.status_of_terminal hg.later hterm]
      exact hterm

/-- No task carries a node that is dispatched only now. -/
theorem Coherent.passed_fresh (h : w.Coherent) (hr : r ∈ w.runs) {n : GraphNode Graph}
    (hn : n ∈ (w.passed r).2) (ht : t ∈ w.tasks) : t.id ≠ ⟨r.id,n.id⟩ := by
  intro he
  obtain ⟨-,hf,hopen⟩ := (w.passed_grows r).fresh n hn
  have ha := h.at ht hr (by rw [he])
  have hnode : t.id.node = n.id := by rw [he]
  cases hl : t.phase.isLeaving with
  | false => exact hf (hnode ▸ (ha.going hl).1)
  | true =>
    rcases ha.left hl with hin | hterm
    · exact hf (hnode ▸ hin)
    · rw [hnode,hopen] at hterm
      cases hterm

theorem Coherent.wait (h : w.Coherent) (hr : r ∈ w.runs) (hi : (w.passed r).1.inFlight ≠ [])
    (published : List (Nat × Snapshot)) :
    ({ w.setRun { r with schedule := (w.passed r).1, phase := .waiting, published } with
      tasks := w.tasks ++ (w.passed r).2.map { r with schedule := (w.passed r).1 }.task } :
        World).Coherent := by
  have hg := w.passed_grows r
  have hs := h.run r hr
  refine h.setRun { r with schedule := (w.passed r).1, phase := .waiting, published } hr rfl
    rfl rfl (passed_sensible hs hi published) (fun t _ ha => passed_at w ha published) ?_ ?_ ?_ ?_
  · intro id hid
    rw [hg.inFlight] at hid
    rcases List.mem_append.mp hid with hid | hid
    · rcases h.carried r hr id hid with hrep | ⟨t,ht,he⟩
      · exact .inl hrep
      · exact .inr ⟨t,List.mem_append_left _ ht,he⟩
    · obtain ⟨n,hn,rfl⟩ := List.mem_map.mp hid
      exact .inr ⟨_,List.mem_append_right _ (List.mem_map.mpr ⟨n,hn,rfl⟩),rfl,rfl⟩
  · rw [List.map_map]
    have hd := hg.nodup (hs.graph _ (.self _))
    rw [List.nodup_map_iff_inj_on (List.Nodup.of_map _ hd)]
    intro m hm n hn he
    have hid : m.id = n.id := congrArg TaskId.node he
    exact List.inj_on_of_nodup_map hd hm hn hid
  · intro t ht u hu
    obtain ⟨n,hn,rfl⟩ := List.mem_map.mp ht
    exact h.passed_fresh hr hn hu
  · intro t ht
    obtain ⟨n,hn,rfl⟩ := List.mem_map.mp ht
    obtain ⟨hmem,hf,-⟩ := hg.fresh n hn
    have hnew : ({ r with schedule := (w.passed r).1 }.task n).Sensible :=
      ⟨rfl,trivial,fun id hid => absurd hid List.not_mem_nil⟩
    refine ⟨hnew,⟨rfl,hg.graph ▸ hmem,fun _ => ⟨?_,?_⟩,?_⟩,rfl⟩
    · rw [hg.inFlight]
      exact List.mem_append_right _ (List.mem_map.mpr ⟨n,hn,rfl⟩)
    · rintro ⟨report,hrep⟩
      exact hf (hs.awaited _ hrep).mem
    · intro hl
      cases hl

theorem Coherent.pass (h : w.Coherent) (hr : r ∈ w.runs) : (w.pass r).Coherent := by
  by_cases hi : (w.passed r).1.inFlight = []
  · obtain ⟨p,hp⟩ := pass_closed hi
    rw [hp]
    exact h.close hr hi _ _ p
  · obtain ⟨p,hp⟩ := pass_waiting hi
    exact (h.wait hr hi p).of_alike hp

theorem Coherent.notice (h : w.Coherent) (hr : r ∈ w.runs) : (w.notice r).Coherent := by
  have hs := h.run r hr
  refine h.setRun { r with stopped := true, phase := .passing } hr rfl rfl
    (List.append_nil _).symm ?_ ?_ ?_ List.nodup_nil ?_ ?_
  · refine ⟨hs.graph,hs.table,hs.known,hs.awaited,hs.reports,?_,?_⟩
    · intro hp
      cases hp
    · intro he
      cases he
  · exact fun t _ ha => ⟨ha.id,ha.node,ha.going,ha.left⟩
  · intro id hid
    rw [List.append_nil]
    exact h.carried r hr id hid
  · intro t ht
    cases ht
  · intro t ht
    cases ht

theorem Coherent.cancel (h : w.Coherent) (n : Nat) : (w.cancel n).Coherent := by
  obtain ⟨c,ha,-⟩ := w.cancel_alike n
  refine Coherent.of_alike ?_ ha
  exact ⟨h.runs_nodup,h.tasks_nodup,h.run,h.task,h.home,h.carried,h.children,h.owned⟩

theorem Coherent.expire (h : w.Coherent) (hr : r ∈ w.runs) : (w.expire r).Coherent := by
  obtain ⟨c,ha,-⟩ := w.cancel_alike r.id.root
  exact (h.cancel r.id.root).notice (ha.runs.symm ▸ hr)

section Take

variable {e : Event} {rest : List Event} (hi : r.inbox = e::rest) (now : Instant)

include hi

/-- The run that passes on after an event. -/
theorem taken_sensible (hs : r.Sensible) : ({ r with
    schedule := r.schedule.apply now e, inbox := rest, phase := .passing } : Run).Sensible := by
  have hgraph := (Schedule.apply_frame r.schedule now e).1
  have hreports := hs.reports
  rw [hi,List.pairwise_cons] at hreports
  constructor
  · exact hgraph ▸ hs.graph
  · exact hs.table.apply now e
  · intro id hid
    rw [hgraph]
    exact hs.known id (Schedule.mem_inFlight_apply.mp hid).1
  · intro other ho
    have ha := hs.awaited other (by rw [hi]; exact List.mem_cons_of_mem _ ho)
    exact ha.apply now (hreports.1 other ho)
  · exact hreports.2
  · intro hp
    cases hp
  · intro he
    cases he

theorem taken_at (hs : r.Sensible) (ha : t.At r) : t.At { r with
    schedule := r.schedule.apply now e, inbox := rest, phase := .passing } := by
  have hgraph := (Schedule.apply_frame r.schedule now e).1
  have hlater : Schedule.Later r.schedule (r.schedule.apply now e) := .event now e .refl
  refine ⟨ha.id,hgraph ▸ ha.node,fun hl => ?_,fun hl => ?_⟩
  · obtain ⟨hin,hrep⟩ := ha.going hl
    constructor
    · refine Schedule.mem_inFlight_apply.mpr ⟨hin,fun he hne => hrep ?_⟩
      cases e with
      | started => cases he
      | finished id report =>
        rw [hne]
        exact ⟨report,by rw [hi]; exact List.mem_cons_self⟩
    · rintro ⟨report,hrest⟩
      exact hrep ⟨report,by rw [hi]; exact List.mem_cons_of_mem _ hrest⟩
  · rcases ha.left hl with hin | hterm
    · by_cases hd : e.isReport = true ∧ t.id.node = e.node
      · right
        cases e with
        | started => cases hd.1
        | finished id report =>
          have hnode : t.id.node = id := hd.2
          rw [hnode] at hin ⊢
          exact Schedule.finished_isTerminal hs.table now (hs.known id hin) report
      · exact .inl (Schedule.mem_inFlight_apply.mpr ⟨hin,fun he hne => hd ⟨he,hne⟩⟩)
    · right
      rw [Schedule.status_of_terminal hlater hterm]
      exact hterm

theorem Coherent.take (h : w.Coherent) (hr : r ∈ w.runs) : (w.take r e rest).Coherent := by
  have hs := h.run r hr
  refine h.setRun { r with
      schedule := r.schedule.apply w.now e, inbox := rest, phase := .passing } hr rfl rfl
    (List.append_nil _).symm (taken_sensible hi w.now hs) (fun t _ ha => taken_at hi w.now hs ha)
    ?_ List.nodup_nil ?_ ?_
  · intro id hid
    obtain ⟨hin,hne⟩ := Schedule.mem_inFlight_apply.mp hid
    rw [List.append_nil]
    rcases h.carried r hr id hin with ⟨report,hrep⟩ | ht
    · left
      rw [hi] at hrep
      rcases List.mem_cons.mp hrep with he | hrest
      · rw [← he] at hne
        exact absurd rfl (hne rfl)
      · exact ⟨report,hrest⟩
    · exact .inr ht
  · intro t ht
    cases ht
  · intro t ht
    cases ht

end Take

inductive RunTurn (w : World) (r : Run) : World → Prop
  | passes : r.phase = .passing → RunTurn w r (w.pass r)
  | notices : r.phase = .waiting → r.stopped = false → w.isCancelled r.id = true →
    RunTurn w r (w.notice r)
  | expires : r.phase = .waiting → r.stopped = false → w.hasExpired r = true →
    RunTurn w r (w.expire r)
  | takes {e : Event} {rest : List Event} : r.phase = .waiting → r.inbox = e::rest →
    RunTurn w r (w.take r e rest)

theorem Coherent.runTurn (h : w.Coherent) (hr : r ∈ w.runs) (ht : RunTurn w r w') :
    w'.Coherent := by
  cases ht with
  | passes => exact h.pass hr
  | notices => exact h.notice hr
  | expires => exact h.expire hr
  | takes _ hi => exact h.take hi hr

end World

end Engine

end TaskGraph
