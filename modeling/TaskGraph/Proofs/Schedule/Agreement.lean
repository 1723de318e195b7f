import TaskGraph.Proofs.Schedule.Precedence

/-!
What complete runs agree on in which it is settled in advance how each node ends. Every node ends in
the same state whatever the order of events; why a node was skipped may depend on that order, and so
may how the run ends, but only where a terminal node may be given up by routing or by a failure.
-/

namespace TaskGraph

namespace Schedule

section Agreement

variable {graph : Graph} {fate : String → Fate} {scope : Scope} {h : History} {s t : Schedule}

/-- Whoever is skipped for another reason than a failure can be given up by routing. The induction
follows the dependencies, among which all reasons lie. -/
theorem Reasoned.bypassed (hr : Reasoned h s) (hs : s.IsTable) (hg : s.graph.Sound)
    (hp : ∀ n ∈ s.graph.nodes, n.isPositive = true) (hf : h.Follows s.graph fate) (id : String) :
    s.IsBypassed id → s.graph.Bypassed fate s.status id := by
  induction id using hg.wellFounded.induction with
  | _ id ih =>
    rintro ⟨r,hrec,hst,hfree⟩
    obtain ⟨n,hn,rfl⟩ := Graph.mem_ids.mp (hs.record?.mpr ⟨r,hrec⟩)
    obtain ⟨reason,hreason⟩ := (hr.skipped n.id r hrec).mp hst
    have hj := hr.justified n hn r reason hrec hreason
    cases reason with
    | blocked ids => simp [Record.isBlocked,hreason] at hfree
    | branchNotTaken branch =>
      obtain ⟨b,hb,rfl,hsucc,htarget,report,hmem,-,hleft⟩ := hj
      rw [hf b.id report hmem b hb rfl] at hleft
      have hout := (Fate.mem_unselected.mp hleft).2
      exact .leftOut hn (Graph.isLeftOut_iff.mpr ⟨b,hb,hsucc,htarget,hout⟩)
    | deadPath ids =>
      obtain ⟨skipped,hskipped,hu⟩ := hj (hp n hn)
      refine .ruledOut hn (fun id hid => (hskipped id hid).1) (fun id hid => ?_) hu
      obtain ⟨href,hbypassed⟩ := hskipped id hid
      exact ih id (hg.mem_dependencies hn href) hbypassed

/-- Acceptable terminal nodes have succeeded, or can be given up by routing. -/
theorem Reasoned.of_acceptable (hr : Reasoned h s) (hs : s.IsTable) (hg : s.graph.Sound)
    (hp : ∀ n ∈ s.graph.nodes, n.isPositive = true) (hf : h.Follows s.graph fate) {id : String}
    (ha : RunResult.isAcceptable s.records id = true) : s.status id = .success ∨
      s.status id = .skipped ∧ s.graph.Bypassed fate s.status id := by
  cases hrec : s.record? id with
  | none =>
    have hfind : RunResult.find? s.records id = none := hrec
    simp [RunResult.isAcceptable,hfind] at ha
  | some r =>
    have hfind : RunResult.find? s.records id = some r := hrec
    simp only [RunResult.isAcceptable,hfind,Option.map_some,Option.getD_some] at ha
    rw [s.status_eq hrec]
    unfold Record.isAcceptable at ha
    split at ha
    · next hst => exact .inl hst
    · next hst =>
      have hfree : r.isBlocked = false := by
        cases hreason : r.skipReason with
        | none => simp [hreason] at ha
        | some reason => cases reason <;> simp_all [Record.isBlocked,SkipReason.isByDesign]
      exact .inr ⟨hst,hr.bypassed hs hg hp hf id ⟨r,hrec,hst,hfree⟩⟩
    · cases ha

/-- Terminal nodes that are not acceptable have not succeeded, and a failure has kept those from
running that are skipped. -/
theorem Timely.of_unacceptable (ht : Timely fate h s) (hr : Reasoned h s) (hs : s.IsTable)
    {id : String} (hid : id ∈ s.graph.ids) (ha : RunResult.isAcceptable s.records id = false) :
    s.status id ≠ .success ∧
      (s.status id = .skipped → ∃ cause, s.graph.Hindered fate s.status cause id) := by
  obtain ⟨r,hrec⟩ := hs.record?.mp hid
  have hfind : RunResult.find? s.records id = some r := hrec
  simp only [RunResult.isAcceptable,hfind,Option.map_some,Option.getD_some] at ha
  rw [s.status_eq hrec]
  constructor
  · intro hst
    simp [Record.isAcceptable,hst] at ha
  · intro hst
    obtain ⟨reason,hreason⟩ := (hr.skipped id r hrec).mp hst
    cases reason with
    | blocked ids =>
      obtain ⟨cause,-,hh⟩ := ht.blocked id r hrec (by simp [Record.isBlocked,hreason])
      exact ⟨cause,hh⟩
    | branchNotTaken | deadPath =>
      simp [Record.isAcceptable,hst,hreason,SkipReason.isByDesign] at ha

/-- What is left of a complete run in which each node has ended as settled in advance. -/
structure Ends (graph : Graph) (fate : String → Fate) (t : Schedule) : Prop where
  graph_eq : t.graph = graph
  table : t.IsTable
  balanced : graph.Balanced fate t.status
  ended : ∀ id ∈ graph.ids, (t.status id).isTerminal = true
  acceptable : ∀ id ∈ graph.terminal, RunResult.isAcceptable t.records id = true →
    t.status id = .success ∨ t.status id = .skipped ∧ graph.Bypassed fate t.status id
  unacceptable : ∀ id ∈ graph.terminal, RunResult.isAcceptable t.records id = false →
    t.status id ≠ .success ∧
      (t.status id = .skipped → ∃ cause, graph.Hindered fate t.status cause id)

theorem Reaches.ends (hr : Reaches graph scope h s) (hg : graph.Sound) (hground : graph.Grounded)
    (hp : ∀ n ∈ graph.nodes, n.isPositive = true) (hf : h.Follows graph fate) (now : Instant)
    (hi : (s.pass now).1.inFlight = []) : Ends graph fate (s.pass now).1 := by
  have hpass : Reaches graph scope _ (s.pass now).1 := hr.pass now
  have hgraph := hpass.graph_eq
  have hs := (hpass.consistent hg).table
  have hreasons := hpass.reasoned hg
  have hevents : History.Follows graph fate (h ++ (s.pass now).2.map (.dispatch ·.id)) := by
    rw [History.Follows,History.events_dispatches]
    exact hf
  refine ⟨hgraph,hs,hr.balanced hg hp hf now hi,hr.isTerminal_of_idle hg now hi,?_,?_⟩
  · intro id _ ha
    have hcases := hreasons.of_acceptable hs (hgraph ▸ hg) (hgraph ▸ hp) (hgraph ▸ hevents) ha
    rwa [hgraph] at hcases
  · intro id hid ha
    have htimely := hpass.timely hg hp hevents
    have hcases := htimely.of_unacceptable hreasons hs (hgraph ▸ hground.terminal id hid) ha
    rwa [hgraph] at hcases

namespace Ends

theorem result_status (ht : Ends graph fate t) (name : String) : (t.result name false).status =
    if graph.terminal.all (RunResult.isAcceptable t.records) then .success else .failed := by
  rw [result,RunResult.assemble,ht.graph_eq]
  rfl

theorem sweep_eq (ht : Ends graph fate t) (hg : graph.Sound) (later : Instant) :
    t.sweep later = t :=
  sweep_eq_self ht.table (ht.graph_eq ▸ hg.nodup) (ht.graph_eq ▸ ht.ended) later

theorem status_eq (ht : Ends graph fate t) {u : Schedule} (hu : Ends graph fate u)
    (hg : graph.Sound) : t.status = u.status := by
  funext id
  by_cases hid : id ∈ graph.ids
  · exact hg.balanced_unique ht.balanced hu.balanced id hid
  · have hnone {v : Schedule} (hv : Ends graph fate v) : v.status id = .pending := by
      cases hrec : v.record? id with
      | none =>
        rw [status,hrec]
        rfl
      | some r => exact absurd (hv.graph_eq ▸ hv.table.record?.mpr ⟨r,hrec⟩) hid
    rw [hnone ht,hnone hu]

/-- Where one run succeeds and another does not, the graph is torn. -/
theorem isTorn (ht : Ends graph fate t) {u : Schedule} (hu : Ends graph fate u) (hg : graph.Sound)
    (hyes : graph.terminal.all (RunResult.isAcceptable t.records) = true)
    (hno : graph.terminal.all (RunResult.isAcceptable u.records) = false) :
    graph.IsTorn fate t.status := by
  have hcases (id : String) (hid : id ∈ graph.terminal) :=
    ht.acceptable id hid (List.all_eq_true.mp hyes id hid)
  refine ⟨fun id hid => (hcases id hid).imp_right And.right,?_⟩
  obtain ⟨id,hid,hfails⟩ := List.all_eq_false.mp hno
  obtain ⟨hne,hhindered⟩ := hu.unacceptable id hid (by simpa using hfails)
  rw [← ht.status_eq hu hg] at hne hhindered
  obtain ⟨hskipped,hbypassed⟩ := (hcases id hid).resolve_left hne
  exact ⟨id,hid,hbypassed,hhindered hskipped⟩

theorem statusOf?_eq (ht : Ends graph fate t) (name : String) {id : String} (hid : id ∈ graph.ids) :
    (t.result name false).statusOf? id = some (t.status id) := by
  obtain ⟨r,hrec⟩ := ht.table.record?.mp (ht.graph_eq ▸ hid)
  have hfound : (t.result name false).record? id = some r := hrec
  rw [RunResult.statusOf?,hfound,t.status_eq hrec,Option.map_some]

end Ends

end Agreement

namespace Race

/-- A branch gives up the long way; the join needs the long way and a probe. -/
abbrev definition : Definition where
  name := "race"
  nodes := [("pick",{ kind := .branch [⟨.bool true,.one "short"⟩] (some (.one "long")) }),
    ("short",{ kind := .action "walk" .null }),
    ("long",{ kind := .action "walk" .null }),
    ("probe",{ kind := .action "ask" .null }),
    ("join",{ kind := .action "walk" .null
              dependsOn := some (.all [.node "long",.node "probe"]) })]

abbrev graph : Graph := definition.block.toGraph standardCap

abbrev time : Instant := .ofMillis 0

abbrev taken : Report := ⟨.success .null ["long"],1,time⟩

abbrev done : Report := ⟨.success .null [],1,time⟩

abbrev failed : Report := ⟨.failed (.internal "no answer"),1,time⟩

/-- The probe gets an answer or does not. -/
abbrev probed (answered : Bool) : Report := if answered then done else failed

abbrev fate (answered : Bool) (id : String) : Fate :=
  if id = "pick" then .success .null ["short"]
  else if id = "probe" ∧ answered = false then .failed (.internal "no answer")
  else .success .null []

abbrev opening : Schedule := ((start graph {}).scan time).dispatch

abbrev picked : Schedule := ((opening.apply time (.finished "pick" taken)).scan time).dispatch

abbrev walked : Schedule := ((picked.apply time (.finished "short" done)).scan time).dispatch

/-- The branch is heard of first. -/
abbrev branchFirst (answered : Bool) : Schedule :=
  walked.apply time (.finished "probe" (probed answered))

abbrev asked (answered : Bool) : Schedule :=
  ((opening.apply time (.finished "probe" (probed answered))).scan time).dispatch

abbrev pickedLater (answered : Bool) : Schedule :=
  (((asked answered).apply time (.finished "pick" taken)).scan time).dispatch

/-- The probe is heard of first. -/
abbrev probeFirst (answered : Bool) : Schedule :=
  (pickedLater answered).apply time (.finished "short" done)

abbrev branchHistory (answered : Bool) : History :=
  [.dispatch "pick",.dispatch "probe",.event (.finished "pick" taken),.dispatch "short",
    .event (.finished "short" done),.event (.finished "probe" (probed answered))]

abbrev probeHistory (answered : Bool) : History :=
  [.dispatch "pick",.dispatch "probe",.event (.finished "probe" (probed answered)),
    .event (.finished "pick" taken),.dispatch "short",.event (.finished "short" done)]

theorem build : definition.build standardCap = .ok graph := rfl

theorem isKeyed : definition.isKeyed = true := rfl

theorem isPositive : ∀ n ∈ graph.nodes, n.isPositive = true := by decide

theorem reaches_opening : Reaches graph {} [.dispatch "pick",.dispatch "probe"] opening :=
  Reaches.start.scan time (by decide)

theorem reaches_branchFirst (answered : Bool) :
    Reaches graph {} (branchHistory answered) (branchFirst answered) := by
  have hpick : opening.Awaits (.finished "pick" taken) := ⟨by decide,by decide⟩
  have hshort : picked.Awaits (.finished "short" done) := ⟨by decide,by decide⟩
  have hprobe : walked.Awaits (.finished "probe" (probed answered)) := by
    cases answered <;> exact ⟨by decide,by decide⟩
  have hpicked := (reaches_opening.event time hpick).scan time (by decide)
  have hwalked := (hpicked.event time hshort).scan time (by decide)
  exact hwalked.event time hprobe

theorem reaches_probeFirst (answered : Bool) :
    Reaches graph {} (probeHistory answered) (probeFirst answered) := by
  have hprobe : opening.Awaits (.finished "probe" (probed answered)) := by
    cases answered <;> exact ⟨by decide,by decide⟩
  have hpick : (asked answered).Awaits (.finished "pick" taken) := by
    cases answered <;> exact ⟨by decide,by decide⟩
  have hshort : (pickedLater answered).Awaits (.finished "short" done) := by
    cases answered <;> exact ⟨by decide,by decide⟩
  have hasked := (reaches_opening.event time hprobe).scan time (by cases answered <;> decide)
  have hpicked := (hasked.event time hpick).scan time (by cases answered <;> decide)
  have hwalked := hpicked.event time hshort
  cases answered <;> exact hwalked

theorem pass_branchFirst (answered : Bool) :
    ((branchFirst answered).pass time).1 = ((branchFirst answered).scan time).dispatch := by
  rw [pass_fst,resolveDead_eq_scan]
  cases answered <;> decide

theorem pass_probeFirst (answered : Bool) :
    ((probeFirst answered).pass time).1 = ((probeFirst answered).scan time).dispatch := by
  rw [pass_fst,resolveDead_eq_scan]
  cases answered <;> decide

theorem idle_branchFirst (answered : Bool) :
    ((branchFirst answered).pass time).1.inFlight = [] := by
  rw [pass_branchFirst]
  cases answered <;> decide

theorem idle_probeFirst (answered : Bool) :
    ((probeFirst answered).pass time).1.inFlight = [] := by
  rw [pass_probeFirst]
  cases answered <;> decide

theorem events_perm (answered : Bool) :
    (branchHistory answered).events.Perm (probeHistory answered).events :=
  List.perm_append_singleton (Event.finished "probe" (probed answered))
    [Event.finished "pick" taken,Event.finished "short" done]

theorem follows_branchFirst (answered : Bool) :
    History.Follows graph (fate answered) (branchHistory answered) := by
  have hpick : ∀ n ∈ graph.nodes, n.id = "pick" → n.kind.targets = ["short","long"] := by decide
  have hother : ∀ n ∈ graph.nodes, n.id ≠ "pick" → n.kind.targets = [] := by decide
  intro id report he n hn hid
  simp only [History.events,List.filterMap_cons,List.filterMap_nil,List.mem_cons,
    List.not_mem_nil,or_false,Event.finished.injEq] at he
  rcases he with ⟨rfl,rfl⟩ | ⟨rfl,rfl⟩ | ⟨rfl,rfl⟩
  · rw [hpick n hn hid]
    rfl
  · rw [hother n hn (by rw [hid]; decide)]
    rfl
  · rw [hother n hn (by rw [hid]; decide)]
    cases answered <;> rfl

theorem follows_probeFirst (answered : Bool) :
    History.Follows graph (fate answered) (probeHistory answered) :=
  fun id report he => follows_branchFirst answered id report ((events_perm answered).mem_iff.mpr he)

end Race

end Schedule

end TaskGraph
