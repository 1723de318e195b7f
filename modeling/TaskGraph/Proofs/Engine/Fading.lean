import TaskGraph.Proofs.Engine.Reach
import TaskGraph.Proofs.Schedule.Dispatch

/-!
What becomes of a run once it is cancelled. It dispatches nothing any more: it applies what has come in,
and in the end cancels what has not ended.
-/

namespace TaskGraph

/-- How a node is ended that waited while some nodes were under way: it is cancelled without an attempt,
or one of those was a branch that does not select it. -/
def Schedule.GivenUp (s : Schedule) (id : String) (r : Record) : Prop :=
  r.status = .cancelled ∧ r.attempts = 0 ∨
  r.status = .skipped ∧ ∃ n ∈ s.graph.nodes, n.id ∈ s.inFlight ∧ id ∈ n.kind.targets ∧
    r.skipReason = some (.branchNotTaken n.id)

theorem Schedule.GivenUp.isTerminal {s : Schedule} {id : String} {r : Record}
    (h : s.GivenUp id r) : r.status.isTerminal = true := by
  rcases h with ⟨hs,-⟩ | ⟨hs,-⟩ <;> rw [hs] <;> rfl

namespace Engine

/-- A step of a cancelled run. -/
inductive Run.Fading (r q : Run) : Prop
  | rests : q.schedule = r.schedule → q.result? = r.result? → Fading r q
  | takes (now : Instant) {e : Event} : e ∈ r.inbox → r.result? = none →
    q.schedule = r.schedule.apply now e → q.result? = none → Fading r q
  | closes (now : Instant) {result : RunResult} : r.result? = none →
    q.schedule = r.schedule.sweep now → q.result? = some result → result.status = .cancelled →
    result.records = q.schedule.records → Fading r q

/-- What holds of a run from its cancellation on. -/
structure Run.Faded (r q : Run) : Prop where
  graph : q.schedule.graph = r.schedule.graph
  later : Schedule.Later r.schedule q.schedule
  inFlight : q.schedule.inFlight ⊆ r.schedule.inFlight
  left : ∀ id record, r.schedule.isOpen id = true → q.schedule.record? id = some record →
    record.status = .pending ∨ r.schedule.GivenUp id record
  ended : ∀ result, q.result? = some result → r.result? = some result ∨
    result.status = .cancelled ∧ result.records = q.schedule.records ∧
      ∀ id record, q.schedule.record? id = some record → record.status.isTerminal = true

namespace Run

variable {r q q' : Run}

theorem Faded.refl (r : Run) : Faded r r where
  graph := rfl
  later := .refl
  inFlight := List.Subset.refl _
  left id record ho hr := by
    left
    rw [← r.schedule.status_eq hr]
    exact (Schedule.isOpen_iff.mp ho).1
  ended result h := .inl h

/-- An event of a node under way leaves the nodes that waited as they are, or they are given up. -/
theorem Faded.take (h : Faded r q) (hs : q.Sensible) (now : Instant) {e : Event} (he : e ∈ q.inbox)
    {id : String} {record : Record} (ho : r.schedule.isOpen id = true)
    (hr : (q.schedule.apply now e).record? id = some record) :
    record.status = .pending ∨ r.schedule.GivenUp id record := by
  have hawaits := hs.awaited e he
  have hin := h.inFlight hawaits.mem
  have hne : id ≠ e.node := fun hid => (Schedule.isOpen_iff.mp ho).2 (hid ▸ hin)
  cases e with
  | started node time =>
    rw [Schedule.record?_started] at hr
    obtain ⟨old,hold,rfl⟩ := Option.map_eq_some_iff.mp hr
    have hne : id ≠ node := hne
    rw [if_neg hne]
    exact h.left id old ho hold
  | finished node report =>
    obtain ⟨n,hn,rfl⟩ := Graph.mem_ids.mp (hs.known node hawaits.1)
    obtain ⟨b,hb⟩ := hs.table.record?.mp (Graph.mem_ids_of_mem hn)
    rw [Schedule.record?_finished q.schedule now hb] at hr
    obtain ⟨old,hold,rfl⟩ := Option.map_eq_some_iff.mp hr
    have hne : id ≠ n.id := hne
    rcases h.left id old ho hold with hp | hg
    · unfold Schedule.reported
      simp only [if_neg hne]
      split
      · next hu =>
        rw [Record.skip_of_open (by rw [hp]; rfl)]
        refine .inr (.inr ⟨rfl,n,h.graph ▸ hn,hin,hawaits.2 n hn rfl hu,rfl⟩)
      · exact .inl hp
    · rw [Schedule.reported_of_terminal now _ _ _ hg.isTerminal]
      exact .inr hg

theorem Faded.step (h : Faded r q) (hs : q.Sensible) (hf : Fading q q') : Faded r q' := by
  cases hf with
  | rests hsch hres =>
    refine ⟨hsch ▸ h.graph,hsch ▸ h.later,hsch ▸ h.inFlight,hsch ▸ h.left,fun result hr => ?_⟩
    rw [hsch]
    exact h.ended result (hres ▸ hr)
  | @takes now e he hr hsch hres =>
    refine ⟨?_,?_,?_,?_,?_⟩
    · rw [hsch,(Schedule.apply_frame _ now e).1]
      exact h.graph
    · rw [hsch]
      exact .event now e h.later
    · rw [hsch]
      intro id hid
      exact h.inFlight (Schedule.mem_inFlight_apply.mp hid).1
    · intro id record ho hrec
      rw [hsch] at hrec
      exact h.take hs now he ho hrec
    · intro result hres'
      rw [hres] at hres'
      cases hres'
  | @closes now result hr hsch hres hstatus hrecords =>
    have hrec {id : String} {record : Record} (h' : q'.schedule.record? id = some record) :
        ∃ old, q.schedule.record? id = some old ∧ (old.cancel now 0).1 = record := by
      rw [hsch,Schedule.record?_sweep] at h'
      exact Option.map_eq_some_iff.mp h'
    refine ⟨?_,?_,?_,?_,?_⟩
    · rw [hsch]
      exact h.graph
    · rw [hsch]
      exact .sweep now h.later
    · rw [hsch]
      exact h.inFlight
    · intro id record ho h'
      obtain ⟨old,hold,rfl⟩ := hrec h'
      rcases h.left id old ho hold with hp | hg
      · rw [Record.cancel_of_open (by rw [hp]; rfl)]
        exact .inr (.inl ⟨rfl,rfl⟩)
      · rw [(Record.cancel_respects now 0 old).2 hg.isTerminal]
        exact .inr hg
    · intro other hother
      rw [hres] at hother
      cases hother
      refine .inr ⟨hstatus,hrecords,fun id record h' => ?_⟩
      obtain ⟨old,-,rfl⟩ := hrec h'
      cases ht : old.status.isTerminal with
      | false =>
        rw [Record.cancel_of_open ht]
        rfl
      | true =>
        rw [(Record.cancel_respects now 0 old).2 ht]
        exact ht

end Run

/-- How much a cancelled run may still have to do by itself. -/
def Run.effort (r : Run) : Nat :=
  (match r.phase with
    | .passing => 1
    | _ => 0) + (if r.stopped then 0 else 2) + 2*r.inbox.length

namespace World

variable {w w' : World} {r : Run}

/-- A turn of a run changes that run alone, and may add tasks of it. -/
theorem RunTurn.spec (h : RunTurn w r w') : ∃ r' fresh,
    (r'.id = r.id ∧ r'.held = r.held ∧ r'.schedule.graph = r.schedule.graph) ∧
    w'.runs = (w.setRun r').runs ∧ w'.tasks = w.tasks ++ fresh ∧
    (∀ t ∈ fresh, t.id.run = r.id ∧ t.held = r.held ∧ t.phase = .asking) ∧
    w'.invocations = w.invocations ∧ w'.admission = w.admission ∧
    ∀ n ∈ w.cancelled, n ∈ w'.cancelled := by
  have hno : ∀ t ∈ ([] : List Task), t.id.run = r.id ∧ t.held = r.held ∧ t.phase = .asking :=
    fun t ht => absurd ht List.not_mem_nil
  have happ : w.tasks = w.tasks ++ [] := (List.append_nil _).symm
  cases h with
  | passes =>
    have hgraph := (w.passed_grows r).graph
    by_cases hi : (w.passed r).1.inFlight = []
    · obtain ⟨p,hp⟩ := pass_closed hi
      rw [hp]
      refine ⟨_,[],⟨?_,?_,?_⟩,rfl,happ,hno,rfl,rfl,fun _ hn => hn⟩
      · rfl
      · rfl
      · exact hgraph
    · obtain ⟨p,hp⟩ := pass_waiting hi
      refine ⟨{ r with schedule := _, phase := _, published := p },_,⟨rfl,rfl,hgraph⟩,hp.runs,
        hp.tasks,fun t ht => ?_,hp.invocations,w.pass_admission r,fun n hn => ?_⟩
      · obtain ⟨n,-,rfl⟩ := List.mem_map.mp ht
        exact ⟨rfl,rfl,rfl⟩
      · rw [hp.cancelled]
        exact hn
  | notices =>
    exact ⟨{ r with stopped := true, phase := .passing },[],⟨rfl,rfl,rfl⟩,rfl,happ,hno,rfl,rfl,
      fun _ hn => hn⟩
  | expires =>
    obtain ⟨c,ha,hc⟩ := w.cancel_alike r.id.root
    refine ⟨{ r with stopped := true, phase := .passing },[],⟨rfl,rfl,rfl⟩,?_,ha.tasks.trans happ,hno,
      ha.invocations,w.cancel_admission r.id.root,fun n hn => ?_⟩
    · rw [expire,notice,setRun,setRun,ha.runs]
    · rw [show (w.expire r).cancelled = (w.cancel r.id.root).cancelled from rfl,ha.cancelled]
      exact (hc n).mpr (.inr hn)
  | @takes e rest =>
    refine ⟨{ r with schedule := r.schedule.apply w.now e, inbox := rest, phase := .passing },[],
      ⟨rfl,rfl,?_⟩,rfl,happ,hno,rfl,rfl,fun _ hn => hn⟩
    exact (Schedule.apply_frame r.schedule w.now e).1

/-- A run that is cancelled takes one of few turns more, and none of them dispatches a node. -/
theorem RunTurn.fading (h : RunTurn w r w') (hc : w.isCancelled r.id = true) :
    ∃ r', r'.id = r.id ∧ r.Fading r' ∧ r'.effort < r.effort ∧ Alike (w.setRun r') w' := by
  have hpassed : w.passed r = (r.schedule,[]) := by
    rw [passed,hc,Bool.or_true,if_pos rfl]
  cases h with
  | passes hp =>
    have hgoing : r.result? = none := by rw [Run.result?,hp]
    by_cases hi : (w.passed r).1.inFlight = []
    · obtain ⟨p,heq⟩ := pass_closed hi
      rw [heq,hpassed]
      refine ⟨{ r with schedule := r.schedule.sweep w.now, phase := _, published := p },rfl,
        .closes w.now hgoing rfl rfl ?_ rfl,?_,.refl _⟩
      · rw [Schedule.result,hc,Bool.or_true]
        rfl
      · simp [Run.effort,hp]
    · obtain ⟨p,ha⟩ := pass_waiting hi
      rw [hpassed,List.map_nil,List.append_nil] at ha
      refine ⟨{ r with phase := .waiting, published := p },rfl,.rests rfl hgoing.symm,?_,ha⟩
      simp [Run.effort,hp]
  | notices hp hs =>
    have hgoing : r.result? = none := by rw [Run.result?,hp]
    refine ⟨{ r with stopped := true, phase := .passing },rfl,.rests rfl hgoing.symm,?_,.refl _⟩
    simp [Run.effort,hp,hs]
  | expires hp hs =>
    have hgoing : r.result? = none := by rw [Run.result?,hp]
    have hsame : w.cancel r.id.root = w := if_pos hc
    rw [expire,hsame]
    refine ⟨{ r with stopped := true, phase := .passing },rfl,.rests rfl hgoing.symm,?_,.refl _⟩
    simp [Run.effort,hp,hs]
  | @takes e rest hp hi =>
    have hgoing : r.result? = none := by rw [Run.result?,hp]
    refine ⟨{ r with schedule := r.schedule.apply w.now e, inbox := rest, phase := .passing },rfl,
      .takes w.now (by rw [hi]; exact List.mem_cons_self) hgoing rfl rfl,?_,.refl _⟩
    simp only [Run.effort,hp,hi,List.length_cons]
    omega

end World

end Engine

end TaskGraph
