import TaskGraph.Proofs.Engine.Correspondence
import TaskGraph.Proofs.Schedule.Stamps

/-!
Every run of an engine is a run of the schedule of its graph: what was sent to it is what it has applied,
and then what it has not looked at yet.
-/

namespace TaskGraph.Engine

/-- What was sent to a run. -/
def heard (log : List Letter) (id : RunId) : List Event :=
  (log.filter fun x => x.task.run = id).map Letter.event

theorem heard_append (log news : List Letter) (id : RunId) :
    heard (log ++ news) id = heard log id ++ heard news id := by
  rw [heard,List.filter_append,List.map_append]
  rfl

theorem mem_heard {log : List Letter} {id : RunId} {e : Event} :
    e ∈ heard log id ↔ ∃ x ∈ log, x.task.run = id ∧ x.event = e := by
  simp [heard,and_assoc]

theorem heard_letters (t : Task) (es : List Event) (id : RunId) :
    heard (t.letters es) id = if id = t.id.run then es else [] := by
  unfold heard Task.letters
  split
  · next h => simp [List.filter_map,Function.comp_def,h]
  · next h =>
    have hne : t.id.run ≠ id := fun he => h he.symm
    simp [List.filter_map,Function.comp_def,hne]

/-- How a run has come to where it is, which is the end of its schedule when it is over. -/
structure Run.Traces (r : Run) (log : List Letter) (scope : Scope) (h : History) (s : Schedule) :
    Prop where
  sound : ∀ g, r.schedule.graph.Contains g → g.Sound
  reaches : Schedule.Reaches r.schedule.graph scope h s
  ends : r.schedule = s ∨ r.result? ≠ none ∧ s.inFlight = [] ∧ ∃ now, r.schedule = s.sweep now
  sent : heard log r.id = h.events ++ r.inbox

namespace Run.Traces

variable {w : World} {r r' : Run} {log : List Letter} {scope : Scope} {h : History} {s : Schedule}

theorem of_new {g : Graph} (hn : r.IsNew g) (hg : ∀ g', g.Contains g' → g'.Sound)
    (hnone : ∀ x ∈ log, x.task.run ≠ r.id) : ∃ scope h s, r.Traces log scope h s := by
  obtain ⟨scope,hs⟩ := hn.schedule
  refine ⟨scope,[],r.schedule,?_⟩
  constructor
  · rw [hs]
    exact hg
  · rw [hs]
    exact .start
  · exact .inl rfl
  · rw [hn.inbox,heard,List.filter_eq_nil_iff.mpr]
    · rfl
    · simpa using hnone

theorem hear (ht : r.Traces log scope h s) (t : Task) (es : List Event) :
    (r.hear t.id.run es).Traces (log ++ t.letters es) scope h s where
  sound := ht.sound
  reaches := ht.reaches
  ends := ht.ends
  sent := by
    rw [heard_append,heard_letters,Run.hear]
    exact (congrArg (· ++ _) ht.sent).trans (List.append_assoc _ _ _)

/-- A pass is one, unless the run has been cancelled. -/
theorem passed (ht : r.Traces log scope h s) (hgoing : r.result? = none) : ∃ h',
    Schedule.Reaches r.schedule.graph scope h' (w.passed r).1 ∧ h'.events = h.events := by
  obtain hs | ⟨hend,-⟩ := ht.ends
  · rw [World.passed]
    split
    · exact ⟨h,hs ▸ ht.reaches,rfl⟩
    · have hpass := ht.reaches.pass w.now
      rw [← hs] at hpass
      exact ⟨_,hpass,h.events_dispatches _⟩
  · exact absurd hgoing hend

theorem course {fresh : List Task} (ht : r.Traces log scope h s) (hgoing : r.result? = none)
    (hs : r.Sensible) (hid : r'.id = r.id) (hc : Run.Course w r r' fresh) :
    ∃ h s, r'.Traces log scope h s := by
  have hgraph := hc.graph
  have hsound : ∀ g, r'.schedule.graph.Contains g → g.Sound := hgraph ▸ ht.sound
  have hheard := hid ▸ ht.sent
  cases hc with
  | keeps hsch hi =>
    obtain rfl := ht.ends.resolve_right fun hend => hend.1 hgoing
    exact ⟨h,r.schedule,hsound,hgraph ▸ ht.reaches,.inl hsch,hi ▸ hheard⟩
  | passes hsch hi =>
    obtain ⟨h',hr,he⟩ := ht.passed (w := w) hgoing
    exact ⟨h',_,hsound,hgraph ▸ hr,.inl hsch,by rw [hheard,he,hi]⟩
  | closes hnone hsch hi hend =>
    obtain ⟨h',hr,he⟩ := ht.passed (w := w) hgoing
    exact ⟨h',_,hsound,hgraph ▸ hr,.inr ⟨hend,hnone,w.now,hsch⟩,by rw [hheard,he,hi]⟩
  | @takes e rest hi hsch hi' =>
    obtain rfl := ht.ends.resolve_right fun hend => hend.1 hgoing
    have ha := hs.awaited e (hi ▸ List.mem_cons_self)
    refine ⟨_,_,hsound,hgraph ▸ ht.reaches.event w.now ha,.inl hsch,?_⟩
    rw [hheard,History.events_event,hi,hi',List.append_assoc]
    rfl

theorem inFlight (ht : r.Traces log scope h s) : r.schedule.inFlight = s.inFlight := by
  obtain hs | ⟨-,-,now,hs⟩ := ht.ends
  · rw [hs]
  · rw [hs]
    rfl

theorem stamped (ht : r.Traces log scope h s) : Schedule.Stamped h r.schedule := by
  have hg := ht.sound _ (.self _)
  have hs := ht.reaches.stamped hg
  obtain he | ⟨-,hi,now,he⟩ := ht.ends
  · rwa [he]
  · rw [he]
    exact hs.sweep (ht.reaches.consistent hg) hi now

/-- Whoever has sent a letter was dispatched. -/
theorem dispatched (ht : r.Traces log scope h s) (hs : r.Sensible) {event : Event}
    (he : event ∈ heard log r.id) : event.node ∈ h.dispatched := by
  have hg := ht.sound _ (.self _)
  rw [ht.sent,List.mem_append] at he
  obtain he | he := he
  · exact ht.reaches.dispatched_of_event hg event he
  · exact (ht.reaches.consistent hg).dispatched _ (ht.inFlight ▸ (hs.awaited event he).mem)

end Run.Traces

variable {e : Engine} {log : List Letter} {w : World}

theorem Chronicle.traces (hc : Chronicle e log w) :
    ∀ r ∈ w.runs, ∃ scope h s, r.Traces log scope h s := by
  induction hc with
  | world =>
    intro r hr
    cases hr
  | @step log w w' turn hc hs ih =>
    have hw := hc.reaches.coherent
    have hg := hs.goes hc.reaches
    intro q hq
    generalize w.sent w' = news at hg
    cases hg with
    | starts hn hroot hfree hsound hruns =>
      rw [List.append_nil]
      rw [hruns] at hq
      rcases List.mem_append.mp hq with hq | hq
      · exact ih q hq
      · obtain rfl := List.mem_singleton.mp hq
        refine Run.Traces.of_new hn hsound fun x hx he => ?_
        obtain ⟨r,hr,hrootid⟩ := (hc.known x hx).root_mem
        exact hfree r hr (hrootid.trans (by rw [he]))
    | @passes r r' fresh hr hgoing hid hcourse hruns =>
      rw [List.append_nil]
      rw [hruns] at hq
      obtain rfl | ⟨hq,-⟩ := (World.mem_setRun hr hid).mp hq
      · obtain ⟨scope,h,s,ht⟩ := ih r hr
        exact ⟨scope,ht.course hgoing (hw.run r hr) hid hcourse⟩
      · exact ih q hq
    | @performs t d es ht hp =>
      obtain ⟨r,hr,-,rfl⟩ | hq := hp.mem_runs.mp hq
      · obtain ⟨scope,h,s,htraces⟩ := ih r hr
        exact ⟨scope,h,s,htraces.hear t es⟩
      · obtain ⟨g,hgn,hn⟩ := hp.fits.opened q hq
        obtain ⟨home,hhome,hat⟩ := hw.home t ht
        obtain ⟨scope,h,s,htraces⟩ := ih home hhome
        have hsound (g' : Graph) (hg' : g.Contains g') : g'.Sound :=
          htraces.sound g' (.inside hat.node hgn hg')
        obtain ⟨k,hle,hid⟩ := hp.fits.opened_id hq
        refine Run.Traces.of_new hn hsound fun x hx => ?_
        rw [hid]
        rcases List.mem_append.mp hx with hx | hx
        · exact (hc.known x hx).ne_child ht hle
        · obtain ⟨y,-,rfl⟩ := List.mem_map.mp hx
          exact (hw.knows ht).ne_child ht hle
    | leaves _ _ hruns | waits hruns =>
      rw [List.append_nil]
      exact ih q (hruns ▸ hq)

theorem Chronicle.node_eq (hc : Chronicle e log w) : ∀ x ∈ log, x.event.node = x.task.node := by
  induction hc with
  | world =>
    intro x hx
    cases hx
  | @step log w w' turn hc hs ih =>
    intro x hx
    rcases List.mem_append.mp hx with hx | hx
    · exact ih x hx
    · obtain ⟨t,ht,d,es,hp,-,hmem,htask,-⟩ := (hs.goes hc.reaches).sender hx
      rw [hp.tells.node hmem,htask]
      exact (hc.reaches.coherent.task t ht).node

/-- A letter that says what an event says. -/
theorem Chronicle.letter_of_heard (hc : Chronicle e log w) {id : TaskId} {event : Event}
    (he : event ∈ heard log id.run) (hn : event.node = id.node) :
    ∃ x ∈ log, x.task = id ∧ x.event = event := by
  obtain ⟨x,hx,hrun,rfl⟩ := mem_heard.mp he
  exact ⟨x,hx,TaskId.eq_of hrun ((hc.node_eq x hx).symm.trans hn),rfl⟩

end TaskGraph.Engine
