import TaskGraph.Proofs.Schedule.Completion

/-!
What a run of a schedule keeps to: nodes are dispatched once and when they are ready, and what has
ended stays.
-/

namespace TaskGraph.Schedule

section Dispatch

variable {graph : Graph} {scope : Scope} {h : History} {s : Schedule} {id : String}

/-- What a pass dispatches was open until then, and its dependency holds in the table that the pass
leaves. -/
theorem Reaches.dispatched_of_pass (hr : Reaches graph scope h s) (hg : graph.Sound) (now : Instant)
    {n : GraphNode Graph} (hn : n ∈ (s.pass now).2) :
    n ∈ graph.nodes ∧ n.id ∉ h.dispatched ∧ (s.pass now).1.status n.id = .pending ∧
      n.isReady (s.pass now).1.status = true := by
  have hs := (hr.consistent hg).resolveDead now
  rw [pass_snd] at hn
  obtain ⟨hm,ho,hready⟩ := (s.resolveDead now).mem_ready.mp hn
  rw [(resolveDead_frame now s).1,hr.graph_eq] at hm
  have hst (id : String) : (s.pass now).1.status id = (s.resolveDead now).status id := by
    rw [pass_fst,dispatch_status]
  refine ⟨hm,hs.not_dispatched_of_open ho,?_,?_⟩
  · rw [hst]
    exact (isOpen_iff.mp ho).1
  · rw [GraphNode.isReady_congr fun id _ => hst id]
    exact hready

/-- At the end of a run what has ended stays, and everything else is cancelled. -/
theorem status_sweep {r : Record} (h : s.record? id = some r) (now : Instant) :
    (s.sweep now).status id = if r.status.isTerminal then r.status else .cancelled := by
  have hr : (s.sweep now).record? id = some (r.cancel now 0).1 := by
    rw [record?_sweep,h]
    rfl
  rw [status_eq _ hr]
  cases ht : r.status.isTerminal with
  | true => rw [(Record.cancel_respects now 0 r).2 ht,if_pos rfl]
  | false => rw [Record.cancel_of_open ht,if_neg Bool.false_ne_true]

theorem record?_of_sweep {now : Instant} (h : (s.sweep now).status id ≠ .pending) :
    ∃ r, s.record? id = some r := by
  obtain ⟨r,hr,-⟩ := (s.sweep now).record?_of_status h
  rw [record?_sweep] at hr
  obtain ⟨q,hq,-⟩ := Option.map_eq_some_iff.mp hr
  exact ⟨q,hq⟩

/-- The sweep at the end of a run skips nothing and leaves nothing running. -/
theorem sweep_ne_skipped (h : s.status id ≠ .skipped) (now : Instant) :
    (s.sweep now).status id ≠ .skipped := by
  intro hk
  obtain ⟨r,hr⟩ := record?_of_sweep (by rw [hk]; decide)
  rw [s.status_eq hr] at h
  rw [status_sweep hr] at hk
  split at hk
  · exact h hk
  · cases hk

theorem sweep_ne_running (s : Schedule) (id : String) (now : Instant) :
    (s.sweep now).status id ≠ .running := by
  intro hk
  obtain ⟨r,hr⟩ := record?_of_sweep (by rw [hk]; decide)
  rw [status_sweep hr] at hk
  split at hk
  · next ht =>
    rw [hk] at ht
    cases ht
  · cases hk

/-- A node that was dispatched is never skipped. -/
theorem Reaches.not_skipped (hr : Reaches graph scope h s) (hg : graph.Sound)
    (hid : id ∈ h.dispatched) : s.status id ≠ .skipped := by
  have hs := hr.consistent hg
  by_cases hi : id ∈ s.inFlight
  · intro hk
    have hu := hs.unfinished id hi
    rw [hk] at hu
    cases hu
  · exact (hs.ended id hid hi).2

/-- In a run of a graph that was built every node is dispatched at most once, when it is pending and
its dependency holds; what is dispatched is not skipped, neither by a pass or an event nor by the sweep
that ends the run; a running node is under way; and a record that has ended stays as it is, whatever
comes later. -/
theorem dispatch_discipline {cap : Nat} {d : Definition} {g : Graph} (hb : d.build cap = .ok g)
    (hk : d.isKeyed = true) (hc : g.Contains graph) (hr : Reaches graph scope h s) :
    h.dispatched.Nodup ∧
    (∀ now, ∀ n ∈ (s.pass now).2, n ∈ graph.nodes ∧ n.id ∉ h.dispatched ∧
      (s.pass now).1.status n.id = .pending ∧ n.isReady (s.pass now).1.status = true) ∧
    (∀ id ∈ h.dispatched, s.status id ≠ .skipped ∧ ∀ now, (s.sweep now).status id ≠ .skipped) ∧
    (∀ id, (s.status id = .running → id ∈ s.inFlight) ∧
      ∀ now, (s.sweep now).status id ≠ .running) ∧
    ∀ id r, s.record? id = some r → r.status.isTerminal = true →
      ∀ t, Later s t → t.record? id = some r := by
  have hg := Definition.sound_of_build hb hk hc
  have hs := hr.consistent hg
  refine ⟨hs.nodup,?_,?_,?_,?_⟩
  · intro now n hn
    exact hr.dispatched_of_pass hg now hn
  · intro id hid
    have hn := hr.not_skipped hg hid
    exact ⟨hn,sweep_ne_skipped hn⟩
  · intro id
    exact ⟨hs.running id,sweep_ne_running s id⟩
  · intro id r hrec ht t hl
    exact hl.of_terminal hrec ht

end Dispatch

/-- The short way was dispatched and is over; nothing that comes later changes its record. -/
theorem dispatch_discipline_detour :
    Detour.joining.status "short" = .success ∧ "short" ∉ Detour.joining.inFlight ∧
    ∀ t, Later Detour.joining t → t.status "short" = .success := by
  obtain ⟨-,-,-,-,hl⟩ := dispatch_discipline Definition.detour_build Definition.detour_isKeyed
    (.self _) Detour.reaches_joining
  refine ⟨by decide,by decide,fun t ht => ?_⟩
  obtain ⟨r,hr,hs⟩ := Detour.joining.record?_of_status
    (show Detour.joining.status "short" ≠ .pending by decide)
  have hst : r.status = .success := hs
  rw [t.status_eq (hl "short" r hr (by rw [hst]; rfl) t ht),hst]

end TaskGraph.Schedule
