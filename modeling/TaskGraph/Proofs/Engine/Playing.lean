import TaskGraph.Proofs.Engine.Reach

/-!
The player makes the steps of an engine in one order among many: whatever a play comes to can be reached.
-/

namespace TaskGraph.Engine

variable {e : Engine} {w w' : World} {r : Run} {a : Agent} {p p' : Play}

/-- What a run does when it has its turn is a move. -/
theorem World.stepRun_move {σ : Setting} (hf : w.run? r.id = some r) (h : w.stepRun r = some w') :
    ∃ m, w.move? σ m = some w' := by
  unfold stepRun at h
  cases hp : r.phase with
  | passing =>
    rw [hp] at h
    exact ⟨.pass r.id,by simp only [move?,hf,Option.bind_eq_bind,Option.bind_some,hp]; exact h⟩
  | ended result time =>
    rw [hp] at h
    cases h
  | waiting =>
    simp only [hp] at h
    split at h
    · next hc =>
      refine ⟨.notice r.id,?_⟩
      simp only [move?,hf,Option.bind_eq_bind,Option.bind_some,hp,if_pos hc]
      exact h
    split at h
    · next hc =>
      refine ⟨.expire r.id,?_⟩
      simp only [move?,hf,Option.bind_eq_bind,Option.bind_some,hp,if_pos hc]
      exact h
    · split at h
      · next first rest hi =>
        refine ⟨.take r.id,?_⟩
        simp only [move?,hf,Option.bind_eq_bind,Option.bind_some,hp,hi]
        exact h
      · cases h

theorem Reaches.stepRun (h : Reaches e w) (hr : r ∈ w.runs) (hs : w.stepRun r = some w') :
    Reaches e w' := by
  obtain ⟨m,hm⟩ := World.stepRun_move (σ := e.setting) (World.run?_of_mem h.coherent.runs_nodup hr) hs
  exact h.step (.move hm)

/-- Whoever has its turn makes steps. -/
theorem Reaches.advance (h : Reaches e w) (ha : w.advance e.setting a = some w') : Reaches e w' := by
  cases a with
  | root n =>
    obtain ⟨r,hr,hs⟩ := Option.bind_eq_some_iff.mp ha
    exact h.stepRun (World.mem_of_run? hr).1 hs
  | task id =>
    obtain ⟨t,ht,hs⟩ := Option.bind_eq_some_iff.mp ha
    split at hs
    · next v hf =>
      cases hs
      obtain ⟨r,hr,hturn⟩ := List.exists_of_findSome?_eq_some hf
      split at hturn
      · exact h.stepRun hr hturn
      · cases hturn
    · have hm : w.move? e.setting (.step id) = some w' := by
        simp only [World.move?,ht]
        exact hs
      exact h.step (.move hm)
  | plan n =>
    obtain ⟨plan,-,hs⟩ := Option.bind_eq_some_iff.mp ha
    split at hs
    · cases hs
      have hplans := h.step (.agenda w w.ready (w.plans.filter fun q => q.1 != n))
      have hm : ({ w with plans := w.plans.filter fun q => q.1 != n } : World).move? e.setting
          (.cancel n) = some _ := rfl
      exact hplans.step (.move hm)
    · cases hs

theorem World.wakes_ready (agents : List (Timer × Agent)) (w : World) :
    ∃ ready, agents.foldl (fun w p => w.wake p.2) w = { w with ready } := by
  induction agents generalizing w with
  | nil => exact ⟨w.ready,rfl⟩
  | cons p rest ih =>
    have hone : ∃ ready, w.wake p.2 = { w with ready } := by
      unfold wake
      split
      · exact ⟨w.ready,rfl⟩
      · exact ⟨_,rfl⟩
    obtain ⟨ready,hw⟩ := hone
    obtain ⟨ready',hrest⟩ := ih (w.wake p.2)
    refine ⟨ready',?_⟩
    rw [List.foldl_cons,hrest,hw]

theorem Reaches.moveClock (h : Reaches e w) (hc : w.moveClock = some w') : Reaches e w' := by
  unfold World.moveClock at hc
  split at hc
  · cases hc
  · next first rest _ =>
    obtain ⟨ready,hr⟩ := World.wakes_ready
      ((first::rest).takeWhile fun p => p.1.time == first.1.time)
      { w with clock := max w.clock first.1.time }
    have htick : w.move? e.setting (.tick (max w.clock first.1.time-w.clock)) =
        some { w with clock := max w.clock first.1.time } := by
      have hclock : w.clock+(max w.clock first.1.time-w.clock) = max w.clock first.1.time := by omega
      rw [World.move?,hclock]
    rw [Option.some.inj hc.symm,hr]
    exact (h.step (.move htick)).step (.agenda _ ready w.plans)

theorem Play.observe_world (p : Play) (a : Agent) : (p.observe a).world = p.world := by
  unfold observe
  split
  · split
    · split <;> rfl
    · rfl
  · rfl

theorem Reaches.playStep (h : Reaches e p.world) (hs : p.step e.setting = some p') :
    Reaches e p'.world := by
  unfold Play.step at hs
  split at hs
  · split at hs
    · cases hs
    · obtain ⟨w,hw,rfl⟩ := Option.map_eq_some_iff.mp hs
      exact h.moveClock hw
  · next a rest _ =>
    split at hs
    · next w hw =>
      cases hs
      exact h.advance hw
    · cases hs
      rw [Play.observe_world]
      exact h.step (.agenda p.world rest p.world.plans)

/-- All that a play comes to, after any number of steps, can be reached. -/
theorem Reaches.play (h : Reaches e p.world) (steps : Nat) :
    Reaches e (Play.run e.setting steps p).world := by
  induction steps generalizing p with
  | zero => exact h
  | succ steps ih =>
    rw [Play.run]
    split
    · next p' hs => exact ih (h.playStep hs)
    · exact h

end TaskGraph.Engine
