import TaskGraph.Proofs.Engine.Aftermath
import TaskGraph.Proofs.Engine.Progress
import TaskGraph.Proofs.Schedule.Completion

/-!
Cancelled runs come to their end. Nothing in them uses an action any more, what has ended keeps its
record, and what had not been dispatched is given up.
-/

namespace TaskGraph.Engine

/-- What a run comes to that was cancelled. -/
structure Run.EndsCancelled (r : Run) (result : RunResult) : Prop where
  status : result.status = .cancelled
  /-- What had ended keeps its record. -/
  kept : ∀ id record, r.schedule.record? id = some record → record.status.isTerminal = true →
    result.record? id = some record
  /-- What had not been dispatched is cancelled without an attempt, or left out by a branch that was
  under way. -/
  left : ∀ id ∈ r.schedule.graph.ids, r.schedule.isOpen id = true →
    ∃ record, result.record? id = some record ∧ r.schedule.GivenUp id record
  ended : ∀ id ∈ r.schedule.graph.ids,
    ∃ record, result.record? id = some record ∧ record.status.isTerminal = true

/-- How a started run goes on that was cancelled in a world. -/
structure WindsDown (e : Engine) (r : Run) (w v : World) : Prop where
  /-- No action was used, at any depth. -/
  used : v.invocationsOf r.id.root = w.invocationsOf r.id.root
  kept : ∀ p ∈ w.runsOf r.id.root, ∀ q ∈ v.runsOf r.id.root, q.id = p.id → ∀ id record,
    p.schedule.record? id = some record → record.status.isTerminal = true →
    q.schedule.record? id = some record
  /-- It can go on, or it has ended. -/
  goes : ∃ q ∈ v.runs, q.id = r.id ∧
    (q.result? = none ∧ (∃ m v', m.root? = some r.id.root ∧ v.move? e.setting m = some v') ∨
      ∃ result, q.result? = some result ∧ r.EndsCancelled result)

/-- An endless course of an engine in which a started run has its turn again as long as it can go on. -/
structure Course (e : Engine) (n : Nat) (w : World) where
  world : Nat → World
  turn : Nat → Option Nat
  start : world 0 = w
  step : ∀ i, Step e (turn i) (world i) (world (i+1))
  fair : ∀ i m v, m.root? = some n → (world i).move? e.setting m = some v →
    ∃ j, i ≤ j ∧ turn j = some n

variable {e : Engine} {w v : World} {r : Run} {n : Nat}

theorem Run.Faded.endsCancelled {q : Run} (hf : Faded r q) (hq : q.Sensible)
    (hgoing : r.result? = none) {result : RunResult} (hr : q.result? = some result) :
    r.EndsCancelled result := by
  rcases hf.ended result hr with h | ⟨hstatus,hrecords,hended⟩
  · rw [hgoing] at h
    cases h
  have hresult (id : String) : result.record? id = q.schedule.record? id := by
    rw [RunResult.record?,hrecords]
    rfl
  have hin {id : String} (hid : id ∈ r.schedule.graph.ids) :
      ∃ record, q.schedule.record? id = some record := by
    rw [← hf.graph] at hid
    exact hq.table.record?.mp hid
  refine ⟨hstatus,fun id record hrec ht => ?_,fun id hid ho => ?_,fun id hid => ?_⟩
  · rw [hresult]
    exact hf.later.of_terminal hrec ht
  · obtain ⟨record,hrec⟩ := hin hid
    refine ⟨record,(hresult id).trans hrec,?_⟩
    rcases hf.left id record ho hrec with hp | hg
    · have ht := hended id record hrec
      rw [hp] at ht
      cases ht
    · exact hg
  · obtain ⟨record,hrec⟩ := hin hid
    exact ⟨record,(hresult id).trans hrec,hended id record hrec⟩

theorem Aftermath.windsDown (ha : Aftermath r.id.root w v) (hr : r ∈ w.runs) (hroot : r.id.steps = [])
    (hgoing : r.result? = none) : WindsDown e r w v := by
  refine ⟨ha.used,fun p hp q hq hid id record hrec ht => ?_,?_⟩
  · exact (ha.faded q hq p hp hid).later.of_terminal hrec ht
  · obtain ⟨q,hq,hsteps⟩ := ha.root
    obtain ⟨hqv,hqn⟩ := World.mem_runsOf.mp hq
    have hid : q.id = r.id := by
      cases hqi : q.id
      cases hri : r.id
      simp_all
    refine ⟨q,hqv,hid,?_⟩
    cases hres : q.result? with
    | none => exact .inl ⟨rfl,ha.coherent.progress ha.cancelled hqv hqn hres⟩
    | some result =>
      have hfaded := ha.faded q hq r (World.mem_runsOf.mpr ⟨hr,rfl⟩) hid
      exact .inr ⟨result,rfl,hfaded.endsCancelled (ha.coherent.run q hqv) hgoing hres⟩

namespace Course

/-- There is such a course from every world. -/
theorem exists_course (e : Engine) (n : Nat) (w : World) : Nonempty (Course e n w) := by
  have hnext (w : World) : ∃ turn v, Step e turn w v ∧
      ∀ m v', m.root? = some n → w.move? e.setting m = some v' → turn = some n := by
    by_cases h : ∃ m v, m.root? = some n ∧ w.move? e.setting m = some v
    · obtain ⟨m,v,hn,hm⟩ := h
      exact ⟨m.root?,v,.move hm,fun _ _ _ _ => hn⟩
    · exact ⟨none,w,.agenda w w.ready w.plans,fun m v hn hm => absurd ⟨m,v,hn,hm⟩ h⟩
  choose turn next hstep hfair using hnext
  let world (i : Nat) : World := next^[i] w
  refine ⟨⟨world,fun i => turn (world i),rfl,fun i => ?_,fun i m v hn hm => ?_⟩⟩
  · rw [show world (i+1) = next (world i) from Function.iterate_succ_apply' next i w]
    exact hstep (world i)
  · exact ⟨i,Nat.le_refl i,hfair (world i) m v hn hm⟩

def moves (c : Course e n w) : Nat → Nat
  | 0 => 0
  | i+1 => if c.turn i = some n then c.moves i+1 else c.moves i

theorem later (c : Course e n w) (i : Nat) : Later e n w (c.moves i) (c.world i) := by
  induction i with
  | zero =>
    rw [c.start]
    exact .refl
  | succ i ih => exact ih.step (c.step i)

theorem moves_mono (c : Course e n w) {i j : Nat} (hij : i ≤ j) : c.moves i ≤ c.moves j := by
  induction hij with
  | refl => exact Nat.le_refl _
  | step _ ih =>
    rw [moves]
    split <;> omega

/-- A run that can always go on has its turn as often as one likes. -/
theorem exists_moves (c : Course e n w)
    (h : ∀ i, ∃ m v, m.root? = some n ∧ (c.world i).move? e.setting m = some v) (count : Nat) :
    ∃ i, count ≤ c.moves i := by
  induction count with
  | zero => exact ⟨0,Nat.le_refl _⟩
  | succ count ih =>
    obtain ⟨i,hi⟩ := ih
    obtain ⟨m,v,hm,hv⟩ := h i
    obtain ⟨j,hij,hturn⟩ := c.fair i m v hm hv
    have hmono := c.moves_mono hij
    refine ⟨j+1,?_⟩
    rw [moves,if_pos hturn]
    omega

end Course

namespace Detour

abbrev engine : Engine := { config := {}, pools := {}, setting := { actions := [] } }

abbrev first : Run := firstRun engine.world .detour Schedule.Detour.graph [] 0 none

abbrev started : World := { engine.world with runs := [first] }.wake (.root 0)

abbrev cancelled : World := (started.pass first).cancel 0

theorem reaches_cancelled : Reaches engine cancelled := by
  have hs : engine.start engine.world .detour [] 0 none = .ok started := rfl
  have hp : started.move? engine.setting (.pass ⟨0,[]⟩) = some (started.pass first) := rfl
  have hc : (started.pass first).move? engine.setting (.cancel 0) = some cancelled := rfl
  have hstarted : Reaches engine started :=
    .step .world (.start Definition.detour_isKeyed (by decide) hs)
  exact (hstarted.step (.move hp)).step (.move hc)

theorem passed_first : (started.passed first).1 = Schedule.Detour.picking := by
  have hp : started.passed first =
      (Schedule.start Schedule.Detour.graph {}).pass Schedule.Detour.time := rfl
  rw [hp,Schedule.pass_fst,Schedule.resolveDead_eq_scan (by decide)]

/-- When the branch has been dispatched the run is cancelled. -/
theorem mem_cancelled : 0 ∈ cancelled.cancelled ∧ ∃ r ∈ cancelled.runs, r.id = ⟨0,[]⟩ ∧
    r.result? = none ∧ r.schedule = Schedule.Detour.picking := by
  have hi : (started.passed first).1.inFlight ≠ [] := by
    rw [passed_first]
    decide
  obtain ⟨published,hp⟩ := World.pass_waiting hi
  obtain ⟨c,ha,hc⟩ := (started.pass first).cancel_alike 0
  constructor
  · rw [ha.cancelled]
    exact (hc 0).mpr (.inl rfl)
  · let waiting : Run :=
      { first with schedule := (started.passed first).1, phase := .waiting, published }
    have hid : waiting.id = first.id := rfl
    have hmem : waiting ∈ (started.setRun waiting).runs :=
      (World.mem_setRun (w := started) List.mem_cons_self hid).mpr (.inl rfl)
    refine ⟨waiting,?_,rfl,rfl,passed_first⟩
    rw [ha.runs]
    exact hp.runs ▸ hmem

end Detour

end TaskGraph.Engine
