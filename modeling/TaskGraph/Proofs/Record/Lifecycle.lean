import TaskGraph.Proofs.Record

/-!
The life of a record. Whatever is done to a new record and in whatever order, its parts agree with its
state; it starts at most once and then ends at most once, and what comes too late changes nothing. A
stamp that comes after the end puts the time of the end not before that of the start.
-/

namespace TaskGraph

theorem Instant.isBefore_self (t : Instant) : t.isBefore t = false := by simp [isBefore]

namespace Record

namespace Operation

/-- Whether an operation says that it has changed a record. A stamp says nothing. -/
def changes : Operation → Record → Bool
  | .start time, r => (r.start time).2
  | .succeed now result attempts, r => (r.succeed now result attempts).2
  | .fail now failure attempts, r => (r.fail now failure attempts).2
  | .skip now reason, r => (r.skip now reason).2
  | .cancel now attempts, r => (r.cancel now attempts).2
  | .stamp _, _ => false

/-- The state that an operation is meant to bring about; a stamp brings about none. -/
def goal? : Operation → Option Status
  | .start _ => some .running
  | .succeed .. => some .success
  | .fail .. => some .failed
  | .skip .. => some .skipped
  | .cancel .. => some .cancelled
  | .stamp _ => none

/-- Whether an operation ends a record. -/
def ends (op : Operation) : Bool := op.goal?.any Status.isTerminal

end Operation

/-- How the parts of a record agree with its state. -/
structure Coupled (r : Record) : Prop where
  result : r.result.isSome = true ↔ r.status = .success
  failure : r.failure.isSome = true ↔ r.status = .failed ∨ r.status = .cancelled
  skipReason : r.skipReason.isSome = true ↔ r.status = .skipped
  finished : r.finished.isSome = true ↔ r.status.isTerminal = true
  attempts : r.status.isTerminal = false → r.attempts = 0
  waiting : r.status = .pending → r.started = none
  running : r.status = .running → r.started.isSome = true

/-- The operations that say that they have changed a record, when all are done in turn. -/
def heeded : Record → List Operation → List Operation
  | _, [] => []
  | r, op::ops => if op.changes r then op::heeded (op.apply r) ops else heeded (op.apply r) ops

/-- Stamps come only to a record that has ended. -/
def StampsLate : Record → List Operation → Prop
  | _, [] => True
  | r, op::ops => (op.goal? = none → r.status.isTerminal = true) ∧ StampsLate (op.apply r) ops

section Steps

variable {r : Record} {op : Operation}

theorem finish_of_terminal (h : r.status.isTerminal = true) (status : Status) (now : Instant)
    (change : Record → Record) : r.finish status now change = (r,false) := if_pos h

theorem finish_of_open (h : r.status.isTerminal = false) (status : Status) (now : Instant)
    (change : Record → Record) :
    r.finish status now change = (change { r with status, finished := some now },true) :=
  if_neg (by simp [h])

/-- An operation that says it has changed nothing has changed nothing. -/
theorem apply_of_not_changes (hg : op.goal? ≠ none) (h : op.changes r = false) : op.apply r = r := by
  cases op with
  | start time =>
    by_cases hp : r.status = .pending
    · simp [Operation.changes,start,hp] at h
    · simp [Operation.apply,start,hp]
  | stamp time => exact absurd rfl hg
  | _ =>
    cases ht : r.status.isTerminal
    · simp [Operation.changes,succeed,fail,skip,cancel,finish_of_open ht] at h
    · simp [Operation.apply,succeed,fail,skip,cancel,finish_of_terminal ht]

/-- What changes a record brings it to the state meant: from waiting to running, or to an end. -/
theorem goal?_of_changes (h : op.changes r = true) : op.goal? = some (op.apply r).status ∧
    r.status.isTerminal = false ∧ (op.ends = false → r.status = .pending) := by
  cases op with
  | start time =>
    by_cases hp : r.status = .pending
    · simp [Operation.goal?,Operation.apply,start,hp,Status.isTerminal]
    · simp [Operation.changes,start,hp] at h
  | stamp time => cases h
  | _ =>
    cases ht : r.status.isTerminal
    · simp only [Operation.apply,succeed,fail,skip,cancel,finish_of_open ht]
      exact ⟨rfl,trivial,fun he => by cases he⟩
    · simp [Operation.changes,succeed,fail,skip,cancel,finish_of_terminal ht] at h

/-- Until it ends a record tells nothing of its end. -/
theorem Coupled.of_open (h : r.Coupled) (ht : r.status.isTerminal = false) : r.result = none ∧
    r.failure = none ∧ r.skipReason = none ∧ r.finished = none ∧ r.attempts = 0 := by
  have hne : ∀ s : Status, s.isTerminal = true → r.status ≠ s := fun s hs he => by
    rw [he,hs] at ht
    cases ht
  refine ⟨?_,?_,?_,?_,h.attempts ht⟩
  · simpa [hne .success rfl] using h.result
  · simpa [hne .failed rfl,hne .cancelled rfl] using h.failure
  · simpa [hne .skipped rfl] using h.skipReason
  · simpa [ht] using h.finished

theorem Coupled.apply (h : r.Coupled) (hs : op.goal? = none → r.status.isTerminal = true) :
    (op.apply r).Coupled := by
  cases op with
  | start time =>
    by_cases hp : r.status = .pending
    · obtain ⟨hresult,hfailure,hreason,hfinished,hattempts⟩ := h.of_open (by rw [hp]; rfl)
      simp only [Operation.apply,start,if_pos hp]
      constructor <;> simp [hresult,hfailure,hreason,hfinished,hattempts,Status.isTerminal]
    · simpa [Operation.apply,start,hp] using h
  | stamp time =>
    have ht := hs rfl
    exact ⟨h.result,h.failure,h.skipReason,by simp [Operation.apply,stampFinished,ht],h.attempts,
      h.waiting,h.running⟩
  | _ =>
    cases ht : r.status.isTerminal with
    | true => simpa [Operation.apply,succeed,fail,skip,cancel,finish_of_terminal ht] using h
    | false =>
      obtain ⟨hresult,hfailure,hreason,-,-⟩ := h.of_open ht
      simp only [Operation.apply,succeed,fail,skip,cancel,finish_of_open ht]
      constructor <;> simp [hresult,hfailure,hreason,Status.isTerminal]

theorem status_of_not_changes (h : op.changes r = false) : (op.apply r).status = r.status := by
  cases op with
  | stamp time => rfl
  | _ => rw [apply_of_not_changes (by simp [Operation.goal?]) h]

/-- Only a start changes a record without ending it. -/
theorem goal?_of_start (h : op.changes r = true) (he : op.ends = false) :
    op.goal? = some .running := by
  cases op with
  | start time => rfl
  | stamp time => cases h
  | _ => cases he

end Steps

section Histories

theorem Coupled.foldl {r : Record} (h : r.Coupled) {ops : List Operation} (hs : r.StampsLate ops) :
    (ops.foldl (fun r op => op.apply r) r).Coupled := by
  induction ops generalizing r with
  | nil => exact h
  | cons op ops ih => exact ih (h.apply hs.1) hs.2

theorem heeded_of_terminal {r : Record} (h : r.status.isTerminal = true) (ops : List Operation) :
    heeded r ops = [] ∧ (ops.foldl (fun r op => op.apply r) r).status = r.status := by
  induction ops generalizing r with
  | nil => exact ⟨rfl,rfl⟩
  | cons op ops ih =>
    have hc : op.changes r = false := by
      rw [Bool.eq_false_iff]
      intro hc
      rw [(goal?_of_changes hc).2.1] at h
      cases h
    have hstatus := status_of_not_changes hc
    obtain ⟨hnone,hend⟩ := ih (by rwa [hstatus])
    rw [heeded,if_neg (by simp [hc]),List.foldl_cons]
    exact ⟨hnone,hend.trans hstatus⟩

/-- What is heeded are at most one start, of a record that waits, and then at most one end. -/
theorem heeded_split (r : Record) (ops : List Operation) : ∃ starts ends,
    heeded r ops = starts ++ ends ∧ starts.length ≤ (if r.status = .pending then 1 else 0) ∧
    ends.length ≤ (if r.status.isTerminal then 0 else 1) ∧
    (∀ op ∈ starts, op.goal? = some .running) ∧
    ∀ op ∈ ends, op.ends = true ∧
      op.goal? = some (ops.foldl (fun r op => op.apply r) r).status := by
  induction ops generalizing r with
  | nil => exact ⟨[],[],rfl,by simp,by simp,by simp,by simp⟩
  | cons op ops ih =>
    cases hc : op.changes r with
    | false =>
      obtain ⟨starts,ends,hsplit,hone,htwo,hstarts,hends⟩ := ih (op.apply r)
      rw [status_of_not_changes hc] at hone htwo
      exact ⟨starts,ends,by simpa [heeded,hc] using hsplit,hone,htwo,hstarts,hends⟩
    | true =>
      obtain ⟨hgoal,hopen,hstart⟩ := goal?_of_changes hc
      cases he : op.ends with
      | true =>
        have hterminal : (op.apply r).status.isTerminal = true := by
          simpa [Operation.ends,hgoal] using he
        obtain ⟨hnone,hend⟩ := heeded_of_terminal hterminal ops
        refine ⟨[],[op],by simp [heeded,hc,hnone],by simp,by simp [hopen],by simp,?_⟩
        intro o ho
        rw [List.mem_singleton.mp ho,List.foldl_cons,hend]
        exact ⟨he,hgoal⟩
      | false =>
        have hrunning := goal?_of_start hc he
        have hstatus : (op.apply r).status = .running := Option.some.inj (hgoal.symm.trans hrunning)
        obtain ⟨starts,ends,hsplit,hone,htwo,-,hends⟩ := ih (op.apply r)
        rw [hstatus] at hone htwo
        obtain rfl := List.eq_nil_of_length_eq_zero (Nat.le_zero.mp hone)
        refine ⟨[op],ends,by simp [heeded,hc,hsplit],by simp [hstart he],?_,?_,hends⟩
        · rw [hopen]
          exact htwo
        · simpa using hrunning

theorem stampFinished_not_before (r : Record) (time : Instant) : ∃ t,
    r.stampFinished time = { r with finished := some t } ∧
      ∀ start ∈ r.started, t.isBefore start = false := by
  cases hs : r.started with
  | none => exact ⟨time,by simp [stampFinished,hs],by simp⟩
  | some start =>
    cases hb : time.isBefore start with
    | true => exact ⟨start,by simp [stampFinished,hs,hb],by simp [Instant.isBefore_self]⟩
    | false => exact ⟨time,by simp [stampFinished,hs,hb],by simp [hb]⟩

/-- However a new record is treated, if stamps come only after its end: its parts agree with its state;
of the operations at most one start and then at most one end say that they have changed it, and the
end is that of its state; what says that it has changed nothing has not; and a stamp changes nothing but
the time of the end, which is then not before the start. -/
theorem records_are_written_once (node kind : String) {ops : List Operation}
    (h : StampsLate { node, kind } ops) :
    let r := after node kind ops
    r.Coupled ∧
    (∃ starts ends, heeded { node, kind } ops = starts ++ ends ∧ starts.length ≤ 1 ∧
      ends.length ≤ 1 ∧ (∀ op ∈ starts, op.goal? = some .running) ∧
      ∀ op ∈ ends, op.ends = true ∧ op.goal? = some r.status) ∧
    (∀ op : Operation, op.goal? ≠ none → op.changes r = false → op.apply r = r) ∧
    ∀ time, ∃ t, r.stampFinished time = { r with finished := some t } ∧
      ∀ start ∈ r.started, t.isBefore start = false := by
  have hnew : ({ node, kind } : Record).Coupled := by
    constructor <;> simp [Status.isTerminal]
  obtain ⟨starts,ends,hsplit,hone,htwo,hstarts,hends⟩ := heeded_split { node, kind } ops
  exact ⟨hnew.foldl h,⟨starts,ends,hsplit,hone,htwo,hstarts,hends⟩,fun _ => apply_of_not_changes,
    stampFinished_not_before _⟩

/-- It starts, fails by a clock that is slow, and is told too late that it has succeeded. -/
def belated : List Operation :=
  [.start ⟨5,0⟩,.start ⟨6,0⟩,.fail ⟨4,0⟩ (.internal "out of order") 2,.stamp ⟨4,0⟩,
    .succeed ⟨7,0⟩ .null 3]

theorem belated_stampsLate : StampsLate { node := "bake", kind := "action" } belated :=
  ⟨by decide,by decide,by decide,by decide,by decide,trivial⟩

theorem records_are_written_once_belated :
    let r := after "bake" "action" belated
    r.Coupled ∧ r.status = .failed ∧ r.result = none ∧ r.attempts = 2 ∧
      r.finished = some ⟨5,0⟩ ∧ (Operation.skip ⟨8,0⟩ (.deadPath [])).apply r = r := by
  obtain ⟨hcoupled,-,hlate,-⟩ := records_are_written_once "bake" "action" belated_stampsLate
  exact ⟨hcoupled,rfl,rfl,rfl,rfl,hlate (.skip ⟨8,0⟩ (.deadPath [])) (by decide) rfl⟩

end Histories

end Record

end TaskGraph
