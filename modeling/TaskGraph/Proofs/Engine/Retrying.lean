import Mathlib.Data.List.Chain
import TaskGraph.Proofs.Engine.Story
import TaskGraph.Proofs.Graph.Intact

/-!
Attempts and the pauses between them. What the policy of a node makes of the outcomes of its attempts,
and that the diary of a task that is not cancelled follows it.
-/

namespace TaskGraph

namespace Outcome

/-- Whether no other attempt follows. -/
def isFinal : Outcome → Bool
  | .ok _ => true
  | .error f => !f.isRetryable

/-- How a node ends with it. -/
def ending : Outcome → Ending
  | .ok c => .success c.value c.unselected
  | .error .cancelled => .cancelled
  | .error f => .failed f

theorem ending_failed {f : Failure} (hf : f.isRetryable = true) :
    ending (.error f) = .failed f := by
  cases f with
  | cancelled => cases hf
  | _ => rfl

end Outcome

namespace RetryPolicy

open Engine (Note)

section Functions

variable (p : RetryPolicy) (supply : Nat → Outcome)

/-- The first attempt that succeeds or is cancelled, or the last one that is allowed. -/
def lastAttempt : Nat :=
  ((List.range' 1 p.maxAttempts).find? fun k => (supply k).isFinal).getD p.maxAttempts

/-- The first attempts, each with the pause after it. -/
def rounds (k : Nat) : List Note :=
  (List.range k).flatMap fun i =>
    [.begins (i+1),.ends (i+1) (supply (i+1)),.pauses (i+1) (p.delayAfter (i+1))]

/-- All attempts, with the pauses between them. -/
def course : List Note :=
  let k := p.lastAttempt supply
  p.rounds supply (k-1) ++ [.begins k,.ends k (supply k)]

end Functions

variable {p : RetryPolicy} {supply : Nat → Outcome} {k : Nat}

theorem verdict_failed {f : Failure} (hf : f.isRetryable = true) :
    p.verdict k false (.error f) =
      if k < p.maxAttempts then .again (p.delayAfter k) else .ended (.error f) := by
  have hv : p.verdict k false (.error f) =
      if f.isRetryable && p.shouldRetry k then .again (p.delayAfter k) else .ended (.error f) := by
    cases f with
    | cancelled => cases hf
    | _ => rfl
  simp [hv,hf,shouldRetry]

theorem verdict_eq_again {outcome : Outcome} {delay : Duration}
    (h : p.verdict k false outcome = .again delay) :
    outcome.isFinal = false ∧ k < p.maxAttempts ∧ delay = p.delayAfter k := by
  obtain ⟨c,rfl⟩ | rfl | ⟨f,hf,rfl⟩ := outcome.cases
  · cases h
  · cases h
  · rw [verdict_failed hf] at h
    split at h
    · next hk =>
      cases h
      exact ⟨by simp [Outcome.isFinal,hf],hk,rfl⟩
    · cases h

theorem verdict_eq_ended {outcome final : Outcome} (h : p.verdict k false outcome = .ended final) :
    final = outcome ∧ (outcome.isFinal = true ∨ p.maxAttempts ≤ k) := by
  obtain ⟨c,rfl⟩ | rfl | ⟨f,hf,rfl⟩ := outcome.cases
  · cases h
    exact ⟨rfl,.inl rfl⟩
  · cases h
    exact ⟨rfl,.inl rfl⟩
  · rw [verdict_failed hf] at h
    split at h
    · cases h
    · next hk =>
      cases h
      exact ⟨rfl,.inr (Nat.le_of_not_lt hk)⟩

theorem le_lastAttempt (hk : k ≤ p.maxAttempts)
    (h : ∀ i, 1 ≤ i → i < k → (supply i).isFinal = false) : k ≤ p.lastAttempt supply := by
  unfold lastAttempt
  cases hf : (List.range' 1 p.maxAttempts).find? fun k => (supply k).isFinal with
  | none => exact hk
  | some j =>
    obtain ⟨hfinal,hmem,-⟩ := List.find?_range'_eq_some.mp hf
    refine Nat.le_of_not_lt fun hlt => ?_
    have hopen := h j (List.mem_range'_1.mp hmem).1 hlt
    rw [hfinal] at hopen
    cases hopen

theorem lastAttempt_eq (hk : 1 ≤ k) (hle : k ≤ p.maxAttempts)
    (h : ∀ i, 1 ≤ i → i < k → (supply i).isFinal = false)
    (hlast : (supply k).isFinal = true ∨ p.maxAttempts ≤ k) : p.lastAttempt supply = k := by
  refine Nat.le_antisymm ?_ (le_lastAttempt hle h)
  have hmem : k ∈ List.range' 1 p.maxAttempts := List.mem_range'_1.mpr ⟨hk,by omega⟩
  unfold lastAttempt
  cases hf : (List.range' 1 p.maxAttempts).find? fun k => (supply k).isFinal with
  | none => exact hlast.resolve_left (List.find?_eq_none.mp hf k hmem)
  | some j =>
    obtain ⟨-,hj,hfirst⟩ := List.find?_range'_eq_some.mp hf
    have hjmax := (List.mem_range'_1.mp hj).2
    refine Nat.le_of_not_lt fun hlt => ?_
    obtain hfinal | hmax := hlast
    · simpa [hfinal] using hfirst k hk hlt
    · have hlt : k < j := hlt
      omega

theorem rounds_succ (k : Nat) : p.rounds supply (k+1) = p.rounds supply k ++
    [.begins (k+1),.ends (k+1) (supply (k+1)),.pauses (k+1) (p.delayAfter (k+1))] := by
  simp [rounds,List.range_succ]

theorem rounds_isPrefix {i j : Nat} (h : i ≤ j) : p.rounds supply i <+: p.rounds supply j := by
  induction h with
  | refl => exact List.prefix_rfl
  | step _ ih =>
    rw [rounds_succ]
    exact ih.trans (List.prefix_append _ _)

/-- When an attempt is allowed, it and all rounds before it are on the course. -/
theorem begun_isPrefix (hk : k < p.lastAttempt supply) :
    p.rounds supply k ++ [.begins (k+1)] <+: p.course supply := by
  obtain he | hlt := Nat.eq_or_lt_of_le (Nat.succ_le_of_lt hk)
  · rw [course,← he]
    exact ⟨[.ends (k+1) (supply (k+1))],by simp⟩
  · have hle : k+1 ≤ p.lastAttempt supply-1 := by omega
    have hstep : p.rounds supply k ++ [.begins (k+1)] <+: p.rounds supply (k+1) := by
      rw [rounds_succ]
      exact ⟨[.ends (k+1) (supply (k+1)),.pauses (k+1) (p.delayAfter (k+1))],by simp⟩
    exact (hstep.trans (rounds_isPrefix hle)).trans (List.prefix_append _ _)

end RetryPolicy

namespace Engine

/-- Whether a note is of an attempt as a whole, or of what comes between two of them. -/
def Note.isMilestone : Note → Bool
  | .begins _ | .ends .. | .pauses .. | .givesUp _ => true
  | _ => false

def milestones (log : List Line) : List Line := log.filter fun x => x.note.isMilestone

/-- After a pause nothing follows before its time is over. -/
def Line.Awaits (x y : Line) : Prop :=
  ∀ k delay, x.note = .pauses k delay → x.moment.time+delay.wait ≤ y.moment.time

/-- Whether nothing in a diary was noted after a cancellation, and attempts have come to what a supply
says. -/
def IsCalm (supply : Nat → Outcome) (log : List Line) : Prop :=
  ∀ x ∈ log, x.moment.cancelled = false ∧ ∀ k outcome, x.note = .ends k outcome → outcome = supply k

section Milestones

theorem milestones_append (log log' : List Line) :
    milestones (log ++ log') = milestones log ++ milestones log' := List.filter_append ..

theorem milestones_inner {log : List Line} (h : ∀ x ∈ log, x.note.isInner = true) :
    milestones log = [] := by
  refine List.filter_eq_nil_iff.mpr fun x hx => ?_
  have hin := h x hx
  cases hn : x.note <;> rw [hn] at hin <;> first | exact Bool.false_ne_true | cases hin

theorem Tried.Fits.milestones_eq {A : Account} {ready : Nat} {a : Tried} (h : a.Fits A ready) :
    milestones a.lines = [⟨a.start,.begins a.attempt⟩,⟨a.finish,.ends a.attempt a.outcome⟩] := by
  rw [Tried.lines,List.cons_append,milestones,List.filter_cons_of_pos rfl,List.filter_append]
  exact congrArg (fun inner => _::inner ++ _) (milestones_inner h.inner)

end Milestones

variable {n : GraphNode Graph} {s : Scope} {A : Account} {k ready : Nat} {log : List Line}
  {supply : Nat → Outcome}

/-- What the first attempts leave in a diary, when no cancellation comes between them. -/
structure Keeps (p : RetryPolicy) (supply : Nat → Outcome) (k ready : Nat) (log : List Line) : Prop where
  notes : (milestones log).map Line.note = p.rounds supply k
  waits : (milestones log).IsChain Line.Awaits
  ready : ∀ x ∈ (milestones log).getLast?, ∀ k delay, x.note = .pauses k delay →
    x.moment.time+delay.wait ≤ ready
  open_ : ∀ i, 1 ≤ i → i ≤ k → (supply i).isFinal = false ∧ i < p.maxAttempts

theorem Keeps.tried {p : RetryPolicy} (h : Keeps p supply k ready log) {a : Tried} (hk : a.attempt = k+1)
    (hf : a.Fits A ready) (hs : a.outcome = supply (k+1)) :
    (milestones (log ++ a.lines)).map Line.note =
      p.rounds supply k ++ [.begins (k+1),.ends (k+1) (supply (k+1))] ∧
    (milestones (log ++ a.lines)).IsChain Line.Awaits := by
  rw [milestones_append,hf.milestones_eq,List.map_append,h.notes,hk,hs]
  refine ⟨rfl,h.waits.append ?_ ?_⟩
  · exact List.isChain_pair.mpr nofun
  · rintro x hx _ ⟨⟩ i delay hx'
    exact Nat.le_trans (h.ready x hx i delay hx') hf.ready

theorem Rounds.keeps (h : Rounds n A k ready log) (hc : IsCalm supply log) :
    Keeps n.retry supply k ready log := by
  induction h with
  | none => exact ⟨rfl,.nil,nofun,fun i hi hk => absurd hk (Nat.not_le.mpr hi)⟩
  | @again k ready log a delay _ hk hf hv ih =>
    have ih := ih fun x hx => hc x (List.mem_append_left _ (List.mem_append_left _ hx))
    obtain ⟨hstamp,hs⟩ := hc ⟨a.finish,.ends a.attempt a.outcome⟩
      (List.mem_append_left _ (List.mem_append_right _ (List.mem_append_right _ List.mem_cons_self)))
    have hs : a.outcome = supply (k+1) := hk ▸ hs _ _ rfl
    rw [hs,show a.finish.cancelled = false from hstamp] at hv
    obtain ⟨hopen,hlt,rfl⟩ := RetryPolicy.verdict_eq_again hv
    obtain ⟨hnotes,hwaits⟩ := ih.tried hk hf hs
    constructor
    · rw [milestones_append,List.map_append,hnotes,RetryPolicy.rounds_succ,List.append_assoc]
      rfl
    · rw [milestones_append]
      refine hwaits.append (.singleton _) ?_
      rintro x hx y - i delay hx'
      rw [milestones_append,hf.milestones_eq,List.getLast?_append] at hx
      cases hx
      cases hx'
    · rw [milestones_append]
      intro x hx i delay hx'
      rw [List.getLast?_append] at hx
      cases hx
      cases hx'
      exact Nat.le_refl _
    · intro i hi hle
      obtain rfl | hle := Nat.eq_or_lt_of_le hle
      · exact ⟨hopen,hlt⟩
      · exact ih.open_ i hi (Nat.le_of_lt_succ hle)

/-- What an attempt that goes on adds. -/
theorem Keeps.begun {p : RetryPolicy} (h : Keeps p supply k ready log) {start : Moment}
    {inner : List Line} (hready : ready ≤ start.time) (hinner : ∀ x ∈ inner, x.note.isInner = true) :
    (milestones (log ++ ⟨start,.begins (k+1)⟩::inner)).map Line.note =
      p.rounds supply k ++ [.begins (k+1)] ∧
    (milestones (log ++ ⟨start,.begins (k+1)⟩::inner)).IsChain Line.Awaits := by
  have hnew : milestones (⟨start,.begins (k+1)⟩::inner) = [⟨start,.begins (k+1)⟩] :=
    congrArg (List.cons _) (milestones_inner hinner)
  rw [milestones_append,hnew,List.map_append,h.notes]
  refine ⟨rfl,h.waits.append (.singleton _) ?_⟩
  rintro x hx _ ⟨⟩ i delay hx'
  exact Nat.le_trans (h.ready x hx i delay hx') hready

theorem Keeps.lt_lastAttempt {p : RetryPolicy} (h : Keeps p supply k ready log)
    (hp : 1 ≤ p.maxAttempts) : k < p.lastAttempt supply := by
  refine RetryPolicy.le_lastAttempt ?_ fun i hi hk => (h.open_ i hi (Nat.le_of_lt_succ hk)).1
  obtain rfl | hpos := Nat.eq_zero_or_pos k
  · exact hp
  · exact (h.open_ k hpos (Nat.le_refl k)).2

/-- A diary follows a course of attempts. -/
structure Follows (p : RetryPolicy) (supply : Nat → Outcome) (log : List Line) : Prop where
  notes : (milestones log).map Line.note <+: p.course supply
  waits : (milestones log).IsChain Line.Awaits

/-- A diary has come to the end of a course of attempts. -/
structure Completes (p : RetryPolicy) (supply : Nat → Outcome) (k : Nat) (log : List Line) : Prop where
  notes : (milestones log).map Line.note = p.course supply
  waits : (milestones log).IsChain Line.Awaits
  last : k = p.lastAttempt supply

theorem Completes.follows {p : RetryPolicy} (h : Completes p supply k log) : Follows p supply log :=
  ⟨h.notes ▸ List.prefix_rfl,h.waits⟩

theorem Completes.append {p : RetryPolicy} (h : Completes p supply k log) {rest : List Line}
    (hrest : milestones rest = []) : Completes p supply k (log ++ rest) := by
  have hsame : milestones (log ++ rest) = milestones log := by
    rw [milestones_append,hrest,List.append_nil]
  exact ⟨hsame ▸ h.notes,hsame ▸ h.waits,h.last⟩

theorem Follows.append {p : RetryPolicy} (h : Follows p supply log) {rest : List Line}
    (hrest : milestones rest = []) : Follows p supply (log ++ rest) := by
  have hsame : milestones (log ++ rest) = milestones log := by
    rw [milestones_append,hrest,List.append_nil]
  exact ⟨hsame ▸ h.notes,hsame ▸ h.waits⟩

theorem Over.completes {cancelled : Bool} {outcome : Outcome} (h : Over n A k cancelled log outcome)
    (hn : 1 ≤ n.retry.maxAttempts) (hc : IsCalm supply log) :
    Completes n.retry supply k log ∧ outcome = supply k ∧ cancelled = false := by
  cases h with
  | @ended k ready log a _ hr hk hf hv =>
    have hkeeps := hr.keeps fun x hx => hc x (List.mem_append_left _ hx)
    obtain ⟨hstamp,hs⟩ := hc ⟨a.finish,.ends a.attempt a.outcome⟩
      (List.mem_append_right _ (List.mem_append_right _ List.mem_cons_self))
    have hs : a.outcome = supply (k+1) := hk ▸ hs _ _ rfl
    have hstamp : a.finish.cancelled = false := hstamp
    rw [hs,hstamp] at hv
    obtain ⟨rfl,hlast⟩ := RetryPolicy.verdict_eq_ended hv
    obtain ⟨hnotes,hwaits⟩ := hkeeps.tried hk hf hs
    have hle : k+1 ≤ n.retry.maxAttempts := by
      obtain rfl | hpos := Nat.eq_zero_or_pos k
      · exact hn
      · exact (hkeeps.open_ k hpos (Nat.le_refl k)).2
    have he := RetryPolicy.lastAttempt_eq (Nat.succ_pos k) hle
      (fun i hi hk => (hkeeps.open_ i hi (Nat.le_of_lt_succ hk)).1) hlast
    refine ⟨⟨?_,hwaits,he.symm⟩,rfl,hstamp⟩
    rw [hnotes,RetryPolicy.course,he]
    rfl
  | @stopped k _ _ m _ hm =>
    have hstamp : m.cancelled = false :=
      (hc ⟨m,.givesUp (k+1)⟩ (List.mem_append_right _ List.mem_cons_self)).1
    rw [hm] at hstamp
    cases hstamp

theorem Settled.completes {outcome : Outcome} (h : Settled n s A k log outcome)
    (hn : 1 ≤ n.retry.maxAttempts) (hc : IsCalm supply log) :
    Completes n.retry supply k log ∧ (n.kind.always? = none → outcome = supply k) := by
  cases h with
  | plain ho =>
    obtain ⟨hcompletes,he,-⟩ := ho.completes hn hc
    exact ⟨hcompletes,fun _ => he⟩
  | dropped ho ha =>
    refine ⟨(ho.completes hn hc).1,fun hnone => ?_⟩
    rw [ha] at hnone
    cases hnone
  | always ho ha =>
    have hcompletes := (ho.completes hn fun x hx => hc x (List.mem_append_left _ hx)).1
    refine ⟨hcompletes.append rfl,fun hnone => ?_⟩
    rw [ha] at hnone
    cases hnone

theorem Rounds.follows (h : Rounds n A k ready log) (hn : 1 ≤ n.retry.maxAttempts)
    (hc : IsCalm supply log) : Follows n.retry supply log := by
  have hkeeps := h.keeps hc
  refine ⟨?_,hkeeps.waits⟩
  rw [hkeeps.notes]
  exact (List.prefix_append _ _).trans (RetryPolicy.begun_isPrefix (hkeeps.lt_lastAttempt hn))

theorem Rounds.follows_begun (h : Rounds n A k ready log) (hn : 1 ≤ n.retry.maxAttempts)
    {start : Moment} {inner : List Line} (hready : ready ≤ start.time)
    (hinner : ∀ x ∈ inner, x.note.isInner = true)
    (hc : IsCalm supply (log ++ ⟨start,.begins (k+1)⟩::inner)) :
    Follows n.retry supply (log ++ ⟨start,.begins (k+1)⟩::inner) := by
  have hkeeps := h.keeps fun x hx => hc x (List.mem_append_left _ hx)
  obtain ⟨hnotes,hwaits⟩ := hkeeps.begun hready hinner
  refine ⟨?_,hwaits⟩
  rw [hnotes]
  exact RetryPolicy.begun_isPrefix (hkeeps.lt_lastAttempt hn)

/-- A diary with a report follows the policy, and has come to the end of it unless the task broke
down. -/
theorem Life.follows {report : Report} (h : Life n s A log report) (hn : 1 ≤ n.retry.maxAttempts)
    (hc : IsCalm supply log) : Follows n.retry supply log ∧
    ((∀ x ∈ log, ∀ message, x.note ≠ .breaksDown message) →
      Completes n.retry supply report.attempts log ∧
        (n.kind.always? = none → report.ending = (supply report.attempts).ending)) := by
  have hfront {front rest : List Line} (hf : log = front ++ rest) : IsCalm supply front :=
    fun x hx => hc x (hf ▸ List.mem_append_left _ hx)
  cases h with
  | @unasked m hm =>
    have hstamp : m.cancelled = false := (hc ⟨m,.givesUp 0⟩ List.mem_cons_self).1
    rw [hm] at hstamp
    cases hstamp
  | success hs | cancelled hs =>
    obtain ⟨hcompletes,he⟩ := hs.completes hn (hfront rfl)
    exact ⟨(hcompletes.append rfl).follows,
      fun _ => ⟨hcompletes.append rfl,fun hnone => (he hnone) ▸ rfl⟩⟩
  | failed hs hf | handled hs hf =>
    obtain ⟨hcompletes,he⟩ := hs.completes hn (hfront rfl)
    exact ⟨(hcompletes.append rfl).follows,
      fun _ => ⟨hcompletes.append rfl,fun hnone => he hnone ▸ (Outcome.ending_failed hf).symm⟩⟩
  | broken hr hready hinner =>
    exact ⟨(hr.follows_begun hn hready hinner (hfront rfl)).append rfl,
      fun hb => absurd rfl (hb _ (List.mem_append_right _ List.mem_cons_self) _)⟩

/-- The diary of a task that is not cancelled follows the policy of its node. -/
theorem Living.follows {p : Phase} (h : Living n s A log p) (hn : 1 ≤ n.retry.maxAttempts)
    (hc : IsCalm supply log) : Follows n.retry supply log := by
  have hfront {front rest : List Line} (hf : log = front ++ rest) : IsCalm supply front :=
    fun x hx => hc x (hf ▸ List.mem_append_left _ hx)
  cases h with
  | asking =>
    refine ⟨?_,.nil⟩
    exact List.nil_prefix
  | attempting hr hready hinner => exact hr.follows_begun hn hready hinner hc
  | pausing hr => exact hr.follows hn hc
  | always ho => exact (ho.completes hn (hfront rfl)).1.follows.append rfl
  | handling hs => exact (hs.completes hn (hfront rfl)).1.follows.append rfl
  | leaving h => exact (h.follows hn hc).1
  | collapsed hr hready hinner =>
    exact (hr.follows_begun hn hready hinner (hfront rfl)).append rfl

end Engine

end TaskGraph
