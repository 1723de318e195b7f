import TaskGraph.Proofs.Engine.Looping

/-!
Where loops stop. Their condition and their bodies decide before which turn they do, or in which, whatever
the condition and the bodies do in turns that are never taken.
-/

namespace TaskGraph

theorem RunResult.failure_ne_capExceeded (r : RunResult) (cap : Nat) :
    r.failure ≠ .loopCapExceeded cap := by
  unfold failure
  split <;> simp

theorem Attempt.looped_injective : Function.Injective looped := by
  intro a b h
  have hfields := congrArg (Fields.get? "outputs") (Value.object.inj (congrArg Completed.value h))
  have hget (outputs : List Value) : Fields.get? "outputs" (Fields.ofList
      [("iterations",.int outputs.length),("outputs",.array outputs)]) = some (.array outputs) :=
    Fields.get?_insert_self "outputs" _ _
  rw [hget,hget] at hfields
  cases hfields
  rfl

namespace Engine

section Behaviours

variable (σ : Setting) (s : Scope) (condition : Value) (cap : Nat) (bodies : Nat → RunResult)

/-- The outputs of the first bodies. -/
def firstOutputs (i : Nat) : List Value := (List.range i).map fun j => (bodies j).output

/-- What the condition says before a turn, if the bodies of all earlier turns have run. -/
def saysBefore (i : Nat) : Except Template.ConditionFault Bool :=
  proceeds σ s condition (firstOutputs bodies i)

/-- Whether a loop comes as far as a turn: the condition is true before each earlier one, and their
bodies succeed. -/
def ComesTo (i : Nat) : Prop :=
  ∀ j < i, saysBefore σ s condition bodies j = .ok true ∧ (bodies j).status = .success

/-- Before which turn a loop stops, or in which, and what it comes to. -/
inductive Stops : Nat → Outcome → Prop
  | done {i : Nat} : ComesTo σ s condition bodies i → i ≤ cap →
    saysBefore σ s condition bodies i = .ok false →
    Stops i (.ok (Attempt.looped (firstOutputs bodies i)))
  | capped {i : Nat} : ComesTo σ s condition bodies i → i = cap →
    saysBefore σ s condition bodies i = .ok true → Stops i (.error (.loopCapExceeded cap))
  | undecided {i : Nat} {fault : Template.ConditionFault} : ComesTo σ s condition bodies i → i ≤ cap →
    saysBefore σ s condition bodies i = .error fault → Stops i (.error (.render fault.text))
  | failed {i : Nat} : ComesTo σ s condition bodies i → i < cap →
    saysBefore σ s condition bodies i = .ok true → (bodies i).status = .failed →
    Stops i (.error (bodies i).failure)

/-- What a loop comes to, by what its condition and its bodies do. -/
structure Heeds (outcome : Outcome) : Prop where
  success : ∀ i, outcome = .ok (Attempt.looped (firstOutputs bodies i)) ↔
    ComesTo σ s condition bodies i ∧ saysBefore σ s condition bodies i = .ok false ∧ i ≤ cap
  value : ∀ c, outcome = .ok c → ∃ i, c = Attempt.looped (firstOutputs bodies i)
  capped : outcome = .error (.loopCapExceeded cap) ↔
    (∀ i < cap, (bodies i).status = .success) ∧ ∀ i ≤ cap, saysBefore σ s condition bodies i = .ok true
  failed : ∀ f, f ≠ .loopCapExceeded cap → (outcome = .error f ↔ ∃ i, ComesTo σ s condition bodies i ∧
    (i ≤ cap ∧ (∃ fault, saysBefore σ s condition bodies i = .error fault ∧ f = .render fault.text) ∨
      i < cap ∧ saysBefore σ s condition bodies i = .ok true ∧ (bodies i).status = .failed ∧
        f = (bodies i).failure))

end Behaviours

section Outcomes

variable {σ : Setting} {n : GraphNode Graph} {s : Scope} {condition : Value} {cap : Nat} {body : Graph}
  {start m : Moment} {results : List RunResult} {inner : List Line} {run : RunId}
  {bodies : Nat → RunResult} {i j : Nat} {outcome outcome' : Outcome}

theorem firstOutputs_length (bodies : Nat → RunResult) (i : Nat) :
    (firstOutputs bodies i).length = i := by
  rw [firstOutputs,List.length_map,List.length_range]

theorem firstOutputs_succ :
    firstOutputs bodies (i+1) = firstOutputs bodies i ++ [(bodies i).output] := by
  rw [firstOutputs,List.range_succ,List.map_append]
  rfl

theorem firstOutputs_injective (h : firstOutputs bodies i = firstOutputs bodies j) : i = j := by
  rw [← firstOutputs_length bodies i,h,firstOutputs_length]

/-- A loop does not come further than where it stops. -/
theorem Stops.not_lt (h : Stops σ s condition cap bodies i outcome)
    (hj : ComesTo σ s condition bodies j) (hle : j ≤ cap) : ¬ i < j := by
  intro hlt
  obtain ⟨hcond,hs⟩ := hj i hlt
  cases h with
  | done _ _ hfalse =>
    rw [hcond] at hfalse
    cases hfalse
  | capped _ hcap => exact absurd hlt (Nat.not_lt.mpr (hcap ▸ hle))
  | undecided _ _ hfault =>
    rw [hcond] at hfault
    cases hfault
  | failed _ _ _ hf =>
    rw [hs] at hf
    cases hf

theorem Stops.comesTo (h : Stops σ s condition cap bodies i outcome) :
    ComesTo σ s condition bodies i ∧ i ≤ cap := by
  cases h with
  | done hc hle | undecided hc hle => exact ⟨hc,hle⟩
  | capped hc hcap => exact ⟨hc,Nat.le_of_eq hcap⟩
  | failed hc hlt => exact ⟨hc,Nat.le_of_lt hlt⟩

theorem Stops.unique (h : Stops σ s condition cap bodies i outcome)
    (h' : Stops σ s condition cap bodies j outcome') : i = j ∧ outcome = outcome' := by
  obtain ⟨hc,hle⟩ := h.comesTo
  obtain ⟨hc',hle'⟩ := h'.comesTo
  obtain rfl : i = j :=
    Nat.le_antisymm (Nat.not_lt.mp (h'.not_lt hc hle)) (Nat.not_lt.mp (h.not_lt hc' hle'))
  refine ⟨rfl,?_⟩
  cases h <;> cases h' <;> simp_all

theorem Stops.heeds (h : Stops σ s condition cap bodies i outcome) :
    Heeds σ s condition cap bodies outcome := by
  refine ⟨fun j => ⟨?_,?_⟩,?_,⟨?_,?_⟩,fun f hf => ⟨?_,?_⟩⟩
  · rintro rfl
    generalize he : firstOutputs bodies j = outputs at h
    generalize hc : Attempt.looped outputs = c at h
    cases h with
    | done hgoes hle hcond =>
      obtain rfl := firstOutputs_injective (he.trans (Attempt.looped_injective hc))
      exact ⟨hgoes,hcond,hle⟩
  · rintro ⟨hgoes,hcond,hle⟩
    exact (h.unique (.done hgoes hle hcond)).2
  · rintro c rfl
    cases h
    exact ⟨i,rfl⟩
  · intro he
    generalize hfailure : Failure.loopCapExceeded cap = f at he
    subst he
    cases h with
    | capped hgoes hcap hcond =>
      subst hcap
      refine ⟨fun j hj => (hgoes j hj).2,fun j hj => ?_⟩
      obtain rfl | hj := Nat.eq_or_lt_of_le hj
      · exact hcond
      · exact (hgoes j hj).1
    | undecided => cases hfailure
    | failed => exact absurd hfailure.symm (RunResult.failure_ne_capExceeded _ cap)
  · rintro ⟨hs,hcond⟩
    exact (h.unique (.capped (fun j hj => ⟨hcond j (Nat.le_of_lt hj),hs j hj⟩) rfl
      (hcond cap (Nat.le_refl cap)))).2
  · rintro rfl
    cases h with
    | capped => exact absurd rfl hf
    | undecided hgoes hle hcond => exact ⟨i,hgoes,.inl ⟨hle,_,hcond,rfl⟩⟩
    | failed hgoes hlt hcond hs => exact ⟨i,hgoes,.inr ⟨hlt,hcond,hs,rfl⟩⟩
  · rintro ⟨j,hgoes,⟨hle,fault,hcond,rfl⟩ | ⟨hlt,hcond,hs,rfl⟩⟩
    · exact (h.unique (.undecided hgoes hle hcond)).2
    · exact (h.unique (.failed hgoes hlt hcond hs)).2

/-- The results that an attempt has taken, in their order. -/
def taken (inner : List Line) : List RunResult := inner.filterMap fun x => match x.note with
  | .closes _ r => some r
  | _ => none

/-- How often the body has started in an attempt. -/
def turnsBegun (inner : List Line) : Nat := inner.countP fun x => match x.note with
  | .opens .. => true
  | _ => false

theorem taken_append (front rest : List Line) :
    taken (front ++ rest) = taken front ++ taken rest := List.filterMap_append

theorem turnsBegun_append (front rest : List Line) :
    turnsBegun (front ++ rest) = turnsBegun front + turnsBegun rest := List.countP_append

theorem Turns.counts (h : Turns σ s condition cap body start results inner m) :
    taken inner = results ∧ turnsBegun inner = results.length ∧ results.length ≤ cap := by
  induction h with
  | none => exact ⟨rfl,rfl,Nat.zero_le _⟩
  | more _ _ hlt _ ih =>
    obtain ⟨htaken,hbegun,-⟩ := ih
    refine ⟨?_,?_,?_⟩
    · rw [taken_append,htaken]
      rfl
    · rw [turnsBegun_append,hbegun,List.length_append]
      rfl
    · rw [List.length_append]
      exact hlt

theorem Turning.counts (h : Turning σ s condition cap body start results run inner) :
    taken inner = results ∧ turnsBegun inner ≤ cap := by
  obtain ⟨hturns,-,hlt⟩ := h
  obtain ⟨htaken,hbegun,-⟩ := hturns.counts
  constructor
  · rw [taken_append,htaken]
    exact List.append_nil _
  · rw [turnsBegun_append,hbegun]
    exact hlt

theorem Turns.comesTo (h : Turns σ s condition cap body start results inner m)
    (hb : ∀ i r, results[i]? = some r → bodies i = r) :
    ComesTo σ s condition bodies results.length ∧
      results.map RunResult.output = firstOutputs bodies results.length := by
  induction h with
  | none => exact ⟨fun _ hj => absurd hj (Nat.not_lt_zero _),rfl⟩
  | @more results _ _ _ _ r _ hp _ hs ih =>
    obtain ⟨hgoes,hout⟩ := ih fun i q hq => hb i q (by
      rw [List.getElem?_append_left (List.getElem?_eq_some_iff.mp hq).1]
      exact hq)
    have hr : bodies results.length = r := hb _ r List.getElem?_concat_length
    rw [List.length_append,List.length_singleton,firstOutputs_succ,hr,← hout,List.map_append]
    refine ⟨fun j hj => ?_,rfl⟩
    obtain rfl | hj := Nat.eq_or_lt_of_le (Nat.le_of_lt_succ hj)
    · rw [hr]
      exact ⟨by rw [saysBefore,← hout,hp],hs⟩
    · exact hgoes j hj

theorem ofCondition_failed {fault : Template.ConditionFault} {f : Failure}
    (h : Task.Stop.ofCondition fault = .failed f) : f = .render fault.text := by
  cases fault with
  | noCondition v =>
    cases h
    rfl
  | render fault =>
    rw [Task.Stop.ofCondition,Task.Stop.ofTemplate] at h
    split at h
    · cases h
    · cases h
      rfl

/-- What an attempt comes to in time and without a cancellation is what its condition and its bodies
make it. -/
theorem Looped.heeds (h : Looped σ n s condition cap body start inner m outcome)
    (hc : outcome.isCancelled = false) (hb : ∀ i r, (taken inner)[i]? = some r → bodies i = r) :
    Heeds σ s condition cap bodies outcome ∨
      ∃ d, n.timeout = some d ∧ outcome = .error (.timeout d) ∧ start.time+d.wait ≤ m.time := by
  cases h with
  | done hturns hp =>
    obtain ⟨htaken,-,hle⟩ := hturns.counts
    obtain ⟨hgoes,hout⟩ := hturns.comesTo (htaken ▸ hb)
    rw [hout] at hp ⊢
    exact .inl (Stops.done hgoes hle hp).heeds
  | capped hturns hp hcap =>
    obtain ⟨htaken,-,hle⟩ := hturns.counts
    obtain ⟨hgoes,hout⟩ := hturns.comesTo (htaken ▸ hb)
    rw [hout] at hp
    exact .inl (Stops.capped hgoes (Nat.le_antisymm hle hcap) hp).heeds
  | undecided hturns hp hf =>
    obtain ⟨htaken,-,hle⟩ := hturns.counts
    obtain ⟨hgoes,hout⟩ := hturns.comesTo (htaken ▸ hb)
    rw [hout] at hp
    rw [ofCondition_failed hf]
    exact .inl (Stops.undecided hgoes hle hp).heeds
  | @failed results _ _ run r hturning hs =>
    rw [taken_append,hturning.counts.1,show taken [⟨m,.closes run r⟩] = [r] from rfl] at hb
    obtain ⟨hturns,hp,hlt⟩ := hturning
    obtain ⟨hgoes,hout⟩ := hturns.comesTo fun i q hq => hb i q (by
      rw [List.getElem?_append_left (List.getElem?_eq_some_iff.mp hq).1]
      exact hq)
    have hr : bodies results.length = r := hb _ r List.getElem?_concat_length
    rw [hout] at hp
    rw [← hr] at hs ⊢
    exact .inl (Stops.failed hgoes hlt hp hs).heeds
  | bodyCancelled | cancelled => cases hc
  | late _ hd hle => exact .inr ⟨_,hd,rfl,hle⟩

theorem Looped.turnsBegun_le (h : Looped σ n s condition cap body start inner m outcome) :
    turnsBegun inner ≤ cap := by
  cases h with
  | done h | capped h | undecided h | cancelled h =>
    obtain ⟨-,hbegun,hle⟩ := h.counts
    exact hbegun ▸ hle
  | failed h | bodyCancelled h =>
    rw [turnsBegun_append]
    exact h.counts.2
  | late h => exact h.counts.2

end Outcomes

end Engine

end TaskGraph
