import TaskGraph.Proofs.Failure
import TaskGraph.Record.Wire

/-!
Whatever happens to a record, it is read from its written form, but for one thing: a result that is
null is written, and read as if there were no result.
-/

namespace TaskGraph

/-- A time that is read from its text. -/
def Instant.IsFaithful (t : Instant) : Prop := parse? t.text = some t

instance (t : Instant) : Decidable t.IsFaithful :=
  inferInstanceAs (Decidable (Instant.parse? t.text = some t))

namespace SkipReason

theorem ofValue?_toValue (s : SkipReason) : ofValue? s.toValue = some s := by
  cases s <;> simp [ofValue?,toValue,word,List.lookup_cons,Value.asString?,Value.asStrings?_ofStrings]

theorem toValue_tidy (s : SkipReason) : s.toValue.Tidy Json.isWord := by
  cases s <;> exact .ofPairs (by simp [Value.Tidy.string,Value.Tidy.ofStrings])

theorem toValue_ne_null (s : SkipReason) : s.toValue ≠ .null := by
  simp [toValue,Value.tagged,Value.ofPairs]

end SkipReason

namespace Record

/-- What may happen to a record, with the time at which it happens. -/
inductive Operation where
  | start (time : Instant)
  | succeed (now : Instant) (result : Value) (attempts : Nat)
  | fail (now : Instant) (failure : Failure) (attempts : Nat)
  | skip (now : Instant) (reason : SkipReason)
  | cancel (now : Instant) (attempts : Nat)
  | stamp (time : Instant)

namespace Operation

def apply : Operation → Record → Record
  | .start time, r => (r.start time).1
  | .succeed now result attempts, r => (r.succeed now result attempts).1
  | .fail now failure attempts, r => (r.fail now failure attempts).1
  | .skip now reason, r => (r.skip now reason).1
  | .cancel now attempts, r => (r.cancel now attempts).1
  | .stamp time, r => r.stampFinished time

/-- The times are read from their texts, the numbers lie within their types, and values are of some
kind. -/
def Fits (value : Value → Prop) : Operation → Prop
  | .start time | .stamp time => time.IsFaithful
  | .succeed now result attempts => now.IsFaithful ∧ value result ∧ attempts < Nat.pow 2 32
  | .fail now failure attempts => now.IsFaithful ∧ failure.Fits value ∧ attempts < Nat.pow 2 32
  | .skip now _ => now.IsFaithful
  | .cancel now attempts => now.IsFaithful ∧ attempts < Nat.pow 2 32

end Operation

/-- The record of a node after some operations. -/
def after (node kind : String) (operations : List Operation) : Record :=
  operations.foldl (fun r op => op.apply r) { node, kind }

/-- What operations that fit keep of a record. -/
structure Fits (value : Value → Prop) (r : Record) : Prop where
  result : ∀ v ∈ r.result, value v
  failure : ∀ f ∈ r.failure, f.Fits value
  attempts : r.attempts < Nat.pow 2 32
  started : ∀ t ∈ r.started, t.IsFaithful
  finished : ∀ t ∈ r.finished, t.IsFaithful

theorem Fits.finish {value : Value → Prop} {r : Record} (h : r.Fits value) {status : Status}
    {now : Instant} {change : Record → Record}
    (hc : ({ r with status, finished := some now } : Record).Fits value →
      (change { r with status, finished := some now }).Fits value) (hnow : now.IsFaithful) :
    (r.finish status now change).1.Fits value := by
  unfold Record.finish
  split
  · exact h
  · exact hc ⟨h.result,h.failure,h.attempts,h.started,by simpa using hnow⟩

theorem Fits.apply {value : Value → Prop} {r : Record} (h : r.Fits value) {op : Operation}
    (hop : op.Fits value) : (op.apply r).Fits value := by
  cases op with
  | start time =>
    have htime : time.IsFaithful := hop
    show (r.start time).1.Fits value
    unfold Record.start
    split
    · exact ⟨h.result,h.failure,h.attempts,by simpa using htime,h.finished⟩
    · exact h
  | succeed now result attempts =>
    obtain ⟨hnow,hresult,hattempts⟩ := hop
    exact h.finish (fun k => ⟨by simpa using hresult,k.failure,hattempts,k.started,k.finished⟩) hnow
  | fail now failure attempts =>
    obtain ⟨hnow,hfailure,hattempts⟩ := hop
    exact h.finish (fun k => ⟨k.result,by simpa using hfailure,hattempts,k.started,k.finished⟩) hnow
  | skip now reason =>
    exact h.finish (fun k => ⟨k.result,k.failure,k.attempts,k.started,k.finished⟩) hop
  | cancel now attempts =>
    obtain ⟨hnow,hattempts⟩ := hop
    exact h.finish (fun k => ⟨k.result,by simpa using .cancelled,hattempts,k.started,k.finished⟩) hnow
  | stamp time =>
    refine ⟨h.result,h.failure,h.attempts,h.started,fun t ht => ?_⟩
    obtain rfl := Option.some.inj ht
    cases hs : r.started with
    | none => exact hop
    | some start =>
      dsimp only
      split
      · exact h.started start hs
      · exact hop

/-- Everything that operations make of a record fits, if they do. -/
theorem after_fits {value : Value → Prop} (node kind : String) {operations : List Operation}
    (h : ∀ op ∈ operations, op.Fits value) : (after node kind operations).Fits value := by
  have hfold (r : Record) (hr : r.Fits value) :
      (operations.foldl (fun r op => op.apply r) r).Fits value := by
    induction operations generalizing r with
    | nil => exact hr
    | cons op rest ih =>
      exact ih (fun op hop => h op (List.mem_cons_of_mem _ hop)) _
        (hr.apply (h op List.mem_cons_self))
  exact hfold _ ⟨by simp,by simp,Nat.two_pow_pos 32,by simp,by simp⟩

/-- A record without its result if that is null. -/
def withoutNull (r : Record) : Record := { r with result := r.result.filter (· ≠ .null) }

theorem withoutNull_eq_self {r : Record} : r.withoutNull = r ↔ r.result ≠ some .null := by
  have hfilter : r.result.filter (· ≠ .null) = r.result ↔ r.result ≠ some .null := by
    cases r.result <;> simp [Option.filter]
  constructor
  · intro h
    exact hfilter.mp (congrArg result h)
  · intro h
    unfold withoutNull
    rw [hfilter.mpr h]

section Reading

theorem lookup_optionalField (name part : String) (v : Option Value) :
    (optionalField name v).reverse.lookup part = if part = name then v else none := by
  cases v with
  | none => simp [optionalField]
  | some v =>
    by_cases h : part = name
    · simp [optionalField,h]
    · have hb : (part == name) = false := by simpa using h
      simp [optionalField,List.lookup_cons,h,hb]

theorem parts?_toValue (r : Record) : r.toValue.parts? partNames =
    some [some (.string r.node),some (.string r.kind),some (.string r.status.text),r.result,
      r.failure.map Failure.toValue,r.skipReason.map SkipReason.toValue,some (.int r.attempts),
      some (timeValue r.started),some (timeValue r.finished)] := by
  simp [toValue,timelessFields,Value.ofPairs,Value.parts?,partNames,Fields.get?_ofList,List.lookup_cons,
    List.lookup_append,lookup_optionalField]

/-- A part that may be missing is read if what is written of it is no null. -/
theorem optional?_map {α : Type} {read : Value → Option α} {write : α → Value} {x : Option α}
    (hnull : ∀ a ∈ x, write a ≠ .null) (hread : ∀ a ∈ x, read (write a) = some a) :
    optional? read (x.map write) = some x := by
  cases x with
  | none => rfl
  | some a =>
    rw [Option.map_some]
    unfold optional?
    split
    · next he => cases he
    · next he => exact absurd (Option.some.inj he) (hnull a rfl)
    · next he => rw [← Option.some.inj he,hread a rfl]; rfl

theorem optional?_some (x : Option Value) : optional? some x = some (x.filter (· ≠ .null)) := by
  unfold optional?
  split
  · rfl
  · rfl
  · next v hv =>
    have hne : v ≠ .null := fun he => hv he
    simp [Option.filter,hne]

theorem optional?_timeValue {t : Option Instant} (h : ∀ a ∈ t, a.IsFaithful) :
    optional? readTime? (some (timeValue t)) = some t := by
  cases t with
  | none => rfl
  | some a =>
    have ha : Instant.parse? a.text = some a := h a rfl
    simp [timeValue,optional?,readTime?,Value.asString?,ha]

/-- What is written of a record is read as the record, less a result that is null. -/
theorem ofValue?_toValue {value : Value → Prop} {r : Record} (h : r.Fits value) :
    ofValue? r.toValue = some r.withoutNull := by
  have harray : r.toValue.asArray? = none := rfl
  have hstatus : Status.ofValue? (.string r.status.text) = some r.status := Status.parse?_text _
  have hattempts : (Value.int r.attempts).asNat? (Nat.pow 2 32-1) = some r.attempts :=
    Value.asNat?_ofNat (Nat.lt_of_lt_of_le h.attempts (by decide)) (Nat.le_pred_of_lt h.attempts)
  have hfailure := optional?_map (x := r.failure) (fun f _ => f.toValue_ne_null)
    fun f hf => Failure.ofValue?_toValue (h.failure f hf)
  have hreason := optional?_map (x := r.skipReason) (fun s _ => s.toValue_ne_null)
    fun s _ => s.ofValue?_toValue
  unfold ofValue?
  rw [parts?_toValue,harray]
  simp [Value.asString?,hstatus,optional?_some,hfailure,hreason,hattempts,
    optional?_timeValue h.started,optional?_timeValue h.finished,withoutNull]

/-- A record without fractions has a written form without them. -/
theorem toValue_tidy {value : Value → Prop} (hvalue : ∀ v, value v → v.Tidy Json.isWord)
    {r : Record} (h : r.Fits value) : r.toValue.Tidy Json.isWord := by
  have hattempts := Failure.isWord_ofNat (Nat.lt_of_lt_of_le h.attempts (by decide))
  have htime (t : Option Instant) : (timeValue t).Tidy Json.isWord := by
    cases t with
    | none => exact .null
    | some t => exact .string _
  have hoptional (name : String) (v : Option Value) (hv : ∀ w ∈ v, w.Tidy Json.isWord) :
      ∀ p ∈ optionalField name v, p.2.Tidy Json.isWord := by
    intro p hp
    cases v with
    | none => cases hp
    | some w => rw [List.mem_singleton.mp hp]; exact hv w rfl
  have hresult := hoptional "result" r.result fun v hv => hvalue v (h.result v hv)
  have hfailure := hoptional "error" (r.failure.map Failure.toValue) fun v hv => by
    obtain ⟨f,hf,rfl⟩ := Option.map_eq_some_iff.mp hv
    exact Failure.toValue_tidy hvalue (h.failure f hf)
  have hreason := hoptional "skip_reason" (r.skipReason.map SkipReason.toValue)
    fun v hv => by
      obtain ⟨s,-,rfl⟩ := Option.map_eq_some_iff.mp hv
      exact s.toValue_tidy
  refine .ofPairs fun p hp => ?_
  simp only [timelessFields,List.mem_append,List.mem_cons,List.not_mem_nil,or_false] at hp
  rcases hp with (((((rfl | rfl | rfl) | hp) | hp) | hp) | rfl) | rfl | rfl
  · exact .string _
  · exact .string _
  · exact .string _
  · exact hresult p hp
  · exact hfailure p hp
  · exact hreason p hp
  · exact .int hattempts
  · exact htime _
  · exact htime _

end Reading

end Record

end TaskGraph
