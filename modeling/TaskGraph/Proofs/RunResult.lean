import Mathlib.Data.List.Basic
import TaskGraph.Proofs.Record
import TaskGraph.RunResult.Wire

/-!
The outcome of a run after it was written and read again. Failures and what follows from them are
kept. The value of the run is kept too, unless there are several terminal nodes and the result of one
of them is null: that node is then missing from the value.
-/

namespace TaskGraph

namespace Record

/-- A record that some operations have made, whose texts and numbers are read as they are written and
whose values have no fractions. -/
def IsMade (r : Record) : Prop :=
  ∃ operations : List Operation, (∀ op ∈ operations, op.Fits (Value.Tidy Json.isWord)) ∧
    r = after r.node r.kind operations

theorem IsMade.fits {r : Record} (h : r.IsMade) : r.Fits (Value.Tidy Json.isWord) := by
  obtain ⟨operations,hfits,he⟩ := h
  rw [he]
  exact after_fits r.node r.kind hfits

/-- Reads a record from a text. -/
def ofText? (s : String) : Option Record := (Json.parse s).toOption.bind ofValue?

/-- A record is read from its text at any level of a longer one. -/
theorem ofText?_pretty {r : Record} (h : r.IsMade) (hheight : r.toValue.height < Json.depthLimit)
    (level : Nat) : ofText? (Json.pretty level r.toValue) = some r.withoutNull := by
  have htidy := toValue_tidy (fun _ hv => hv) h.fits
  rw [ofText?,Json.parse_pretty htidy hheight level]
  exact ofValue?_toValue h.fits

end Record

namespace RunResult

/-- The outcome without the results that are null. -/
def withoutNulls (r : RunResult) : RunResult := { r with records := r.records.map Record.withoutNull }

/-- The result of a terminal node is null, and there are others. -/
def HidesNull (r : RunResult) : Prop :=
  r.terminal.length ≠ 1 ∧ ∃ id ∈ r.terminal, (r.record? id).bind Record.result = some .null

theorem reread?_eq {r : RunResult} (h : ∀ rec ∈ r.records, rec.IsMade)
    (hheight : ∀ rec ∈ r.records, rec.toValue.height+2 < Json.depthLimit) :
    r.reread? = some r.withoutNulls := by
  have hrecords : r.records.mapM rereadRecord? = some (r.records.map Record.withoutNull) := by
    have hall (l : List Record) (hl : l ⊆ r.records) :
        l.mapM rereadRecord? = some (l.map Record.withoutNull) := by
      induction l with
      | nil => rfl
      | cons rec rest ih =>
        have hrec := hl List.mem_cons_self
        have hone : rereadRecord? rec = some rec.withoutNull := by
          unfold rereadRecord?
          rw [if_pos (hheight rec hrec)]
          exact Record.ofValue?_toValue (h rec hrec).fits
        rw [List.mapM_cons,hone,ih fun x hx => hl (List.mem_cons_of_mem rec hx)]
        rfl
    exact hall r.records (List.Subset.refl _)
  unfold reread?
  rw [hrecords]
  rfl

section Kept

variable (r : RunResult)

theorem find?_withoutNull (records : List Record) (id : String) :
    find? (records.map Record.withoutNull) id = (find? records id).map Record.withoutNull := by
  unfold find?
  rw [List.find?_map]
  rfl

theorem failures_withoutNulls : r.withoutNulls.failures = r.failures := by
  unfold failures withoutNulls
  rw [List.filterMap_map]
  rfl

theorem failure_withoutNulls : r.withoutNulls.failure = r.failure := by
  have hacceptable (id : String) :
      isAcceptable (r.records.map Record.withoutNull) id = isAcceptable r.records id := by
    unfold isAcceptable
    rw [find?_withoutNull,Option.map_map]
    rfl
  have hfirst : r.withoutNulls.firstFailure? = r.firstFailure? :=
    congrArg List.head? (failures_withoutNulls r)
  have hleft : r.withoutNulls.terminal.filter (fun id => !isAcceptable r.withoutNulls.records id) =
      r.terminal.filter fun id => !isAcceptable r.records id :=
    List.filter_congr fun id _ => congrArg not (hacceptable id)
  unfold failure
  rw [hfirst,hleft]

theorem result_withoutNulls (id : String) : (r.withoutNulls.record? id).bind Record.result =
    ((r.record? id).bind Record.result).filter (· ≠ .null) := by
  have hfind : r.withoutNulls.record? id = (r.record? id).map Record.withoutNull :=
    find?_withoutNull r.records id
  rw [hfind]
  cases r.record? id <;> rfl

/-- The entry of a node among entries that are made of names. -/
theorem lookup_filterMap (f : String → Option Value) (id : String) (ids : List String) :
    (ids.filterMap fun i => (f i).map fun v => (i,v)).lookup id =
      if id ∈ ids then f id else none := by
  induction ids with
  | nil => rfl
  | cons i rest ih =>
    by_cases hi : id = i
    · subst hi
      cases hf : f id with
      | none => simp [hf,ih]
      | some v => simp [hf]
    · have hb : (id == i) = false := by simpa using hi
      cases hf : f i with
      | none => simp [hf,ih,hi]
      | some v => simp [hf,List.lookup_cons,hb,ih,hi]

theorem output_of_one {only : String} (h : r.terminal = [only]) :
    r.output = ((r.record? only).bind Record.result).getD .null := by
  unfold output
  rw [h]

theorem output_of_many (h : r.terminal.length ≠ 1) : r.output = Value.ofPairs
    (r.terminal.filterMap fun id => ((r.record? id).bind Record.result).map fun v => (id,v)) := by
  unfold output
  split
  · next only he => simp [he] at h
  · rfl

theorem field?_output_of_many (h : r.terminal.length ≠ 1) (id : String) : r.output.field? id =
    if id ∈ r.terminal then (r.record? id).bind Record.result else none := by
  rw [output_of_many r h,Value.ofPairs,Value.field?,Fields.get?_ofList,← List.filterMap_reverse,
    lookup_filterMap]
  simp only [List.mem_reverse]

/-- The value of a run changes only if there are other terminal nodes besides one whose result is
null. -/
theorem output_withoutNulls : r.withoutNulls.output = r.output ↔ ¬r.HidesNull := by
  by_cases hone : r.terminal.length = 1
  · obtain ⟨only,honly⟩ := List.length_eq_one_iff.mp hone
    have heq : r.withoutNulls.output = r.output := by
      rw [output_of_one r honly,output_of_one r.withoutNulls honly,result_withoutNulls]
      cases (r.record? only).bind Record.result with
      | none => rfl
      | some v => cases v <;> rfl
    exact iff_of_true heq fun h => h.1 hone
  constructor
  · -- The name of the node that is hidden has a field in one value and none in the other.
    rintro heq ⟨-,id,hid,hnull⟩
    have hfield := congrArg (Value.field? · id) heq
    simp only [field?_output_of_many r hone,field?_output_of_many r.withoutNulls hone,
      result_withoutNulls,hnull] at hfield
    have hid' : id ∈ r.withoutNulls.terminal := hid
    simp [hid,hid',Option.filter] at hfield
  · intro h
    rw [output_of_many r hone,output_of_many r.withoutNulls hone]
    refine congrArg Value.ofPairs (List.filterMap_congr fun id hid => ?_)
    have hne : (r.record? id).bind Record.result ≠ some .null := fun hn => h ⟨hone,id,hid,hn⟩
    rw [result_withoutNulls]
    cases hv : (r.record? id).bind Record.result with
    | none => rfl
    | some v =>
      have hv' : v ≠ .null := fun he => hne (by rw [hv,he])
      simp [Option.filter,hv']

end Kept

/-- What reading an outcome again after it was written gives. -/
structure Rereads (r again : RunResult) : Prop where
  reread : r.reread? = some again
  records : again.records = r.records.map Record.withoutNull
  /-- Each record is also read by itself from its text, at whatever level it stands. -/
  texts : ∀ rec ∈ r.records, ∀ level,
    Record.ofText? (Json.pretty level rec.toValue) = some rec.withoutNull
  unchanged : ∀ rec ∈ r.records, rec.withoutNull = rec ↔ rec.result ≠ some .null
  failures : again.failures = r.failures
  failure : again.failure = r.failure
  output : again.output = r.output ↔ ¬r.HidesNull

/-- The outcome of a run, whatever has happened to its records, is read as it was written, less the
results that are null. -/
theorem rereads_withoutNulls {r : RunResult} (h : ∀ rec ∈ r.records, rec.IsMade)
    (hheight : ∀ rec ∈ r.records, rec.toValue.height+2 < Json.depthLimit) :
    r.Rereads r.withoutNulls where
  reread := reread?_eq h hheight
  records := rfl
  texts rec hrec level :=
    Record.ofText?_pretty (h rec hrec) (Nat.lt_of_le_of_lt (Nat.le_add_right _ 2) (hheight rec hrec))
      level
  unchanged _ _ := Record.withoutNull_eq_self
  failures := failures_withoutNulls r
  failure := failure_withoutNulls r
  output := output_withoutNulls r

section Aftermath

/-- An item timed out, and later the steps before it. -/
def lateFetch : List Record.Operation := [
  .start ⟨0,0⟩,
  .fail ⟨3,0⟩ (.aggregate 2 [⟨1,.array [.string "b",.int (-7)],.timeout (.ofMillis 1500)⟩]) 1,
  .stamp ⟨2,750000000⟩]

/-- What was to be undone was cancelled. -/
def undoneReport : List Record.Operation := [
  .start ⟨3,0⟩,
  .fail ⟨4,0⟩ (.recovery (.execution "echo" "\x22no\x22") (.step "undo" .cancelled)) 2,
  .cancel ⟨5,0⟩ 3]

/-- A run that failed in several ways. -/
def aftermath : RunResult where
  name := "aftermath"
  status := .failed
  records := [
    Record.after "fetch" "parallel_for_each" lateFetch,
    Record.after "save" "action" [.skip ⟨3,0⟩ (.blocked ["fetch"])],
    Record.after "report" "guarded" undoneReport,
    Record.after "quiet" "action" [.start ⟨0,0⟩,.succeed ⟨1,0⟩ .null 1]]
  terminal := ["save","report"]

theorem lateFetch_fits : ∀ op ∈ lateFetch, op.Fits (Value.Tidy Json.isWord) := by
  have hitem : (Value.array [.string "b",.int (-7)]).Tidy Json.isWord := by
    refine .array fun v hv => ?_
    rcases List.mem_cons.mp hv with rfl | hv
    · exact .string "b"
    · rw [List.mem_singleton.mp hv]
      exact .int ⟨by decide,by decide⟩
  have hitems : (Failure.aggregate 2 [⟨1,.array [.string "b",.int (-7)],
      .timeout (.ofMillis 1500)⟩]).Fits (Value.Tidy Json.isWord) := by
    refine .aggregate (by decide) (fun i hi => ?_) fun i hi => ?_
    · rw [List.mem_singleton.mp hi]
      exact ⟨by decide,hitem⟩
    · rw [List.mem_singleton.mp hi]
      exact .timeout (by decide)
  have hstart : Instant.IsFaithful ⟨0,0⟩ := by decide +kernel
  have hend : Instant.IsFaithful ⟨3,0⟩ := by decide +kernel
  have hstamp : Instant.IsFaithful ⟨2,750000000⟩ := by decide +kernel
  simpa [lateFetch,Record.Operation.Fits] using ⟨hstart,⟨hend,hitems⟩,hstamp⟩

theorem undoneReport_fits : ∀ op ∈ undoneReport, op.Fits (Value.Tidy Json.isWord) := by
  have hfailure : (Failure.recovery (.execution "echo" "\x22no\x22") (.step "undo" .cancelled)).Fits
      (Value.Tidy Json.isWord) := .recovery (.execution _ _) (.step _ .cancelled)
  have hstart : Instant.IsFaithful ⟨3,0⟩ := by decide +kernel
  have hfail : Instant.IsFaithful ⟨4,0⟩ := by decide +kernel
  have hcancel : Instant.IsFaithful ⟨5,0⟩ := by decide +kernel
  simpa [undoneReport,Record.Operation.Fits] using ⟨hstart,⟨hfail,hfailure⟩,hcancel⟩

theorem aftermath_made : ∀ rec ∈ aftermath.records, rec.IsMade := by
  have hskip : Instant.IsFaithful ⟨3,0⟩ := by decide +kernel
  have hstart : Instant.IsFaithful ⟨0,0⟩ := by decide +kernel
  have hend : Instant.IsFaithful ⟨1,0⟩ := by decide +kernel
  intro rec hrec
  simp only [aftermath,List.mem_cons,List.not_mem_nil,or_false] at hrec
  rcases hrec with rfl | rfl | rfl | rfl
  · exact ⟨lateFetch,lateFetch_fits,rfl⟩
  · exact ⟨_,by simpa [Record.Operation.Fits] using hskip,rfl⟩
  · exact ⟨undoneReport,undoneReport_fits,rfl⟩
  · exact ⟨_,by simpa [Record.Operation.Fits] using ⟨hstart,hend,Value.Tidy.null⟩,rfl⟩

/-- The four records are read again, the one with a result that is null without it. -/
theorem rereads_withoutNulls_aftermath : aftermath.Rereads aftermath.withoutNulls :=
  rereads_withoutNulls aftermath_made (by decide +kernel)

end Aftermath

/-- A run with two terminal nodes, of which one answered nothing. -/
def twoEnds : RunResult where
  name := "two_ends"
  status := .success
  records := [
    Record.after "quiet" "action" [.start ⟨0,0⟩,.succeed ⟨1,5000000⟩ .null 1],
    Record.after "loud" "action" [.start ⟨1,0⟩,.succeed ⟨2,0⟩ (.int 1) 1]]
  terminal := ["quiet","loud"]

theorem twoEnds_made : ∀ rec ∈ twoEnds.records, rec.IsMade := by
  have hzero : Instant.IsFaithful ⟨0,0⟩ := by decide +kernel
  have hquiet : Instant.IsFaithful ⟨1,5000000⟩ := by decide +kernel
  have hone : Instant.IsFaithful ⟨1,0⟩ := by decide +kernel
  have hloud : Instant.IsFaithful ⟨2,0⟩ := by decide +kernel
  have hresult : (Value.int 1).Tidy Json.isWord := .int ⟨by decide,by decide⟩
  intro rec hrec
  simp only [twoEnds,List.mem_cons,List.not_mem_nil,or_false] at hrec
  rcases hrec with rfl | rfl
  · exact ⟨_,by simpa [Record.Operation.Fits] using ⟨hzero,hquiet,Value.Tidy.null⟩,rfl⟩
  · exact ⟨_,by simpa [Record.Operation.Fits] using ⟨hone,hloud,hresult⟩,rfl⟩

/-- What was null is read as missing, and the value of the run has one field less. -/
theorem twoEnds_hides_null : (∀ rec ∈ twoEnds.records, rec.IsMade) ∧
    twoEnds.reread?.map (fun again => again.records.map Record.result) = some [none,some (.int 1)] ∧
    twoEnds.output = .object [("loud",.int 1),("quiet",.null)] ∧
    twoEnds.reread?.map output = some (.object [("loud",.int 1)]) :=
  ⟨twoEnds_made,by decide +kernel⟩

end RunResult

end TaskGraph
