import Mathlib.Data.List.Nodup
import TaskGraph.Proofs.Dependency
import TaskGraph.Schedule

/-!
The records of a schedule as a table: how every operation changes the record of each node. Operations
keep the names of records, and a record that has ended stays as it is.
-/

namespace TaskGraph

namespace Record

/-- A change of records that keeps their nodes and leaves records that have ended as they are. -/
def Respects (f : Record → Record × Bool) : Prop :=
  ∀ r, (f r).1.node = r.node ∧ (r.status.isTerminal = true → (f r).1 = r)

theorem finish_respects (status : Status) (now : Instant) (change : Record → Record)
    (hc : ∀ r, (change r).node = r.node) : Respects fun r => r.finish status now change := by
  intro r
  unfold finish
  by_cases ht : r.status.isTerminal = true
  · simp [ht]
  · simp [ht,hc]

theorem start_respects (time : Instant) : Respects fun r => r.start time := by
  intro r
  by_cases h : r.status = .pending
  · simp [start,h,Status.isTerminal]
  · simp [start,h]

theorem skip_respects (now : Instant) (reason : SkipReason) : Respects fun r => r.skip now reason :=
  finish_respects _ now _ fun _ => rfl

theorem cancel_respects (now : Instant) (attempts : Nat) :
    Respects fun r => r.cancel now attempts :=
  finish_respects _ now _ fun _ => rfl

theorem skip_of_open {r : Record} (h : r.status.isTerminal = false) (now : Instant)
    (reason : SkipReason) : (r.skip now reason).1 =
      { r with status := .skipped, finished := some now, skipReason := some reason } := by
  simp [skip,finish,h]

theorem cancel_of_open {r : Record} (h : r.status.isTerminal = false) (now : Instant)
    (attempts : Nat) : (r.cancel now attempts).1 = { r with
      status := .cancelled, finished := some now, failure := some .cancelled, attempts } := by
  simp [cancel,finish,h]

theorem skip_isTerminal (r : Record) (now : Instant) (reason : SkipReason) :
    (r.skip now reason).1.status.isTerminal = true := by
  cases ht : r.status.isTerminal with
  | false => simp [skip_of_open ht,Status.isTerminal]
  | true => rw [(skip_respects now reason r).2 ht,ht]

end Record

namespace Ending

def status : Ending → Status
  | .success _ _ => .success
  | .failed _ => .failed
  | .cancelled => .cancelled

def unselected : Ending → List String
  | .success _ unselected => unselected
  | _ => []

theorem status_isTerminal (e : Ending) : e.status.isTerminal = true := by cases e <;> rfl

theorem status_ne_skipped (e : Ending) : e.status ≠ .skipped := by
  cases e <;> simp [status]

end Ending

namespace Schedule

theorem settle_respects (now : Instant) (report : Report) :
    Record.Respects (settle now report) := by
  intro r
  unfold settle
  cases report.ending <;> unfold Record.succeed Record.fail Record.cancel Record.finish <;>
    by_cases ht : r.status.isTerminal = true <;> simp [ht,Record.stampFinished]

theorem settle_status (now : Instant) (report : Report) {r : Record}
    (h : r.status.isTerminal = false) : (settle now report r).1.status = report.ending.status := by
  unfold settle
  cases report.ending <;> simp [Record.succeed,Record.fail,Record.cancel,Record.finish,h,
    Record.stampFinished,Ending.status]

theorem settle_isTerminal (now : Instant) (report : Report) (r : Record) :
    (settle now report r).1.status.isTerminal = true := by
  cases ht : r.status.isTerminal with
  | false => rw [settle_status now report ht,report.ending.status_isTerminal]
  | true => rw [(settle_respects now report r).2 ht,ht]

section Records

variable (s : Schedule)

theorem status_eq {id : String} {r : Record} (h : s.record? id = some r) : s.status id = r.status := by
  simp [status,h]

theorem node_of_record? {id : String} {r : Record} (h : s.record? id = some r) : r.node = id := by
  have := List.find?_some h
  simpa using this

theorem record?_of_status {id : String} (h : s.status id ≠ .pending) :
    ∃ r, s.record? id = some r ∧ r.status = s.status id := by
  cases hr : s.record? id with
  | none => simp [status,hr] at h
  | some r => exact ⟨r,rfl,(s.status_eq hr).symm⟩

theorem record?_of_isTerminal {id : String} (h : (s.status id).isTerminal = true) :
    ∃ r, s.record? id = some r ∧ r.status = s.status id := by
  refine s.record?_of_status fun he => ?_
  rw [he] at h
  cases h

/-- Records that are changed under their names are found where they were. -/
theorem find?_map (records : List Record) (f : Record → Record) (hf : ∀ r, (f r).node = r.node)
    (id : String) : RunResult.find? (records.map f) id = (RunResult.find? records id).map f := by
  simp only [RunResult.find?,List.find?_map]
  congr 2
  funext r
  simp [hf]

theorem record?_set (r : Record) (id : String) :
    (s.set r).record? id = (s.record? id).map fun old => if id = r.node then r else old := by
  have hf (old : Record) : (if old.node = r.node then r else old).node = old.node := by
    split
    · next h => exact h.symm
    · rfl
  have hm := find?_map s.records (fun old => if old.node = r.node then r else old) hf id
  simp only [record?,set]
  rw [hm]
  cases h : RunResult.find? s.records id with
  | none => rfl
  | some old =>
    have hn : old.node = id := s.node_of_record? h
    simp [hn]

theorem record?_change {f : Record → Record × Bool} (hf : Record.Respects f) (id other : String) :
    (s.change id f).record? other =
      (s.record? other).map fun r => if other = id then (f r).1 else r := by
  unfold change
  cases h : s.record? id with
  | none =>
    cases ho : s.record? other with
    | none => rfl
    | some r =>
      have hne : other ≠ id := by
        rintro rfl
        rw [h] at ho
        cases ho
      simp [hne]
  | some r =>
    have hn := s.node_of_record? h
    simp only [record?_set,(hf r).1,hn]
    by_cases he : other = id
    · subst he
      simp [h]
    · simp [he]

theorem change_graph (id : String) (f : Record → Record × Bool) :
    (s.change id f).graph = s.graph := by
  unfold change
  split <;> rfl

theorem change_inFlight (id : String) (f : Record → Record × Bool) :
    (s.change id f).inFlight = s.inFlight := by
  unfold change
  split <;> rfl

theorem set_nodes (r : Record) :
    (s.set r).records.map Record.node = s.records.map Record.node := by
  rw [set,List.map_map]
  refine List.map_congr_left fun old _ => ?_
  simp only [Function.comp_apply]
  split
  · next he => exact he.symm
  · rfl

theorem change_nodes (id : String) (f : Record → Record × Bool) :
    (s.change id f).records.map Record.node = s.records.map Record.node := by
  unfold change
  split
  · exact set_nodes s _
  · rfl

theorem change_of_terminal {f : Record → Record × Bool} (hf : Record.Respects f)
    {id other : String} {r : Record} (h : s.record? other = some r)
    (ht : r.status.isTerminal = true) : (s.change id f).record? other = some r := by
  rw [record?_change s hf,h,Option.map_some]
  split
  · rw [(hf r).2 ht]
  · rfl

end Records

/-- Every node of the graph has a record, in the same order. -/
def IsTable (s : Schedule) : Prop := s.records.map Record.node = s.graph.ids

theorem IsTable.change {s : Schedule} (h : s.IsTable) (id : String)
    (f : Record → Record × Bool) : (s.change id f).IsTable := by
  rw [IsTable,change_nodes,change_graph]
  exact h

theorem IsTable.record? {s : Schedule} (h : s.IsTable) {id : String} :
    id ∈ s.graph.ids ↔ ∃ r, s.record? id = some r := by
  rw [← h,List.mem_map]
  constructor
  · rintro ⟨r,hr,rfl⟩
    cases hf : s.record? r.node with
    | none => simpa using List.find?_eq_none.mp hf r hr
    | some q => exact ⟨q,rfl⟩
  · rintro ⟨r,hr⟩
    exact ⟨r,List.mem_of_find?_eq_some hr,s.node_of_record? hr⟩

theorem IsTable.record?_of_mem {s : Schedule} (h : s.IsTable) (hd : s.graph.ids.Nodup) {r : Record}
    (hr : r ∈ s.records) : s.record? r.node = some r := by
  rw [← h] at hd
  cases hf : s.record? r.node with
  | none => simpa using List.find?_eq_none.mp hf r hr
  | some q =>
    have hq := List.mem_of_find?_eq_some hf
    rw [List.inj_on_of_nodup_map hd hq hr (s.node_of_record? hf)]

section Events

variable (s : Schedule) (now : Instant)

theorem skips_record? (reason : SkipReason) (targets : List String) (id : String) :
    (targets.foldl (fun s t => s.change t (·.skip now reason)) s).record? id =
      (s.record? id).map fun r => if id ∈ targets then (r.skip now reason).1 else r := by
  induction targets generalizing s with
  | nil => simp
  | cons t rest ih =>
    rw [List.foldl_cons,ih,record?_change s (Record.skip_respects now reason),Option.map_map]
    congr 1
    funext r
    by_cases ht : id = t
    · subst ht
      -- A node that is named twice is skipped by the first naming.
      have hr := (Record.skip_respects now reason (r.skip now reason).1).2
        (r.skip_isTerminal now reason)
      simp only [Function.comp_apply,if_true,hr,ite_self,List.mem_cons,true_or]
    · simp [ht]

theorem skips_frame (reason : SkipReason) (targets : List String) :
    let after := targets.foldl (fun s t => s.change t (·.skip now reason)) s
    after.graph = s.graph ∧ after.inFlight = s.inFlight ∧
      after.records.map Record.node = s.records.map Record.node := by
  induction targets generalizing s with
  | nil => exact ⟨rfl,rfl,rfl⟩
  | cons t rest ih =>
    obtain ⟨hg,hi,hn⟩ := ih (s.change t (·.skip now reason))
    rw [List.foldl_cons]
    exact ⟨hg.trans (change_graph s t _),hi.trans (change_inFlight s t _),
      hn.trans (change_nodes s t _)⟩

/-- The record of a node after the report of another, or of itself. -/
def reported (id : String) (report : Report) (other : String) (r : Record) : Record :=
  let r := if other = id then (settle now report r).1 else r
  if other ∈ report.ending.unselected then (r.skip now (.branchNotTaken id)).1 else r

theorem record?_applyReport {r : Record} {id : String} (h : s.record? id = some r)
    (report : Report) (other : String) :
    (applyReport now s r report).record? other =
      (s.record? other).map (reported now id report other) := by
  have hid := s.node_of_record? h
  have hn : (settle now report r).1.node = id := (settle_respects now report r).1.trans hid
  have hs : (s.set (settle now report r).1).record? other =
      (s.record? other).map fun q => if other = id then (settle now report q).1 else q := by
    rw [record?_set,hn]
    by_cases ho : other = id
    · subst ho
      simp [h]
    · simp [ho]
  have hset (t : Schedule) (ht : t.records = (s.set (settle now report r).1).records)
      (targets : List String) :
      (targets.foldl (fun s t => s.change t (·.skip now (.branchNotTaken id))) t).record? other =
        (s.record? other).map fun q =>
          let q := if other = id then (settle now report q).1 else q
          if other ∈ targets then (q.skip now (.branchNotTaken id)).1 else q := by
    have he : t.record? other = (s.set (settle now report r).1).record? other := by
      rw [record?,record?,ht]
    rw [skips_record?,he,hs,Option.map_map]
    rfl
  unfold applyReport
  cases he : report.ending with
  | success v unselected =>
    simp only [hid]
    rw [hset _ (by split <;> rfl)]
    congr 1
    funext q
    simp [reported,he,Ending.unselected]
  | failed f =>
    refine hs.trans (congrArg (Option.map · _) (funext fun q => ?_))
    simp [reported,he,Ending.unselected]
  | cancelled =>
    refine hs.trans (congrArg (Option.map · _) (funext fun q => ?_))
    simp [reported,he,Ending.unselected]

theorem applyReport_frame (r : Record) (report : Report) :
    (applyReport now s r report).graph = s.graph ∧
    (applyReport now s r report).inFlight = s.inFlight ∧
    (applyReport now s r report).records.map Record.node = s.records.map Record.node := by
  have hs := set_nodes s (settle now report r).1
  unfold applyReport
  cases report.ending with
  | success v unselected =>
    obtain ⟨hg,hi,hn⟩ := skips_frame (if (settle now report r).2 then
        { s.set (settle now report r).1 with
          scope := (s.set (settle now report r).1).scope.recordResult r.node v }
      else s.set (settle now report r).1) now (.branchNotTaken r.node) unselected
    refine ⟨hg.trans ?_,hi.trans ?_,hn.trans ?_⟩
    · split <;> rfl
    · split <;> rfl
    · split <;> exact hs
  | failed f => exact ⟨rfl,rfl,hs⟩
  | cancelled => exact ⟨rfl,rfl,hs⟩

theorem apply_finished_some {r : Record} {id : String} (h : s.record? id = some r)
    (report : Report) : s.apply now (.finished id report) =
      applyReport now { s with inFlight := s.inFlight.filter (· != id) } r report := by
  have h' : ({ s with inFlight := s.inFlight.filter (· != id) } : Schedule).record? id = some r := h
  simp only [apply,h']

theorem apply_finished_none {id : String} (h : s.record? id = none) (report : Report) :
    s.apply now (.finished id report) = { s with inFlight := s.inFlight.filter (· != id) } := by
  have h' : ({ s with inFlight := s.inFlight.filter (· != id) } : Schedule).record? id = none := h
  simp only [apply,h']

theorem apply_frame (e : Event) : (s.apply now e).graph = s.graph ∧
    (s.apply now e).records.map Record.node = s.records.map Record.node := by
  cases e with
  | started id time =>
    exact ⟨change_graph s id _,change_nodes s id _⟩
  | finished id report =>
    cases h : s.record? id with
    | none =>
      rw [apply_finished_none s now h]
      exact ⟨rfl,rfl⟩
    | some r =>
      rw [apply_finished_some s now h]
      obtain ⟨hg,-,hn⟩ := applyReport_frame
        { s with inFlight := s.inFlight.filter (· != id) } now r report
      exact ⟨hg,hn⟩

theorem record?_started (id : String) (time : Instant) (other : String) :
    (s.apply now (.started id time)).record? other =
      (s.record? other).map fun r => if other = id then (r.start time).1 else r :=
  record?_change s (Record.start_respects time) id other

theorem record?_finished {r : Record} {id : String} (h : s.record? id = some r) (report : Report)
    (other : String) : (s.apply now (.finished id report)).record? other =
      (s.record? other).map (reported now id report other) := by
  rw [apply_finished_some s now h]
  exact record?_applyReport { s with inFlight := s.inFlight.filter (· != id) } now h report other

theorem inFlight_started (id : String) (time : Instant) :
    (s.apply now (.started id time)).inFlight = s.inFlight :=
  change_inFlight s id _

theorem inFlight_finished (id : String) (report : Report) :
    (s.apply now (.finished id report)).inFlight = s.inFlight.filter (· != id) := by
  cases h : s.record? id with
  | none => rw [apply_finished_none s now h]
  | some r =>
    rw [apply_finished_some s now h]
    exact (applyReport_frame _ now r report).2.1

theorem reported_of_terminal (id : String) (report : Report) (other : String) {r : Record}
    (h : r.status.isTerminal = true) : reported now id report other r = r := by
  unfold reported
  have hr := (settle_respects now report r).2 h
  have hs := (Record.skip_respects now (.branchNotTaken id) r).2 h
  simp [hr,hs]

theorem apply_of_terminal (e : Event) {id : String} {r : Record} (h : s.record? id = some r)
    (ht : r.status.isTerminal = true) : (s.apply now e).record? id = some r := by
  cases e with
  | started other time => exact change_of_terminal s (Record.start_respects time) h ht
  | finished other report =>
    cases ho : s.record? other with
    | none =>
      rw [apply_finished_none s now ho]
      exact h
    | some q => rw [record?_finished s now ho,h,Option.map_some,reported_of_terminal now _ _ _ ht]

theorem record?_sweep (id : String) :
    (s.sweep now).record? id = (s.record? id).map fun r => (r.cancel now 0).1 :=
  find?_map s.records _ (fun r => (Record.cancel_respects now 0 r).1) id

theorem sweep_of_terminal {id : String} {r : Record} (h : s.record? id = some r)
    (ht : r.status.isTerminal = true) : (s.sweep now).record? id = some r := by
  rw [record?_sweep,h,Option.map_some,(Record.cancel_respects now 0 r).2 ht]

end Events

theorem IsTable.apply {s : Schedule} (h : s.IsTable) (now : Instant) (e : Event) :
    (s.apply now e).IsTable := by
  obtain ⟨hg,hn⟩ := apply_frame s now e
  rw [IsTable,hn,hg]
  exact h

theorem sweep_nodes (s : Schedule) (now : Instant) :
    (s.sweep now).records.map Record.node = s.records.map Record.node := by
  rw [Schedule.sweep,List.map_map]
  exact List.map_congr_left fun r _ => (Record.cancel_respects now 0 r).1

theorem IsTable.sweep {s : Schedule} (h : s.IsTable) (now : Instant) : (s.sweep now).IsTable := by
  rw [IsTable,sweep_nodes]
  exact h

section Start

variable {graph : Graph} {scope : Scope} {id : String}

theorem IsTable.start (graph : Graph) (scope : Scope) : (Schedule.start graph scope).IsTable := by
  simp [IsTable,Schedule.start,Graph.ids]

/-- At the start a record tells only what its node is. -/
theorem start_record? {r : Record} (h : (start graph scope).record? id = some r) :
    ∃ n ∈ graph.nodes, r = { node := n.id, kind := n.kind.name } := by
  obtain ⟨n,hn,rfl⟩ := List.mem_map.mp (List.mem_of_find?_eq_some h)
  exact ⟨n,hn,rfl⟩

theorem start_status (graph : Graph) (scope : Scope) (id : String) :
    (start graph scope).status id = .pending := by
  cases hr : (start graph scope).record? id with
  | none =>
    rw [status,hr]
    rfl
  | some r =>
    obtain ⟨n,-,rfl⟩ := start_record? hr
    exact status_eq _ hr

end Start

end Schedule

end TaskGraph
