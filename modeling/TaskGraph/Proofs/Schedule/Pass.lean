import Mathlib.Data.List.Count
import TaskGraph.Proofs.Graph.Sound
import TaskGraph.Proofs.Schedule.Table

/-!
What a pass does. Dead nodes are skipped one by one until none is left; what can start is then put in
flight, and nothing else changes.
-/

namespace TaskGraph.Schedule

variable {now : Instant}

theorem isOpen_iff {s : Schedule} {id : String} :
    s.isOpen id = true ↔ s.status id = .pending ∧ id ∉ s.inFlight := by
  simp [isOpen]

theorem deadReason?_eq_some {s : Schedule} {n : GraphNode Graph} {reason : SkipReason} :
    s.deadReason? n = some reason ↔ s.isOpen n.id = true ∧ ∃ d, n.dependency = some d ∧
      Dependency.resolve s.status d = .unsatisfied ∧ s.skipReason d = reason := by
  cases hd : n.dependency with
  | none => simp [deadReason?,hd]
  | some d =>
    by_cases ho : s.isOpen n.id = true <;>
      by_cases hr : Dependency.resolve s.status d = .unsatisfied <;>
      simp [deadReason?,GraphNode.resolution,hd,ho,hr]

section Induction

variable {P : Schedule → Prop}

/-- What holds before nodes are looked at, and is kept when a dead node is skipped, holds after. -/
theorem foldl_skipIfDead (hP : ∀ s n reason, P s → n ∈ s.graph.nodes →
    s.deadReason? n = some reason → P (s.change n.id (·.skip now reason)))
    (nodes : List (GraphNode Graph)) (s : Schedule) (hn : nodes ⊆ s.graph.nodes) (h : P s) :
    P (nodes.foldl (skipIfDead now) s) ∧
      (nodes.foldl (skipIfDead now) s).graph = s.graph := by
  induction nodes generalizing s with
  | nil => exact ⟨h,rfl⟩
  | cons n rest ih =>
    rw [List.foldl_cons,skipIfDead]
    have hmem := hn List.mem_cons_self
    have hrest : rest ⊆ s.graph.nodes := fun m hm => hn (List.mem_cons_of_mem n hm)
    split
    · next reason hd =>
      have hg := change_graph s n.id (·.skip now reason)
      obtain ⟨hp,hg'⟩ := ih (s.change n.id (·.skip now reason)) (hg ▸ hrest) (hP s n reason h hmem hd)
      exact ⟨hp,hg'.trans hg⟩
    · exact ih s hrest h

theorem scan_induction (hP : ∀ s n reason, P s → n ∈ s.graph.nodes →
    s.deadReason? n = some reason → P (s.change n.id (·.skip now reason))) (s : Schedule) (h : P s) :
    P (s.scan now) :=
  (foldl_skipIfDead hP s.graph.nodes s (List.Subset.refl _) h).1

theorem resolveDead_induction (hP : ∀ s n reason, P s → n ∈ s.graph.nodes →
    s.deadReason? n = some reason → P (s.change n.id (·.skip now reason))) (s : Schedule) (h : P s) :
    P (s.resolveDead now) := by
  induction s using resolveDead.induct now with
  | case1 s t hlt ih =>
    rw [resolveDead,if_pos hlt]
    exact ih (scan_induction hP s h)
  | case2 s t hlt =>
    rw [resolveDead,if_neg hlt]
    exact scan_induction hP s h

end Induction

theorem resolveDead_frame (now : Instant) (s : Schedule) :
    (s.resolveDead now).graph = s.graph ∧ (s.resolveDead now).inFlight = s.inFlight ∧
      (s.resolveDead now).records.map Record.node = s.records.map Record.node := by
  refine resolveDead_induction (P := fun t => t.graph = s.graph ∧ t.inFlight = s.inFlight ∧
    t.records.map Record.node = s.records.map Record.node) ?_ s ⟨rfl,rfl,rfl⟩
  rintro t n reason ⟨hg,hi,hn⟩ - -
  exact ⟨(change_graph t n.id _).trans hg,(change_inFlight t n.id _).trans hi,
    (change_nodes t n.id _).trans hn⟩

theorem IsTable.resolveDead {s : Schedule} (h : s.IsTable) : (s.resolveDead now).IsTable := by
  obtain ⟨hg,-,hn⟩ := resolveDead_frame now s
  rw [IsTable,hn,hg]
  exact h

section Open

theorem countP_lt {α : Type} {l : List α} {p q : α → Bool} (h : ∀ x ∈ l, p x = true → q x = true)
    {a : α} (ha : a ∈ l) (hq : q a = true) (hp : p a = false) : l.countP p < l.countP q := by
  have he : l.countP p = (l.filter q).countP p := by
    rw [List.countP_filter]
    refine List.countP_congr fun x hx => ?_
    have := h x hx
    cases hpx : p x <;> simp_all
  rw [he,List.countP_eq_length_filter (p := q)]
  exact List.countP_lt_length_iff.mpr ⟨a,List.mem_filter.mpr ⟨ha,hq⟩,hp⟩

variable {s : Schedule} {n : GraphNode Graph} {reason : SkipReason}

/-- A dead node that is skipped is open no more; the others stay as they are. -/
theorem status_skip (now : Instant) (h : s.IsTable) (hn : n ∈ s.graph.nodes)
    (hd : s.deadReason? n = some reason) (id : String) : (s.change n.id (·.skip now reason)).status id =
      if id = n.id then .skipped else s.status id := by
  obtain ⟨r,hr⟩ := h.record?.mp (Graph.mem_ids_of_mem hn)
  have hp : r.status = .pending :=
    (s.status_eq hr).symm.trans (isOpen_iff.mp (deadReason?_eq_some.mp hd).1).1
  simp only [status,record?_change s (Record.skip_respects now reason)]
  by_cases he : id = n.id
  · subst he
    have ht : r.status.isTerminal = false := by rw [hp]; rfl
    simp [hr,Record.skip_of_open ht]
  · simp [he]

theorem isOpen_skip (now : Instant) (h : s.IsTable) (hn : n ∈ s.graph.nodes)
    (hd : s.deadReason? n = some reason) (id : String) : (s.change n.id (·.skip now reason)).isOpen id =
      (s.isOpen id && id != n.id) := by
  rw [isOpen,isOpen,status_skip now h hn hd,change_inFlight]
  by_cases he : id = n.id <;> simp [he]

theorem openCount_skip (now : Instant) (h : s.IsTable) (hn : n ∈ s.graph.nodes)
    (hd : s.deadReason? n = some reason) :
    (s.change n.id (·.skip now reason)).openCount < s.openCount := by
  unfold openCount
  rw [change_graph]
  refine countP_lt (a := n.id) (fun id _ ho => ?_) (Graph.mem_ids_of_mem hn)
    (deadReason?_eq_some.mp hd).1 ?_
  · rw [isOpen_skip now h hn hd] at ho
    exact (Bool.and_eq_true _ _ ▸ ho).1
  · simp [isOpen_skip now h hn hd]

/-- A scan that finds nothing to skip leaves all as it is. -/
theorem foldl_skipIfDead_fixed (nodes : List (GraphNode Graph)) (h : s.IsTable)
    (hn : nodes ⊆ s.graph.nodes) :
    (nodes.foldl (skipIfDead now) s).openCount < s.openCount ∨
      nodes.foldl (skipIfDead now) s = s ∧ ∀ n ∈ nodes, s.deadReason? n = none := by
  induction nodes generalizing s with
  | nil => exact .inr ⟨rfl,by simp⟩
  | cons n rest ih =>
    have hrest : rest ⊆ s.graph.nodes := fun m hm => hn (List.mem_cons_of_mem n hm)
    cases hd : s.deadReason? n with
    | none =>
      have he : skipIfDead now s n = s := by simp only [skipIfDead,hd]
      rw [List.foldl_cons,he]
      refine (ih h hrest).imp id fun hs => ⟨hs.1,fun m hm => ?_⟩
      rcases List.mem_cons.mp hm with rfl | hm
      · exact hd
      · exact hs.2 m hm
    | some reason =>
      have hmem := hn List.mem_cons_self
      have he : skipIfDead now s n = s.change n.id (·.skip now reason) := by
        simp only [skipIfDead,hd]
      have hlt := openCount_skip now h hmem hd
      rw [List.foldl_cons,he]
      rw [← change_graph s n.id (·.skip now reason)] at hrest
      rcases ih (h.change n.id _) hrest with hi | hi
      · exact .inl (Nat.lt_trans hi hlt)
      · rw [hi.1]
        exact .inl hlt

theorem scan_fixed (now : Instant) (h : s.IsTable) : (s.scan now).openCount < s.openCount ∨
    s.scan now = s ∧ ∀ n ∈ s.graph.nodes, s.deadReason? n = none :=
  foldl_skipIfDead_fixed s.graph.nodes h (List.Subset.refl _)

/-- After dead nodes are skipped there are none. -/
theorem resolveDead_none_dead (now : Instant) (h : s.IsTable) :
    ∀ n ∈ s.graph.nodes, (s.resolveDead now).deadReason? n = none := by
  induction s using resolveDead.induct now with
  | case1 s t hlt ih =>
    have hg : t.graph = s.graph :=
      (foldl_skipIfDead (P := fun _ => True) (fun _ _ _ _ _ _ => trivial) s.graph.nodes s
        (List.Subset.refl _) trivial).2
    have ht : t.IsTable :=
      scan_induction (P := IsTable) (fun s n _ hs _ _ => hs.change n.id _) s h
    rw [resolveDead,if_pos hlt]
    exact hg ▸ ih ht
  | case2 s t hlt =>
    rw [resolveDead,if_neg hlt]
    obtain ⟨he,hn⟩ := (scan_fixed now h).resolve_left hlt
    rwa [he]

theorem scan_eq_self (now : Instant) (h : ∀ n ∈ s.graph.nodes, s.deadReason? n = none) :
    s.scan now = s := by
  have hfold (nodes : List (GraphNode Graph)) (hn : nodes ⊆ s.graph.nodes) :
      nodes.foldl (skipIfDead now) s = s := by
    induction nodes with
    | nil => rfl
    | cons n rest ih =>
      have he : skipIfDead now s n = s := by simp only [skipIfDead,h n (hn List.mem_cons_self)]
      rw [List.foldl_cons,he]
      exact ih fun m hm => hn (List.mem_cons_of_mem n hm)
  exact hfold s.graph.nodes (List.Subset.refl _)

/-- One scan is enough when it leaves nothing dead. -/
theorem resolveDead_eq_scan (h : ∀ n ∈ (s.scan now).graph.nodes, (s.scan now).deadReason? n = none) :
    s.resolveDead now = s.scan now := by
  have hself := scan_eq_self now h
  rw [resolveDead]
  split
  · rw [resolveDead,hself,if_neg (Nat.lt_irrefl _)]
  · rfl

end Open

section Dispatch

variable (s : Schedule)

theorem mem_ready {n : GraphNode Graph} :
    n ∈ s.ready ↔ n ∈ s.graph.nodes ∧ s.isOpen n.id = true ∧ n.isReady s.status = true := by
  simp [ready]

theorem pass_fst (now : Instant) : (s.pass now).1 = (s.resolveDead now).dispatch := rfl

theorem pass_snd (now : Instant) : (s.pass now).2 = (s.resolveDead now).ready := rfl

theorem dispatch_inFlight : s.dispatch.inFlight = s.inFlight ++ s.ready.map GraphNode.id := rfl

theorem dispatch_record? (id : String) : s.dispatch.record? id = s.record? id := rfl

theorem dispatch_status : s.dispatch.status = s.status := rfl

theorem pass_graph (now : Instant) : (s.pass now).1.graph = s.graph :=
  (resolveDead_frame now s).1

/-- A pass leaves records that have ended as they are. -/
theorem pass_of_terminal (now : Instant) {id : String} {r : Record} (h : s.record? id = some r)
    (ht : r.status.isTerminal = true) : (s.pass now).1.record? id = some r := by
  rw [pass_fst,dispatch_record?]
  exact resolveDead_induction (P := fun t => t.record? id = some r)
    (fun t _ reason ht' _ _ => change_of_terminal t (Record.skip_respects now reason) ht' ht) s h

end Dispatch

end TaskGraph.Schedule
