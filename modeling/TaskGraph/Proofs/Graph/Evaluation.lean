import Mathlib.Logic.Function.Basic
import Mathlib.Order.RelClasses
import TaskGraph.Proofs.Graph.Built
import TaskGraph.Schedule

/-!
What a graph comes to when it is told in advance how each of its nodes ends if it runs. The nodes are
looked at one after another, each after those it waits for; the result does not depend on the order,
nor on the order in which the nodes were defined.
-/

namespace TaskGraph

/-- How a node ends if it runs. Of the targets of a branch some are selected. -/
inductive Fate where
  | success (value : Value) (selected : List String)
  | failed (failure : Failure)
  | cancelled

namespace Fate

def status : Fate → Status
  | .success .. => .success
  | .failed _ => .failed
  | .cancelled => .cancelled

def leavesOut : Fate → String → Bool
  | .success _ selected,id => !selected.contains id
  | _,_ => false

def ending (targets : List String) : Fate → Ending
  | .success v selected => .success v (targets.filter fun t => !selected.contains t)
  | .failed f => .failed f
  | .cancelled => .cancelled

end Fate

namespace GraphNode

/-- Whether the dependency of a node is free of negations. -/
def isPositive (n : GraphNode Graph) : Bool :=
  (n.dependency.map fun d => !d.hasNegation).getD true

theorem isPositive_iff {n : GraphNode Graph} :
    n.isPositive = true ↔ ∀ c ∈ n.conditions, c.hasNegation = false := by
  cases hd : n.dependency with
  | none => simp [isPositive,conditions,hd]
  | some d => simp [isPositive,conditions,hd,Dependency.hasNegation_conjuncts d]

section Keeps

variable {before after : String → Status} {n : GraphNode Graph}

theorem resolution_keeps (hk : Status.Keeps before after)
    (hu : n.resolution before = .unsatisfied) : n.resolution after = .unsatisfied := by
  cases hd : n.dependency with
  | none => simp [resolution,hd] at hu
  | some d =>
    have hb : Dependency.resolve before d = .unsatisfied := by
      simpa [resolution,hd] using hu
    simpa [resolution,hd] using ((Dependency.resolve_settled hk d).2 hb).1

theorem not_isReady_of_unsatisfied (hu : n.resolution after = .unsatisfied) :
    n.isReady after = false := by
  cases hd : n.dependency with
  | none => simp [resolution,hd] at hu
  | some d =>
    have hb : Dependency.resolve after d = .unsatisfied := by
      simpa [resolution,hd] using hu
    simpa [isReady,hd] using Dependency.not_holds_of_unsatisfied hb

/-- A node that is ready stays so, unless it waits for something not to succeed. -/
theorem isReady_keeps (hk : Status.Keeps before after) (hp : n.isPositive = true)
    (hr : n.isReady before = true) : n.isReady after = true := by
  cases hd : n.dependency with
  | none => simp [GraphNode.isReady,hd]
  | some d =>
    have hn : d.hasNegation = false := by simpa [GraphNode.isPositive,hd] using hp
    have hb : Dependency.holds before d = true := by simpa [isReady,hd] using hr
    have hs (id : String) (h : before id = .success) : after id = .success := by
      rw [hk id (by rw [h]; rfl),h]
    simpa [isReady,hd] using Dependency.holds_mono d hn hs hb

end Keeps

end GraphNode

namespace Graph

variable {g h : Graph} {fate : String → Fate} {before after status : String → Status}
  {n : GraphNode Graph}

/-- Whether a branch that has succeeded does not select a node among its targets. -/
def isLeftOut (g : Graph) (fate : String → Fate) (status : String → Status) (id : String) : Bool :=
  g.nodes.any fun b => status b.id == .success && b.kind.targets.contains id &&
    (fate b.id).leavesOut id

/-- What becomes of a node in view of the nodes that have been looked at. -/
def verdict (g : Graph) (fate : String → Fate) (status : String → Status) (n : GraphNode Graph) :
    Status :=
  if g.isLeftOut fate status n.id || !n.isReady status then .skipped else (fate n.id).status

/-- Looks at nodes one after another, in view of what is known before. -/
def evaluateFrom (g : Graph) (fate : String → Fate) (done : String → Status) :
    List (GraphNode Graph) → String → Status
  | [] => done
  | n::rest => evaluateFrom g fate (Function.update done n.id (g.verdict fate done n)) rest

def evaluate (g : Graph) (fate : String → Fate) (order : List (GraphNode Graph)) : String → Status :=
  evaluateFrom g fate (fun _ => .pending) order

/-- An order of all nodes in which none stands before a node that it refers to. -/
def IsOrder (g : Graph) (order : List (GraphNode Graph)) : Prop :=
  order.Perm g.nodes ∧ order.Pairwise fun earlier later => later.id ∉ earlier.references

/-- A table in which every node has the state that the others imply. -/
def Balanced (g : Graph) (fate : String → Fate) (status : String → Status) : Prop :=
  ∀ n ∈ g.nodes, status n.id = g.verdict fate status n

theorem isLeftOut_iff {id : String} : g.isLeftOut fate status id = true ↔
    ∃ b ∈ g.nodes, status b.id = .success ∧ id ∈ b.kind.targets ∧
      (fate b.id).leavesOut id = true := by
  simp [isLeftOut,and_assoc]

theorem isLeftOut_keeps (hk : Status.Keeps before after) {id : String}
    (hl : g.isLeftOut fate before id = true) : g.isLeftOut fate after id = true := by
  obtain ⟨b,hb,hs,ht,hf⟩ := isLeftOut_iff.mp hl
  have hs' : after b.id = .success := by rw [hk b.id (by rw [hs]; rfl),hs]
  exact isLeftOut_iff.mpr ⟨b,hb,hs',ht,hf⟩

/-- A verdict looks only at the nodes that the node refers to. -/
theorem Sound.verdict_congr (hg : g.Sound) (hn : n ∈ g.nodes)
    (hs : ∀ id ∈ n.references, before id = after id) :
    g.verdict fate before n = g.verdict fate after n := by
  have hleft : g.isLeftOut fate before n.id = g.isLeftOut fate after n.id := by
    rw [Bool.eq_iff_iff,isLeftOut_iff,isLeftOut_iff]
    refine exists_congr fun b => and_congr_right fun hb => ?_
    constructor
    · rintro ⟨hst,ht,hl⟩
      have hid := (hg.gated b hb n hn ht).mem_references
      exact ⟨hs b.id hid ▸ hst,ht,hl⟩
    · rintro ⟨hst,ht,hl⟩
      have hid := (hg.gated b hb n hn ht).mem_references
      exact ⟨(hs b.id hid).trans hst,ht,hl⟩
  rw [verdict,verdict,hleft,GraphNode.isReady_congr hs]

theorem Sound.not_self (hg : g.Sound) (hn : n ∈ g.nodes) : n.id ∉ n.references := by
  intro hid
  have hd := hg.mem_dependencies hn hid
  exact hg.wellFounded.asymmetric _ _ hd hd

theorem evaluateFrom_frame (order : List (GraphNode Graph)) (done : String → Status) {id : String}
    (h : id ∉ order.map GraphNode.id) : evaluateFrom g fate done order id = done id := by
  induction order generalizing done with
  | nil => rfl
  | cons n rest ih =>
    rw [List.map_cons,List.mem_cons,not_or] at h
    rw [evaluateFrom,ih _ h.2,Function.update_of_ne h.1]

/-- When a node is looked at, all that it refers to has its final state. -/
theorem Sound.evaluateFrom_verdict (hg : g.Sound) (order : List (GraphNode Graph))
    (done : String → Status) (hsub : order ⊆ g.nodes) (hd : (order.map GraphNode.id).Nodup)
    (hp : order.Pairwise fun earlier later => later.id ∉ earlier.references) :
    ∀ n ∈ order, evaluateFrom g fate done order n.id =
      g.verdict fate (evaluateFrom g fate done order) n := by
  induction order generalizing done with
  | nil => simp
  | cons m rest ih =>
    rw [List.map_cons,List.nodup_cons] at hd
    rw [List.pairwise_cons] at hp
    have hm := hsub List.mem_cons_self
    intro n hn
    rcases List.mem_cons.mp hn with rfl | hn
    · have hrefs (id : String) (hid : id ∈ n.references) :
          id ∉ (n::rest).map GraphNode.id := by
        rw [List.map_cons,List.mem_cons,not_or]
        refine ⟨fun he => hg.not_self hm (he ▸ hid),fun hr => ?_⟩
        obtain ⟨k,hk,rfl⟩ := List.mem_map.mp hr
        exact hp.1 k hk hid
      have hv : g.verdict fate (evaluateFrom g fate done (n::rest)) n = g.verdict fate done n :=
        hg.verdict_congr hm fun id hid => evaluateFrom_frame (n::rest) done (hrefs id hid)
      rw [hv,evaluateFrom,evaluateFrom_frame rest _ hd.1,Function.update_self]
    · exact ih _ (fun k hk => hsub (List.mem_cons_of_mem _ hk)) hd.2 hp.2 n hn

theorem Sound.evaluate_balanced (hg : g.Sound) {order : List (GraphNode Graph)}
    (ho : g.IsOrder order) : g.Balanced fate (g.evaluate fate order) := by
  have hd : (order.map GraphNode.id).Nodup := (ho.1.map GraphNode.id).nodup_iff.mpr hg.nodup
  intro n hn
  exact hg.evaluateFrom_verdict order _ ho.1.subset hd ho.2 n (ho.1.mem_iff.mpr hn)

theorem Sound.balanced_unique (hg : g.Sound) (hb : g.Balanced fate before)
    (ha : g.Balanced fate after) : ∀ id ∈ g.ids, before id = after id := by
  intro id
  induction id using hg.wellFounded.induction with
  | _ id ih =>
    intro hid
    obtain ⟨n,hn,rfl⟩ := mem_ids.mp hid
    rw [hb n hn,ha n hn]
    exact hg.verdict_congr hn fun id hid => ih id (hg.mem_dependencies hn hid) (hg.closed n hn id hid)

/-- What the order of definitions leaves alone in a node: its id, what it was told to wait for, and its
targets. -/
def outline (n : GraphNode Graph) : String × Option Dependency × List String :=
  (n.id,n.dependency,n.kind.targets)

/-- Two graphs from the same nodes, defined in different orders. -/
def Reorders (g h : Graph) : Prop :=
  ∃ ms ns : List (GraphNode Graph), g.nodes = gated ms ∧ h.nodes = gated ns ∧
    (ms.map outline).Perm (ns.map outline)

theorem Reorders.symm (hr : g.Reorders h) : h.Reorders g := by
  obtain ⟨ms,ns,hg,hh,hp⟩ := hr
  exact ⟨ns,ms,hh,hg,hp.symm⟩

/-- The order of a map of nodes, and of the maps inside, is such a difference. -/
theorem reorders_of_perm {cap : Nat} {ms ns : List NamedNode} (hp : ms.Perm ns)
    (terminal terminal' : Option (List String)) :
    ((Block.graph ms terminal).toGraph cap).Reorders ((Block.graph ns terminal').toGraph cap) := by
  refine ⟨graphNodes cap ms,graphNodes cap ns,Block.toGraph_nodes _ _,Block.toGraph_nodes _ _,?_⟩
  have hnodes (l : List NamedNode) : graphNodes cap l = l.map fun p => graphNode cap p.1 p.2 := by
    induction l with
    | nil => rfl
    | cons p rest ih => rw [graphNodes,ih,List.map_cons]
  rw [hnodes,hnodes]
  exact (hp.map _).map _

theorem reorders_self {cap : Nat} {d : Definition} (hb : d.build cap = .ok g) (hc : g.Contains h) :
    h.Reorders h := by
  obtain ⟨-,rfl⟩ := Definition.build_eq_ok.mp hb
  obtain ⟨b,-,-,rfl,-⟩ := Block.ofBlock_sees_contained "" [] hc
  exact ⟨_,_,Block.toGraph_nodes cap b,Block.toGraph_nodes cap b,.refl _⟩

theorem isReady_behind (branches : List String) (n : GraphNode Graph) (status : String → Status) :
    (behind branches n).isReady status = true ↔
      n.isReady status = true ∧ ∀ b ∈ branches, status b = .success := by
  rw [GraphNode.isReady_iff,conditions_behind,GraphNode.isReady_iff]
  simp [or_imp,forall_and,Dependency.holds_node_iff]

theorem isPositive_behind (branches : List String) (n : GraphNode Graph) :
    (behind branches n).isPositive = n.isPositive := by
  rw [Bool.eq_iff_iff,GraphNode.isPositive_iff,conditions_behind,GraphNode.isPositive_iff]
  simp [or_imp,forall_and,Dependency.hasNegation]

/-- What nodes of two graphs have in common that differ in the order of definitions only. -/
structure Alike (n m : GraphNode Graph) : Prop where
  id : n.id = m.id
  targets : n.kind.targets = m.kind.targets
  isReady : ∀ status, n.isReady status = m.isReady status
  isPositive : n.isPositive = m.isPositive

theorem mem_gates_of_perm {ms ns : List (GraphNode Graph)}
    (hp : (ms.map outline).Perm (ns.map outline)) {id b : String} (hb : b ∈ gates ms id) :
    b ∈ gates ns id := by
  obtain ⟨n,hn,rfl,hne,ht⟩ := (mem_gates ms).mp hb
  obtain ⟨m,hm,he⟩ := List.mem_map.mp (hp.subset (List.mem_map.mpr ⟨n,hn,rfl⟩))
  simp only [outline,Prod.mk.injEq] at he
  exact (mem_gates ns).mpr ⟨m,hm,he.1,hne,he.2.2 ▸ ht⟩

theorem Reorders.exists_alike (hr : g.Reorders h) (hn : n ∈ g.nodes) :
    ∃ m ∈ h.nodes, Alike n m := by
  obtain ⟨ms,ns,hg,hh,hp⟩ := hr
  rw [hg,mem_gated] at hn
  obtain ⟨k,hk,rfl⟩ := hn
  obtain ⟨l,hl,he⟩ := List.mem_map.mp (hp.subset (List.mem_map.mpr ⟨k,hk,rfl⟩))
  simp only [outline,Prod.mk.injEq] at he
  obtain ⟨hid,hdep,htargets⟩ := he
  have hm : behind (gates ns l.id) l ∈ h.nodes := by
    rw [hh,mem_gated]
    exact ⟨l,hl,rfl⟩
  refine ⟨_,hm,?_,?_,fun status => ?_,?_⟩
  · rw [behind_id,behind_id,hid]
  · rw [behind_kind,behind_kind,htargets]
  · have hready : k.isReady status = l.isReady status := by
      rw [GraphNode.isReady,GraphNode.isReady,hdep]
    have hgates (b : String) : b ∈ gates ms k.id ↔ b ∈ gates ns l.id := by
      rw [hid]
      exact ⟨mem_gates_of_perm hp,mem_gates_of_perm hp.symm⟩
    rw [Bool.eq_iff_iff,isReady_behind,isReady_behind,hready]
    simp only [hgates]
  · rw [isPositive_behind,isPositive_behind,GraphNode.isPositive,GraphNode.isPositive,hdep]

theorem Reorders.isPositive (hr : g.Reorders h) (hp : ∀ n ∈ g.nodes, n.isPositive = true) :
    ∀ m ∈ h.nodes, m.isPositive = true := by
  intro m hm
  obtain ⟨n,hn,ha⟩ := hr.symm.exists_alike hm
  rw [ha.isPositive]
  exact hp n hn

theorem Reorders.isLeftOut (hr : g.Reorders h) {id : String}
    (hl : g.isLeftOut fate status id = true) : h.isLeftOut fate status id = true := by
  obtain ⟨b,hb,hs,ht,hf⟩ := isLeftOut_iff.mp hl
  obtain ⟨c,hc,ha⟩ := hr.exists_alike hb
  exact isLeftOut_iff.mpr ⟨c,hc,ha.id ▸ hs,ha.targets ▸ ht,ha.id ▸ hf⟩

/-- What is balanced in one order of definitions is balanced in any. -/
theorem Reorders.balanced (hr : g.Reorders h) (hb : g.Balanced fate status) :
    h.Balanced fate status := by
  intro m hm
  obtain ⟨n,hn,ha⟩ := hr.symm.exists_alike hm
  have hleft : h.isLeftOut fate status m.id = g.isLeftOut fate status n.id := by
    rw [Bool.eq_iff_iff,ha.id]
    exact ⟨hr.symm.isLeftOut,hr.isLeftOut⟩
  rw [verdict,hleft,ha.isReady,ha.id]
  exact hb n hn

end Graph

end TaskGraph
