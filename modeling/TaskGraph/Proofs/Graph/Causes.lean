import TaskGraph.Proofs.Graph.Evaluation

/-!
What may keep a node from running when it is settled in advance how each node ends: routing, a
failure, or whichever of the two comes first.
-/

namespace TaskGraph

/-- Whether a node cannot start before another has succeeded. -/
def GraphNode.Needs (n : GraphNode Graph) (id : String) : Prop :=
  ∀ status, n.isReady status = true → status id = .success

namespace Graph

section Causes

variable (g : Graph) (fate : String → Fate) (status : String → Status)

/-- The nodes that succeed before a node starts, in whatever order things happen. -/
inductive Presumes : String → String → Prop
  | needs {n : GraphNode Graph} {id : String} : n ∈ g.nodes → n.Needs id → Presumes n.id id
  | through {n : GraphNode Graph} {id other : String} : n ∈ g.nodes → n.Needs id →
    Presumes id other → Presumes n.id other

/-- Nodes that are given up as some are left out: those, and whatever is ruled out by nodes that are
given up. -/
inductive GivesUp (leftOut : String → Prop) : String → Prop
  | leftOut {n : GraphNode Graph} : n ∈ g.nodes → leftOut n.id → GivesUp leftOut n.id
  | ruledOut {n : GraphNode Graph} {ids : List String} : n ∈ g.nodes → ids ⊆ n.references →
    (∀ id ∈ ids, GivesUp leftOut id) → n.resolution (Status.skipping ids) = .unsatisfied →
    GivesUp leftOut n.id

/-- Nodes that routing alone gives up. -/
def Bypassed : String → Prop := g.GivesUp fun id => g.isLeftOut fate status id = true

/-- Nodes that routing alone has given up when a node starts, in whatever order things happen. -/
def Preempted (first : String) : String → Prop :=
  g.GivesUp fun id => ∃ b ∈ g.nodes, g.Presumes first b.id ∧ id ∈ b.kind.targets ∧
    (fate b.id).leavesOut id = true

/-- Nodes that the failure of a node may keep from running: they are skipped, they refer to it or to
another such node, and they may be waiting when it starts. -/
inductive Hindered (cause : String) : String → Prop
  | broken {n : GraphNode Graph} : n ∈ g.nodes → status n.id = .skipped → cause ∈ n.references →
    status cause = .failed ∨ status cause = .cancelled → ¬ g.Preempted fate cause n.id →
    Hindered cause n.id
  | behind {n : GraphNode Graph} {id : String} : n ∈ g.nodes → status n.id = .skipped →
    id ∈ n.references → Hindered cause id → ¬ g.Preempted fate cause n.id → Hindered cause n.id

/-- Whether routing alone may give up all terminal nodes that do not succeed, while a failure may
keep one of them from running. -/
structure IsTorn : Prop where
  bypassed : ∀ id ∈ g.terminal, status id = .success ∨ g.Bypassed fate status id
  contested : ∃ id ∈ g.terminal,
    g.Bypassed fate status id ∧ ∃ cause, g.Hindered fate status cause id

end Causes

variable {g : Graph} {fate : String → Fate} {before after status : String → Status}

theorem Hindered.keep {cause id : String} (h : g.Hindered fate before cause id)
    (hk : Status.Keeps before after) : g.Hindered fate after cause id := by
  have hkeep {id : String} {st : Status} (hs : before id = st) (ht : st.isTerminal = true) :
      after id = st := by rw [hk id (hs ▸ ht),hs]
  induction h with
  | broken hn hs href hbroke hfree =>
    exact .broken hn (hkeep hs rfl) href (hbroke.imp (hkeep · rfl) (hkeep · rfl)) hfree
  | behind hn hs href _ hfree ih => exact .behind hn (hkeep hs rfl) href ih hfree

/-- Where nothing that is referred to fails, failures keep nothing from running. -/
theorem not_hindered (h : ∀ n ∈ g.nodes, ∀ id ∈ n.references,
    status id ≠ .failed ∧ status id ≠ .cancelled) (cause id : String) :
    ¬ g.Hindered fate status cause id := by
  intro hid
  induction hid with
  | broken hn _ href hbroke => exact hbroke.elim (h _ hn _ href).1 (h _ hn _ href).2
  | behind _ _ _ _ _ ih => exact ih

end Graph

end TaskGraph
