import Mathlib.Data.List.Nodup
import TaskGraph.Graph.Build
import TaskGraph.Proofs.Dependency
import TaskGraph.Proofs.Graph.Acyclic

/-!
What building guarantees of a graph and of every graph inside it: the ids of its nodes are different,
dependencies and branches stay among its nodes, no node waits for itself, and every target of a branch
waits for the branch.
-/

namespace TaskGraph

/-- The graphs that lie directly in a kind. -/
def NodeKind.nested : NodeKind Graph → List Graph
  | .action .. | .branch .. => []
  | .sequence body | .loop _ _ body => [body]
  | .forEach _ _ template => [template]
  | .guarded body recovery always => body::recovery.toList ++ always.toList

/-- The graphs that lie directly in a node. -/
def GraphNode.nested (n : GraphNode Graph) : List Graph := n.kind.nested ++ n.handler.toList

/-- Whether a node has to wait until another has succeeded, whatever else it waits for. -/
def GraphNode.Requires (n : GraphNode Graph) (id : String) : Prop :=
  ∃ d, n.dependency = some d ∧ .node id ∈ d.conjuncts

namespace GraphNode

variable {n : GraphNode Graph} {id : String}

/-- What the dependency of a node is the conjunction of. -/
def conditions (n : GraphNode Graph) : List Dependency :=
  (n.dependency.map Dependency.conjuncts).getD []

theorem isReady_iff {status : String → Status} :
    n.isReady status = true ↔ ∀ c ∈ n.conditions, c.holds status = true := by
  cases hd : n.dependency with
  | none => simp [isReady,conditions,hd]
  | some d => simpa [isReady,conditions,hd] using Dependency.holds_conjuncts status d

theorem requires_iff : n.Requires id ↔ .node id ∈ n.conditions := by
  cases hd : n.dependency <;> simp [Requires,conditions,hd]

theorem mem_references : id ∈ n.references ↔ ∃ d, n.dependency = some d ∧ id ∈ d.leaves := by
  cases hd : n.dependency <;> simp [references,hd,Dependency.mem_references]

theorem mem_references_iff : id ∈ n.references ↔ ∃ c ∈ n.conditions, id ∈ c.leaves := by
  rw [mem_references]
  cases hd : n.dependency with
  | none => simp [conditions,hd]
  | some d => simpa [conditions,hd] using Dependency.leaves_conjuncts

theorem Requires.mem_references (h : n.Requires id) : id ∈ n.references :=
  mem_references_iff.mpr ⟨_,requires_iff.mp h,by simp [Dependency.leaves]⟩

/-- A node that is ready has all that it requires. -/
theorem Requires.success (h : n.Requires id) {status : String → Status}
    (hr : n.isReady status = true) : status id = .success :=
  Dependency.holds_node_iff.mp (isReady_iff.mp hr _ (requires_iff.mp h))

theorem isReady_congr {before after : String → Status}
    (h : ∀ id ∈ n.references, before id = after id) : n.isReady before = n.isReady after := by
  cases hd : n.dependency with
  | none => simp [isReady,hd]
  | some d =>
    have hc : Dependency.holds before d = Dependency.holds after d :=
      Dependency.holds_congr d fun id hid => h id (GraphNode.mem_references.mpr ⟨d,hd,hid⟩)
    simp [isReady,hd,hc]

end GraphNode

namespace Graph

/-- A graph contains itself and whatever the graphs in its nodes contain. -/
inductive Contains : Graph → Graph → Prop
  | self (g : Graph) : Contains g g
  | inside {g inner h : Graph} {n : GraphNode Graph} : n ∈ g.nodes → inner ∈ n.nested →
    Contains inner h → Contains g h

structure Sound (g : Graph) : Prop where
  nodup : g.ids.Nodup
  closed : ∀ n ∈ g.nodes, ∀ id ∈ n.references, id ∈ g.ids
  wellFounded : WellFounded fun a b => a ∈ g.dependencies b
  targets : ∀ n ∈ g.nodes, ∀ id ∈ n.kind.targets, id ≠ n.id ∧ id ∈ g.ids
  gated : ∀ n ∈ g.nodes, ∀ m ∈ g.nodes, m.id ∈ n.kind.targets → m.Requires n.id

section Nodes

variable {g : Graph}

theorem mem_ids {id : String} : id ∈ g.ids ↔ ∃ n ∈ g.nodes, n.id = id := List.mem_map

theorem mem_ids_of_mem {n : GraphNode Graph} (h : n ∈ g.nodes) : n.id ∈ g.ids :=
  List.mem_map.mpr ⟨n,h,rfl⟩

theorem Sound.eq_of_id (hg : g.Sound) {m n : GraphNode Graph} (hm : m ∈ g.nodes) (hn : n ∈ g.nodes)
    (h : m.id = n.id) : m = n :=
  List.inj_on_of_nodup_map hg.nodup hm hn h

theorem lookup_linksOf {nodes : List (GraphNode Graph)} (hd : (nodes.map GraphNode.id).Nodup)
    {n : GraphNode Graph} (hn : n ∈ nodes) : (linksOf nodes).lookup n.id = some n.references := by
  induction nodes with
  | nil => cases hn
  | cons m rest ih =>
    rw [List.map_cons,List.nodup_cons] at hd
    rw [linksOf,List.map_cons,List.lookup_cons]
    rcases List.mem_cons.mp hn with rfl | hn
    · simp
    · have hne : n.id ≠ m.id := fun he => hd.1 (he ▸ List.mem_map.mpr ⟨n,hn,rfl⟩)
      rw [beq_false_of_ne hne]
      exact ih hd.2 hn

theorem mem_dependencies (hd : g.ids.Nodup) {n : GraphNode Graph} (hn : n ∈ g.nodes) {id : String} :
    id ∈ g.dependencies n.id ↔ id ∈ n.references ∧ id ∈ g.ids := by
  have hl : g.links.lookup n.id = some n.references := lookup_linksOf hd hn
  have hnames : g.links.names = g.ids := by simp [links,linksOf,Links.names,ids]
  simp [dependencies,Links.next,hl,hnames]

theorem Sound.mem_dependencies (hg : g.Sound) {n : GraphNode Graph} (hn : n ∈ g.nodes)
    {id : String} (h : id ∈ n.references) : id ∈ g.dependencies n.id :=
  (Graph.mem_dependencies hg.nodup hn).mpr ⟨h,hg.closed n hn id h⟩

end Nodes

section Gates

variable (nodes : List (GraphNode Graph))

theorem behind_id (branches : List String) (n : GraphNode Graph) : (behind branches n).id = n.id := by
  unfold behind
  split <;> rfl

theorem behind_kind (branches : List String) (n : GraphNode Graph) :
    (behind branches n).kind = n.kind := by
  unfold behind
  split <;> rfl

theorem gated_ids : (gated nodes).map GraphNode.id = nodes.map GraphNode.id := by
  rw [gated,List.map_map]
  exact List.map_congr_left fun n _ => behind_id _ n

theorem mem_gated {n : GraphNode Graph} :
    n ∈ gated nodes ↔ ∃ m ∈ nodes, behind (gates nodes m.id) m = n := List.mem_map

theorem conditions_behind (branches : List String) (n : GraphNode Graph) :
    (behind branches n).conditions = n.conditions ++ branches.map .node := by
  unfold behind
  split
  · next hb => simp [List.isEmpty_iff.mp hb]
  · cases hd : n.dependency <;> simp [GraphNode.conditions,hd,Dependency.conjuncts_and,
      Dependency.conjuncts_ofAll]

theorem behind_requires {branches : List String} {id : String} (h : id ∈ branches)
    (n : GraphNode Graph) : (behind branches n).Requires id := by
  rw [GraphNode.requires_iff,conditions_behind]
  exact List.mem_append_right _ (List.mem_map.mpr ⟨id,h,rfl⟩)

theorem mem_references_behind {branches : List String} {n : GraphNode Graph} {id : String}
    (h : id ∈ (behind branches n).references) : id ∈ n.references ∨ id ∈ branches := by
  rw [GraphNode.mem_references_iff,conditions_behind] at h
  obtain ⟨c,hc,hid⟩ := h
  rcases List.mem_append.mp hc with hc | hc
  · exact .inl (GraphNode.mem_references_iff.mpr ⟨c,hc,hid⟩)
  · obtain ⟨b,hb,rfl⟩ := List.mem_map.mp hc
    rw [Dependency.leaves,List.mem_singleton] at hid
    exact .inr (hid ▸ hb)

theorem mem_gates {id b : String} :
    b ∈ gates nodes id ↔ ∃ n ∈ nodes, n.id = b ∧ b ≠ id ∧ id ∈ n.kind.targets := by
  constructor
  · intro h
    obtain ⟨n,hn,rfl⟩ := List.mem_map.mp h
    obtain ⟨hn,ht⟩ := List.mem_filter.mp hn
    simp only [Bool.and_eq_true,bne_iff_ne,List.contains_iff_mem] at ht
    exact ⟨n,hn,rfl,ht.1,ht.2⟩
  · rintro ⟨n,hn,rfl,hne,ht⟩
    refine List.mem_map.mpr ⟨n,List.mem_filter.mpr ⟨hn,?_⟩,rfl⟩
    simp [hne,ht]

end Gates

/-- Nodes that are faultless together make a sound graph. -/
theorem sound_of_levelFaults {path : String} {nodes : List (GraphNode Graph)}
    {checked : List String} (terminal : List String) (hd : (nodes.map GraphNode.id).Nodup)
    (h : levelFaults path nodes checked = []) : (Graph.mk (gated nodes) terminal).Sound := by
  simp only [levelFaults,List.append_eq_nil_iff,List.flatMap_eq_nil_iff,List.map_eq_nil_iff,
    List.filter_eq_nil_iff] at h
  obtain ⟨⟨⟨hrefs,htargets⟩,hcycles⟩,-⟩ := h
  have hids : (Graph.mk (gated nodes) terminal).ids = nodes.map GraphNode.id := gated_ids nodes
  have htarget (m : GraphNode Graph) (hm : m ∈ nodes) (t : String) (ht : t ∈ m.kind.targets) :
      t ≠ m.id ∧ t ∈ nodes.map GraphNode.id := by
    have hf := List.filterMap_eq_nil_iff.mp (htargets m hm) t ht
    split at hf
    · cases hf
    next hne =>
    split at hf
    · next hc => exact ⟨hne,by simpa using hc⟩
    · cases hf
  refine ⟨hids ▸ hd,?_,Links.wellFounded_of_cycles_eq_nil hcycles,?_,?_⟩
  · intro n hn id hid
    obtain ⟨m,hm,rfl⟩ := (mem_gated nodes).mp hn
    rw [hids]
    rcases mem_references_behind hid with hid | hid
    · by_contra hc
      exact hrefs m hm id hid (by simpa using hc)
    · obtain ⟨b,hb,rfl,-⟩ := (mem_gates nodes).mp hid
      exact List.mem_map.mpr ⟨b,hb,rfl⟩
  · intro n hn t ht
    obtain ⟨m,hm,rfl⟩ := (mem_gated nodes).mp hn
    rw [behind_kind] at ht
    rw [behind_id,hids]
    exact htarget m hm t ht
  · intro n hn m hm ht
    obtain ⟨b,hb,rfl⟩ := (mem_gated nodes).mp hn
    obtain ⟨t,ht',rfl⟩ := (mem_gated nodes).mp hm
    rw [behind_id,behind_kind] at ht
    rw [behind_id]
    refine behind_requires ((mem_gates nodes).mpr ⟨b,hb,rfl,?_,ht⟩) t
    exact (htarget b hb t.id ht).1.symm

end Graph

end TaskGraph
