import TaskGraph.Proofs.Graph.CycleSearch
import TaskGraph.Proofs.Graph.Terminal

/-!
Steps in a row. In their graph every node but the first waits for the one before it, and for nothing
else; the last one is terminal.
-/

namespace TaskGraph

/-- Steps with different ids that do not say what they wait for, and none of which is a branch. -/
structure Block.IsRow (steps : List NamedNode) : Prop where
  nonempty : steps ≠ []
  distinct : (steps.map (·.1)).Nodup
  undeclared : ∀ step ∈ steps, step.2.dependsOn = none
  unbranched : ∀ step ∈ steps, ∀ arms fallback, step.2.kind ≠ .branch arms fallback

namespace Graph

/-- Nodes each of which waits for the one before it. -/
structure IsRow (g : Graph) (ids : List String) : Prop where
  ids_eq : g.ids = ids
  distinct : ids.Nodup
  waits : ∀ n ∈ g.nodes, ∀ front back, ids = front ++ n.id::back →
    n.dependency = front.getLast?.map .node
  targets : ∀ n ∈ g.nodes, n.kind.targets = []
  terminal : g.terminal = ids.getLast?.toList

namespace IsRow

variable {g : Graph} {ids : List String} {n : GraphNode Graph}

/-- A place in a row is known by the name there. -/
theorem split_unique {a b c d : List String} {id : String} (hd : (a ++ id::b).Nodup)
    (h : a ++ id::b = c ++ id::d) : a = c ∧ b = d := by
  obtain ⟨-,hrest,happart⟩ := List.nodup_append.mp hd
  have ha : id ∉ a := fun hid => happart id hid id List.mem_cons_self rfl
  obtain ⟨ha,-,hb⟩ := (List.append_cons_inj_of_notMem ha (List.nodup_cons.mp hrest).1).mp h
  exact ⟨ha,hb⟩

theorem dependency (h : g.IsRow ids) (hn : n ∈ g.nodes) {id : String} {front back : List String}
    (he : ids = front ++ id::n.id::back) : n.dependency = some (.node id) := by
  rw [h.waits n hn (front ++ [id]) back (by rw [he,List.append_assoc]; rfl),List.getLast?_concat]
  rfl

theorem mem_references (h : g.IsRow ids) (hn : n ∈ g.nodes) {id : String} :
    id ∈ n.references ↔ ∃ front back, ids = front ++ id::n.id::back := by
  constructor
  · intro hid
    obtain ⟨front,back,he⟩ := List.append_of_mem (h.ids_eq ▸ mem_ids_of_mem hn)
    obtain ⟨d,hd,hleaf⟩ := GraphNode.mem_references.mp hid
    rw [h.waits n hn front back he] at hd
    obtain ⟨previous,hlast,rfl⟩ := Option.map_eq_some_iff.mp hd
    obtain ⟨front,rfl⟩ := List.getLast?_eq_some_iff.mp hlast
    obtain rfl := List.mem_singleton.mp hleaf
    exact ⟨front,back,by rw [he,List.append_assoc]; rfl⟩
  · rintro ⟨front,back,he⟩
    exact GraphNode.mem_references.mpr ⟨.node id,h.dependency hn he,List.mem_singleton_self id⟩

/-- What a node refers to is what it requires. -/
theorem requires (h : g.IsRow ids) (hn : n ∈ g.nodes) {id : String} (hid : id ∈ n.references) :
    n.Requires id := by
  obtain ⟨front,back,he⟩ := (h.mem_references hn).mp hid
  exact ⟨.node id,h.dependency hn he,List.mem_singleton_self _⟩

theorem idxOf_lt (h : g.IsRow ids) {a b : String} {front back : List String}
    (he : ids = front ++ a::b::back) : ids.idxOf a < ids.idxOf b := by
  have hd := h.distinct
  subst he
  obtain ⟨-,hrest,happart⟩ := List.nodup_append.mp hd
  have hne : a ≠ b := fun he => (List.nodup_cons.mp hrest).1 (he ▸ List.mem_cons_self)
  have ha : a ∉ front := fun ha => happart a ha a List.mem_cons_self rfl
  have hb : b ∉ front := fun hb => happart b hb b (List.mem_cons_of_mem _ List.mem_cons_self) rfl
  rw [List.idxOf_append_of_notMem ha,List.idxOf_append_of_notMem hb,List.idxOf_cons_self,
    List.idxOf_cons_ne _ hne]
  omega

theorem sound (h : g.IsRow ids) : g.Sound where
  nodup := h.ids_eq ▸ h.distinct
  closed n hn id hid := by
    obtain ⟨front,back,he⟩ := (h.mem_references hn).mp hid
    rw [h.ids_eq,he]
    exact List.mem_append_right _ List.mem_cons_self
  wellFounded := by
    refine Subrelation.wf (r := InvImage (· < ·) ids.idxOf) ?_ (InvImage.wf _ Nat.lt_wfRel.wf)
    intro a b hab
    have hd : g.ids.Nodup := h.ids_eq ▸ h.distinct
    obtain ⟨n,hn,rfl,hleaf,-⟩ := (refers_linksOf hd).mp hab
    obtain ⟨front,back,he⟩ := (h.mem_references hn).mp (GraphNode.mem_references.mpr hleaf)
    exact h.idxOf_lt he
  targets n hn id hid := by
    rw [h.targets n hn] at hid
    cases hid
  gated n hn m _ hid := by
    rw [h.targets n hn] at hid
    cases hid

end IsRow

end Graph

namespace Block

theorem nodeKind_targets (cap : Nat) {kind : KindDefinition Block}
    (h : ∀ arms fallback, kind ≠ .branch arms fallback) : (nodeKind cap kind).targets = [] := by
  cases kind with
  | branch arms fallback => exact absurd rfl (h arms fallback)
  | _ => rfl

/-- Nodes that select nobody are no gates. -/
theorem gated_eq_self {nodes : List (GraphNode Graph)} (h : ∀ n ∈ nodes, n.kind.targets = []) :
    Graph.gated nodes = nodes := by
  have hgates (id : String) : Graph.gates nodes id = [] := by
    rw [Graph.gates,List.map_eq_nil_iff,List.filter_eq_nil_iff]
    intro n hn
    simp [h n hn]
  rw [Graph.gated]
  simp [hgates,Graph.behind]

theorem latest_distinct {list : List NamedNode} (h : (list.map (·.1)).Nodup) :
    latest [] none list = (list.map (·.1)).getLast? := by
  obtain rfl | ⟨front,last,rfl⟩ := List.eq_nil_or_concat' list
  · rfl
  · rw [List.map_append] at h ⊢
    have hlast : last.1 ∉ front.map (·.1) := fun hmem =>
      (List.nodup_append.mp h).2.2 _ hmem _ List.mem_cons_self rfl
    rw [latest_concat none List.not_mem_nil hlast]
    exact List.getLast?_concat.symm

namespace IsRow

variable {steps : List NamedNode}

theorem lineup (h : IsRow steps) : (Block.steps steps).lineup.map (·.2) = steps :=
  lineup_members h.distinct

theorem drafts_ids (h : IsRow steps) (cap : Nat) :
    ((Block.steps steps).drafts cap).map GraphNode.id = steps.map (·.1) := by
  conv_rhs => rw [← h.lineup,List.map_map]
  exact Block.drafts_ids cap _

theorem nodes (h : IsRow steps) (cap : Nat) :
    ((Block.steps steps).toGraph cap).nodes = (Block.steps steps).lineup.map (draft cap) := by
  rw [toGraph_nodes,drafts_eq]
  refine gated_eq_self fun n hn => ?_
  obtain ⟨p,hp,rfl⟩ := List.mem_map.mp hn
  rw [(defines_draft cap p).kind]
  exact nodeKind_targets cap (h.unbranched p.2 (mem_members hp))

/-- A step waits for the one before it. -/
theorem dependency (h : IsRow steps) (cap : Nat) {p : Option String × NamedNode}
    (hp : p ∈ (Block.steps steps).lineup) {front back : List String}
    (he : steps.map (·.1) = front ++ p.2.1::back) :
    (draft cap p).dependency = front.getLast?.map .node := by
  obtain ⟨before,after,hsteps,-,-,hlast⟩ := mem_lineupFrom.mp hp
  have hd := h.distinct
  rw [hsteps,List.map_append] at he hd
  obtain ⟨rfl,-⟩ := Graph.IsRow.split_unique hd he
  rw [draft,h.undeclared p.2 (mem_members hp),hlast,
    latest_distinct (List.nodup_append.mp hd).1]
  cases (before.map (·.1)).getLast? <;> rfl

theorem graph (h : IsRow steps) (cap : Nat) :
    ((Block.steps steps).toGraph cap).IsRow (steps.map (·.1)) where
  ids_eq := by rw [Graph.ids,toGraph_nodes,Graph.gated_ids,h.drafts_ids]
  distinct := h.distinct
  waits n hn front back he := by
    rw [h.nodes] at hn
    obtain ⟨p,hp,rfl⟩ := List.mem_map.mp hn
    rw [draft_id] at he
    exact h.dependency cap hp he
  targets n hn := by
    rw [h.nodes] at hn
    obtain ⟨p,hp,rfl⟩ := List.mem_map.mp hn
    rw [(defines_draft cap p).kind]
    exact nodeKind_targets cap (h.unbranched p.2 (mem_members hp))
  terminal := by rw [toGraph_terminal_steps,← List.getLast?_map,h.drafts_ids]

end IsRow

end Block

end TaskGraph
