import TaskGraph.Proofs.Definition.Lineup
import TaskGraph.Proofs.Definition.Places

/-!
Where the graphs of a definition come from. The members of a block without faults become the nodes of
its graph, and the blocks in a member become the graphs in its node, so that a definition and its graph
can be gone through in step, and every graph inside belongs to one block.
-/

namespace TaskGraph

theorem Graph.Contains.trans {g h inner : Graph} (hg : g.Contains h) (hh : h.Contains inner) :
    g.Contains inner := by
  induction hg with
  | self => exact hh
  | inside hn hi _ ih => exact .inside hn hi (ih hh)

namespace Block

/-- A block and a graph stand at the same place inside another block and its graph. -/
inductive Matches (b : Block) (g : Graph) : Block → Graph → Prop
  | self : Matches b g b g
  | inside {c part : Block} {h inner : Graph} {m : NamedNode} {n : GraphNode Graph}
    {label : String} : Matches b g c h → m ∈ c.members → n ∈ h.nodes → n.id = m.1 →
    (label,part) ∈ m.2.parts → (label,inner) ∈ n.parts → Matches b g part inner

theorem Matches.contains {b c : Block} {g h : Graph} (hm : b.Matches g c h) : g.Contains h := by
  induction hm with
  | self => exact .self g
  | inside _ _ hn _ _ hi ih =>
    exact ih.trans (.inside hn (GraphNode.mem_nested.mpr ⟨_,hi⟩) (.self _))

/-- Going through a member first and then on is going on from there. -/
theorem Matches.within {b part c : Block} {g inner h : Graph} {m : NamedNode}
    {n : GraphNode Graph} {label : String} (hm : m ∈ b.members) (hn : n ∈ g.nodes)
    (hid : n.id = m.1) (hp : (label,part) ∈ m.2.parts) (hi : (label,inner) ∈ n.parts)
    (hc : part.Matches inner c h) : b.Matches g c h := by
  induction hc with
  | self => exact .inside .self hm hn hid hp hi
  | inside _ hm' hn' hid' hp' hi' ih => exact .inside ih hm' hn' hid' hp' hi'

section Nodes

variable {cap : Nat} {b : Block} {n : GraphNode Graph}

/-- Every node of the graph of a block is a member that is kept, behind its branches. -/
theorem mem_nodes : n ∈ (b.toGraph cap).nodes ↔
    ∃ p ∈ b.lineup, Graph.behind (Graph.gates (b.drafts cap) p.2.1) (draft cap p) = n := by
  rw [toGraph_nodes,Graph.mem_gated,drafts_eq]
  constructor
  · rintro ⟨m,hm,rfl⟩
    obtain ⟨p,hp,rfl⟩ := List.mem_map.mp hm
    exact ⟨p,hp,by rw [draft_id]⟩
  · rintro ⟨p,hp,rfl⟩
    exact ⟨_,List.mem_map.mpr ⟨p,hp,rfl⟩,by rw [draft_id]⟩

/-- The node of a member that is kept is defined by it. -/
theorem defines_node (cap : Nat) (b : Block) (p : Option String × NamedNode) :
    Defines cap p.2.1 p.2.2 (Graph.behind (Graph.gates (b.drafts cap) p.2.1) (draft cap p)) :=
  (defines_draft cap p).behind _

theorem labels_nodup (d : NodeDefinition Block) : (d.parts.map (·.1)).Nodup := by
  have hopt (label : String) (b : Option Block) :
      ((b.map (label,·)).toList.map (·.1)).Sublist [label] := by cases b <;> simp
  have hkind : (d.kind.parts.map (·.1)).Sublist ["steps","template","body","recovery","always"] := by
    cases d.kind with
    | guarded body recovery always =>
      have hrest := ((hopt "recovery" recovery).append (hopt "always" always)).cons_cons "body"
      rw [KindDefinition.parts,List.map_cons,List.map_append]
      exact hrest.trans (by decide)
    | _ => simp [KindDefinition.parts]
  rw [NodeDefinition.parts,List.map_append]
  exact (hkind.append (hopt "on_failure" d.onFailure)).nodup (by decide)

end Nodes

theorem nodup_of_go {seen ids : List String} (h : repeatedSteps.go seen ids = []) :
    ids.Nodup ∧ ∀ id ∈ ids, id ∉ seen := by
  induction ids generalizing seen with
  | nil => simp
  | cons id rest ih =>
    rw [repeatedSteps.go] at h
    split at h
    · cases h
    next hs =>
    obtain ⟨hd,hseen⟩ := ih h
    have hid : id ∉ seen := by simpa using hs
    refine ⟨List.nodup_cons.mpr ⟨fun hm => hseen id hm List.mem_cons_self,hd⟩,fun other ho => ?_⟩
    rcases List.mem_cons.mp ho with rfl | ho
    · exact hid
    · exact fun hm => hseen other ho (List.mem_cons_of_mem id hm)

/-- Nothing is wrong with a block, at some path, or with what lies in it. -/
def Faultless (cap : Nat) (b : Block) : Prop :=
  ∃ path held, ∀ s ∈ Site.ofBlock path held b, s.isKeyed = true ∧ Graph.siteFaults cap s = []

namespace Faultless

variable {cap : Nat} {b c : Block} {g h : Graph}

theorem members_nodup (hb : b.Faultless cap) : (b.members.map (·.1)).Nodup := by
  obtain ⟨path,held,hs⟩ := hb
  obtain ⟨hkeyed,hfree⟩ := hs _ (mem_ofBlock.mpr (.inl rfl))
  cases b with
  | steps list =>
    have hrepeated : (Block.steps list).repeatedSteps = [] := by
      simpa using (List.append_eq_nil_iff.mp hfree).1
    exact (nodup_of_go hrepeated).1
  | graph nodes terminal => simpa [Site.isKeyed,members] using hkeyed

theorem lineup_nodes (hb : b.Faultless cap) : b.lineup.map (·.2) = b.members :=
  lineup_members hb.members_nodup

theorem ids_eq (hb : b.Faultless cap) : (b.toGraph cap).ids = b.members.map (·.1) := by
  rw [Graph.ids,toGraph_nodes,Graph.gated_ids,drafts_ids,← hb.lineup_nodes,List.map_map]
  rfl

theorem inside (hb : b.Faultless cap) {m : NamedNode} (hm : m ∈ b.members)
    {part : String × Block} (hp : part ∈ m.2.parts) : part.2.Faultless cap := by
  rw [← hb.lineup_nodes] at hm
  obtain ⟨p,hl,rfl⟩ := List.mem_map.mp hm
  obtain ⟨path,held,hs⟩ := hb
  exact ⟨_,_,fun s hmem => hs s (mem_ofBlock.mpr (.inr (.inl
    ⟨p,hl,Site.mem_ofNode.mpr (.inr ⟨part,hp,hmem⟩)⟩)))⟩

/-- The node of a member is the member itself, behind the branches that may select it. -/
theorem exists_lineup (hb : b.Faultless cap) {m : NamedNode} (hm : m ∈ b.members)
    {n : GraphNode Graph} (hn : n ∈ (b.toGraph cap).nodes) (hid : n.id = m.1) :
    ∃ previous, (previous,m) ∈ b.lineup ∧
      Graph.behind (Graph.gates (b.drafts cap) m.1) (draft cap (previous,m)) = n := by
  obtain ⟨⟨previous,m'⟩,hp,rfl⟩ := mem_nodes.mp hn
  rw [(defines_node cap b _).id] at hid
  obtain rfl : m' = m := List.inj_on_of_nodup_map hb.members_nodup (mem_members hp) hm hid
  exact ⟨previous,hp,rfl⟩

/-- Whatever stands at the place of a block is its graph. -/
theorem eq_of_matches (hb : b.Faultless cap) (hm : b.Matches (b.toGraph cap) c h) :
    c.Faultless cap ∧ c.toGraph cap = h := by
  induction hm with
  | self => exact ⟨hb,rfl⟩
  | @inside c part h inner m n label _ hm hn hid hp hi ih =>
    obtain ⟨hc,rfl⟩ := ih
    refine ⟨hc.inside hm hp,?_⟩
    obtain ⟨previous,-,rfl⟩ := hc.exists_lineup hm hn hid
    rw [(defines_node cap c (previous,m)).parts] at hi
    obtain ⟨part',hp',he⟩ := List.mem_map.mp hi
    obtain ⟨rfl,rfl⟩ := Prod.mk.inj he
    -- The parts of a node have different names, so only one can have led here.
    have hsame : part' = (part'.1,part) :=
      List.inj_on_of_nodup_map (labels_nodup m.2) hp' hp rfl
    rw [hsame]

theorem exists_matches (hb : b.Faultless cap) (hc : (b.toGraph cap).Contains h) :
    ∃ c, b.Matches (b.toGraph cap) c h := by
  generalize hg : b.toGraph cap = g at hc
  induction hc generalizing b with
  | self => exact ⟨b,hg ▸ .self⟩
  | inside hn hi _ ih =>
    subst hg
    obtain ⟨label,hpart⟩ := GraphNode.mem_nested.mp hi
    obtain ⟨p,hp,rfl⟩ := mem_nodes.mp hn
    have hm : p.2 ∈ b.members := mem_members hp
    have hd := defines_node cap b p
    have hown := hpart
    rw [hd.parts] at hown
    obtain ⟨part,hpart',he⟩ := List.mem_map.mp hown
    obtain ⟨rfl,rfl⟩ := Prod.mk.inj he
    obtain ⟨c,hc⟩ := ih (hb.inside hm hpart') rfl
    exact ⟨c,.within hm hn hd.id hpart' hpart hc⟩

end Faultless

end Block

theorem Definition.faultless_of_build {cap : Nat} {d : Definition} {g : Graph}
    (hb : d.build cap = .ok g) (hk : d.isKeyed = true) : d.block.Faultless cap :=
  ⟨"",[],fun s hs => ⟨List.all_eq_true.mp hk s hs,siteFaults_of_build hb s hs⟩⟩

end TaskGraph
