import TaskGraph.Proofs.Definition.Lineup
import TaskGraph.Proofs.Graph.Built

/-!
Where the nodes of a definition stand: every node of a block, or of a block inside one of its nodes, has
a path and the nodes around it. What building sees of a definition are its nodes at their places.
-/

namespace TaskGraph

namespace Block

/-- A block contains itself and whatever lies in the nodes of a block that it contains. -/
inductive Contains (b : Block) : Block → Prop
  | self : Contains b b
  | inside {c : Block} {n : NamedNode} {part : String × Block} : Contains b c → n ∈ c.members →
    part ∈ n.2.parts → Contains b part.2

/-- A node at a path in a block at a path, with the nodes around it, the innermost first. -/
inductive Places (path : String) (b : Block) :
    String → List (NodeDefinition Block) → NodeDefinition Block → Prop
  | own {n : NamedNode} : n ∈ b.members → Places path b (Site.qualify path n.1) [] n.2
  | inside {p : String} {around : List (NodeDefinition Block)} {outer : NodeDefinition Block}
    {part : String × Block} {n : NamedNode} : Places path b p around outer → part ∈ outer.parts →
    n ∈ part.2.members →
    Places path b (Site.qualify (Site.inside p part.1) n.1) (outer::around) n.2

/-- Whether no list of steps has two with one id. -/
def HasDistinctSteps (b : Block) : Prop :=
  ∀ steps, b.Contains (.steps steps) → (steps.map (·.1)).Nodup

theorem sizeOf_lt {b : Block} {n : NamedNode} (hn : n ∈ b.members) {part : String × Block}
    (hp : part ∈ n.2.parts) : sizeOf part.2 < sizeOf b := by
  have hpart : sizeOf part.2 < sizeOf n := by
    obtain ⟨id,description,kind,dependsOn,resources,retry,timeout,onFailure⟩ := n
    rcases List.mem_append.mp hp with hp | hp
    · cases kind with
      | action | branch => cases hp
      | sequence | forEach | loop =>
        rw [List.mem_singleton.mp hp]
        simp
        omega
      | guarded body recovery always =>
        rcases List.mem_cons.mp hp with rfl | hp
        · simp
          omega
        rcases List.mem_append.mp hp with hp | hp
        · obtain ⟨c,rfl,rfl⟩ := Option.map_eq_some_iff.mp (Option.mem_toList.mp hp)
          simp
          omega
        · obtain ⟨c,rfl,rfl⟩ := Option.map_eq_some_iff.mp (Option.mem_toList.mp hp)
          simp
          omega
    · obtain ⟨c,hc,rfl⟩ := Option.map_eq_some_iff.mp (Option.mem_toList.mp hp)
      simp at hc
      subst hc
      simp
      omega
  have hmember : sizeOf n < sizeOf b := by
    have hlist := List.sizeOf_lt_of_mem hn
    cases b <;> simp [members] at hlist ⊢ <;> omega
  omega

/-- What holds of a block if it holds of all blocks in its nodes holds of every block. -/
theorem nested_induction {P : Block → Prop}
    (step : ∀ b, (∀ n ∈ b.members, ∀ part ∈ n.2.parts, P part.2) → P b) (b : Block) : P b :=
  step b fun _ hn part hp =>
    have := sizeOf_lt hn hp
    nested_induction step part.2
termination_by sizeOf b

/-- What a block contains is the block itself or lies in one of its nodes. -/
theorem Contains.eq_or_inside {b c : Block} (h : b.Contains c) :
    c = b ∨ ∃ n ∈ b.members, ∃ part ∈ n.2.parts, part.2.Contains c := by
  induction h with
  | self => exact .inl rfl
  | inside _ hn hp ih =>
    rcases ih with rfl | ⟨m,hm,outer,ho,hc⟩
    · exact .inr ⟨_,hn,_,hp,.self⟩
    · exact .inr ⟨m,hm,outer,ho,hc.inside hn hp⟩

theorem hasDistinctSteps_of_parts {b : Block} (hown : ∀ steps, b = .steps steps →
    (steps.map (·.1)).Nodup) (hparts : ∀ n ∈ b.members, ∀ part ∈ n.2.parts,
      part.2.HasDistinctSteps) : b.HasDistinctSteps := by
  intro steps hs
  obtain he | ⟨n,hn,part,hp,hc⟩ := hs.eq_or_inside
  · exact hown steps he.symm
  · exact hparts n hn part hp steps hc

theorem HasDistinctSteps.inside {b c : Block} (h : b.HasDistinctSteps) (hc : b.Contains c) :
    c.HasDistinctSteps := by
  intro steps hs
  apply h
  generalize hl : Block.steps steps = last at hs ⊢
  clear hl
  induction hs with
  | self => exact hc
  | inside _ hn hp ih => exact ih.inside hn hp

namespace Places

variable {path p : String} {b : Block} {around : List (NodeDefinition Block)}
  {d : NodeDefinition Block}

theorem contains (h : Places path b p around d) {part : String × Block} (hp : part ∈ d.parts) :
    b.Contains part.2 := by
  induction h generalizing part with
  | own hn => exact .inside .self hn hp
  | inside _ ho hn ih => exact .inside (ih ho) hn hp

/-- A place in a block that lies in a node is a place in the block around that node. -/
theorem within {n : NamedNode} (hn : n ∈ b.members) {part : String × Block} (hp : part ∈ n.2.parts)
    (h : Places (Site.inside (Site.qualify path n.1) part.1) part.2 p around d) :
    Places path b p (around ++ [n.2]) d := by
  induction h with
  | own hm => exact .inside (.own hn) hp hm
  | inside _ ho hm ih => exact .inside ih ho hm

end Places

end Block

namespace Site

/-- Where no steps are left out, every member is seen with all that lies in it. -/
theorem ofBlock_sees_all (path : String) (held : NameSet) {b : Block} (hd : b.HasDistinctSteps)
    {n : NamedNode} (hn : n ∈ b.members) : ∃ previous, ofNode (qualify path n.1) held previous n.2 ⊆
      ofBlock path held b := by
  have hl : ∃ p ∈ b.lineup, p.2 = n := by
    cases b with
    | steps steps =>
      have hkept : (Block.steps steps).lineup.map (·.2) = steps :=
        Block.lineup_members (hd steps .self)
      rw [Block.members,← hkept] at hn
      exact List.mem_map.mp hn
    | graph nodes terminal => exact ⟨_,List.mem_map.mpr ⟨n,hn,rfl⟩,rfl⟩
  obtain ⟨p,hp,rfl⟩ := hl
  exact ⟨p.1,Block.sitesOf_subset path held hp⟩

/-- The tags that are held at a place: those held around the block, and those of the nodes around. -/
def HoldsAt (base held : NameSet) (around : List (NodeDefinition Block)) : Prop :=
  ∀ tag, tag ∈ held ↔ tag ∈ base ∨ ∃ outer ∈ around, tag ∈ outer.resources

/-- Whatever node is seen stands at a place, and is seen with the tags that are held there. -/
theorem exists_place (b : Block) {path p : String} {base held : NameSet}
    {d : NodeDefinition Block} (h : .node p held d ∈ ofBlock path base b) :
    ∃ around e, b.Places path p around e ∧ d.resources = e.resources ∧
      HoldsAt base held around := by
  induction b using Block.nested_induction generalizing path base with
  | step b ih =>
    obtain h | ⟨⟨previous,n⟩,hl,h⟩ | h := Block.mem_ofBlock.mp h
    · cases h
    · have hn : n ∈ b.members := Block.mem_members hl
      rcases mem_ofNode.mp h with h | ⟨part,hp,h⟩
      · cases h
        exact ⟨[],n.2,.own hn,rfl,by simp [HoldsAt]⟩
      obtain ⟨around,e,hplace,hres,hheld⟩ := ih n hn part hp h
      refine ⟨around ++ [n.2],e,hplace.within hn hp,hres,fun tag => ?_⟩
      rw [hheld tag,NameSet.mem_union]
      simp only [List.mem_append,List.mem_singleton,or_and_right,exists_or,exists_eq_left]
      constructor
      · rintro ((h | h) | h) <;> simp [h]
      · rintro (h | h | h) <;> simp [h]
    · cases h

/-- Where no steps are left out, the node at every place is seen, with all that lies in it. -/
theorem exists_sites {b : Block} (hd : b.HasDistinctSteps) {path p : String} (base : NameSet)
    {around : List (NodeDefinition Block)} {d : NodeDefinition Block}
    (h : b.Places path p around d) :
    ∃ held previous, HoldsAt base held around ∧ ofNode p held previous d ⊆ ofBlock path base b := by
  induction h with
  | own hn =>
    obtain ⟨previous,hsub⟩ := ofBlock_sees_all path base hd hn
    exact ⟨base,previous,by simp [HoldsAt],hsub⟩
  | @inside p around outer part n hplace hp hn ih =>
    obtain ⟨held,previous,hheld,hsub⟩ := ih
    have hinner : part.2.HasDistinctSteps := hd.inside (hplace.contains hp)
    obtain ⟨previous',hsub'⟩ := ofBlock_sees_all (inside p part.1) (held.union outer.resources)
      hinner hn
    refine ⟨held.union outer.resources,previous',fun tag => ?_,fun s hs => ?_⟩
    · rw [NameSet.mem_union,hheld tag]
      simp only [List.mem_cons,or_and_right,exists_or,exists_eq_left]
      constructor
      · rintro ((h | h) | h) <;> simp [h]
      · rintro (h | h | h) <;> simp [h]
    · exact hsub (mem_ofNode.mpr (.inr ⟨part,hp,hsub' hs⟩))

end Site

end TaskGraph
