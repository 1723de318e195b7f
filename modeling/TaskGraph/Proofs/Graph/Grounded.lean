import TaskGraph.Proofs.Graph.Built

/-!
What the graphs of a definition that is built can go by: their terminal nodes are nodes of theirs, and
no dependency has a group without terms, so that one without negations fails because of some node.
-/

namespace TaskGraph

namespace Dependency

theorem someEmptyGroup_eq (ds : List Dependency) : someEmptyGroup ds = ds.any hasEmptyGroup := by
  induction ds with
  | nil => rfl
  | cons d ds ih => simp only [someEmptyGroup,ih,List.any_cons]

/-- Without negations and empty groups, a dependency that cannot hold has a node that did not succeed. -/
theorem exists_unsatisfied {status : String → Status} (d : Dependency) (hn : d.hasNegation = false)
    (he : d.hasEmptyGroup = false) (hu : resolve status d = .unsatisfied) :
    ∃ id ∈ d.leaves, Resolution.ofStatus (status id) = .unsatisfied := by
  have hmem {ds : List Dependency} {d : Dependency} (hd : d ∈ ds) {id : String}
      (hid : id ∈ d.leaves) : id ∈ leavesOf ds := mem_leavesOf.mpr ⟨d,hd,hid⟩
  induction d with
  | node id => exact ⟨id,List.mem_singleton_self id,hu⟩
  | all ds ih =>
    simp only [hasNegation,someNegation_eq,List.any_eq_false] at hn
    simp only [hasEmptyGroup,someEmptyGroup_eq,Bool.or_eq_false_iff,List.any_eq_false] at he
    obtain ⟨d,hd,hr⟩ := (resolveAll_eq_unsatisfied status ds).mp hu
    obtain ⟨id,hid,hs⟩ := ih d hd (by simpa using hn d hd) (by simpa using he.2 d hd) hr
    exact ⟨id,hmem hd hid,hs⟩
  | any ds ih =>
    simp only [hasNegation,someNegation_eq,List.any_eq_false] at hn
    simp only [hasEmptyGroup,someEmptyGroup_eq,Bool.or_eq_false_iff,List.any_eq_false] at he
    have hall := (resolveAny_eq_unsatisfied status ds).mp hu
    cases ds with
    | nil => simp at he
    | cons d ds =>
      have hd : d ∈ d::ds := List.mem_cons_self
      obtain ⟨id,hid,hs⟩ := ih d hd (by simpa using hn d hd) (by simpa using he.2 d hd) (hall d hd)
      exact ⟨id,hmem hd hid,hs⟩
  | negation d _ => cases hn

theorem conjuncts_filled {d : Dependency} (h : d.hasEmptyGroup = false) :
    d.conjuncts ≠ [] ∧ ∀ c ∈ d.conjuncts, c.hasEmptyGroup = false := by
  cases d with
  | all ds =>
    simp only [hasEmptyGroup,someEmptyGroup_eq,Bool.or_eq_false_iff,List.any_eq_false] at h
    have hne : ds ≠ [] := by simpa using h.1
    exact ⟨hne,fun c hc => by simpa using h.2 c hc⟩
  | _ => exact ⟨List.cons_ne_nil _ _,fun c hc => List.mem_singleton.mp hc ▸ h⟩

theorem hasEmptyGroup_all {ds : List Dependency} (hne : ds ≠ [])
    (h : ∀ d ∈ ds, d.hasEmptyGroup = false) : (Dependency.all ds).hasEmptyGroup = false := by
  simp only [hasEmptyGroup,someEmptyGroup_eq,Bool.or_eq_false_iff,List.any_eq_false]
  exact ⟨by simpa using hne,fun d hd => by simp [h d hd]⟩

theorem hasEmptyGroup_and {a b : Dependency} (ha : a.hasEmptyGroup = false)
    (hb : b.hasEmptyGroup = false) : (a.and b).hasEmptyGroup = false := by
  obtain ⟨hne,hca⟩ := conjuncts_filled ha
  obtain ⟨-,hcb⟩ := conjuncts_filled hb
  refine hasEmptyGroup_all (by simp [hne]) fun c hc => ?_
  exact (List.mem_append.mp hc).elim (hca c) (hcb c)

theorem hasEmptyGroup_ofAll {ids : List String} (hne : ids ≠ []) :
    (Dependency.ofAll ids).hasEmptyGroup = false := by
  refine hasEmptyGroup_all (by simpa using hne) fun d hd => ?_
  obtain ⟨id,-,rfl⟩ := List.mem_map.mp hd
  rfl

end Dependency

/-- Whether no group of a node's dependency is empty. -/
def GraphNode.IsFilled (n : GraphNode Graph) : Prop :=
  ∀ d, n.dependency = some d → d.hasEmptyGroup = false

namespace Graph

structure Grounded (g : Graph) : Prop where
  terminal : ∀ id ∈ g.terminal, id ∈ g.ids
  filled : ∀ n ∈ g.nodes, n.IsFilled

theorem behind_filled {n : GraphNode Graph} (h : n.IsFilled) (branches : List String) :
    (behind branches n).IsFilled := by
  intro e he
  unfold behind at he
  split at he
  · exact h e he
  next hne =>
  have hgate : (Dependency.ofAll branches).hasEmptyGroup = false :=
    Dependency.hasEmptyGroup_ofAll (by simpa using hne)
  cases hd : n.dependency with
  | none =>
    simp only [hd,Option.map_none,Option.getD_none,Option.some.injEq] at he
    rwa [← he]
  | some d =>
    simp only [hd,Option.map_some,Option.getD_some,Option.some.injEq] at he
    rw [← he]
    exact Dependency.hasEmptyGroup_and (h d hd) hgate

theorem nodeFaults_filled {cap : Nat} {path : String} {held : NameSet} {d : NodeDefinition Block}
    (h : nodeFaults cap path held d = []) {e : Dependency} (he : d.dependsOn = some e) :
    e.hasEmptyGroup = false := by
  simp only [nodeFaults,he,Option.map_some,Option.getD_some,List.append_eq_nil_iff] at h
  obtain ⟨⟨-,hempty⟩,-⟩ := h
  cases hg : e.hasEmptyGroup with
  | false => rfl
  | true => simp [hg] at hempty

theorem terminal_of_levelFaults {path : String} {nodes : List (GraphNode Graph)}
    {terminal : List String} (h : levelFaults path nodes terminal = []) :
    ∀ id ∈ terminal, id ∈ nodes.map GraphNode.id := by
  simp only [levelFaults,List.append_eq_nil_iff,List.map_eq_nil_iff,List.filter_eq_nil_iff] at h
  intro id hid
  simpa using h.2 id hid

end Graph

namespace Block

/-- Whether a node waits for what is declared at a site. -/
def Declares (s : Site) (n : GraphNode Graph) : Prop :=
  ∃ path held d, s = .node path held d ∧ n.dependency = d.dependsOn

/-- Every node waits for what is declared where it is seen, branches apart. -/
theorem ofBlock_declares {cap : Nat} (path : String) (held : NameSet) {b : Block}
    {n : GraphNode Graph} (h : n ∈ b.drafts cap) :
    ∃ s ∈ Site.ofBlock path held b, Declares s n := by
  rw [drafts_eq] at h
  obtain ⟨p,hp,rfl⟩ := List.mem_map.mp h
  have hown := sitesOf_subset path held hp (Site.mem_ofNode.mpr (.inl rfl))
  exact ⟨_,hown,_,_,_,rfl,rfl⟩

theorem toGraph_ids (cap : Nat) (b : Block) :
    (b.toGraph cap).ids = (b.drafts cap).map GraphNode.id := by
  rw [Graph.ids,toGraph_nodes,Graph.gated_ids]

/-- Terminal nodes are declared, or are found among the nodes. -/
theorem terminal_cases (cap : Nat) (b : Block) :
    b.declaredTerminal cap = some (b.toGraph cap).terminal ∨
      (b.toGraph cap).terminal ⊆ (b.toGraph cap).ids := by
  cases b with
  | steps steps =>
    rw [toGraph,declaredTerminal,drafts]
    exact .inl rfl
  | graph nodes terminal =>
    rw [toGraph]
    cases terminal with
    | some ids => exact .inl rfl
    | none => exact .inr (List.filter_subset_self _)

theorem toGraph_grounded {cap : Nat} (path : String) (held : NameSet) {b : Block}
    (hf : ∀ s ∈ Site.ofBlock path held b, Graph.siteFaults cap s = []) :
    (b.toGraph cap).Grounded where
  terminal id hid := by
    have hclose : Site.closing path b ∈ Site.ofBlock path held b :=
      mem_ofBlock.mpr (.inr (.inr rfl))
    rcases terminal_cases cap b with hd | hsub
    · have hlevel : Graph.levelFaults path (b.drafts cap) ((b.declaredTerminal cap).getD []) = [] :=
        hf _ hclose
      rw [hd] at hlevel
      rw [toGraph_ids]
      exact Graph.terminal_of_levelFaults hlevel id hid
    · exact hsub hid
  filled n hn := by
    rw [toGraph_nodes] at hn
    obtain ⟨m,hm,rfl⟩ := (Graph.mem_gated _).mp hn
    obtain ⟨s,hs,path',held',d,rfl,hd⟩ := ofBlock_declares path held hm
    refine Graph.behind_filled (fun e he => ?_) _
    exact Graph.nodeFaults_filled (hf _ hs) (hd ▸ he)

end Block

/-- Every graph of a definition that is built, at whatever depth, is grounded. -/
theorem Definition.grounded_of_build {cap : Nat} {d : Definition} {g : Graph}
    (hb : d.build cap = .ok g) {h : Graph} (hc : g.Contains h) : h.Grounded := by
  obtain ⟨b,path,held,rfl,-,hfree⟩ := exists_block hb hc
  exact Block.toGraph_grounded path held hfree

end TaskGraph
