import TaskGraph.Graph.Build

/-!
The members of a block as building goes through them: a step whose id has occurred before is left out,
and every other step but the first comes with the one before it. The nodes of a graph and the places
where faults are looked for both follow this lineup, and go on in the blocks that lie in a member.
-/

namespace TaskGraph

/-- The blocks that lie in a kind, by the names that lead to them. -/
def KindDefinition.parts : KindDefinition Block → List (String × Block)
  | .action .. | .branch .. => []
  | .sequence b => [("steps",b)]
  | .forEach _ _ b => [("template",b)]
  | .loop _ _ b => [("body",b)]
  | .guarded body recovery always =>
    ("body",body)::((recovery.map ("recovery",·)).toList ++ (always.map ("always",·)).toList)

/-- The blocks that lie in a node. -/
def NodeDefinition.parts (d : NodeDefinition Block) : List (String × Block) :=
  d.kind.parts ++ (d.onFailure.map ("on_failure",·)).toList

namespace Site

variable {path : String} {held : NameSet} {s : Site}

theorem mem_ofOptional {label : String} {b : Option Block} :
    s ∈ ofOptional path label held b ↔
      ∃ part ∈ (b.map (label,·)).toList, s ∈ ofBlock (inside path part.1) held part.2 := by
  cases b <;> simp [ofOptional]

theorem mem_ofKind {k : KindDefinition Block} :
    s ∈ ofKind path held k ↔ ∃ part ∈ k.parts, s ∈ ofBlock (inside path part.1) held part.2 := by
  cases k with
  | guarded body recovery always =>
    simp only [ofKind,KindDefinition.parts,List.mem_append,mem_ofOptional,List.mem_cons,or_and_right,
      exists_or,exists_eq_left,or_assoc]
  | _ => simp [ofKind,KindDefinition.parts]

theorem mem_ofNode {previous : Option String} {d : NodeDefinition Block} :
    s ∈ ofNode path held previous d ↔
      s = .node path held { d with dependsOn := Dependency.following previous d.dependsOn } ∨
      ∃ part ∈ d.parts, s ∈ ofBlock (inside path part.1) (held.union d.resources) part.2 := by
  cases d
  simp only [ofNode,NodeDefinition.parts,List.cons_append,List.mem_cons,List.mem_append,mem_ofKind,
    mem_ofOptional,or_and_right,exists_or]

end Site

namespace Block

/-- The nodes of a block, or its steps. -/
def members : Block → List NamedNode
  | .steps list => list
  | .graph nodes _ => nodes

/-- The steps whose ids have not been seen, each with the id of the one before it. -/
def lineupFrom (seen : List String) (previous : Option String) :
    List NamedNode → List (Option String × NamedNode)
  | [] => []
  | n::rest =>
    if seen.contains n.1 then lineupFrom seen previous rest
    else (previous,n)::lineupFrom (n.1::seen) (some n.1) rest

def lineup : Block → List (Option String × NamedNode)
  | .steps list => lineupFrom [] none list
  | .graph nodes _ => nodes.map (none,·)

/-- The node that a member becomes before branches gate it. -/
def draft (cap : Nat) (p : Option String × NamedNode) : GraphNode Graph :=
  { graphNode cap p.2.1 p.2.2 with dependency := Dependency.following p.1 p.2.2.dependsOn }

/-- The sites of a member. -/
def sitesOf (path : String) (held : NameSet) (p : Option String × NamedNode) : List Site :=
  Site.ofNode (Site.qualify path p.2.1) held p.1 p.2.2

theorem graphNode_id (cap : Nat) (id : String) (d : NodeDefinition Block) :
    (graphNode cap id d).id = id := by
  cases d
  rfl

theorem draft_id (cap : Nat) (p : Option String × NamedNode) : (draft cap p).id = p.2.1 :=
  graphNode_id cap p.2.1 p.2.2

theorem draft_of_none (cap : Nat) (n : NamedNode) : draft cap (none,n) = graphNode cap n.1 n.2 := by
  obtain ⟨id,d⟩ := n
  cases d
  rfl

theorem chain_eq (cap : Nat) (seen : List String) (previous : Option String)
    (list : List NamedNode) :
    Graph.chain previous (Graph.distinct seen (graphNodes cap list)) =
      (lineupFrom seen previous list).map (draft cap) := by
  induction list generalizing seen previous with
  | nil => rfl
  | cons n rest ih =>
    obtain ⟨id,d⟩ := n
    rw [graphNodes,Graph.distinct,graphNode_id,lineupFrom]
    split
    · exact ih seen previous
    · rw [Graph.chain,ih,List.map_cons,graphNode_id]
      cases d
      rfl

theorem drafts_eq (cap : Nat) (b : Block) : b.drafts cap = b.lineup.map (draft cap) := by
  cases b with
  | steps list => exact chain_eq cap [] none list
  | graph nodes terminal =>
    rw [drafts,lineup,List.map_map]
    induction nodes with
    | nil => rfl
    | cons n rest ih =>
      rw [graphNodes,ih,List.map_cons,Function.comp_apply,draft_of_none]

theorem ofSteps_eq (path : String) (held : NameSet) (seen : List String) (previous : Option String)
    (list : List NamedNode) : Site.ofSteps path held seen previous list =
      (lineupFrom seen previous list).flatMap (sitesOf path held) := by
  induction list generalizing seen previous with
  | nil => rfl
  | cons n rest ih =>
    rw [Site.ofSteps,lineupFrom]
    split
    · exact ih seen previous
    · rw [ih,List.flatMap_cons,sitesOf]

theorem ofBlock_eq (path : String) (held : NameSet) (b : Block) : Site.ofBlock path held b =
    .opening path b::b.lineup.flatMap (sitesOf path held) ++ [.closing path b] := by
  cases b with
  | steps list => rw [Site.ofBlock,ofSteps_eq,lineup]
  | graph nodes terminal =>
    rw [Site.ofBlock,lineup]
    congr 2
    induction nodes with
    | nil => rfl
    | cons n rest ih => rw [Site.ofNodes,ih,List.map_cons,List.flatMap_cons,sitesOf]

theorem mem_ofBlock {path : String} {held : NameSet} {b : Block} {s : Site} :
    s ∈ Site.ofBlock path held b ↔ s = .opening path b ∨
      (∃ p ∈ b.lineup, s ∈ sitesOf path held p) ∨ s = .closing path b := by
  rw [ofBlock_eq]
  simp

theorem sitesOf_subset (path : String) (held : NameSet) {b : Block} {p : Option String × NamedNode}
    (h : p ∈ b.lineup) : sitesOf path held p ⊆ Site.ofBlock path held b :=
  fun _ hs => mem_ofBlock.mpr (.inr (.inl ⟨p,h,hs⟩))

/-- The id of the last step that is kept. -/
def latest (seen : List String) (previous : Option String) : List NamedNode → Option String
  | [] => previous
  | n::rest =>
    if seen.contains n.1 then latest seen previous rest else latest (n.1::seen) (some n.1) rest

theorem latest_some (seen : List String) (id : String) (list : List NamedNode) :
    (latest seen (some id) list).isSome = true := by
  induction list generalizing seen id with
  | nil => rfl
  | cons n rest ih =>
    rw [latest]
    split
    · exact ih seen id
    · exact ih (n.1::seen) n.1

theorem latest_cons (n : NamedNode) (rest : List NamedNode) :
    (latest [] none (n::rest)).isSome = true := latest_some [n.1] n.1 rest

theorem latest_concat {seen : List String} (previous : Option String) {front : List NamedNode}
    {n : NamedNode} (hs : n.1 ∉ seen) (hf : n.1 ∉ front.map (·.1)) :
    latest seen previous (front ++ [n]) = some n.1 := by
  induction front generalizing seen previous with
  | nil =>
    rw [List.nil_append,latest,if_neg (by simpa using hs)]
    rfl
  | cons first front ih =>
    rw [List.map_cons,List.mem_cons,not_or] at hf
    rw [List.cons_append,latest]
    split
    · exact ih previous hs hf.2
    · refine ih (some first.1) ?_ hf.2
      rw [List.mem_cons,not_or]
      exact ⟨hf.1,hs⟩

/-- A step is kept if no step before it has its id. -/
theorem mem_lineupFrom {seen : List String} {previous : Option String} {list : List NamedNode}
    {p : Option String × NamedNode} : p ∈ lineupFrom seen previous list ↔
      ∃ front back, list = front ++ p.2::back ∧ p.2.1 ∉ seen ∧ p.2.1 ∉ front.map (·.1) ∧
        p.1 = latest seen previous front := by
  induction list generalizing seen previous with
  | nil => simp [lineupFrom]
  | cons n rest ih =>
    by_cases hs : n.1 ∈ seen
    · have hmem : seen.contains n.1 = true := by simpa using hs
      rw [lineupFrom,if_pos hmem,ih]
      constructor
      · rintro ⟨front,back,rfl,hseen,hfront,hp⟩
        refine ⟨n::front,back,rfl,hseen,?_,?_⟩
        · rw [List.map_cons,List.mem_cons,not_or]
          exact ⟨fun he => hseen (he ▸ hs),hfront⟩
        · rwa [latest,if_pos hmem]
      · rintro ⟨front,back,hlist,hseen,hfront,hp⟩
        cases front with
        | nil =>
          cases hlist
          exact absurd hs hseen
        | cons first front =>
          cases hlist
          rw [latest,if_pos hmem] at hp
          exact ⟨front,back,rfl,hseen,fun h => hfront (List.mem_cons_of_mem _ h),hp⟩
    · have hmem : ¬ seen.contains n.1 = true := by simpa using hs
      rw [lineupFrom,if_neg hmem,List.mem_cons,ih]
      constructor
      · rintro (rfl | ⟨front,back,rfl,hseen,hfront,hp⟩)
        · exact ⟨[],rest,rfl,hs,List.not_mem_nil,rfl⟩
        · rw [List.mem_cons,not_or] at hseen
          refine ⟨n::front,back,rfl,hseen.2,?_,?_⟩
          · rw [List.map_cons,List.mem_cons,not_or]
            exact ⟨hseen.1,hfront⟩
          · rwa [latest,if_neg hmem]
      · rintro ⟨front,back,hlist,hseen,hfront,hp⟩
        cases front with
        | nil =>
          cases hlist
          exact .inl (Prod.ext hp rfl)
        | cons first front =>
          cases hlist
          rw [List.map_cons,List.mem_cons,not_or] at hfront
          rw [latest,if_neg hmem] at hp
          refine .inr ⟨front,back,rfl,?_,hfront.2,hp⟩
          rw [List.mem_cons,not_or]
          exact ⟨hfront.1,hseen⟩

theorem mem_members {b : Block} {p : Option String × NamedNode} (h : p ∈ b.lineup) :
    p.2 ∈ b.members := by
  cases b with
  | steps list =>
    obtain ⟨front,back,rfl,-⟩ := mem_lineupFrom.mp h
    exact List.mem_append_right _ List.mem_cons_self
  | graph nodes terminal =>
    obtain ⟨n,hn,rfl⟩ := List.mem_map.mp h
    exact hn

theorem drafts_ids (cap : Nat) (b : Block) :
    (b.drafts cap).map GraphNode.id = b.lineup.map (·.2.1) := by
  rw [drafts_eq,List.map_map]
  exact List.map_congr_left fun p _ => draft_id cap p

theorem lineupFrom_nodup (seen : List String) (previous : Option String) (list : List NamedNode) :
    ((lineupFrom seen previous list).map (·.2.1)).Nodup := by
  induction list generalizing seen previous with
  | nil => exact List.nodup_nil
  | cons n rest ih =>
    rw [lineupFrom]
    split
    · exact ih seen previous
    · rw [List.map_cons,List.nodup_cons]
      refine ⟨fun hmem => ?_,ih _ _⟩
      obtain ⟨p,hp,he⟩ := List.mem_map.mp hmem
      obtain ⟨-,-,-,hseen,-⟩ := mem_lineupFrom.mp hp
      exact hseen (he ▸ List.mem_cons_self)

/-- Steps of different ids are all kept. -/
theorem lineupFrom_nodes {seen : List String} (previous : Option String) {list : List NamedNode}
    (hd : (list.map (·.1)).Nodup) (hs : ∀ n ∈ list, n.1 ∉ seen) :
    (lineupFrom seen previous list).map (·.2) = list := by
  induction list generalizing seen previous with
  | nil => rfl
  | cons n rest ih =>
    obtain ⟨hn,hrest⟩ := List.nodup_cons.mp hd
    have hfresh : ¬ seen.contains n.1 = true := by simpa using hs n List.mem_cons_self
    rw [lineupFrom,if_neg hfresh,List.map_cons,ih (some n.1) hrest fun m hm => ?_]
    intro hmem
    rcases List.mem_cons.mp hmem with he | hmem
    · exact hn (List.mem_map.mpr ⟨m,hm,he⟩)
    · exact hs m (List.mem_cons_of_mem n hm) hmem

theorem lineup_members {b : Block} (h : (b.members.map (·.1)).Nodup) :
    b.lineup.map (·.2) = b.members := by
  cases b with
  | steps list => exact lineupFrom_nodes none h fun _ _ => List.not_mem_nil
  | graph nodes terminal =>
    rw [lineup,List.map_map]
    exact List.map_id _

end Block

end TaskGraph
