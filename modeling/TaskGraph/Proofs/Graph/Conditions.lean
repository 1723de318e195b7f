import Mathlib.Data.List.Basic
import TaskGraph.Proofs.Graph.Origin

/-!
What the nodes of a built graph wait for, as against what their definitions say: a node has to wait for
what it declares, for the step before it and for every branch that names it, and for nothing else.
-/

namespace TaskGraph

namespace Resolution

/-- Unsatisfied if some are, else undecided if some are. -/
def conjunction (l : List Resolution) : Resolution := l.foldr and .satisfied

theorem conjunction_append (l l' : List Resolution) :
    conjunction (l ++ l') = (conjunction l).and (conjunction l') := by
  induction l with
  | nil =>
    show conjunction l' = satisfied.and (conjunction l')
    cases conjunction l' <;> rfl
  | cons r l ih =>
    have hassoc (a b c : Resolution) : a.and (b.and c) = (a.and b).and c := by
      cases a <;> cases b <;> cases c <;> rfl
    show r.and (conjunction (l ++ l')) = (r.and (conjunction l)).and (conjunction l')
    rw [ih,hassoc]

theorem conjunction_singleton (r : Resolution) : conjunction [r] = r := by cases r <;> rfl

end Resolution

namespace Dependency

variable (status : String → Status)

theorem resolveAll_eq (ds : List Dependency) :
    resolveAll status ds = .conjunction (ds.map (resolve status)) := by
  induction ds with
  | nil => rfl
  | cons d ds ih => rw [resolveAll,ih]; rfl

theorem resolve_conjuncts (d : Dependency) :
    resolve status d = .conjunction (d.conjuncts.map (resolve status)) := by
  cases d with
  | all ds => exact resolveAll_eq status ds
  | _ => exact (Resolution.conjunction_singleton _).symm

theorem resolve_declared (declared : Option Dependency) :
    Resolution.conjunction (((declared.map conjuncts).getD []).map (resolve status)) =
      .conjunction (declared.toList.map (resolve status)) := by
  cases declared with
  | none => rfl
  | some d =>
    have hone := Resolution.conjunction_singleton (resolve status d)
    exact (resolve_conjuncts status d).symm.trans hone.symm

theorem holds_declared (declared : Option Dependency) :
    (∀ c ∈ (declared.map conjuncts).getD [], c.holds status = true) ↔
      ∀ e ∈ declared.toList, e.holds status = true := by
  cases declared with
  | none => simp
  | some d => simpa using (holds_conjuncts status d).symm

end Dependency

namespace GraphNode

theorem resolution_eq (status : String → Status) (n : GraphNode Graph) :
    n.resolution status = .conjunction (n.conditions.map (Dependency.resolve status)) := by
  cases hd : n.dependency with
  | none => simp [resolution,conditions,hd,Resolution.conjunction]
  | some d => simpa [resolution,conditions,hd] using Dependency.resolve_conjuncts status d

end GraphNode

/-- Whether a branch may select a node: in one of its arms, or where none holds. -/
def KindDefinition.Names : KindDefinition Block → String → Prop
  | .branch arms fallback,id => (∃ arm ∈ arms, id ∈ arm.targets.ids) ∨ ∃ t, fallback = some t ∧ id ∈ t.ids
  | _,_ => False

theorem KindDefinition.names_iff {cap : Nat} {k : KindDefinition Block} {id : String} :
    k.Names id ↔ id ∈ (nodeKind cap k).targets := by
  cases k with
  | branch arms fallback =>
    cases fallback <;> simp [Names,nodeKind,NodeKind.targets,List.mem_eraseDups]
  | _ => simp [Names,nodeKind,NodeKind.targets]

namespace Block

/-- What a member of a block has to wait for. -/
inductive Awaits (c : Block) (m : NamedNode) : Dependency → Prop
  | declared {e : Dependency} : m.2.dependsOn = some e → c.Awaits m e
  | step {front back : List NamedNode} {p : NamedNode} : c = .steps (front ++ p::m::back) →
    c.Awaits m (.node p.1)
  | branch {k : NamedNode} : k ∈ c.members → k.2.kind.Names m.1 → c.Awaits m (.node k.1)

/-- When the node of a member may start, and what is known of that, comes from the member and its
block. -/
structure Gates (c : Block) (m : NamedNode) (n : GraphNode Graph) : Prop where
  ready : ∀ status, n.isReady status = true ↔
    (∀ e, m.2.dependsOn = some e → e.holds status = true) ∧
    (∀ front p back, c = .steps (front ++ p::m::back) → status p.1 = .success) ∧
    ∀ k ∈ c.members, k.2.kind.Names m.1 → status k.1 = .success
  resolution : ∃ parts : List Dependency, (∀ e, e ∈ parts ↔ c.Awaits m e) ∧
    ∀ status, n.resolution status = .conjunction (parts.map (Dependency.resolve status))

theorem conditions_draft (cap : Nat) (p : Option String × NamedNode) : (draft cap p).conditions =
    p.1.toList.map .node ++ (p.2.2.dependsOn.map Dependency.conjuncts).getD [] := by
  obtain ⟨previous,id,d⟩ := p
  cases previous with
  | none => simp [draft,GraphNode.conditions,Dependency.following]
  | some previous =>
    cases hd : d.dependsOn <;>
      simp [draft,GraphNode.conditions,Dependency.following,hd,Dependency.conjuncts_and] <;> rfl

namespace Faultless

variable {cap : Nat} {c : Block} {m : NamedNode}

/-- The step that a step is kept with is the one right before it. -/
theorem previous_iff (hc : c.Faultless cap) {previous : Option String} (hp : (previous,m) ∈ c.lineup)
    {id : String} : previous = some id ↔
      ∃ front p back, c = .steps (front ++ p::m::back) ∧ p.1 = id := by
  have hd := hc.members_nodup
  cases c with
  | graph nodes terminal =>
    obtain ⟨_,_,he⟩ := List.mem_map.mp hp
    cases he
    simp
  | steps list =>
    obtain ⟨front,back,rfl,-,-,rfl⟩ := mem_lineupFrom.mp hp
    have hlatest {front back : List NamedNode} {p : NamedNode}
        (hd : ((front ++ p::back).map (·.1)).Nodup) :
        latest [] none (front ++ [p]) = some p.1 := by
      rw [List.map_append,List.nodup_append] at hd
      exact latest_concat none List.not_mem_nil fun hmem =>
        hd.2.2 _ hmem _ List.mem_cons_self rfl
    constructor
    · intro hl
      have hne : front ≠ [] := by
        rintro rfl
        cases hl
      obtain ⟨front,p,rfl⟩ := (List.eq_nil_or_concat' front).resolve_left hne
      have hsplit : front ++ [p] ++ m::back = front ++ p::m::back := by simp
      rw [members,hsplit] at hd
      rw [hlatest hd] at hl
      exact ⟨front,p,back,congrArg Block.steps hsplit,Option.some.inj hl⟩
    · rintro ⟨front',p,back',he,rfl⟩
      have hlist : front ++ m::back = (front' ++ [p]) ++ m::back' := by
        rw [Block.steps.inj he]
        simp
      have hnodes : (front ++ m::back).Nodup := List.Nodup.of_map _ hd
      rw [List.nodup_append,List.nodup_cons] at hnodes
      obtain ⟨-,⟨hback,-⟩,hapart⟩ := hnodes
      have hfront : m ∉ front := fun hmem => hapart m hmem m List.mem_cons_self rfl
      -- A step stands in the list once, so the list falls apart at it in one way.
      obtain ⟨rfl,-,-⟩ := (List.append_cons_inj_of_notMem hfront hback).mp hlist
      have hsplit : front' ++ [p] ++ m::back = front' ++ p::m::back := by simp
      rw [members,hsplit] at hd
      exact hlatest hd

/-- The branches that gate a member are those that name it. -/
theorem mem_gates (hc : c.Faultless cap) (hs : (c.toGraph cap).Sound) {b : String} :
    b ∈ Graph.gates (c.drafts cap) m.1 ↔ ∃ k ∈ c.members, k.2.kind.Names m.1 ∧ k.1 = b := by
  have hkind (p : Option String × NamedNode) : (draft cap p).kind = nodeKind cap p.2.2.kind :=
    (defines_draft cap p).kind
  rw [Graph.mem_gates,drafts_eq,← hc.lineup_nodes]
  constructor
  · rintro ⟨n,hn,rfl,-,ht⟩
    obtain ⟨p,hp,rfl⟩ := List.mem_map.mp hn
    rw [hkind] at ht
    exact ⟨p.2,List.mem_map.mpr ⟨p,hp,rfl⟩,KindDefinition.names_iff.mpr ht,(draft_id cap p).symm⟩
  · rintro ⟨k,hk,ht,rfl⟩
    obtain ⟨p,hp,rfl⟩ := List.mem_map.mp hk
    refine ⟨draft cap p,List.mem_map.mpr ⟨p,hp,rfl⟩,draft_id cap p,?_,?_⟩
    · -- A branch that named itself would not have been built.
      have hown := hs.targets _ (mem_nodes.mpr ⟨p,hp,rfl⟩) m.1
      rw [Graph.behind_kind,hkind,Graph.behind_id,draft_id] at hown
      exact (hown (KindDefinition.names_iff.mp ht)).1.symm
    · rw [hkind]
      exact KindDefinition.names_iff.mp ht

/-- The parts that make up what the node of a member waits for, before conjunctions are flattened. -/
theorem mem_parts (hc : c.Faultless cap) (hs : (c.toGraph cap).Sound) {previous : Option String}
    (hp : (previous,m) ∈ c.lineup) {e : Dependency} :
    e ∈ previous.toList.map .node ++ m.2.dependsOn.toList ++
      (Graph.gates (c.drafts cap) m.1).map .node ↔ c.Awaits m e := by
  simp only [List.mem_append,List.mem_map,Option.mem_toList]
  constructor
  · rintro ((⟨id,hid,rfl⟩ | hd) | ⟨b,hb,rfl⟩)
    · obtain ⟨front,p,back,hlist,rfl⟩ := (hc.previous_iff hp).mp hid
      exact .step hlist
    · exact .declared hd
    · obtain ⟨k,hk,ht,rfl⟩ := (hc.mem_gates hs).mp hb
      exact .branch hk ht
  · intro h
    cases h with
    | declared hd => exact .inl (.inr hd)
    | step hlist => exact .inl (.inl ⟨_,(hc.previous_iff hp).mpr ⟨_,_,_,hlist,rfl⟩,rfl⟩)
    | branch hk ht => exact .inr ⟨_,(hc.mem_gates hs).mpr ⟨_,hk,ht,rfl⟩,rfl⟩

theorem gates (hc : c.Faultless cap) (hs : (c.toGraph cap).Sound) (hm : m ∈ c.members)
    {n : GraphNode Graph} (hn : n ∈ (c.toGraph cap).nodes) (hid : n.id = m.1) : c.Gates m n := by
  obtain ⟨previous,hp,rfl⟩ := hc.exists_lineup hm hn hid
  have hmem (e : Dependency) := hc.mem_parts hs hp (e := e)
  constructor
  · intro status
    have hall : (Graph.behind (Graph.gates (c.drafts cap) m.1) (draft cap (previous,m))).isReady
        status = true ↔ ∀ e, c.Awaits m e → e.holds status = true := by
      rw [GraphNode.isReady_iff,Graph.conditions_behind,conditions_draft]
      simp only [← hmem,List.mem_append,or_imp,forall_and,Dependency.holds_declared]
    rw [hall]
    constructor
    · intro h
      exact ⟨fun e he => h e (.declared he),
        fun front p back hlist => Dependency.holds_node_iff.mp (h _ (.step hlist)),
        fun k hk ht => Dependency.holds_node_iff.mp (h _ (.branch hk ht))⟩
    · rintro ⟨hdeclared,hstep,hbranch⟩ e he
      cases he with
      | declared hd => exact hdeclared e hd
      | step hlist => exact Dependency.holds_node_iff.mpr (hstep _ _ _ hlist)
      | branch hk ht => exact Dependency.holds_node_iff.mpr (hbranch _ hk ht)
  · refine ⟨_,hmem,fun status => ?_⟩
    rw [GraphNode.resolution_eq,Graph.conditions_behind,conditions_draft]
    simp only [List.map_append,Resolution.conjunction_append,Dependency.resolve_declared]

end Faultless

end Block

namespace Definition

/-- In every graph of a definition that is built, at whatever depth, the nodes are gated as the members
of its block call for. -/
theorem gates_of_build {cap : Nat} {d : Definition} {g : Graph}
    (hb : d.build cap = .ok g) (hk : d.isKeyed = true) :
    (∀ h, g.Contains h → ∃ c, d.block.Matches g c h) ∧
    ∀ c h, d.block.Matches g c h → h.ids = c.members.map (·.1) ∧
      ∀ m ∈ c.members, ∀ n ∈ h.nodes, n.id = m.1 → c.Gates m n := by
  have hsound {h : Graph} (hc : g.Contains h) : h.Sound := sound_of_build hb hk hc
  have hfree := faultless_of_build hb hk
  obtain ⟨-,rfl⟩ := build_eq_ok.mp hb
  refine ⟨fun h hc => hfree.exists_matches hc,fun c h hm => ?_⟩
  have hs := hsound hm.contains
  obtain ⟨hc,rfl⟩ := hfree.eq_of_matches hm
  exact ⟨hc.ids_eq,fun m hm n hn hid => hc.gates hs hm hn hid⟩

/-- The walk is a step after the look out of the window, which may select it, and has a wish of its
own. -/
def morning : Block := .steps [
  ("wake",{ kind := .action "echo" .null }),
  ("weather",{ kind := .branch [⟨.bool true,.one "walk"⟩] none }),
  ("walk",{ kind := .action "echo" .null
            dependsOn := some (.any [.node "wake",.negation (.node "weather")]) })]

def outing : Definition where
  name := "outing"
  nodes := [("morning",{ kind := .sequence morning })]

theorem gates_of_build_outing :
    outing.build standardCap = .ok (outing.block.toGraph standardCap) ∧ outing.isKeyed = true ∧
    outing.block.Matches (outing.block.toGraph standardCap) morning (morning.toGraph standardCap) ∧
    morning.Gates morning.members[2] (morning.toGraph standardCap).nodes[2] := by
  have hb : outing.build standardCap = .ok (outing.block.toGraph standardCap) := rfl
  have hm : outing.block.Matches (outing.block.toGraph standardCap) morning
      (morning.toGraph standardCap) :=
    .inside .self (List.mem_singleton_self _) (List.mem_singleton_self _) rfl
      (List.mem_singleton_self _) (List.mem_singleton_self _)
  have hgates := ((gates_of_build hb rfl).2 _ _ hm).2
  exact ⟨hb,rfl,hm,hgates _ (List.getElem_mem _) _ (List.getElem_mem _) rfl⟩

end Definition

end TaskGraph
