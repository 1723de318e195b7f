import TaskGraph.Proofs.Definition.Lineup
import TaskGraph.Proofs.Graph.Sound

/-!
Every graph inside the graph of a definition is the graph of a block that has been checked, so that
all of them are sound when the definition is built.
-/

namespace TaskGraph

/-- The graphs that lie in a kind, by the names that lead to them. -/
def NodeKind.parts : NodeKind Graph → List (String × Graph)
  | .action .. | .branch .. => []
  | .sequence g => [("steps",g)]
  | .forEach _ _ g => [("template",g)]
  | .loop _ _ g => [("body",g)]
  | .guarded body recovery always =>
    ("body",body)::((recovery.map ("recovery",·)).toList ++ (always.map ("always",·)).toList)

/-- The graphs that lie in a node. -/
def GraphNode.parts (n : GraphNode Graph) : List (String × Graph) :=
  n.kind.parts ++ (n.handler.map ("on_failure",·)).toList

theorem GraphNode.parts_graphs (n : GraphNode Graph) : n.parts.map (·.2) = n.nested := by
  have hopt (label : String) (g : Option Graph) :
      (g.map (label,·)).toList.map (·.2) = g.toList := by cases g <;> rfl
  rw [nested,parts,List.map_append,hopt]
  cases n.kind with
  | guarded body recovery always =>
    simp only [NodeKind.nested,NodeKind.parts,List.map_cons,List.map_append,hopt,List.cons_append]
  | _ => rfl

theorem GraphNode.mem_nested {n : GraphNode Graph} {inner : Graph} :
    inner ∈ n.nested ↔ ∃ label, (label,inner) ∈ n.parts := by
  rw [← parts_graphs]
  simp

/-- Whether the nodes of a block have different ids, where it is a map of nodes. -/
def Site.isKeyed : Site → Bool
  | .opening _ (.graph nodes _) => decide (nodes.map (·.1)).Nodup
  | _ => true

/-- Whether every map of nodes in a definition has different ids. -/
def Definition.isKeyed (d : Definition) : Bool := d.sites.all Site.isKeyed

namespace Block

theorem toGraph_nodes (cap : Nat) (b : Block) :
    (b.toGraph cap).nodes = Graph.gated (b.drafts cap) := by
  cases b <;> simp only [toGraph,Graph.ofNodes,drafts] <;> rfl

/-- The nodes of a block by their definitions; dependencies are not among what is said here. -/
structure Defines (cap : Nat) (id : String) (d : NodeDefinition Block) (n : GraphNode Graph) :
    Prop where
  id : n.id = id
  kind : n.kind = nodeKind cap d.kind
  handler : n.handler = optionalGraph cap d.onFailure
  tags : n.tags = .ofList d.resources
  retry : n.retry = (d.retry.map RetrySettings.policy).getD .once
  timeout : n.timeout = d.timeout

theorem defines_graphNode (cap : Nat) (id : String) (d : NodeDefinition Block) :
    Defines cap id d (graphNode cap id d) := by
  cases d
  exact ⟨rfl,rfl,rfl,rfl,rfl,rfl⟩

/-- What a node waits for does not matter to what defines it. -/
theorem Defines.waiting {cap : Nat} {id : String} {d : NodeDefinition Block} {n : GraphNode Graph}
    (h : Defines cap id d n) (dependency : Option Dependency) :
    Defines cap id d { n with dependency } :=
  ⟨h.id,h.kind,h.handler,h.tags,h.retry,h.timeout⟩

theorem Defines.behind {cap : Nat} {id : String} {d : NodeDefinition Block} {n : GraphNode Graph}
    (h : Defines cap id d n) (branches : List String) :
    Defines cap id d (Graph.behind branches n) := by
  unfold Graph.behind
  split
  · exact h
  · exact h.waiting _

theorem defines_draft (cap : Nat) (p : Option String × NamedNode) :
    Defines cap p.2.1 p.2.2 (draft cap p) :=
  (defines_graphNode cap p.2.1 p.2.2).waiting _

theorem optionalGraph_parts (cap : Nat) (label : String) (b : Option Block) :
    ((optionalGraph cap b).map (label,·)).toList =
      (b.map (label,·)).toList.map fun part => (part.1,part.2.toGraph cap) := by
  cases b <;> rfl

/-- The blocks in the definition of a node become the graphs in it. -/
theorem Defines.parts {cap : Nat} {id : String} {d : NodeDefinition Block} {n : GraphNode Graph}
    (h : Defines cap id d n) :
    n.parts = d.parts.map fun part => (part.1,part.2.toGraph cap) := by
  rw [GraphNode.parts,h.kind,h.handler,NodeDefinition.parts,List.map_append,optionalGraph_parts]
  cases d.kind with
  | guarded body recovery always =>
    simp only [nodeKind,NodeKind.parts,KindDefinition.parts,List.map_cons,List.map_append,
      optionalGraph_parts]
  | _ => rfl

/-- Every node of the graph of a block is seen with what lies in it. -/
theorem ofBlock_sees {cap : Nat} (path : String) (held : NameSet) {b : Block} {n : GraphNode Graph}
    (h : n ∈ (b.toGraph cap).nodes) :
    ∃ id d previous, Defines cap id d n ∧
      Site.ofNode (Site.qualify path id) held previous d ⊆ Site.ofBlock path held b := by
  rw [toGraph_nodes,drafts_eq] at h
  obtain ⟨m,hm,rfl⟩ := (Graph.mem_gated _).mp h
  obtain ⟨p,hp,rfl⟩ := List.mem_map.mp hm
  exact ⟨_,_,p.1,(defines_draft cap p).behind _,sitesOf_subset path held hp⟩

theorem ofNode_sees {cap : Nat} {id : String} (path : String) (held : NameSet)
    (previous : Option String) {d : NodeDefinition Block} {n : GraphNode Graph}
    (hd : Defines cap id d n) {inner : Graph} (h : inner ∈ n.nested) :
    ∃ b path', b.toGraph cap = inner ∧
      Site.ofBlock path' (held.union d.resources) b ⊆ Site.ofNode path held previous d := by
  obtain ⟨label,hi⟩ := GraphNode.mem_nested.mp h
  rw [hd.parts] at hi
  obtain ⟨part,hp,he⟩ := List.mem_map.mp hi
  cases he
  exact ⟨part.2,_,rfl,fun s hs => Site.mem_ofNode.mpr (.inr ⟨part,hp,hs⟩)⟩

/-- Whatever graph the graph of a block contains comes from a block that is seen. -/
theorem ofBlock_sees_contained {cap : Nat} (path : String) (held : NameSet) {b : Block} {h : Graph}
    (hc : (b.toGraph cap).Contains h) :
    ∃ b' path' held', b'.toGraph cap = h ∧
      Site.ofBlock path' held' b' ⊆ Site.ofBlock path held b := by
  generalize hg : b.toGraph cap = g at hc
  induction hc generalizing b path held with
  | self => exact ⟨b,path,held,hg,List.Subset.refl _⟩
  | inside hn hi _ ih =>
    subst hg
    obtain ⟨id,d,previous,hd,hsub⟩ := ofBlock_sees path held hn
    obtain ⟨b',p',hb,hsub'⟩ := ofNode_sees (Site.qualify path id) held previous hd hi
    obtain ⟨b'',p'',held'',hb',hsub''⟩ := ih p' _ hb
    exact ⟨b'',p'',held'',hb',fun s hs => hsub (hsub' (hsub'' hs))⟩

theorem drafts_nodup (cap : Nat) {path : String} {b : Block}
    (h : (Site.opening path b).isKeyed = true) : ((b.drafts cap).map GraphNode.id).Nodup := by
  rw [drafts_ids]
  cases b with
  | steps steps => exact lineupFrom_nodup [] none steps
  | graph nodes terminal =>
    have hd : (nodes.map (·.1)).Nodup := by simpa [Site.isKeyed] using h
    rw [lineup,List.map_map]
    exact hd

theorem toGraph_sound {cap : Nat} (path : String) (held : NameSet) {b : Block}
    (hk : ∀ s ∈ Site.ofBlock path held b, s.isKeyed = true)
    (hf : ∀ s ∈ Site.ofBlock path held b, Graph.siteFaults cap s = []) :
    (b.toGraph cap).Sound := by
  have hopen : Site.opening path b ∈ Site.ofBlock path held b := mem_ofBlock.mpr (.inl rfl)
  have hclose : Site.closing path b ∈ Site.ofBlock path held b :=
    mem_ofBlock.mpr (.inr (.inr rfl))
  have hd := drafts_nodup cap (hk _ hopen)
  have hs := Graph.sound_of_levelFaults (b.toGraph cap).terminal hd (hf _ hclose)
  have he : Graph.mk (Graph.gated (b.drafts cap)) (b.toGraph cap).terminal = b.toGraph cap := by
    rw [← toGraph_nodes]
    cases b.toGraph cap
    rfl
  rwa [he] at hs

end Block

namespace Definition

variable {cap : Nat} {d : Definition} {g : Graph}

theorem build_eq_ok : d.build cap = .ok g ↔ d.faults cap = [] ∧ d.block.toGraph cap = g := by
  unfold build
  split
  · next h => simp [h]
  · next h =>
    constructor
    · intro he
      cases he
    · exact fun he => absurd he.1 h

/-- A definition with a fault is not built, and all its faults are reported. -/
theorem reports_iff {f : Graph.Fault} :
    (∃ faults, d.build cap = .error faults ∧ f ∈ faults) ↔ f ∈ d.faults cap := by
  unfold build
  split
  · next h => simp [h]
  · simp

theorem siteFaults_of_build (hb : d.build cap = .ok g) :
    ∀ s ∈ d.sites, Graph.siteFaults cap s = [] := by
  have hf := (build_eq_ok.mp hb).1
  rw [faults,List.append_eq_nil_iff,List.flatMap_eq_nil_iff] at hf
  exact hf.1

/-- Every graph of a definition that is built, at whatever depth, is the graph of a block without
faults. -/
theorem exists_block (hb : d.build cap = .ok g) {h : Graph} (hc : g.Contains h) :
    ∃ b path held, b.toGraph cap = h ∧ Site.ofBlock path held b ⊆ d.sites ∧
      ∀ s ∈ Site.ofBlock path held b, Graph.siteFaults cap s = [] := by
  obtain ⟨-,rfl⟩ := build_eq_ok.mp hb
  obtain ⟨b,path,held,rfl,hsub⟩ := Block.ofBlock_sees_contained "" [] hc
  exact ⟨b,path,held,rfl,hsub,fun s hs => siteFaults_of_build hb s (hsub hs)⟩

/-- Every graph of a definition that is built, at whatever depth, is sound. -/
theorem sound_of_build (hb : d.build cap = .ok g) (hk : d.isKeyed = true) {h : Graph}
    (hc : g.Contains h) : h.Sound := by
  obtain ⟨b,path,held,rfl,hsub,hfree⟩ := exists_block hb hc
  exact Block.toGraph_sound path held (fun s hs => List.all_eq_true.mp hk s (hsub hs)) hfree

/-- A branch chooses between two ways. The way not taken, with what follows it, is given up; the ways
join again. -/
def detour : Definition where
  name := "detour"
  nodes := [("pick",{ kind := .branch [⟨.bool true,.one "short"⟩] (some (.one "long")) }),
    ("short",{ kind := .action "echo" .null }),
    ("long",{ kind := .action "echo" .null }),
    ("late",{ kind := .action "echo" .null, dependsOn := some (.node "long") }),
    ("last",{ kind := .action "echo" .null, dependsOn := some (.all [.node "late"]) }),
    ("join",{ kind := .action "echo" .null
              dependsOn := some (.any [.node "short",.node "long"]) })]

theorem detour_build : detour.build standardCap = .ok (detour.block.toGraph standardCap) := rfl

theorem detour_isKeyed : detour.isKeyed = true := rfl

end Definition

end TaskGraph
