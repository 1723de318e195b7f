import TaskGraph.Proofs.Graph.Built
import TaskGraph.Proofs.Graph.Knots

/-!
Tags in nested graphs. The tags that nodes ask for while nodes around them hold others are the pairs
that building looks at, so that the tags of a definition that is built can be ranked: inside a node that
holds a tag only tags below it are asked for.
-/

namespace TaskGraph

namespace Graph

/-- A graph, with tags that are held around it, encloses another, with the tags held around that. -/
inductive Encloses (held : NameSet) (g : Graph) : NameSet → Graph → Prop
  | self : Encloses held g held g
  | inside {held' : NameSet} {h inner : Graph} {n : GraphNode Graph} : Encloses held g held' h →
    n ∈ h.nodes → inner ∈ n.nested → Encloses held g (held'.union n.tags) inner

end Graph

namespace Block

/-- An enclosed graph is the graph of a block that is seen with the tags held around it. -/
theorem ofBlock_sees_enclosed {cap : Nat} (path : String) {held held' : NameSet} {b : Block}
    {h : Graph} (he : (b.toGraph cap).Encloses held held' h) :
    ∃ b' path' seen, b'.toGraph cap = h ∧ (∀ tag, tag ∈ seen ↔ tag ∈ held') ∧
      Site.ofBlock path' seen b' ⊆ Site.ofBlock path held b := by
  induction he with
  | self => exact ⟨b,path,held,rfl,fun _ => Iff.rfl,List.Subset.refl _⟩
  | @inside held' h inner n _ hn hi ih =>
    obtain ⟨b',path',seen,rfl,hseen,hsub⟩ := ih
    obtain ⟨id,d,previous,hd,hsub'⟩ := ofBlock_sees path' seen hn
    obtain ⟨b'',path'',hb,hsub''⟩ := ofNode_sees (Site.qualify path' id) seen previous hd hi
    refine ⟨b'',path'',_,hb,fun tag => ?_,fun s hs => hsub (hsub' (hsub'' hs))⟩
    rw [NameSet.mem_union,NameSet.mem_union,hseen,hd.tags,NameSet.mem_ofList]

end Block

namespace Definition

/-- The pairs of tags of which the second is asked for while the first is held. -/
def tagPairs (d : Definition) : List (String × String) := d.sites.flatMap Graph.nestings

variable {cap : Nat} {d : Definition} {g h : Graph} {held : NameSet} {n : GraphNode Graph}

theorem mem_faults {f : Graph.Fault} : f ∈ d.faults cap ↔
    (∃ s ∈ d.sites, f ∈ Graph.siteFaults cap s) ∨ f ∈ Graph.tagFaults d.tagPairs := by
  rw [faults,List.mem_append,List.mem_flatMap]
  rfl

/-- Every node of a definition that is built asks for a set of tags, and for none that is held around
it: the tags held there, each with each of its tags, are among the pairs that building looks at. -/
theorem nestings_of_build (hb : d.build cap = .ok g) (he : g.Encloses [] held h)
    (hn : n ∈ h.nodes) : n.tags.Nodup ∧
      ∀ outer ∈ held, ∀ tag ∈ n.tags, (outer,tag) ∈ d.tagPairs := by
  obtain ⟨-,rfl⟩ := build_eq_ok.mp hb
  obtain ⟨b,path,seen,rfl,hseen,hsub⟩ := Block.ofBlock_sees_enclosed "" he
  obtain ⟨id,node,previous,hd,hsub'⟩ := Block.ofBlock_sees path seen hn
  have hsite := hsub (hsub' (Site.mem_ofNode.mpr (.inl rfl)))
  rw [hd.tags]
  refine ⟨NameSet.ofList_nodup node.resources,fun outer ho tag ht => ?_⟩
  have hfree : tag ∉ seen := by
    have hnone := siteFaults_of_build hb _ hsite
    simp only [Graph.siteFaults,Graph.nodeFaults,List.append_eq_nil_iff,List.map_eq_nil_iff,
      List.filter_eq_nil_iff] at hnone
    simpa using hnone.1.1.1.1 tag ht
  refine List.mem_flatMap.mpr ⟨_,hsite,List.mem_flatMap.mpr ⟨tag,?_,?_⟩⟩
  · exact List.mem_filter.mpr ⟨ht,by simpa using hfree⟩
  · exact List.mem_map.mpr ⟨outer,(hseen outer).mpr ho,rfl⟩

end Definition

namespace Graph

theorem ne_of_mem_nestings {s : Site} {outer tag : String} (h : (outer,tag) ∈ nestings s) :
    outer ≠ tag := by
  cases s with
  | opening | closing => cases h
  | node path held d =>
    obtain ⟨x,hx,hmem⟩ := List.mem_flatMap.mp h
    obtain ⟨y,hy,he⟩ := List.mem_map.mp hmem
    cases he
    rintro rfl
    have hfree := (List.mem_filter.mp hx).2
    simp [hy] at hfree

theorem lookup_map (names : List String) (f : String → List String) (name : String) :
    (names.map fun tag => (tag,f tag)).lookup name = if name ∈ names then some (f name) else none := by
  induction names with
  | nil => rfl
  | cons first rest ih =>
    rw [List.map_cons,List.lookup_cons]
    by_cases he : name = first
    · simp [he]
    · rw [beq_false_of_ne he]
      simpa [he] using ih

theorem refers_tagLinks {pairs : List (String × String)} {outer tag : String} :
    (tagLinks pairs).Refers outer tag ↔ (outer,tag) ∈ pairs := by
  have hnames {name : String} : name ∈ NameSet.ofList (pairs.flatMap fun p => [p.1,p.2]) ↔
      ∃ p ∈ pairs, name = p.1 ∨ name = p.2 := by
    simp [NameSet.mem_ofList]
  have hnext : (tagLinks pairs).Refers outer tag ↔ tag ∈ ((tagLinks pairs).lookup outer).getD [] ∧
      ∃ p ∈ pairs, tag = p.1 ∨ tag = p.2 := by
    rw [Links.Refers,Links.next,List.mem_filter,List.contains_iff_mem,← hnames]
    simp [tagLinks,Links.names]
  rw [hnext,tagLinks,lookup_map]
  constructor
  · rintro ⟨hmem,-⟩
    split at hmem
    · simpa using hmem
    · cases hmem
  · intro hp
    rw [if_pos (hnames.mpr ⟨_,hp,.inl rfl⟩)]
    exact ⟨List.mem_map.mpr ⟨(outer,tag),List.mem_filter.mpr ⟨hp,by simp⟩,rfl⟩,_,hp,.inr rfl⟩

/-- Without a fault tags can be ranked so that each stands above those asked for while it is held. -/
theorem exists_rank_of_tagFaults {pairs : List (String × String)} (hf : tagFaults pairs = [])
    (hne : ∀ p ∈ pairs, p.1 ≠ p.2) :
    ∃ rank : String → Nat, ∀ p ∈ pairs, rank p.2 < rank p.1 := by
  obtain ⟨rank,hrank⟩ := Links.exists_rank (List.map_eq_nil_iff.mp hf)
    fun tag h => hne _ (refers_tagLinks.mp h) rfl
  exact ⟨rank,fun p hp => hrank p.1 p.2 (refers_tagLinks.mpr hp)⟩

end Graph

namespace Definition

theorem tagFaults_of_build {cap : Nat} {d : Definition} {g : Graph} (hb : d.build cap = .ok g) :
    Graph.tagFaults d.tagPairs = [] := by
  have hf := (build_eq_ok.mp hb).1
  rw [faults,List.append_eq_nil_iff] at hf
  exact hf.2

/-- The tags of definitions that have no fault taken together can be ranked for all of them. -/
theorem exists_rank {ds : List Definition} (hf : Graph.tagFaults (ds.flatMap tagPairs) = []) :
    ∃ rank : String → Nat, ∀ d ∈ ds, ∀ p ∈ d.tagPairs, rank p.2 < rank p.1 := by
  obtain ⟨rank,hrank⟩ := Graph.exists_rank_of_tagFaults hf fun p hp => by
    obtain ⟨d,-,hp⟩ := List.mem_flatMap.mp hp
    obtain ⟨s,-,hp⟩ := List.mem_flatMap.mp hp
    exact Graph.ne_of_mem_nestings hp
  exact ⟨rank,fun d hd p hp => hrank p (List.mem_flatMap.mpr ⟨d,hd,hp⟩)⟩

end Definition

end TaskGraph
