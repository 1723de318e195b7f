import TaskGraph.Proofs.Graph.CycleSearch
import TaskGraph.Proofs.Graph.Order
import TaskGraph.Proofs.Graph.Terminal

/-!
What the structure of a graph that was built tells about its nodes: the dependencies and dependents of
each, where the graph starts and ends, and an order in which every node stands after those it waits
for. The same is read from a graph of edges that is filled beside the nodes.
-/

namespace TaskGraph

section FirstSeen

/-- The members of a list, each once, in the order of their first occurrence. -/
structure FirstSeen (l distinct : List String) : Prop where
  nodup : distinct.Nodup
  mem : ∀ x, x ∈ distinct ↔ x ∈ l
  order : distinct.Pairwise fun a b => l.idxOf a < l.idxOf b

theorem idxOf_lt_of_filter {p : String → Bool} {l : List String} {a b : String} (ha : p a = true)
    (hb : p b = true) (h : (l.filter p).idxOf a < (l.filter p).idxOf b) : l.idxOf a < l.idxOf b := by
  induction l with
  | nil => exact h
  | cons x rest ih =>
    by_cases hx : p x = true
    · rw [List.filter_cons_of_pos hx] at h
      by_cases hxa : x = a <;> by_cases hxb : x = b <;> simp_all [List.idxOf_cons]
    · have hxa : x ≠ a := fun he => hx (he ▸ ha)
      have hxb : x ≠ b := fun he => hx (he ▸ hb)
      rw [List.filter_cons_of_neg hx] at h
      rw [List.idxOf_cons_ne rest hxa,List.idxOf_cons_ne rest hxb]
      exact Nat.succ_lt_succ (ih h)

theorem firstSeen_eraseDups (l : List String) : FirstSeen l l.eraseDups := by
  have hmem (l : List String) (x : String) : x ∈ l.eraseDups ↔ x ∈ l := List.mem_eraseDups
  induction h : l.length using Nat.strongRecOn generalizing l with
  | ind n ih =>
    cases l with
    | nil => exact ⟨List.nodup_nil,fun _ => Iff.rfl,.nil⟩
    | cons first rest =>
      have hshort : (rest.filter fun x => !x == first).length < n := by
        rw [← h,List.length_cons]
        exact Nat.lt_succ_of_le (List.length_filter_le ..)
      have hrest := ih _ hshort (rest.filter fun x => !x == first) rfl
      have hne {x : String} (hx : x ∈ (rest.filter fun x => !x == first).eraseDups) :
          x ≠ first := by
        simpa using (List.mem_filter.mp ((hrest.mem x).mp hx)).2
      refine ⟨?_,hmem _,?_⟩
      · rw [List.eraseDups_cons]
        exact List.nodup_cons.mpr ⟨fun hx => hne hx rfl,hrest.nodup⟩
      · rw [List.eraseDups_cons]
        refine List.pairwise_cons.mpr ⟨fun x hx => ?_,?_⟩
        · rw [List.idxOf_cons_self,List.idxOf_cons_ne rest (hne hx).symm]
          exact Nat.zero_lt_succ _
        · refine hrest.order.imp_of_mem fun {a b} ha hb hlt => ?_
          rw [List.idxOf_cons_ne rest (hne ha).symm,List.idxOf_cons_ne rest (hne hb).symm]
          exact Nat.succ_lt_succ (idxOf_lt_of_filter (by simpa using hne ha) (by simpa using hne hb) hlt)

end FirstSeen

/-- The ids that the dependency of a node mentions, from left to right. -/
def GraphNode.mentions (n : GraphNode Graph) : List String :=
  (n.dependency.map Dependency.leaves).getD []

namespace GraphNode

variable {n : GraphNode Graph}

theorem mem_mentions {id : String} : id ∈ n.mentions ↔ id ∈ n.references := by
  cases hd : n.dependency <;> simp [mentions,references,hd,Dependency.mem_references]

theorem references_firstSeen : FirstSeen n.mentions n.references := by
  have heq : n.references = n.mentions.eraseDups := by
    cases hd : n.dependency <;> simp [mentions,references,hd,Dependency.references]
  rw [heq]
  exact firstSeen_eraseDups _

end GraphNode

/-- A directed graph as it is filled: its vertices, and its edges in the order in which they were
added. -/
structure Topology where
  vertices : List String
  edges : List (String × String)

namespace Topology

/-- Where the edges to a vertex come from, the newest edge first. -/
def sources (t : Topology) (id : String) : List String :=
  ((t.edges.filter fun e => e.2 == id).map (·.1)).reverse

/-- Where the edges from a vertex lead, the newest edge first. -/
def targets (t : Topology) (id : String) : List String :=
  ((t.edges.filter fun e => e.1 == id).map (·.2)).reverse

/-- All vertices are different, and edges run between them. -/
structure IsProper (t : Topology) : Prop where
  nodup : t.vertices.Nodup
  inside : ∀ e ∈ t.edges, e.1 ∈ t.vertices ∧ e.2 ∈ t.vertices

/-- An order of all vertices in which every edge leads onward. -/
structure IsSorted (t : Topology) (order : List String) : Prop where
  perm : order.Perm t.vertices
  onward : ∀ e ∈ t.edges, order.idxOf e.1 < order.idxOf e.2

instance (t : Topology) (order : List String) : Decidable (t.IsSorted order) :=
  decidable_of_iff (order.Perm t.vertices ∧ ∀ e ∈ t.edges, order.idxOf e.1 < order.idxOf e.2)
    ⟨fun h => ⟨h.1,h.2⟩,fun h => ⟨h.perm,h.onward⟩⟩

/-- A way of sorting that gives such an order, or fails because there is a cycle. -/
structure Sorts (sort : Topology → Option (List String)) : Prop where
  sorted : ∀ t order, t.IsProper → sort t = some order → t.IsSorted order
  fails : ∀ t, t.IsProper → sort t = none →
    ∃ id, Relation.TransGen (fun a b => (a,b) ∈ t.edges) id id

/-- Every vertex with those that edges lead from to it. -/
def links (t : Topology) : Links := t.vertices.map fun v => (v,(t.sources v).reverse)

/-- Orders the vertices along the links, and checks the order that comes out. -/
def search (t : Topology) : Option (List String) :=
  if t.IsSorted t.links.order then some t.links.order else none

variable {t : Topology}

theorem calls_links {a b : String} (h : t.links.Calls a b) : (b,a) ∈ t.edges := by
  obtain ⟨l,hl,rfl⟩ := List.mem_map.mp h
  obtain ⟨hl,hb⟩ := List.mem_filter.mp hl
  obtain ⟨v,-,rfl⟩ := List.mem_map.mp hl
  simpa [sources] using hb

theorem IsProper.calls_links (ht : t.IsProper) {a b : String} (h : (b,a) ∈ t.edges) :
    t.links.Calls a b := by
  refine List.mem_map.mpr ⟨(a,(t.sources a).reverse),List.mem_filter.mpr ⟨?_,?_⟩,rfl⟩
  · exact List.mem_map_of_mem (f := fun v => (v,(t.sources v).reverse)) (ht.inside _ h).2
  · simpa [sources] using h

/-- Where no edges come back, the search finds an order. -/
theorem search_sorts : Sorts search := by
  refine ⟨fun t order _ h => ?_,fun t ht h => ?_⟩
  · unfold search at h
    split at h
    · next hs =>
      cases h
      exact hs
    · cases h
  · unfold search at h
    split at h
    · cases h
    next hs =>
    by_contra hc
    refine hs ?_
    have hacyclic (id : String) : ¬ Relation.TransGen t.links.Calls id id := fun hid => by
      have hback := Relation.TransGen.mono (fun _ _ => calls_links) id id hid
      exact hc ⟨id,Relation.transGen_swap.mp hback⟩
    obtain ⟨hranked,hnodup,hmem⟩ := Links.order_ranked hacyclic
    have hnames : t.links.names = t.vertices := by
      rw [Links.names,links,List.map_map]
      exact List.map_id _
    rw [hnames] at hmem
    refine ⟨(List.perm_ext_iff_of_nodup hnodup ht.nodup).mpr hmem,fun e he => ?_⟩
    exact hranked.idxOf_lt hnodup ((hmem e.1).mpr (ht.inside e he).1) (ht.calls_links he)

end Topology

namespace Graph

/-- The vertices are the nodes, and to each node there is an edge from every declared node that its
dependency mentions. -/
def topology (g : Graph) : Topology where
  vertices := g.ids
  edges := g.nodes.flatMap fun n => (n.references.filter g.ids.contains).map fun id => (id,n.id)

/-- An order of all nodes, each after those that its dependency mentions. -/
structure IsTopological (g : Graph) (order : List String) : Prop where
  perm : order.Perm g.ids
  after : ∀ n ∈ g.nodes, ∀ id ∈ n.mentions, order.idxOf id < order.idxOf n.id

/-- What the structure of a graph tells, by the dependencies of its nodes. -/
structure Charted (g : Graph) : Prop where
  dependencies : ∀ n ∈ g.nodes, FirstSeen n.mentions (g.dependencies n.id)
  dependents : ∀ id, g.dependents id =
    (g.nodes.filter fun m => m.mentions.contains id).map GraphNode.id
  roots : g.roots = (g.nodes.filter fun n => n.mentions.isEmpty).map GraphNode.id
  sinks : g.sinks =
    (g.nodes.filter fun n => g.nodes.all fun m => !m.mentions.contains n.id).map GraphNode.id
  starts : g.roots ≠ []
  ends : g.sinks ≠ []
  ordered : g.IsTopological g.order
  sources : ∀ id ∈ g.ids, (g.topology.sources id).reverse = g.dependencies id
  targets : ∀ id ∈ g.ids, (g.topology.targets id).reverse = g.dependents id
  sorted : ∀ sort, Topology.Sorts sort →
    ∃ order, sort g.topology = some order ∧ g.IsTopological order
  found : g.topology.search = some g.order

variable {g : Graph}

section Edges

theorem mem_edges {a b : String} : (a,b) ∈ g.topology.edges ↔
    ∃ n ∈ g.nodes, n.id = b ∧ a ∈ n.references ∧ a ∈ g.ids := by
  simp only [topology,List.mem_flatMap,List.mem_map,List.mem_filter,List.contains_iff_mem,
    Prod.mk.injEq]
  constructor
  · rintro ⟨n,hn,id,hid,rfl,rfl⟩
    exact ⟨n,hn,rfl,hid⟩
  · rintro ⟨n,hn,rfl,hid⟩
    exact ⟨n,hn,a,hid,rfl,rfl⟩

theorem dependencies_eq (hd : g.ids.Nodup) {n : GraphNode Graph} (hn : n ∈ g.nodes) :
    g.dependencies n.id = n.references.filter g.ids.contains := by
  have hl : g.links.lookup n.id = some n.references := lookup_linksOf hd hn
  have hnames : g.links.names = g.ids := names_linksOf g.nodes
  rw [Graph.dependencies,Links.next,hl,hnames,Option.getD_some]

theorem dependents_eq (id : String) :
    g.dependents id = (g.nodes.filter fun m => m.references.contains id).map GraphNode.id := by
  rw [Graph.dependents,Links.previous,links,linksOf,List.filter_map,List.map_map]
  rfl

/-- Of edges that lead to different nodes, those to one node are the ones entered with it. -/
theorem filter_edges_to {nodes : List (GraphNode Graph)} (hd : (nodes.map GraphNode.id).Nodup)
    {n : GraphNode Graph} (hn : n ∈ nodes) (before : GraphNode Graph → List String) :
    ((nodes.flatMap fun m => (before m).map fun id => (id,m.id)).filter fun e => e.2 == n.id) =
      (before n).map fun id => (id,n.id) := by
  induction nodes with
  | nil => cases hn
  | cons m rest ih =>
    obtain ⟨hm,hrest⟩ := List.nodup_cons.mp hd
    rw [List.flatMap_cons,List.filter_append]
    rcases List.mem_cons.mp hn with rfl | hn
    · have hown : (((before n).map fun id => (id,n.id)).filter fun e => e.2 == n.id) =
          (before n).map fun id => (id,n.id) := by
        simp [List.filter_map,Function.comp_def]
      have hother : ((rest.flatMap fun m => (before m).map fun id => (id,m.id)).filter
          fun e => e.2 == n.id) = [] := by
        simp only [List.filter_eq_nil_iff,List.mem_flatMap,List.mem_map]
        rintro _ ⟨k,hk,id,-,rfl⟩ he
        exact hm ((beq_iff_eq.mp he) ▸ List.mem_map_of_mem hk)
      rw [hown,hother,List.append_nil]
    · have hne : m.id ≠ n.id := fun he => hm (he ▸ List.mem_map_of_mem hn)
      rw [ih hrest hn,List.filter_eq_nil_iff.mpr,List.nil_append]
      intro e he
      obtain ⟨id,-,rfl⟩ := List.mem_map.mp he
      simpa using hne

theorem sources_eq (hd : g.ids.Nodup) {n : GraphNode Graph} (hn : n ∈ g.nodes) :
    (g.topology.sources n.id).reverse = g.dependencies n.id := by
  rw [Topology.sources,List.reverse_reverse,topology,filter_edges_to hd hn
    (fun n => n.references.filter g.ids.contains),dependencies_eq hd hn,List.map_map]
  exact List.map_id _

/-- No node is entered twice behind another, as its dependency names each node once. -/
theorem targets_eq {id : String} (hid : id ∈ g.ids) :
    (g.topology.targets id).reverse = g.dependents id := by
  have hone (m : GraphNode Graph) : (((m.references.filter g.ids.contains).map fun x =>
      (x,m.id)).filter fun e => e.1 == id).map (·.2) =
        if m.references.contains id then [m.id] else [] := by
    have hd : (m.references.filter g.ids.contains).Nodup :=
      GraphNode.references_firstSeen.nodup.filter _
    rw [List.filter_map,List.map_map]
    split
    · next hc =>
      have hmem : id ∈ m.references.filter g.ids.contains :=
        List.mem_filter.mpr ⟨by simpa using hc,by simpa using hid⟩
      have hsingle : (m.references.filter g.ids.contains).filter (· == id) = [id] := by
        rw [List.filter_beq,List.count_eq_one_of_mem hd hmem]
        rfl
      simpa [Function.comp_def] using congrArg (List.map fun _ => m.id) hsingle
    · next hc =>
      simp only [List.map_eq_nil_iff,List.filter_eq_nil_iff]
      intro x hx he
      obtain rfl : x = id := by simpa using he
      exact hc (by simpa using (List.mem_filter.mp hx).1)
  rw [Topology.targets,List.reverse_reverse,topology,dependents_eq,List.filter_flatMap,
    List.map_flatMap]
  simp only [hone]
  induction g.nodes with
  | nil => rfl
  | cons m rest ih =>
    rw [List.flatMap_cons,ih,List.filter_cons]
    split <;> rfl

theorem calls_links : g.links.Calls = g.Mentions := by
  funext a b
  have hprevious : a ∈ g.dependents b ↔ g.Mentions a b := by
    rw [dependents_eq,List.mem_map]
    constructor
    · rintro ⟨n,hn,rfl⟩
      obtain ⟨hn,hb⟩ := List.mem_filter.mp hn
      exact ⟨n,hn,rfl,by simpa using hb⟩
    · rintro ⟨n,hn,rfl,hb⟩
      exact ⟨n,List.mem_filter.mpr ⟨hn,by simpa using hb⟩,rfl⟩
  exact propext hprevious

end Edges

section Sound

variable (hg : g.Sound)

include hg

theorem Sound.dependencies_eq {n : GraphNode Graph} (hn : n ∈ g.nodes) :
    g.dependencies n.id = n.references := by
  rw [Graph.dependencies_eq hg.nodup hn]
  exact List.filter_eq_self.mpr fun id hid => by simpa using hg.closed n hn id hid

theorem Sound.isTopological : g.IsTopological g.order := by
  have hnames : g.links.names = g.ids := names_linksOf g.nodes
  have hacyclic : ∀ id, ¬ Relation.TransGen g.links.Calls id id := by
    rw [calls_links]
    exact hg.acyclic
  obtain ⟨hranked,hnodup,hmem⟩ := Links.order_ranked hacyclic
  refine ⟨(List.perm_ext_iff_of_nodup hnodup hg.nodup).mpr fun id => ?_,fun n hn id hid => ?_⟩
  · rw [← hnames]
    exact hmem id
  · have href := GraphNode.mem_mentions.mp hid
    have hcalls : g.links.Calls n.id id := by
      rw [calls_links]
      exact ⟨n,hn,rfl,href⟩
    exact hranked.idxOf_lt hnodup ((hmem id).mpr (hnames ▸ hg.closed n hn id href)) hcalls

theorem Sound.topology_isProper : g.topology.IsProper where
  nodup := hg.nodup
  inside := by
    rintro ⟨a,b⟩ he
    obtain ⟨n,hn,rfl,-,ha⟩ := mem_edges.mp he
    exact ⟨ha,mem_ids_of_mem hn⟩

theorem Sound.isSorted_iff {order : List String} :
    g.topology.IsSorted order ↔ g.IsTopological order := by
  constructor
  · refine fun h => ⟨h.perm,fun n hn id hid => ?_⟩
    have href := GraphNode.mem_mentions.mp hid
    exact h.onward (id,n.id) (mem_edges.mpr ⟨n,hn,rfl,href,hg.closed n hn id href⟩)
  · refine fun h => ⟨h.perm,?_⟩
    rintro ⟨a,b⟩ he
    obtain ⟨n,hn,rfl,ha,-⟩ := mem_edges.mp he
    exact h.after n hn a (GraphNode.mem_mentions.mpr ha)

/-- A sort that fails only on cycles does not fail. -/
theorem Sound.sorted {sort : Topology → Option (List String)} (hs : Topology.Sorts sort) :
    ∃ order, sort g.topology = some order ∧ g.IsTopological order := by
  cases h : sort g.topology with
  | none =>
    obtain ⟨id,hcycle⟩ := hs.fails _ hg.topology_isProper h
    have hback (a b : String) (hab : (a,b) ∈ g.topology.edges) : g.Mentions b a := by
      obtain ⟨n,hn,rfl,ha,-⟩ := mem_edges.mp hab
      exact ⟨n,hn,rfl,ha⟩
    exact absurd (Relation.transGen_swap.mp (Relation.TransGen.mono hback id id hcycle))
      (hg.acyclic id)
  | some order =>
    exact ⟨order,rfl,hg.isSorted_iff.mp (hs.sorted _ _ hg.topology_isProper h)⟩

theorem Sound.search_topology : g.topology.search = some g.order := by
  have hlinks : g.topology.links = g.links := by
    show g.ids.map _ = g.nodes.map _
    rw [ids,List.map_map]
    refine List.map_congr_left fun n hn => ?_
    show (n.id,_) = _
    rw [sources_eq hg.nodup hn,hg.dependencies_eq hn]
  rw [Topology.search,hlinks]
  exact if_pos (hg.isSorted_iff.mpr hg.isTopological)

theorem Sound.exists_root (hne : g.nodes ≠ []) : ∃ n ∈ g.nodes, n.references = [] := by
  obtain ⟨first,hfirst⟩ := List.exists_mem_of_ne_nil g.nodes hne
  obtain ⟨id,hid,hmin⟩ := hg.wellFounded.has_min {id | id ∈ g.ids} ⟨_,mem_ids_of_mem hfirst⟩
  obtain ⟨n,hn,rfl⟩ := mem_ids.mp hid
  refine ⟨n,hn,List.eq_nil_iff_forall_not_mem.mpr fun x hx => ?_⟩
  exact hmin x (hg.closed n hn x hx) (hg.mem_dependencies hn hx)

end Sound

theorem filter_ids (p : String → Bool) (q : GraphNode Graph → Bool)
    (h : ∀ n ∈ g.nodes, p n.id = q n) : g.ids.filter p = (g.nodes.filter q).map GraphNode.id := by
  rw [ids,List.filter_map]
  exact congrArg _ (List.filter_congr h)

theorem Intact.charted (hi : g.Intact) (hg : g.Sound) : g.Charted := by
  have hroots : g.roots = (g.nodes.filter fun n => n.mentions.isEmpty).map GraphNode.id := by
    refine filter_ids _ _ fun n hn => ?_
    rw [hg.dependencies_eq hn,Bool.eq_iff_iff,List.isEmpty_iff,List.isEmpty_iff,
      List.eq_nil_iff_forall_not_mem,List.eq_nil_iff_forall_not_mem]
    exact forall_congr' fun id => not_congr GraphNode.mem_mentions.symm
  have hdependents (id : String) : g.dependents id =
      (g.nodes.filter fun m => m.mentions.contains id).map GraphNode.id := by
    rw [dependents_eq]
    refine congrArg _ (List.filter_congr fun m _ => ?_)
    rw [Bool.eq_iff_iff,List.contains_iff_mem,List.contains_iff_mem]
    exact GraphNode.mem_mentions.symm
  have hsinks : g.sinks = (g.nodes.filter fun n =>
      g.nodes.all fun m => !m.mentions.contains n.id).map GraphNode.id := by
    refine filter_ids _ _ fun n _ => ?_
    rw [hdependents,Bool.eq_iff_iff]
    simp
  refine ⟨fun n hn => ?_,hdependents,hroots,hsinks,?_,?_,hg.isTopological,fun id hid => ?_,
    fun id => targets_eq,fun sort => hg.sorted,hg.search_topology⟩
  · rw [hg.dependencies_eq hn]
    exact n.references_firstSeen
  · obtain ⟨n,hn,hnone⟩ := hg.exists_root hi.inhabited
    have hroot : n.id ∈ g.roots :=
      List.mem_filter.mpr ⟨mem_ids_of_mem hn,by rw [hg.dependencies_eq hn,hnone]; rfl⟩
    exact List.ne_nil_of_mem hroot
  · obtain ⟨id,hid,hfree⟩ := hi.exists_unmentioned
    have hsink : id ∈ g.sinks := by
      obtain ⟨nodes,terminal⟩ := g
      exact mem_sinks.mpr ⟨hid,hfree⟩
    exact List.ne_nil_of_mem hsink
  · obtain ⟨n,hn,rfl⟩ := mem_ids.mp hid
    exact sources_eq hg.nodup hn

end Graph

namespace Definition

variable {cap : Nat} {d : Definition} {g h : Graph}

/-- In a definition that is built every graph, at whatever depth, tells the dependencies of its nodes as
they are. It starts and ends somewhere, and its nodes can be put in order by any way of sorting that
fails only on cycles. -/
theorem charted_of_build (hb : d.build cap = .ok g) (hk : d.isKeyed = true) (hc : g.Contains h) :
    h.Charted :=
  (intact_of_build hb hk hc).charted (sound_of_build hb hk hc)

/-- Who is on duty closes the shop, after the last customer and the till, unless the alarm went off. -/
def closing : Definition where
  name := "closing"
  nodes := [
    ("lock",{ kind := .action "echo" .null
              dependsOn := some (.all [.node "shop",.negation (.node "alarm"),.node "shop"]) }),
    ("shop",{ kind := .sequence (.graph [("till",{ kind := .action "echo" .null,
                                                   dependsOn := some (.node "customers") }),
                ("customers",{ kind := .action "echo" .null })] none),
              dependsOn := some (.node "choose") }),
    ("choose",{ kind := .branch [⟨.bool true,.one "lock"⟩] none }),
    ("alarm",{ kind := .action "fail" .null })]

theorem charted_of_build_closing :
    closing.build standardCap = .ok (closing.block.toGraph standardCap) ∧ closing.isKeyed = true ∧
      (closing.block.toGraph standardCap).Charted ∧
      (closing.block.toGraph standardCap).dependencies "lock" = ["shop","alarm","choose"] ∧
      (closing.block.toGraph standardCap).order = ["alarm","choose","shop","lock"] ∧
      Topology.Sorts Topology.search := by
  have hb : closing.build standardCap = .ok (closing.block.toGraph standardCap) := rfl
  exact ⟨hb,rfl,charted_of_build hb rfl (.self _),by decide,by decide,Topology.search_sorts⟩

end Definition

end TaskGraph
