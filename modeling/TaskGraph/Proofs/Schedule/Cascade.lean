import TaskGraph.Proofs.Schedule.Scopes

/-!
The skipping of dead nodes as a loop of scans, each of which looks at the nodes in an order of its own.
Every scan but the last skips a node, so the loop is soon over; then nothing dead is left. Skipping a
node settles dependencies and unsettles none, so that what is skipped does not depend on the orders.
-/

namespace TaskGraph.Schedule

variable {now : Instant} {s t u : Schedule} {order : List (GraphNode Graph)}
  {orders : List (List (GraphNode Graph))}

/-- Looks at nodes one after another, in an order of its own. -/
def scanIn (now : Instant) (s : Schedule) (order : List (GraphNode Graph)) : Schedule :=
  order.foldl (skipIfDead now) s

/-- The loop, with the orders of its scans: a scan that changes something is followed by another, and
one that changes nothing is the last. -/
inductive Cascades (now : Instant) : Schedule → List (List (GraphNode Graph)) → Schedule → Prop
  | still {s : Schedule} {order : List (GraphNode Graph)} : order.Perm s.graph.nodes →
    s.scanIn now order = s → Cascades now s [order] s
  | again {s t : Schedule} {order : List (GraphNode Graph)} {orders : List (List (GraphNode Graph))} :
    order.Perm s.graph.nodes → s.scanIn now order ≠ s → Cascades now (s.scanIn now order) orders t →
    Cascades now s (order::orders) t

/-- What the skipping of nodes may change: nodes that were open end as skipped, and nothing else. -/
structure Thins (now : Instant) (s t : Schedule) : Prop where
  graph : t.graph = s.graph
  inFlight : t.inFlight = s.inFlight
  scope : t.scope = s.scope
  record : ∀ id, t.record? id = s.record? id ∨ s.isOpen id = true ∧ ∃ r reason,
    s.record? id = some r ∧ t.record? id =
      some { r with status := .skipped, finished := some now, skipReason := some reason }

section Scans

theorem scanIn_graph (h : order ⊆ s.graph.nodes) : (s.scanIn now order).graph = s.graph :=
  (foldl_skipIfDead (P := fun _ => True) (fun _ _ _ _ _ _ => trivial) order s h trivial).2

theorem scanIn_isTable (ht : s.IsTable) (h : order ⊆ s.graph.nodes) :
    (s.scanIn now order).IsTable :=
  (foldl_skipIfDead (P := IsTable) (fun _ n _ hu _ _ => hu.change n.id _) order s h ht).1

/-- A scan closes a node, or finds nothing dead and leaves all as it is. -/
theorem scanIn_fixed (now : Instant) (ht : s.IsTable) (h : order.Perm s.graph.nodes) :
    (s.scanIn now order).openCount < s.openCount ∨
      s.scanIn now order = s ∧ ∀ n ∈ s.graph.nodes, s.deadReason? n = none :=
  (foldl_skipIfDead_fixed order ht h.subset).imp_right fun hs =>
    ⟨hs.1,fun n hn => hs.2 n (h.mem_iff.mpr hn)⟩

theorem openCount_le (s : Schedule) : s.openCount ≤ s.graph.nodes.length := by
  have h := List.countP_le_length (p := s.isOpen) (l := s.graph.ids)
  rwa [Graph.ids,List.length_map] at h

end Scans

namespace Thins

theorem refl (s : Schedule) : Thins now s s := ⟨rfl,rfl,rfl,fun _ => .inl rfl⟩

/-- A dead node was open from the start, since what has been skipped before is not open. -/
theorem skip (h : Thins now s u) (hu : u.IsTable) {n : GraphNode Graph} {reason : SkipReason}
    (hn : n ∈ u.graph.nodes) (hd : u.deadReason? n = some reason) :
    Thins now s (u.change n.id (·.skip now reason)) where
  graph := (change_graph u n.id _).trans h.graph
  inFlight := (change_inFlight u n.id _).trans h.inFlight
  scope := (u.change_scope n.id _).trans h.scope
  record id := by
    rw [record?_change u (Record.skip_respects now reason)]
    by_cases he : id = n.id
    · subst he
      obtain ⟨r,hr⟩ := hu.record?.mp (Graph.mem_ids_of_mem hn)
      obtain ⟨hpending,hidle⟩ := isOpen_iff.mp (deadReason?_eq_some.mp hd).1
      have hstatus : r.status = .pending := (u.status_eq hr).symm.trans hpending
      rcases h.record n.id with hsame | ⟨-,q,_,-,hq⟩
      · rw [hr] at hsame
        have hopen : s.isOpen n.id = true :=
          isOpen_iff.mpr ⟨(s.status_eq hsame.symm).trans hstatus,h.inFlight ▸ hidle⟩
        refine .inr ⟨hopen,r,reason,hsame.symm,?_⟩
        rw [hr,Option.map_some,if_pos rfl,Record.skip_of_open (by rw [hstatus]; rfl)]
      · rw [hr] at hq
        rw [Option.some.inj hq] at hstatus
        cases hstatus
    · simpa [he] using h.record id

theorem status (h : Thins now s t) (id : String) : t.status id = s.status id ∨
    s.isOpen id = true ∧ t.status id = .skipped := by
  rcases h.record id with he | ⟨ho,r,reason,-,hr⟩
  · exact .inl (by rw [Schedule.status,Schedule.status,he])
  · exact .inr ⟨ho,t.status_eq hr⟩

theorem keeps (h : Thins now s t) : Status.Keeps s.status t.status := by
  intro id hid
  refine (h.status id).resolve_right fun hs => ?_
  rw [(isOpen_iff.mp hs.1).1] at hid
  cases hid

/-- Where nothing dead is left, the nodes that further skips find dead have been skipped: a dependency
that cannot hold any more cannot hold either once more nodes are settled. -/
theorem skipped_of_dead (ht : Thins now s t) (hu : Thins now s u)
    (hstill : ∀ n ∈ u.graph.nodes, u.deadReason? n = none)
    (hk : Status.Keeps t.status u.status) {n : GraphNode Graph} {reason : SkipReason}
    (hn : n ∈ t.graph.nodes) (hd : t.deadReason? n = some reason) : u.status n.id = .skipped := by
  obtain ⟨ho,d,hdep,hdead,-⟩ := deadReason?_eq_some.mp hd
  obtain ⟨hpending,hidle⟩ := isOpen_iff.mp ho
  refine ((hu.status n.id).resolve_left fun hsame => ?_).2
  have hs : s.status n.id = .pending := by
    rcases ht.status n.id with he | ⟨-,he⟩
    · exact he.symm.trans hpending
    · rw [hpending] at he
      cases he
  have hopen : u.isOpen n.id = true :=
    isOpen_iff.mpr ⟨hsame.trans hs,by rwa [hu.inFlight,← ht.inFlight]⟩
  have hreason : u.deadReason? n = some (u.skipReason d) :=
    deadReason?_eq_some.mpr ⟨hopen,d,hdep,((Dependency.resolve_settled hk d).2 hdead).1,rfl⟩
  rw [hstill n (by rwa [hu.graph,← ht.graph])] at hreason
  cases hreason

end Thins

namespace Cascades

/-- What is kept whenever a dead node is skipped is kept by the loop. -/
theorem preserves {P : Schedule → Prop} (hP : ∀ u n reason, P u → n ∈ u.graph.nodes →
    u.deadReason? n = some reason → P (u.change n.id (·.skip now reason)))
    (h : Cascades now s orders t) (hs : P s) : P t := by
  induction h with
  | still _ _ => exact hs
  | again hp _ _ ih => exact ih (foldl_skipIfDead hP _ _ hp.subset hs).1

theorem none_dead (h : Cascades now s orders t) (ht : s.IsTable) :
    ∀ n ∈ t.graph.nodes, t.deadReason? n = none := by
  induction h with
  | @still s order hp he =>
    refine ((scanIn_fixed now ht hp).resolve_left fun hlt => ?_).2
    rw [he] at hlt
    exact Nat.lt_irrefl _ hlt
  | again hp _ _ ih => exact ih (scanIn_isTable ht hp.subset)

/-- Each scan but the last leaves fewer nodes open. -/
theorem length_le (h : Cascades now s orders t) (ht : s.IsTable) :
    orders.length ≤ s.openCount+1 := by
  induction h with
  | still _ _ => exact Nat.le_add_left 1 _
  | again hp hne _ ih =>
    have hlt := (scanIn_fixed now ht hp).resolve_right fun hs => hne hs.1
    have hrest := ih (scanIn_isTable ht hp.subset)
    rw [List.length_cons]
    omega

/-- Whatever the orders are going to be, the loop comes to an end. -/
theorem exists_end (ht : s.IsTable) (orders : Nat → List (GraphNode Graph))
    (hp : ∀ i, (orders i).Perm s.graph.nodes) :
    ∃ k t, Cascades now s ((List.range k).map orders) t := by
  induction hc : s.openCount using Nat.strongRecOn generalizing s orders with
  | ind c ih =>
    rcases scanIn_fixed now ht (hp 0) with hlt | ⟨he,-⟩
    · have hne : s.scanIn now (orders 0) ≠ s := fun he => by
        rw [he] at hlt
        exact Nat.lt_irrefl _ hlt
      have hg : (s.scanIn now (orders 0)).graph = s.graph := scanIn_graph (hp 0).subset
      obtain ⟨k,t,h⟩ := ih _ (hc ▸ hlt) (scanIn_isTable ht (hp 0).subset)
        (fun i => orders (i+1)) (fun i => hg ▸ hp (i+1)) rfl
      refine ⟨k+1,t,?_⟩
      rw [List.range_succ_eq_map,List.map_cons,List.map_map]
      exact .again (hp 0) hne h
    · exact ⟨1,s,.still (hp 0) he⟩

theorem thins (h : Cascades now s orders t) (ht : s.IsTable) : Thins now s t :=
  (h.preserves (P := fun u => u.IsTable ∧ Thins now s u)
    (fun _ n _ hu hn hd => ⟨hu.1.change n.id _,hu.2.skip hu.1 hn hd⟩) ⟨ht,.refl s⟩).2

end Cascades

section Agreement

/-- What one loop skips is skipped wherever nothing dead is left. -/
theorem Cascades.keeps (h : Cascades now s orders t) (ht : s.IsTable) (hu : Thins now s u)
    (hstill : ∀ n ∈ u.graph.nodes, u.deadReason? n = none) : Status.Keeps t.status u.status := by
  refine (h.preserves (P := fun v => v.IsTable ∧ Thins now s v ∧ Status.Keeps v.status u.status) ?_
    ⟨ht,.refl s,hu.keeps⟩).2.2
  rintro v n reason ⟨hv,hthin,hk⟩ hn hd
  refine ⟨hv.change n.id _,hthin.skip hv hn hd,fun id hid => ?_⟩
  rw [status_skip now hv hn hd] at hid ⊢
  by_cases he : id = n.id
  · rw [if_pos he,he]
    exact hthin.skipped_of_dead hu hstill hk hn hd
  · rw [if_neg he] at hid ⊢
    exact hk id hid

theorem Cascades.status_eq {others : List (List (GraphNode Graph))} (h : Cascades now s orders t)
    (hu : Cascades now s others u) (ht : s.IsTable) : t.status = u.status := by
  have htu := h.keeps ht (hu.thins ht) (hu.none_dead ht)
  have hut := hu.keeps ht (h.thins ht) (h.none_dead ht)
  funext id
  rcases (h.thins ht).status id with hs | ⟨-,hs⟩
  · rcases (hu.thins ht).status id with hq | ⟨-,hq⟩
    · rw [hs,hq]
    · exact hut id (by rw [hq]; rfl)
  · exact (htu id (by rw [hs]; rfl)).symm

/-- The loop in the order of the graph. -/
theorem cascades_resolveDead (now : Instant) (ht : s.IsTable) :
    ∃ k, Cascades now s (List.replicate k s.graph.nodes) (s.resolveDead now) := by
  induction s using resolveDead.induct now with
  | case1 s u hlt ih =>
    have hne : s.scanIn now s.graph.nodes ≠ s := fun he => Nat.lt_irrefl s.openCount (by
      have hscan : u.openCount < s.openCount := hlt
      rwa [show u = s from he] at hscan)
    have hg : u.graph = s.graph := scanIn_graph (List.Subset.refl _)
    obtain ⟨k,h⟩ := ih (scanIn_isTable ht (List.Subset.refl _))
    rw [hg] at h
    rw [resolveDead,if_pos hlt]
    exact ⟨k+1,.again (.refl _) hne h⟩
  | case2 s u hlt =>
    have he : s.scan now = s := ((scan_fixed now ht).resolve_left hlt).1
    rw [resolveDead,if_neg hlt,he]
    exact ⟨1,.still (.refl _) he⟩

/-- Skipping dead nodes until there are none is a loop of scans in the order of the graph. In whatever
orders the scans look at the nodes, the loop ends after at most one scan more than there are nodes. No
node that is open then has a dependency that cannot hold any more; only nodes that were open have
changed, and are skipped; and the states of all nodes are the same as in any other order. -/
theorem dead_nodes_are_skipped_in_any_order (ht : s.IsTable) (now : Instant) :
    (∃ k, Cascades now s (List.replicate k s.graph.nodes) (s.resolveDead now)) ∧
    (∀ orders : Nat → List (GraphNode Graph), (∀ i, (orders i).Perm s.graph.nodes) →
      ∃ k t, Cascades now s ((List.range k).map orders) t) ∧
    ∀ orders t, Cascades now s orders t → orders.length ≤ s.graph.nodes.length+1 ∧
      (∀ n ∈ s.graph.nodes, t.isOpen n.id = true → n.resolution t.status ≠ .unsatisfied) ∧
      Thins now s t ∧ ∀ others u, Cascades now s others u → t.status = u.status := by
  refine ⟨cascades_resolveDead now ht,fun orders hp => Cascades.exists_end ht orders hp,
    fun orders t h => ?_⟩
  have hthin := h.thins ht
  have hlen : orders.length ≤ s.graph.nodes.length+1 :=
    Nat.le_trans (h.length_le ht) (Nat.add_le_add_right s.openCount_le 1)
  refine ⟨hlen,fun n hn ho hr => ?_,hthin,fun _ _ hu => h.status_eq hu ht⟩
  have hnone := h.none_dead ht n (hthin.graph ▸ hn)
  cases hd : n.dependency with
  | none => simp [GraphNode.resolution,hd] at hr
  | some d => simp [deadReason?,ho,hr,hd] at hnone

end Agreement

namespace Dominoes

/-- Each waits for the one before it, one for a fall that does not come about, and one for the lack of
one. -/
def definition : Definition where
  name := "dominoes"
  nodes := [("first",{ kind := .action "echo" .null }),
    ("second",{ kind := .action "echo" .null, dependsOn := some (.node "first") }),
    ("third",{ kind := .action "echo" .null, dependsOn := some (.node "second") }),
    ("fourth",{ kind := .action "echo" .null
                dependsOn := some (.negation (.negation (.node "third"))) }),
    ("spared",{ kind := .action "echo" .null, dependsOn := some (.negation (.node "third")) }),
    ("busy",{ kind := .action "echo" .null, dependsOn := some (.node "first") })]

abbrev graph : Graph := definition.block.toGraph standardCap

abbrev time : Instant := .ofMillis 0

/-- The first has failed, and one is under way. -/
abbrev pushed : Schedule :=
  { (start graph {}).change "first" (·.fail time (.internal "out of order") 1) with
    inFlight := ["busy"] }

theorem pushed_isTable : pushed.IsTable :=
  (IsTable.start graph {}).change "first" (·.fail time (.internal "out of order") 1)

end Dominoes

/-- Seen from the last to the first, or in any other order, the same dominoes fall. -/
theorem dead_nodes_are_skipped_in_any_order_dominoes :
    (∃ k t, Cascades Dominoes.time Dominoes.pushed
      ((List.range k).map fun _ => Dominoes.graph.nodes.reverse) t) ∧
    ∀ orders t, Cascades Dominoes.time Dominoes.pushed orders t → orders.length ≤ 7 ∧
      t.status "second" = .skipped ∧ t.status "fourth" = .skipped ∧
      t.status "spared" = .pending ∧ t.status "busy" = .pending := by
  obtain ⟨⟨k,hloop⟩,hends,hsame⟩ :=
    dead_nodes_are_skipped_in_any_order Dominoes.pushed_isTable Dominoes.time
  refine ⟨hends (fun _ => Dominoes.graph.nodes.reverse) fun _ => List.reverse_perm _,
    fun orders t h => ?_⟩
  obtain ⟨hlen,-,-,hstatus⟩ := hsame orders t h
  refine ⟨hlen,?_⟩
  rw [hstatus _ _ hloop,resolveDead_eq_scan (by decide)]
  decide

end TaskGraph.Schedule
