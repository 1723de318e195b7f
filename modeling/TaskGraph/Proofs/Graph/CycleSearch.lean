import Mathlib.Data.List.Chain
import Mathlib.Order.WellFounded
import TaskGraph.Proofs.Graph.Knots
import TaskGraph.Proofs.Graph.Sound

/-!
What the search for cycles finds. It comes to an end; each list that it finds is a cycle of different
names; no two of them have the same names; and it finds none only where there is none.
-/

namespace TaskGraph

/-- Different names, each of which is related to the next and the last to the first. -/
structure IsCycle (r : String → String → Prop) (cycle : List String) : Prop where
  nonempty : cycle ≠ []
  nodup : cycle.Nodup
  chain : cycle.IsChain r
  closed : ∀ first ∈ cycle.head?, ∀ last ∈ cycle.getLast?, r last first

theorem IsCycle.mono {r s : String → String → Prop} (h : ∀ a b, r a b → s a b)
    {cycle : List String} (hc : IsCycle r cycle) : IsCycle s cycle where
  nonempty := hc.nonempty
  nodup := hc.nodup
  chain := hc.chain.imp h
  closed first hf last hl := h last first (hc.closed first hf last hl)

/-- A cycle leads from its first name back to it. -/
theorem IsCycle.exists_transGen {r : String → String → Prop} {cycle : List String}
    (h : IsCycle r cycle) : ∃ name, Relation.TransGen r name name := by
  cases cycle with
  | nil => exact absurd rfl h.nonempty
  | cons first rest =>
    have hlast : (first::rest).getLast? = some ((first::rest).getLast h.nonempty) :=
      List.getLast?_eq_some_getLast h.nonempty
    have hback := h.closed first rfl _ hlast
    have hwalk := List.relationReflTransGen_of_exists_isChain_cons rest h.chain rfl
    exact ⟨first,Relation.TransGen.tail' hwalk hback⟩

namespace Links

variable {links : Links}

theorem head?_dropWhile {name : String} {names : List String} (h : name ∈ names) :
    (names.dropWhile (· != name)).head? = some name := by
  induction names with
  | nil => cases h
  | cons first rest ih =>
    by_cases he : first = name
    · simp [he]
    · have hrest : name ∈ rest := by simpa [Ne.symm he] using h
      simp [he,ih hrest]

/-- Passing over names one after another. A name on the path closes a cycle, a name that has been
left is passed by, and any other is entered, and left once all that it refers to has been passed. -/
inductive Passes (links : Links) : List String → Walk → Walk → Prop
  | nil (walk : Walk) : Passes links [] walk walk
  | meet {name : String} {rest : List String} {walk after : Walk} : name ∈ walk.path →
    Passes links rest (walk.meet name) after → Passes links (name::rest) walk after
  | skip {name : String} {rest : List String} {walk after : Walk} : name ∉ walk.path →
    name ∈ walk.done → Passes links rest walk after → Passes links (name::rest) walk after
  | enter {name : String} {rest : List String} {walk inner after : Walk} : name ∉ walk.path →
    name ∉ walk.done → Passes links (links.next name) { walk with path := name::walk.path } inner →
    Passes links rest { inner with path := inner.path.tail, done := name::inner.done } after →
    Passes links (name::rest) walk after

theorem Walk.meet_path (walk : Walk) (name : String) : (walk.meet name).path = walk.path := by
  unfold Walk.meet Walk.addCycle
  split <;> rfl

/-- From one stage of a walk to another a name is passed. -/
def Walk.Steps (links : Links) (name : String) (before after : Walk) : Prop :=
  after.path = before.path ∧
    ∀ rest last, Passes links rest after last → Passes links (name::rest) before last

theorem foldl_passes (f : Walk → String → Walk) (names : List String) (start : Walk)
    (hf : ∀ walk : Walk, walk.path = start.path → ∀ name ∈ names, walk.Steps links name (f walk name)) :
    Passes links names start (names.foldl f start) := by
  induction names generalizing start with
  | nil => exact .nil start
  | cons name rest ih =>
    obtain ⟨hpath,hstep⟩ := hf start rfl name List.mem_cons_self
    apply hstep
    apply ih
    intro walk hw x hx
    exact hf walk (hw.trans hpath) x (List.mem_cons_of_mem name hx)

/-- The induction is on how much longer the path can get, as for what a visit leaves behind. -/
theorem visit_steps (n : Nat) (name : String) (walk : Walk) (hw : walk.OnPath links)
    (hn : name ∈ links.names) (hp : name ∉ walk.path) (hd : name ∉ walk.done)
    (hl : links.length ≤ walk.path.length+n) :
    walk.Steps links name (visit links n name walk) := by
  refine ⟨(visit_leaves n name walk hw hn hp hl).1.path,fun rest last hrest => ?_⟩
  induction n generalizing name walk rest last with
  | zero =>
    have hlonger : Walk.OnPath links { path := name::walk.path } := hw.cons hn hp rfl
    have hle := hlonger.length_le
    simp only [List.length_cons] at hle
    omega
  | succ n ih =>
    rw [visit_succ] at hrest
    refine .enter hp hd (foldl_passes _ _ _ ?_) hrest
    intro inner hs other ho
    have hon : inner.OnPath links := hw.cons hn hp hs
    have hother : other ∈ links.names := links.mem_names_of_mem_next ho
    have hroom : links.length ≤ inner.path.length+n := by
      rw [hs,List.length_cons]
      omega
    by_cases hpath : other ∈ inner.path
    · have hlook : look links n inner other = inner.meet other := by simp [look,hpath]
      rw [hlook]
      exact ⟨inner.meet_path other,fun _ _ => .meet hpath⟩
    by_cases hdone : other ∈ inner.done
    · have hlook : look links n inner other = inner := by simp [look,hpath,hdone]
      rw [hlook]
      exact ⟨rfl,fun _ _ => .skip hpath hdone⟩
    · have hlook : look links n inner other = visit links n other inner := by
        simp [look,hpath,hdone]
      rw [hlook]
      exact ⟨(visit_leaves n other inner hon hother hpath hroom).1.path,
        fun rest last => ih other inner hon hother hpath hdone hroom rest last⟩

/-- The search comes to an end, whatever the names refer to. -/
theorem exists_passes (links : Links) :
    ∃ walk, Passes links links.names {} walk ∧ walk.cycles = links.cycles := by
  refine ⟨_,foldl_passes _ links.names {} ?_,rfl⟩
  intro walk hw name hn
  have hpath : name ∉ walk.path := by simp [hw]
  by_cases hd : name ∈ walk.done
  · simp only [hd,List.contains_iff_mem.mpr,if_true]
    exact ⟨rfl,fun _ _ => .skip hpath hd⟩
  · have hon : walk.OnPath links := by constructor <;> simp [hw]
    have hc : walk.done.contains name = false := by simpa using hd
    simp only [hc,Bool.false_eq_true,if_false]
    exact visit_steps links.length name walk hon hn hpath hd (by simp [hw])

/-- What holds of a walk at every stage: the names on its path lead from each to the one further in,
and what it has found are different cycles. -/
structure Walk.Sound (links : Links) (walk : Walk) : Prop where
  chain : walk.path.IsChain fun inner outer => links.Refers outer inner
  nodup : walk.path.Nodup
  cycles : ∀ cycle ∈ walk.cycles, IsCycle links.Refers cycle
  distinct : walk.cycles.Pairwise fun a b => ¬ ∀ x, x ∈ a ↔ x ∈ b

theorem sameMembers_iff {a b : List String} : sameMembers a b = true ↔ ∀ x, x ∈ a ↔ x ∈ b := by
  simp only [sameMembers,Bool.and_eq_true,List.all_eq_true,List.contains_iff_mem]
  constructor
  · intro h x
    exact ⟨h.1 x,h.2 x⟩
  · intro h
    exact ⟨fun x => (h x).mp,fun x => (h x).mpr⟩

/-- A name on the path that the innermost name refers to closes a cycle. -/
theorem Walk.Sound.isCycle {walk : Walk} (h : walk.Sound links) {current name : String}
    (hc : walk.path.head? = some current) (hr : links.Refers current name)
    (hn : name ∈ walk.path) : IsCycle links.Refers (walk.path.reverse.dropWhile (· != name)) := by
  have hhead : (walk.path.reverse.dropWhile (· != name)).head? = some name :=
    head?_dropWhile (by simpa using hn)
  have hsuffix : walk.path.reverse.dropWhile (· != name) <:+ walk.path.reverse :=
    List.dropWhile_suffix _
  refine ⟨?_,?_,?_,?_⟩
  · intro he
    rw [he] at hhead
    cases hhead
  · exact hsuffix.sublist.nodup (List.nodup_reverse.mpr h.nodup)
  · exact (List.isChain_reverse.mpr h.chain).suffix hsuffix
  · intro first hf last hlast
    have hfirst : first = name := by simpa [hhead] using hf.symm
    obtain ⟨before,hb⟩ := hsuffix
    have hwhole : walk.path.reverse.getLast? = some last := by
      rw [← hb,List.getLast?_append,hlast]
      rfl
    have hcurrent : last = current := by simpa [hc] using hwhole.symm
    rw [hfirst,hcurrent]
    exact hr

theorem Walk.Sound.meet {walk : Walk} (h : walk.Sound links) {current name : String}
    (hc : walk.path.head? = some current) (hr : links.Refers current name)
    (hn : name ∈ walk.path) : (walk.meet name).Sound links := by
  have hcycle := h.isCycle hc hr hn
  unfold Walk.meet Walk.addCycle
  split
  · exact h
  · next hnew =>
    refine ⟨h.chain,h.nodup,?_,?_⟩
    · intro cycle hmem
      rcases List.mem_append.mp hmem with hold | hadded
      · exact h.cycles cycle hold
      · rw [List.mem_singleton.mp hadded]
        exact hcycle
    · apply List.pairwise_append.mpr
      refine ⟨h.distinct,List.pairwise_singleton _ _,?_⟩
      intro a ha b hb he
      rw [List.mem_singleton.mp hb] at he
      apply hnew
      apply List.any_eq_true.mpr
      exact ⟨a,ha,sameMembers_iff.mpr fun x => (he x).symm⟩

/-- Passing over names that the innermost name of the path refers to, if there is one, keeps the walk
sound. The induction follows the search. -/
theorem Passes.sound {names : List String} {walk after : Walk} (hp : Passes links names walk after)
    (hr : ∀ current ∈ walk.path.head?, ∀ name ∈ names, links.Refers current name)
    (h : walk.Sound links) : after.Sound links ∧ after.path = walk.path := by
  induction hp with
  | nil walk => exact ⟨h,rfl⟩
  | @meet name rest walk after hmem _ ih =>
    obtain ⟨current,hc⟩ : ∃ current, walk.path.head? = some current :=
      ⟨_,List.head?_eq_some_head (List.ne_nil_of_mem hmem)⟩
    have hpath := walk.meet_path name
    have hmet := h.meet hc (hr current hc name List.mem_cons_self) hmem
    rw [hpath] at ih
    exact ih (fun x hx y hy => hr x hx y (List.mem_cons_of_mem name hy)) hmet
  | @skip name rest walk after _ _ _ ih =>
    exact ih (fun x hx y hy => hr x hx y (List.mem_cons_of_mem name hy)) h
  | @enter name rest walk inner after hfree _ _ _ ihInner ihRest =>
    have hentered : Walk.Sound links { walk with path := name::walk.path } := by
      refine ⟨List.isChain_cons.mpr ⟨?_,h.chain⟩,?_,h.cycles,h.distinct⟩
      · intro outer ho
        exact hr outer ho name List.mem_cons_self
      · exact List.nodup_cons.mpr ⟨hfree,h.nodup⟩
    obtain ⟨hinner,hpath⟩ := ihInner (by simp [Refers]) hentered
    have hback : inner.path.tail = walk.path := by simp [hpath]
    rw [hback] at ihRest
    exact ihRest (fun x hx y hy => hr x hx y (List.mem_cons_of_mem name hy))
      ⟨h.chain,h.nodup,hinner.cycles,hinner.distinct⟩

theorem cycles_sound (links : Links) : (∀ cycle ∈ links.cycles, IsCycle links.Refers cycle) ∧
    links.cycles.Pairwise fun a b => ¬ ∀ x, x ∈ a ↔ x ∈ b := by
  obtain ⟨walk,hwalk,he⟩ := exists_passes links
  have hstart : Walk.Sound links {} := ⟨.nil,.nil,by simp,.nil⟩
  obtain ⟨hsound,-⟩ := hwalk.sound (by simp) hstart
  rw [← he]
  exact ⟨hsound.cycles,hsound.distinct⟩

theorem cycles_eq_nil_iff (links : Links) :
    links.cycles = [] ↔ ∀ name, ¬ Relation.TransGen links.Refers name name := by
  constructor
  · intro h name hcycle
    have hwf := wellFounded_of_cycles_eq_nil h
    have hback : Relation.TransGen (fun a b => a ∈ links.next b) name name :=
      Relation.transGen_swap.mpr hcycle
    exact hwf.transGen.irrefl.irrefl name hback
  · intro h
    by_contra hne
    obtain ⟨cycle,hmem⟩ := List.exists_mem_of_ne_nil _ hne
    obtain ⟨name,hname⟩ := ((cycles_sound links).1 cycle hmem).exists_transGen
    exact h name hname

end Links

namespace Graph

/-- One of some nodes mentions another in its dependency, under any groups and negations. -/
def MentionsOf (nodes : List (GraphNode Graph)) (a b : String) : Prop :=
  ∃ n ∈ nodes, n.id = a ∧ (∃ d, n.dependency = some d ∧ b ∈ d.leaves) ∧ ∃ m ∈ nodes, m.id = b

/-- What the search for cycles makes of some nodes. -/
structure IsSearched (nodes : List (GraphNode Graph)) (cycles : List (List String)) : Prop where
  ends : ∃ walk, Links.Passes (linksOf nodes) (nodes.map GraphNode.id) {} walk ∧ walk.cycles = cycles
  complete : cycles = [] ↔ ∀ id, ¬ Relation.TransGen (MentionsOf nodes) id id
  sound : ∀ cycle ∈ cycles, IsCycle (MentionsOf nodes) cycle
  distinct : cycles.Pairwise fun a b => ¬ ∀ id, id ∈ a ↔ id ∈ b

theorem names_linksOf (nodes : List (GraphNode Graph)) :
    (linksOf nodes).names = nodes.map GraphNode.id := by
  simp [linksOf,Links.names]

theorem refers_linksOf {nodes : List (GraphNode Graph)} (hd : (nodes.map GraphNode.id).Nodup)
    {a b : String} : (linksOf nodes).Refers a b ↔ MentionsOf nodes a b := by
  have hnode (n : GraphNode Graph) (hn : n ∈ nodes) :
      (linksOf nodes).Refers n.id b ↔ b ∈ n.references ∧ ∃ m ∈ nodes, m.id = b := by
    simp [Links.Refers,Links.next,lookup_linksOf hd hn,names_linksOf]
  constructor
  · intro h
    -- a name that refers to another has been declared
    have ha : a ∈ nodes.map GraphNode.id := by
      by_contra hn
      have hnone : (linksOf nodes).lookup a = none := by
        apply List.lookup_eq_none_iff.mpr
        intro link hl
        obtain ⟨n,hmem,rfl⟩ := List.mem_map.mp hl
        apply bne_iff_ne.mpr
        rintro rfl
        exact hn (List.mem_map.mpr ⟨n,hmem,rfl⟩)
      simp [Links.Refers,Links.next,hnone] at h
    obtain ⟨n,hn,rfl⟩ := List.mem_map.mp ha
    obtain ⟨href,hdeclared⟩ := (hnode n hn).mp h
    exact ⟨n,hn,rfl,GraphNode.mem_references.mp href,hdeclared⟩
  · rintro ⟨n,hn,rfl,href,hdeclared⟩
    exact (hnode n hn).mpr ⟨GraphNode.mem_references.mpr href,hdeclared⟩

/-- The search for cycles among nodes of different ids, whatever their dependencies mention: it ends,
and finds every one of its cycles once; it finds none exactly if there is none. -/
theorem cycles_isSearched (nodes : List (GraphNode Graph)) (hd : (nodes.map GraphNode.id).Nodup) :
    IsSearched nodes (linksOf nodes).cycles := by
  have hrefers : (linksOf nodes).Refers = MentionsOf nodes := by
    funext a b
    exact propext (refers_linksOf hd)
  obtain ⟨hsound,hdistinct⟩ := (linksOf nodes).cycles_sound
  refine ⟨?_,?_,?_,hdistinct⟩
  · have hends := (linksOf nodes).exists_passes
    rwa [names_linksOf] at hends
  · rw [← hrefers]
    exact (linksOf nodes).cycles_eq_nil_iff
  · rw [← hrefers]
    exact hsound

/-- Two cycles that share a node, a node that waits for its own failure, and a name that is not
declared. -/
def tangle : List (GraphNode Graph) :=
  let node (id : String) (dependency : Dependency) : GraphNode Graph :=
    ⟨id,none,.action "echo" .null,some dependency,[],.once,none,none⟩
  [node "plan" (.any [.node "draft",.negation (.node "budget")]),
    node "draft" (.all [.node "review",.negation (.node "plan")]),
    node "review" (.node "draft"),
    node "print" (.negation (.node "print")),
    node "send" (.node "plan")]

theorem cycles_isSearched_tangle : (tangle.map GraphNode.id).Nodup ∧
    IsSearched tangle [["draft","review"],["plan","draft"],["print"]] := by
  have hd : (tangle.map GraphNode.id).Nodup := by decide
  have hfound : (linksOf tangle).cycles = [["draft","review"],["plan","draft"],["print"]] := by
    decide
  refine ⟨hd,?_⟩
  rw [← hfound]
  exact cycles_isSearched tangle hd

end Graph

end TaskGraph
