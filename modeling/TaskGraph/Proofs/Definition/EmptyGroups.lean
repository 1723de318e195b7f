import TaskGraph.Proofs.Definition.Lineup
import TaskGraph.Proofs.Definition.Places
import TaskGraph.Proofs.Graph.Grounded
import TaskGraph.Proofs.Graph.Nesting

/-!
Groups without terms in dependencies: which of them building reports, and at which node. A step that
follows another is looked at with the step before it joined to what it declares, and joining leaves
nothing of a conjunction without terms.
-/

namespace TaskGraph

namespace Dependency

/-- Somewhere in a dependency stands a group without terms. -/
inductive Hollow : Dependency → Prop
  | all : Hollow (.all [])
  | any : Hollow (.any [])
  | inAll {d : Dependency} {ds : List Dependency} : d ∈ ds → Hollow d → Hollow (.all ds)
  | inAny {d : Dependency} {ds : List Dependency} : d ∈ ds → Hollow d → Hollow (.any ds)
  | inNegation {d : Dependency} : Hollow d → Hollow (.negation d)

theorem hasEmptyGroup_iff {d : Dependency} : d.hasEmptyGroup = true ↔ d.Hollow := by
  induction d with
  | node id =>
    constructor
    · intro h
      cases h
    · intro h
      cases h
  | all ds ih =>
    simp only [hasEmptyGroup,someEmptyGroup_eq,Bool.or_eq_true,List.isEmpty_iff,List.any_eq_true]
    constructor
    · rintro (rfl | ⟨d,hd,he⟩)
      · exact .all
      · exact .inAll hd ((ih d hd).mp he)
    · intro h
      cases h with
      | all => exact .inl rfl
      | inAll hd he => exact .inr ⟨_,hd,(ih _ hd).mpr he⟩
  | any ds ih =>
    simp only [hasEmptyGroup,someEmptyGroup_eq,Bool.or_eq_true,List.isEmpty_iff,List.any_eq_true]
    constructor
    · rintro (rfl | ⟨d,hd,he⟩)
      · exact .any
      · exact .inAny hd ((ih d hd).mp he)
    · intro h
      cases h with
      | any => exact .inl rfl
      | inAny hd he => exact .inr ⟨_,hd,(ih _ hd).mpr he⟩
  | negation d ih =>
    rw [hasEmptyGroup,ih]
    constructor
    · exact .inNegation
    · intro h
      cases h with
      | inNegation h => exact h

/-- A conjunction keeps the groups without terms of its parts, unless a part is one itself. -/
theorem hasEmptyGroup_node_and (id : String) (d : Dependency) :
    ((Dependency.node id).and d).hasEmptyGroup = true ↔ d.hasEmptyGroup = true ∧ d ≠ .all [] := by
  -- With the id in front the conjunction itself is never empty.
  have hand : ((Dependency.node id).and d).hasEmptyGroup = d.conjuncts.any hasEmptyGroup := by
    rw [Dependency.and,hasEmptyGroup,someEmptyGroup_eq]
    simp [conjuncts,hasEmptyGroup]
  rw [hand]
  cases d with
  | all ds => cases ds <;> simp [conjuncts,hasEmptyGroup,someEmptyGroup_eq]
  | _ => simp [conjuncts]

/-- What is left of a group without terms once a step is joined to the one before it. -/
theorem hasEmptyGroup_following {previous : Option String} {declared : Option Dependency} :
    (∃ e, following previous declared = some e ∧ e.hasEmptyGroup = true) ↔
      ∃ e, declared = some e ∧ e.Hollow ∧ ¬ (previous.isSome = true ∧ e = .all []) := by
  cases previous with
  | none => simp [following,hasEmptyGroup_iff]
  | some id =>
    cases declared with
    | none => simp [following,hasEmptyGroup]
    | some d => simp [following,hasEmptyGroup_node_and,← hasEmptyGroup_iff]

end Dependency

namespace Block

/-- The members of a block that building looks at: the nodes of a map, the first of some steps, and
every later step that does not repeat an id. -/
inductive Holds : Block → Bool → NamedNode → Prop
  | node {nodes : List NamedNode} {terminal : Option (List String)} {n : NamedNode} :
    n ∈ nodes → Holds (.graph nodes terminal) false n
  | first {n : NamedNode} {rest : List NamedNode} : Holds (.steps (n::rest)) false n
  | later {first n : NamedNode} {front back : List NamedNode} : n.1 ∉ (first::front).map (·.1) →
    Holds (.steps (first::front ++ n::back)) true n

/-- A block at a path inside a block at a path; building looks at all the members around it. -/
inductive Reaches (path : String) (b : Block) : String → Block → Prop
  | self : Reaches path b path b
  | inside {p : String} {c : Block} {later : Bool} {n : NamedNode} {part : String × Block} :
    Reaches path b p c → c.Holds later n → part ∈ n.2.parts →
    Reaches path b (Site.inside (Site.qualify p n.1) part.1) part.2

theorem holds_iff {c : Block} {later : Bool} {n : NamedNode} :
    c.Holds later n ↔ ∃ previous, (previous,n) ∈ c.lineup ∧ previous.isSome = later := by
  constructor
  · intro h
    cases h with
    | node hn => exact ⟨none,List.mem_map.mpr ⟨n,hn,rfl⟩,rfl⟩
    | @first n rest =>
      exact ⟨none,mem_lineupFrom.mpr ⟨[],rest,rfl,List.not_mem_nil,List.not_mem_nil,rfl⟩,rfl⟩
    | @later first n front back hfront =>
      exact ⟨_,mem_lineupFrom.mpr ⟨_,back,rfl,List.not_mem_nil,hfront,rfl⟩,latest_cons first front⟩
  · rintro ⟨previous,hp,rfl⟩
    cases c with
    | graph nodes terminal =>
      obtain ⟨m,hm,he⟩ := List.mem_map.mp hp
      cases he
      exact .node hm
    | steps list =>
      obtain ⟨front,back,rfl,-,hfront,rfl⟩ := mem_lineupFrom.mp hp
      cases front with
      | nil => exact .first
      | cons first front =>
        rw [latest_cons first front]
        exact .later hfront

theorem Reaches.within {path p : String} {b c : Block} {later : Bool} {n : NamedNode}
    (hn : b.Holds later n) {part : String × Block} (hp : part ∈ n.2.parts)
    (h : part.2.Reaches (Site.inside (Site.qualify path n.1) part.1) p c) :
    b.Reaches path p c := by
  induction h with
  | self => exact .inside .self hn hp
  | inside _ hm ho ih => exact .inside ih hm ho

/-- Whatever block is seen stands at a path where building comes by. -/
theorem Reaches.sites {path p : String} {b c : Block} (held : NameSet) (h : b.Reaches path p c) :
    ∃ inner, Site.ofBlock p inner c ⊆ Site.ofBlock path held b := by
  induction h with
  | self => exact ⟨held,List.Subset.refl _⟩
  | @inside p c later n part _ hn hp ih =>
    obtain ⟨inner,hsub⟩ := ih
    obtain ⟨previous,hl,-⟩ := holds_iff.mp hn
    refine ⟨inner.union n.2.resources,fun s hs => hsub (mem_ofBlock.mpr (.inr (.inl ⟨_,hl,?_⟩)))⟩
    exact Site.mem_ofNode.mpr (.inr ⟨part,hp,hs⟩)

/-- Whatever is seen of a block is a block at a path, where it opens or closes, or one of its members,
joined to the step before it. -/
theorem exists_reaches (b : Block) {path : String} {held : NameSet} {s : Site}
    (h : s ∈ Site.ofBlock path held b) : ∃ p c, b.Reaches path p c ∧
      (s = .opening p c ∨ s = .closing p c ∨ ∃ previous n inner, (previous,n) ∈ c.lineup ∧
        s = .node (Site.qualify p n.1) inner
          { n.2 with dependsOn := Dependency.following previous n.2.dependsOn }) := by
  induction b using nested_induction generalizing path held with
  | step b ih =>
    rcases mem_ofBlock.mp h with rfl | ⟨⟨previous,n⟩,hl,hs⟩ | rfl
    · exact ⟨path,b,.self,.inl rfl⟩
    · rcases Site.mem_ofNode.mp hs with rfl | ⟨part,hp,hs⟩
      · exact ⟨path,b,.self,.inr (.inr ⟨previous,n,held,hl,rfl⟩)⟩
      · have hn : b.Holds previous.isSome n := holds_iff.mpr ⟨previous,hl,rfl⟩
        obtain ⟨p,c,hr,hs⟩ := ih n (mem_members hl) part hp hs
        exact ⟨p,c,.within hn hp hr,hs⟩
    · exact ⟨path,b,.self,.inr (.inl rfl)⟩

end Block

namespace Graph

variable {cap : Nat} {path p : String}

theorem reserved_ne (binding : String) :
    s!"item binding name '{binding}' is reserved" ≠ "dependency expression has an empty group" := by
  intro h
  have hhead := congrArg (fun s => s.toList.head?) h
  simp [toString] at hhead

/-- A group without terms is reported of a node as it is looked at. -/
theorem mem_nodeFaults_emptyGroup {held : NameSet} {d : NodeDefinition Block} :
    .invalidNode p "dependency expression has an empty group" ∈ nodeFaults cap path held d ↔
      p = path ∧ ∃ e, d.dependsOn = some e ∧ e.hasEmptyGroup = true := by
  have hother {test : Prop} [Decidable test] {reason : String}
      (hr : reason ≠ "dependency expression has an empty group") :
      ¬ .invalidNode p "dependency expression has an empty group" ∈
        if test then [Fault.invalidNode path reason] else [] := by
    split
    · intro h
      cases List.mem_singleton.mp h
      exact hr rfl
    · exact List.not_mem_nil
  simp only [nodeFaults,List.mem_append]
  constructor
  · rintro ((((h | h) | h) | h) | h)
    · obtain ⟨_,-,he⟩ := List.mem_map.mp h
      cases he
    · split at h
      · cases h
      · rcases List.mem_append.mp h with h | h
        · exact (hother (by decide) h).elim
        · exact (hother (by decide) h).elim
    · exact (hother (by decide) h).elim
    · split at h
      · next ht =>
        cases List.mem_singleton.mp h
        cases hd : d.dependsOn with
        | none => simp [hd] at ht
        | some e => exact ⟨rfl,e,rfl,by simpa [hd] using ht⟩
      · cases h
    · split at h
      · exact (hother (by decide) h).elim
      · split at h
        · exact (hother (by decide) h).elim
        · exact (hother (reserved_ne _) h).elim
      · exact (hother (by decide) h).elim
      · exact (hother (by decide) h).elim
      · cases h
  · rintro ⟨rfl,e,he,hempty⟩
    simp [he,hempty]

theorem notMem_opening (b : Block) : .invalidNode p "dependency expression has an empty group" ∉
    siteFaults cap (.opening path b) := by
  intro h
  rcases List.mem_append.mp h with h | h
  · obtain ⟨_,-,he⟩ := List.mem_map.mp h
    cases he
  · split at h
    · cases List.mem_singleton.mp h
    · cases h

theorem notMem_closing (b : Block) : .invalidNode p "dependency expression has an empty group" ∉
    siteFaults cap (.closing path b) := by
  intro h
  simp only [siteFaults,levelFaults,List.mem_append,List.mem_flatMap,List.mem_map] at h
  rcases h with ((⟨_,-,_,-,he⟩ | ⟨_,-,ht⟩) | ⟨_,-,he⟩) | ⟨_,-,he⟩
  · cases he
  · obtain ⟨_,-,he⟩ := List.mem_filterMap.mp ht
    split at he
    · simp at he
    · split at he
      · cases he
      · cases he
  · cases he
  · cases he

end Graph

namespace Definition

variable {cap : Nat} {d : Definition}

/-- An empty group is reported of a node, in whatever block, exactly if the node declares a
dependency in which one stands. A later step may declare the empty conjunction: the step before it takes
its place, and nothing is reported. -/
theorem emptyGroup_reported_iff (cap : Nat) (d : Definition) (path : String) :
    (∃ faults, d.build cap = .error faults ∧
      .invalidNode path "dependency expression has an empty group" ∈ faults) ↔
    ∃ p c later n e, d.block.Reaches "" p c ∧ c.Holds later n ∧ path = Site.qualify p n.1 ∧
      n.2.dependsOn = some e ∧ e.Hollow ∧ ¬ (later = true ∧ e = .all []) := by
  rw [reports_iff,mem_faults]
  constructor
  · rintro (⟨s,hs,hf⟩ | hf)
    · obtain ⟨p,c,hr,rfl | rfl | ⟨previous,n,inner,hl,rfl⟩⟩ := Block.exists_reaches d.block hs
      · exact absurd hf (Graph.notMem_opening c)
      · exact absurd hf (Graph.notMem_closing c)
      · obtain ⟨rfl,hempty⟩ := Graph.mem_nodeFaults_emptyGroup.mp hf
        obtain ⟨e,he,hh,hnot⟩ := Dependency.hasEmptyGroup_following.mp hempty
        exact ⟨p,c,_,n,e,hr,Block.holds_iff.mpr ⟨previous,hl,rfl⟩,rfl,he,hh,hnot⟩
    · obtain ⟨_,-,he⟩ := List.mem_map.mp hf
      cases he
  · rintro ⟨p,c,later,n,e,hr,hn,rfl,he,hh,hnot⟩
    obtain ⟨previous,hl,rfl⟩ := Block.holds_iff.mp hn
    obtain ⟨inner,hsub⟩ := hr.sites []
    have hempty := Dependency.hasEmptyGroup_following.mpr ⟨e,he,hh,hnot⟩
    refine .inl ⟨_,hsub (Block.mem_ofBlock.mpr (.inr (.inl ⟨_,hl,Site.mem_ofNode.mpr (.inl rfl)⟩))),?_⟩
    exact Graph.mem_nodeFaults_emptyGroup.mpr ⟨rfl,hempty⟩

/-- A step that declares a conjunction without terms. -/
def idler : NamedNode :=
  ("cook",{ kind := .action "echo" .null, dependsOn := some (.all []) })

/-- Steps of which the second declares a conjunction without terms. -/
def chores : Block := .steps [("shop",{ kind := .action "echo" .null }),idler]

def errands : Definition where
  name := "errands"
  steps := some chores.members

/-- The second step declares a group without terms, and the definition is built. -/
theorem errands_hides_emptyGroup :
    errands.block.Reaches "" "steps/steps" chores ∧ chores.Holds true idler ∧
    Site.qualify "steps/steps" idler.1 = "steps/steps/cook" ∧
    (∃ e, idler.2.dependsOn = some e ∧ e.Hollow) ∧
    errands.build standardCap = .ok (errands.block.toGraph standardCap) := by
  have houter : errands.block.Holds false ("steps",{ kind := .sequence chores }) :=
    .node List.mem_cons_self
  have hinner : ("steps",chores) ∈ NodeDefinition.parts { kind := .sequence chores } :=
    List.mem_cons_self
  have hreach : errands.block.Reaches "" "steps/steps" chores := .inside .self houter hinner
  have hlater : chores.Holds true idler :=
    Block.holds_iff.mpr ⟨some "shop",List.mem_cons_of_mem _ List.mem_cons_self,rfl⟩
  exact ⟨hreach,hlater,by decide,⟨_,rfl,.all⟩,rfl⟩

end Definition

end TaskGraph
