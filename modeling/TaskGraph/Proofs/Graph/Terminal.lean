import Mathlib.Data.Fintype.Card
import Mathlib.Data.Set.Finite.List
import TaskGraph.Proofs.Graph.Intact
import TaskGraph.Proofs.Graph.Origin
import TaskGraph.RunResult

/-!
The nodes that decide the outcome of a run: those that are declared, the last step, or the nodes that no
other waits for. What is left to declarations can be empty, or pass unnoticed beside a list of steps.
-/

namespace TaskGraph

namespace Graph

variable {nodes : List (GraphNode Graph)} {terminal : List String} {id : String}

theorem mem_sinks : id ∈ sinks (mk nodes terminal) ↔
    id ∈ nodes.map GraphNode.id ∧ ∀ n ∈ nodes, id ∉ n.references := by
  have hempty : ((mk nodes terminal).dependents id).isEmpty = true ↔
      ∀ n ∈ nodes, id ∉ n.references := by
    simp [dependents,links,linksOf,Links.previous,Graph.nodes]
  rw [sinks,List.mem_filter,hempty]
  rfl

/-- Where no chain of dependencies comes back, some node is mentioned by none. -/
theorem Intact.exists_unmentioned {g : Graph} (hg : g.Intact) :
    ∃ id ∈ g.ids, ∀ n ∈ g.nodes, id ∉ n.references := by
  let r (a b : {id // id ∈ g.ids}) : Prop := Relation.TransGen g.Mentions a b
  have : Finite {id // id ∈ g.ids} := (List.finite_toSet g.ids).to_subtype
  have : IsTrans _ r := ⟨fun _ _ _ => Relation.TransGen.trans⟩
  have : Std.Irrefl r := ⟨fun a => hg.acyclic a⟩
  have hwf : WellFounded r := Finite.wellFounded_of_trans_of_irrefl r
  obtain ⟨first,hfirst⟩ := List.exists_mem_of_ne_nil g.nodes hg.inhabited
  obtain ⟨⟨id,hid⟩,-,hmin⟩ := hwf.has_min Set.univ ⟨⟨first.id,mem_ids_of_mem hfirst⟩,trivial⟩
  refine ⟨id,hid,fun n hn href => ?_⟩
  -- Any node that mentioned it would lie below it.
  exact hmin ⟨n.id,mem_ids_of_mem hn⟩ trivial (.single ⟨n,hn,rfl,href⟩)

end Graph

namespace Block

/-- What decides the outcome of a graph, by the block that it belongs to. -/
structure Settles (c : Block) (h : Graph) : Prop where
  own : ∀ id ∈ h.terminal, id ∈ h.ids
  last : ∀ list, c = .steps list → ∃ front step, list = front ++ [step] ∧ h.terminal = [step.1]
  declared : ∀ nodes ids, c = .graph nodes (some ids) → h.terminal = ids
  derived : ∀ nodes, c = .graph nodes none →
    ∀ id, id ∈ h.terminal ↔ id ∈ h.ids ∧ ∀ n ∈ h.nodes, id ∉ n.references
  empty : h.terminal = [] ↔ ∃ nodes, c = .graph nodes (some [])

theorem toGraph_terminal_steps (cap : Nat) (list : List NamedNode) :
    ((Block.steps list).toGraph cap).terminal =
      (((Block.steps list).drafts cap).getLast?.map GraphNode.id).toList := by
  rw [toGraph,Graph.ofNodes,drafts]
  rfl

theorem toGraph_terminal_declared (cap : Nat) (nodes : List NamedNode) (ids : List String) :
    ((Block.graph nodes (some ids)).toGraph cap).terminal = ids := by
  rw [toGraph,Graph.ofNodes]
  rfl

theorem mem_toGraph_terminal {cap : Nat} {nodes : List NamedNode} {id : String} :
    id ∈ ((Block.graph nodes none).toGraph cap).terminal ↔
      id ∈ ((Block.graph nodes none).toGraph cap).ids ∧
        ∀ n ∈ ((Block.graph nodes none).toGraph cap).nodes, id ∉ n.references := by
  rw [toGraph,Graph.ofNodes]
  exact Graph.mem_sinks

theorem Faultless.terminal_steps {cap : Nat} {list : List NamedNode}
    (hb : (Block.steps list).Faultless cap) :
    ((Block.steps list).toGraph cap).terminal = (list.getLast?.map (·.1)).toList := by
  have hkept : (Block.steps list).lineup.map (·.2) = list := hb.lineup_nodes
  have hid : GraphNode.id ∘ draft cap = fun p => p.2.1 := funext (draft_id cap)
  have hlast : ((Block.steps list).drafts cap).getLast?.map GraphNode.id =
      list.getLast?.map (·.1) := by
    rw [drafts_eq,List.getLast?_map,Option.map_map,hid]
    conv_rhs => rw [← hkept,List.getLast?_map,Option.map_map]
    rfl
  rw [toGraph_terminal_steps,hlast]

theorem Faultless.settles {cap : Nat} {c : Block} (hc : c.Faultless cap)
    (hi : (c.toGraph cap).Intact) : c.Settles (c.toGraph cap) := by
  have hown : ∀ id ∈ (c.toGraph cap).terminal, id ∈ (c.toGraph cap).ids := by
    intro id hid
    obtain ⟨n,hn⟩ := Option.isSome_iff_exists.mp (hi.terminal id hid)
    obtain ⟨hmem,rfl⟩ := (hi.keyed id n).mp hn
    exact Graph.mem_ids_of_mem hmem
  cases c with
  | steps list =>
    have hne : list ≠ [] := by
      rintro rfl
      exact hi.inhabited (by rw [toGraph_nodes]; rfl)
    obtain ⟨front,step,rfl⟩ := (List.eq_nil_or_concat' list).resolve_left hne
    have hlast : ((Block.steps (front ++ [step])).toGraph cap).terminal = [step.1] := by
      rw [hc.terminal_steps,List.getLast?_concat]
      rfl
    refine ⟨hown,?_,fun _ _ he => (by cases he),fun _ he => (by cases he),?_⟩
    · intro list he
      cases he
      exact ⟨front,step,rfl,hlast⟩
    · rw [hlast]
      simp
  | graph nodes terminal =>
    cases terminal with
    | some ids =>
      have hsame := toGraph_terminal_declared cap nodes ids
      refine ⟨hown,fun _ he => (by cases he),?_,fun _ he => (by cases he),?_⟩
      · intro nodes' ids' he
        cases he
        exact hsame
      · rw [hsame]
        constructor
        · rintro rfl
          exact ⟨nodes,rfl⟩
        · rintro ⟨nodes',he⟩
          cases he
          rfl
    | none =>
      refine ⟨hown,fun _ he => (by cases he),fun _ _ he => (by cases he),?_,?_⟩
      · intro nodes' he id
        cases he
        exact mem_toGraph_terminal
      · constructor
        · intro hnone
          obtain ⟨id,hid,hfree⟩ := hi.exists_unmentioned
          have hmem := mem_toGraph_terminal.mpr ⟨hid,hfree⟩
          rw [hnone] at hmem
          cases hmem
        · rintro ⟨nodes',he⟩
          cases he

end Block

namespace Definition

variable {cap : Nat} {d : Definition}

theorem block_of_nodes (h : d.usesSteps = false) : d.block = .graph d.nodes d.terminal := by
  unfold block
  unfold usesSteps at h
  split
  · next hs hn => simp [hs,hn] at h
  · rfl

/-- Beside a list of steps, declared terminal nodes make no difference. -/
theorem block_of_steps (h : d.usesSteps = true) (terminal : Option (List String)) :
    { d with terminal }.block = d.block := by
  rw [usesSteps,Bool.and_eq_true] at h
  obtain ⟨steps,hs⟩ := Option.isSome_iff_exists.mp h.2
  simp [block,h.1,hs]

/-- Building looks at nothing but the outermost block. -/
theorem build_congr {e : Definition} (h : d.block = e.block) : d.build cap = e.build cap := by
  simp only [build,faults,sites,h]

theorem faults_of_undeclared (h : d.usesSteps = false) {ids : List String}
    (ht : d.terminal = some ids) {id : String} (hid : id ∈ ids) (hn : id ∉ d.nodes.map (·.1)) :
    .unknownTerminal id ∈ d.faults cap := by
  have hclose : Site.closing "" d.block ∈ d.sites := Block.mem_ofBlock.mpr (.inr (.inr rfl))
  refine List.mem_append_left _ (List.mem_flatMap.mpr ⟨_,hclose,List.mem_append_right _ ?_⟩)
  rw [block_of_nodes h,ht]
  refine List.mem_map.mpr ⟨id,List.mem_filter.mpr ⟨hid,?_⟩,rfl⟩
  rw [Block.drafts_ids,Block.lineup,List.map_map]
  simpa using hn

/-- How the terminal nodes of a definition come about: in the graphs that are built, and where they are
declared. -/
structure SettlesTerminals (cap : Nat) (d : Definition) : Prop where
  matched : ∀ g, d.build cap = .ok g → ∀ h, g.Contains h → ∃ c, d.block.Matches g c h
  settled : ∀ g, d.build cap = .ok g → ∀ c h, d.block.Matches g c h → c.Settles h
  rejected : d.usesSteps = false → ∀ ids, d.terminal = some ids → ∀ id ∈ ids,
    id ∉ d.nodes.map (·.1) → ∃ faults, d.build cap = .error faults ∧ .unknownTerminal id ∈ faults
  unheeded : d.usesSteps = true → ∀ terminal, { d with terminal }.build cap = d.build cap

/-- Every graph that is built has the terminal nodes that its block calls for, and a map of nodes that
declares an unknown one is not built. -/
theorem settlesTerminals (cap : Nat) (d : Definition) (hk : d.isKeyed = true) :
    d.SettlesTerminals cap where
  matched g hb h hc := by
    obtain ⟨-,rfl⟩ := build_eq_ok.mp hb
    exact (faultless_of_build hb hk).exists_matches hc
  settled g hb c h hm := by
    obtain ⟨-,rfl⟩ := build_eq_ok.mp hb
    obtain ⟨hc,rfl⟩ := (faultless_of_build hb hk).eq_of_matches hm
    exact hc.settles (intact_of_build hb hk hm.contains)
  rejected hs ids ht id hid hn := reports_iff.mpr (faults_of_undeclared hs ht hid hn)
  unheeded hs terminal := build_congr (block_of_steps hs terminal)

/-- Of the dishes the last counts, of the service the table, and of the evening what ends it. -/
def banquet : Definition where
  name := "banquet"
  nodes := [
    ("cook",{ kind := .sequence (.steps [("chop",{ kind := .action "echo" .null }),
                ("boil",{ kind := .action "echo" .null })]) }),
    ("serve",{ kind := .sequence (.graph [("table",{ kind := .action "echo" .null }),
                 ("music",{ kind := .action "echo" .null })] (some ["table"])),
               dependsOn := some (.node "cook") }),
    ("tidy",{ kind := .action "echo" .null, dependsOn := some (.node "cook") })]

theorem settlesTerminals_banquet : banquet.isKeyed = true ∧
    banquet.build standardCap = .ok (banquet.block.toGraph standardCap) ∧
    (banquet.block.toGraph standardCap).terminal = ["serve","tidy"] ∧
    banquet.SettlesTerminals standardCap :=
  ⟨rfl,rfl,by decide,settlesTerminals standardCap banquet rfl⟩

/-- A step, and a terminal node that is declared nowhere. -/
def unheeded : Definition where
  name := "unheeded"
  steps := some [("draw",{ kind := .action "echo" .null })]
  terminal := some ["frame"]

/-- A node, and no terminal node at all. -/
def undecided : Definition where
  name := "undecided"
  nodes := [("draw",{ kind := .action "fail" .null })]
  terminal := some []

/-- Both are built: beside steps an unknown terminal node is not noticed, and on an empty list every
run that is not cancelled is a success. -/
theorem terminals_pass_unnoticed :
    unheeded.build standardCap = .ok (unheeded.block.toGraph standardCap) ∧
    (∀ h, (unheeded.block.toGraph standardCap).Contains h → "frame" ∉ h.ids) ∧
    undecided.build standardCap = .ok (undecided.block.toGraph standardCap) ∧
    (undecided.block.toGraph standardCap).terminal = [] ∧
    ∀ name records, (RunResult.assemble name records
      (undecided.block.toGraph standardCap).terminal false).status = .success := by
  refine ⟨rfl,fun h hc => ?_,rfl,rfl,fun name records => rfl⟩
  cases hc with
  | self => decide
  | inside hn hi hc =>
    cases List.mem_singleton.mp hn
    cases List.mem_singleton.mp hi
    cases hc with
    | self => decide
    | inside hn hi _ =>
      cases List.mem_singleton.mp hn
      cases hi

end Definition

end TaskGraph
