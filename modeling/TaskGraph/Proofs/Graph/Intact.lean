import Mathlib.Order.WellFounded
import TaskGraph.Proofs.Graph.Grounded

/-!
What may be relied on in the graph of a definition that is built, and in every graph inside it: there
are nodes, each under its own id; all that they refer to is there too; no chain of dependencies comes
back to where it started; and the limits of every node leave it something to do.
-/

namespace TaskGraph

/-- One node waits for another if its dependency mentions it. -/
def Graph.Mentions (g : Graph) (a b : String) : Prop := ∃ n ∈ g.nodes, n.id = a ∧ b ∈ n.references

/-- Whether the limits and names in a kind can be used. -/
def NodeKind.IsUsable : NodeKind Graph → Prop
  | .action name _ => name ≠ "" ∧ Text.isBlankText name = false
  | .forEach _ binding _ => Text.isBlankText binding = false ∧ binding ∉ reservedBindings
  | .loop _ cap _ => 1 ≤ cap
  | _ => True

/-- Whether a node gets at least one attempt and some time, and can use what its kind names. -/
structure GraphNode.IsUsable (n : GraphNode Graph) : Prop where
  attempts : 1 ≤ n.retry.maxAttempts
  time : n.timeout ≠ some .zero
  kind : n.kind.IsUsable

structure Graph.Intact (g : Graph) : Prop where
  inhabited : g.nodes ≠ []
  keyed : ∀ id n, g.node? id = some n ↔ n ∈ g.nodes ∧ n.id = id
  dependencies : ∀ n ∈ g.nodes, ∀ id ∈ n.references, (g.node? id).isSome
  terminal : ∀ id ∈ g.terminal, (g.node? id).isSome
  targets : ∀ n ∈ g.nodes, ∀ id ∈ n.kind.targets,
    id ≠ n.id ∧ ∃ m, g.node? id = some m ∧ n.id ∈ m.references
  acyclic : ∀ id, ¬ Relation.TransGen g.Mentions id id
  usable : ∀ n ∈ g.nodes, n.IsUsable

namespace Graph

variable {g : Graph}

theorem node?_isSome {id : String} (h : id ∈ g.ids) : (g.node? id).isSome := by
  obtain ⟨n,hn,rfl⟩ := mem_ids.mp h
  exact List.find?_isSome.mpr ⟨n,hn,beq_self_eq_true n.id⟩

namespace Sound

theorem node?_eq_some (hg : g.Sound) {id : String} {n : GraphNode Graph} :
    g.node? id = some n ↔ n ∈ g.nodes ∧ n.id = id := by
  constructor
  · intro h
    exact ⟨List.mem_of_find?_eq_some h,by simpa using List.find?_some h⟩
  · rintro ⟨hn,rfl⟩
    obtain ⟨m,hm⟩ := Option.isSome_iff_exists.mp (node?_isSome (mem_ids_of_mem hn))
    have hid : m.id = n.id := by simpa using List.find?_some hm
    rw [hm,hg.eq_of_id (List.mem_of_find?_eq_some hm) hn hid]

theorem acyclic (hg : g.Sound) (id : String) : ¬ Relation.TransGen g.Mentions id id := by
  intro h
  have hlt : ∀ a b, g.Mentions a b → b ∈ g.dependencies a := by
    rintro a b ⟨n,hn,rfl,hb⟩
    exact hg.mem_dependencies hn hb
  have hback : Relation.TransGen (fun a b => a ∈ g.dependencies b) id id :=
    Relation.transGen_swap.mp (Relation.TransGen.mono hlt id id h)
  exact hg.wellFounded.transGen.irrefl.irrefl id hback

end Sound

/-- A node whose definition is faultless is usable. -/
theorem usable_of_nodeFaults {cap : Nat} {path id : String} {held : NameSet}
    {d : NodeDefinition Block} {dependsOn : Option Dependency} {n : GraphNode Graph}
    (hd : Block.Defines cap id d n) (h : nodeFaults cap path held { d with dependsOn } = []) :
    n.IsUsable := by
  simp only [nodeFaults,List.append_eq_nil_iff] at h
  obtain ⟨⟨⟨⟨-,hretry⟩,htime⟩,-⟩,hkind⟩ := h
  refine ⟨?_,?_,?_⟩
  · rw [hd.retry]
    cases hr : d.retry with
    | none => exact Nat.le_refl 1
    | some r =>
      simp only [hr,List.append_eq_nil_iff] at hretry
      have hne : r.maxAttempts ≠ 0 := by simpa using hretry.1
      exact Nat.one_le_iff_ne_zero.mpr hne
  · rw [hd.timeout]
    simpa using htime
  · rw [hd.kind]
    cases hk : d.kind with
    | action name params =>
      have hname : Text.isBlankText name = false := by simpa [hk] using hkind
      refine ⟨?_,hname⟩
      rintro rfl
      cases hname
    | forEach items binding template =>
      simp only [hk] at hkind
      split at hkind
      · cases hkind
      next hblank => exact ⟨by simpa using hblank,by simpa using hkind⟩
    | loop condition ownCap body =>
      have hcap : ownCap.getD cap ≠ 0 := by simpa [hk] using hkind
      exact Nat.one_le_iff_ne_zero.mpr hcap
    | _ => trivial

end Graph

namespace Block

theorem drafts_ne_nil {b : Block} (cap : Nat) (h : b.isEmpty = false) : b.drafts cap ≠ [] := by
  cases b with
  | steps steps =>
    cases steps with
    | nil => cases h
    | cons step rest => simp [drafts,graphNodes,Graph.distinct,Graph.chain]
  | graph nodes terminal =>
    cases nodes with
    | nil => cases h
    | cons node rest => simp [drafts,graphNodes]

theorem toGraph_inhabited {path : String} {b : Block} (cap : Nat)
    (h : Graph.siteFaults cap (.opening path b) = []) : (b.toGraph cap).nodes ≠ [] := by
  have hempty : b.isEmpty = false := by
    have hall := (List.append_eq_nil_iff.mp h).2
    cases he : b.isEmpty with
    | false => rfl
    | true => simp [he] at hall
  rw [toGraph_nodes,Graph.gated]
  simpa using drafts_ne_nil cap hempty

theorem toGraph_usable {cap : Nat} (path : String) (held : NameSet) {b : Block}
    (hf : ∀ s ∈ Site.ofBlock path held b, Graph.siteFaults cap s = []) :
    ∀ n ∈ (b.toGraph cap).nodes, n.IsUsable := by
  intro n hn
  obtain ⟨id,d,previous,hd,hsub⟩ := ofBlock_sees path held hn
  exact Graph.usable_of_nodeFaults hd (hf _ (hsub (Site.mem_ofNode.mpr (.inl rfl))))

end Block

namespace Definition

variable {cap : Nat} {d : Definition} {g h : Graph}

/-- Every graph of a definition that is built, at whatever depth, is intact. -/
theorem intact_of_build (hb : d.build cap = .ok g) (hk : d.isKeyed = true) (hc : g.Contains h) :
    h.Intact := by
  have hsound := sound_of_build hb hk hc
  have hgrounded := grounded_of_build hb hc
  obtain ⟨hf,rfl⟩ := build_eq_ok.mp hb
  obtain ⟨b,path,held,rfl,hsub⟩ := Block.ofBlock_sees_contained "" [] hc
  rw [faults,List.append_eq_nil_iff,List.flatMap_eq_nil_iff] at hf
  have hfree (s : Site) (hs : s ∈ Site.ofBlock path held b) : Graph.siteFaults cap s = [] :=
    hf.1 s (hsub hs)
  have hopen : Site.opening path b ∈ Site.ofBlock path held b := by
    cases b <;> rw [Site.ofBlock] <;> exact List.mem_cons_self
  exact {
    inhabited := Block.toGraph_inhabited cap (hfree _ hopen)
    keyed := fun id n => hsound.node?_eq_some
    dependencies := fun n hn id hid => Graph.node?_isSome (hsound.closed n hn id hid)
    terminal := fun id hid => Graph.node?_isSome (hgrounded.terminal id hid)
    targets := fun n hn id hid => by
      obtain ⟨hne,hmem⟩ := hsound.targets n hn id hid
      obtain ⟨m,hm,rfl⟩ := Graph.mem_ids.mp hmem
      have hreq : m.Requires n.id := hsound.gated n hn m hm hid
      exact ⟨hne,m,hsound.node?_eq_some.mpr ⟨hm,rfl⟩,hreq.mem_references⟩
    acyclic := hsound.acyclic
    usable := Block.toGraph_usable path held hfree }

def ring : Block := .steps [("ring",{ kind := .action "echo" .null })]

/-- Whoever does not open is rung up again, up to the standard number of times. -/
def visits : Definition where
  name := "visits"
  nodes := [("choose",{ kind := .branch [⟨.bool true,.one "visit"⟩] (some (.one "rest")) }),
    ("visit",{ kind := .forEach .null "house" (.steps [("knock",{ kind := .action "echo" .null })])
               retry := some ⟨2,.zero,.one,none⟩
               timeout := some (.ofSecs 1)
               onFailure := some (.steps [("again",{ kind := .loop .null none ring })]) }),
    ("rest",{ kind := .action "echo" .null })]

theorem intact_of_build_visits :
    visits.build standardCap = .ok (visits.block.toGraph standardCap) ∧ visits.isKeyed = true ∧
      (visits.block.toGraph standardCap).Contains (ring.toGraph standardCap) ∧
      (ring.toGraph standardCap).Intact := by
  have hb : visits.build standardCap = .ok (visits.block.toGraph standardCap) := rfl
  have hring : (visits.block.toGraph standardCap).Contains (ring.toGraph standardCap) := by
    have hhandler : (visits.block.toGraph standardCap).nodes[1].nested[1].Contains
        (ring.toGraph standardCap) := .inside List.mem_cons_self List.mem_cons_self (.self _)
    exact .inside (List.getElem_mem _) (List.getElem_mem _) hhandler
  exact ⟨hb,rfl,hring,intact_of_build hb rfl hring⟩

end Definition

end TaskGraph
