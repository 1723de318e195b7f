import TaskGraph.Definition.Wire
import TaskGraph.Proofs.Definition.Places
import TaskGraph.Proofs.Yaml.Parts

/-!
What the parts of a definition that has been read are like: durations have texts that say how long
they are, counts keep their bounds, the objects in values are in order, and no map of nodes has two with
one id, at any depth, because the later takes the place of the earlier. Each of these is kept by the
written form.
-/

namespace TaskGraph

open Yaml

/-- The text of a duration says how long it is. -/
def Duration.IsLegible (d : Duration) : Prop := parse? d.spoken = some d

theorem Yaml.Reader.duration?_isLegible {α : Type} {r : Reader α} {x : α} {d : Duration}
    (h : r.duration? x = some d) : d.IsLegible := by
  obtain ⟨text,-,h⟩ := Option.bind_eq_some_iff.mp h
  exact Duration.parse?_spoken_of_parse? h

namespace RetrySettings

structure IsLegible (s : RetrySettings) : Prop where
  maxAttempts : s.maxAttempts ≤ greatestCount
  delay : s.delay.IsLegible
  maxDelay : ∀ d ∈ s.maxDelay, d.IsLegible

theorem read?_isLegible {α : Type} {r : Reader α} {embed : Tree → α} {real : Double → Prop}
    (hr : r.IsFaithful embed real) {x : α} {s : RetrySettings} (h : read? r x = some s) :
    s.IsLegible := by
  unfold read? at h
  simp only [Option.bind_eq_bind,Option.bind_eq_some_iff,Option.some.injEq] at h
  obtain ⟨entries,-,maxAttempts,ha,delay,hd,multiplier,-,maxDelay,hm,rfl⟩ := h
  constructor
  · obtain rfl | ⟨x,hx⟩ := Entries.defaulted?_eq_some ha
    · exact (by decide : 3 ≤ greatestCount)
    · exact hr.nat_le hx
  · obtain rfl | ⟨x,hx⟩ := Entries.defaulted?_eq_some hd
    · exact @Duration.parse?_spoken (.ofSecs 1) (by decide)
    · exact Reader.duration?_isLegible hx
  · rintro d rfl
    obtain ⟨x,hx⟩ := Entries.exists_of_optional? hm
    exact Reader.duration?_isLegible hx

end RetrySettings

section Nested

variable {Nested : Type} {nested? : Tree → Option Nested}

/-- The graphs that lie in a kind. -/
def KindDefinition.nested : KindDefinition Nested → List Nested
  | .action .. | .branch .. => []
  | .sequence b | .forEach _ _ b | .loop _ _ b => [b]
  | .guarded body recovery always => body::(recovery.toList ++ always.toList)

def NodeDefinition.nested (d : NodeDefinition Nested) : List Nested :=
  d.kind.nested ++ d.onFailure.toList

theorem NodeDefinition.nested_eq (d : NodeDefinition Block) : d.nested = d.parts.map (·.2) := by
  obtain ⟨description,kind,dependsOn,resources,retry,timeout,onFailure⟩ := d
  have hkind : kind.nested = kind.parts.map (·.2) := by
    cases kind with
    | guarded body recovery always => cases recovery <;> cases always <;> rfl
    | _ => rfl
  rw [nested,parts,List.map_append,← hkind]
  cases onFailure <;> rfl

theorem NodeDefinition.mem_nested {d : NodeDefinition Block} {part : String × Block}
    (h : part ∈ d.parts) : part.2 ∈ d.nested :=
  d.nested_eq ▸ List.mem_map_of_mem h

theorem ArmDefinition.ofTree?_tidy {tree : Tree} {arm : ArmDefinition} (h : ofTree? tree = some arm) :
    arm.condition.Tidy Value.isFinite := by
  unfold ofTree? at h
  simp only [Option.bind_eq_bind,Option.bind_eq_some_iff,Option.some.injEq] at h
  obtain ⟨entries,-,condition,hc,targets,-,rfl⟩ := h
  obtain ⟨x,hx⟩ := Entries.required?_eq_some hc
  exact Tree.value?_tidy x hx

/-- Whether the values and counts in a kind are such as are read. -/
def KindDefinition.IsLegible : KindDefinition Nested → Prop
  | .action _ params => params.Tidy Value.isFinite
  | .sequence _ | .guarded .. => True
  | .forEach items _ _ => items.Tidy Value.isFinite
  | .loop condition cap _ => condition.Tidy Value.isFinite ∧ ∀ n ∈ cap, n ≤ greatestCount
  | .branch arms _ => ∀ arm ∈ arms, arm.condition.Tidy Value.isFinite

/-- A kind that has been read is legible, and whatever graphs lie in it have been read from trees. -/
theorem KindDefinition.ofEntries?_spec {entries : List (Tree × Tree)} {kind : KindDefinition Nested}
    (h : ofEntries? nested? entries = some kind) :
    kind.IsLegible ∧ ∀ b ∈ kind.nested, ∃ tree, nested? tree = some b := by
  have hvalue {parts : Entries Tree} {names : List String} {v : Value}
      (hv : parts.required? names Tree.value? = some v) : v.Tidy Value.isFinite := by
    obtain ⟨x,hx⟩ := Entries.required?_eq_some hv
    exact Tree.value?_tidy x hx
  have hone {parts : Entries Tree} {names : List String} {c : Nested}
      (hc : parts.required? names nested? = some c) : ∀ b ∈ [c], ∃ tree, nested? tree = some b := by
    intro b hb
    rw [List.mem_singleton.mp hb]
    exact Entries.required?_eq_some hc
  have hopt {parts : Entries Tree} {names : List String} {c : Option Nested}
      (hc : parts.optional? names (Tree.asOption? nested?) = some c) :
      ∀ b ∈ c.toList, ∃ tree, nested? tree = some b := by
    intro b hb
    rw [Option.mem_toList.mp hb] at hc
    exact Tree.exists_of_optional? hc
  unfold ofEntries? at h
  split at h
  · obtain ⟨name,-,h⟩ := Option.bind_eq_some_iff.mp h
    unfold ofParts? at h
    dsimp only at h
    split at h <;>
      simp only [Option.bind_eq_bind,Option.bind_eq_some_iff,Option.some.injEq] at h
    · obtain ⟨parts,-,action,-,params,hparams,rfl⟩ := h
      refine ⟨?_,nofun⟩
      obtain rfl | ⟨x,hx⟩ := Entries.defaulted?_eq_some hparams
      · exact .null
      · exact Tree.value?_tidy x hx
    · obtain ⟨parts,-,steps,hsteps,rfl⟩ := h
      exact ⟨trivial,hone hsteps⟩
    · obtain ⟨parts,-,items,hitems,binding,-,template,htemplate,rfl⟩ := h
      exact ⟨hvalue hitems,hone htemplate⟩
    · obtain ⟨parts,-,condition,hcondition,cap,hcap,body,hbody,rfl⟩ := h
      refine ⟨⟨hvalue hcondition,?_⟩,hone hbody⟩
      rintro n rfl
      obtain ⟨x,hx⟩ := Tree.exists_of_optional? hcap
      exact Tree.asNat?_le hx
    · obtain ⟨parts,-,arms,harms,fallback,-,rfl⟩ := h
      refine ⟨fun arm harm => ?_,nofun⟩
      obtain ⟨x,hx⟩ := Entries.required?_eq_some harms
      unfold Tree.asList? at hx
      split at hx
      · obtain ⟨item,-,hitem⟩ := mem_of_mapM hx harm
        exact ArmDefinition.ofTree?_tidy hitem
      · cases hx
    · obtain ⟨parts,-,body,hbody,recovery,hrecovery,always,halways,rfl⟩ := h
      refine ⟨trivial,fun b hb => ?_⟩
      rcases List.mem_cons.mp hb with rfl | hb
      · exact hone hbody _ List.mem_cons_self
      rcases List.mem_append.mp hb with hb | hb
      · exact hopt hrecovery b hb
      · exact hopt halways b hb
  · cases h

namespace NodeDefinition

/-- Whether what stands in a node, apart from the graphs in it, is such as is read. -/
structure IsLegible (d : NodeDefinition Nested) : Prop where
  kind : d.kind.IsLegible
  retry : ∀ s ∈ d.retry, s.IsLegible
  timeout : ∀ t ∈ d.timeout, t.IsLegible

/-- A node such as is read, of which all graphs have been read from trees. -/
def IsRead (nested? : Tree → Option Nested) (d : NodeDefinition Nested) : Prop :=
  d.IsLegible ∧ ∀ b ∈ d.nested, ∃ tree, nested? tree = some b

/-- What holds of whatever is read holds of the graphs in a node that is read. -/
theorem IsRead.imp {d : NodeDefinition Nested} (h : d.IsRead nested?) {P : Nested → Prop}
    (hP : ∀ {tree b}, nested? tree = some b → P b) : d.IsLegible ∧ ∀ b ∈ d.nested, P b :=
  h.imp_right fun hread b hb => (hread b hb).elim fun _ => hP

theorem read?_isRead {α : Type} {r : Reader α} {embed : Tree → α} {real : Double → Prop}
    (hr : r.IsFaithful embed real) {shared : Entries α} {entries : List (Tree × Tree)}
    {d : NodeDefinition Nested} (h : read? r nested? shared entries = some d) :
    d.IsRead nested? := by
  unfold read? at h
  simp only [Option.bind_eq_bind,Option.bind_eq_some_iff,Option.some.injEq] at h
  obtain ⟨description,-,dependsOn,-,resources,-,retry,hretry,timeout,htimeout,onFailure,hf,kind,hkind,
    rfl⟩ := h
  obtain ⟨hlegible,hnested⟩ := KindDefinition.ofEntries?_spec hkind
  refine ⟨⟨hlegible,?_,?_⟩,fun b hb => ?_⟩
  · rintro s rfl
    obtain ⟨x,hx⟩ := Entries.exists_of_optional? hretry
    exact RetrySettings.read?_isLegible hr hx
  · rintro t rfl
    obtain ⟨x,hx⟩ := Entries.exists_of_optional? htimeout
    exact Reader.duration?_isLegible hx
  · rcases List.mem_append.mp hb with hb | hb
    · exact hnested b hb
    · rw [show onFailure = some b from Option.mem_toList.mp hb] at hf
      obtain ⟨x,hx⟩ := Entries.exists_of_optional? hf
      obtain ⟨tree,-,ht⟩ := Option.bind_eq_some_iff.mp hx
      exact ⟨tree,ht⟩

theorem ofEntries?_isRead {entries : List (Tree × Tree)} {d : NodeDefinition Nested}
    (h : ofEntries? nested? entries = some d) : d.IsRead nested? :=
  read?_isRead Reader.trees_isFaithful h

theorem ofTree?_isRead {tree : Tree} {d : NodeDefinition Nested}
    (h : ofTree? nested? tree = some d) : d.IsRead nested? := by
  unfold ofTree? at h
  split at h
  · exact ofEntries?_isRead h
  · cases h

theorem ofNode?_isRead {node : Node} {d : NodeDefinition Nested}
    (h : ofNode? nested? node = some d) : d.IsRead nested? := by
  unfold ofNode? at h
  split at h
  · obtain ⟨entries,-,h⟩ := Option.bind_eq_some_iff.mp h
    obtain ⟨rest,-,h⟩ := Option.bind_eq_some_iff.mp h
    exact read?_isRead Reader.nodes_isFaithful h
  · cases h

end NodeDefinition

end Nested

namespace Block

theorem mem_insertNode {node m : NamedNode} {nodes : List NamedNode}
    (h : m ∈ insertNode node nodes) : m = node ∨ m ∈ nodes := by
  unfold insertNode at h
  split at h
  · obtain ⟨old,ho,rfl⟩ := List.mem_map.mp h
    split
    · exact .inl rfl
    · exact .inr ho
  · rcases List.mem_append.mp h with h | h
    · exact .inr h
    · exact .inl (List.mem_singleton.mp h)

theorem insertNode_nodup (node : NamedNode) {nodes : List NamedNode}
    (h : (nodes.map (·.1)).Nodup) : ((insertNode node nodes).map (·.1)).Nodup := by
  unfold insertNode
  split
  · have hids : (nodes.map fun m => if m.1 = node.1 then node else m).map (·.1) =
        nodes.map (·.1) := by
      rw [List.map_map]
      refine List.map_congr_left fun m _ => ?_
      simp only [Function.comp_apply]
      split
      · next he => exact he.symm
      · rfl
    rw [hids]
    exact h
  · next hn =>
    rw [List.map_append]
    refine List.nodup_append.mpr ⟨h,by simp,fun a ha b hb he => hn ?_⟩
    obtain ⟨m,hm,rfl⟩ := List.mem_map.mp ha
    rw [List.map_singleton,List.mem_singleton] at hb
    exact List.any_eq_true.mpr ⟨m,hm,by simp [he,hb]⟩

/-- Nodes that are collected come from those that were read, one for each id. -/
theorem collectNodes_spec (nodes : List NamedNode) : ((collectNodes nodes).map (·.1)).Nodup ∧
    collectNodes nodes ⊆ nodes := by
  have hfold (l kept : List NamedNode) (hd : (kept.map (·.1)).Nodup) (hs : kept ⊆ nodes)
      (hl : l ⊆ nodes) :
      ((l.foldl (fun nodes node => insertNode node nodes) kept).map (·.1)).Nodup ∧
      l.foldl (fun nodes node => insertNode node nodes) kept ⊆ nodes := by
    induction l generalizing kept with
    | nil => exact ⟨hd,hs⟩
    | cons node rest ih =>
      refine ih _ (insertNode_nodup node hd) (fun m hm => ?_) fun m hm =>
        hl (List.mem_cons_of_mem node hm)
      rcases mem_insertNode hm with rfl | hm
      · exact hl List.mem_cons_self
      · exact hs hm
  exact hfold nodes [] List.nodup_nil (List.nil_subset _) (List.Subset.refl _)

/-- Whether a block names its members by different ids, where it is a map of them. -/
def HasDistinctNodes : Block → Prop
  | .steps _ => True
  | .graph nodes _ => (nodes.map (·.1)).Nodup

/-- Whether all that a block contains is such as is read. -/
def IsLegible (b : Block) : Prop :=
  ∀ c, b.Contains c → c.HasDistinctNodes ∧ ∀ n ∈ c.members, n.2.IsLegible

theorem isLegible_of_members {b : Block} (hd : b.HasDistinctNodes)
    (hm : ∀ n ∈ b.members, n.2.IsLegible ∧ ∀ c ∈ n.2.nested, c.IsLegible) : b.IsLegible := by
  intro c hc
  obtain rfl | ⟨n,hn,part,hp,hc⟩ := hc.eq_or_inside
  · exact ⟨hd,fun n hn => (hm n hn).1⟩
  · exact (hm n hn).2 part.2 (NodeDefinition.mem_nested hp) c hc

theorem IsLegible.inside {b : Block} (h : b.IsLegible) {n : NamedNode} (hn : n ∈ b.members)
    {part : String × Block} (hp : part ∈ n.2.parts) : part.2.IsLegible := by
  intro c hc
  have hinner : b.Contains c := by
    induction hc with
    | self => exact .inside .self hn hp
    | inside _ hm ho ih => exact .inside ih hm ho
  exact h c hinner

variable {nested? : Tree → Option Block}

theorem stepOfTree?_isRead {tree : Tree} {n : NamedNode} (h : stepOfTree? nested? tree = some n) :
    n.2.IsRead nested? := by
  unfold stepOfTree? at h
  split at h
  · dsimp only at h
    split at h
    · obtain ⟨id,-,h⟩ := Option.bind_eq_some_iff.mp h
      obtain ⟨d,hd,h⟩ := Option.bind_eq_some_iff.mp h
      cases h
      exact NodeDefinition.ofEntries?_isRead hd
    · cases h
  · cases h

theorem nodesOfTree?_isRead {tree : Tree} {nodes : List NamedNode}
    (h : nodesOfTree? nested? tree = some nodes) :
    (nodes.map (·.1)).Nodup ∧ ∀ n ∈ nodes, n.2.IsRead nested? := by
  unfold nodesOfTree? at h
  split at h
  · obtain ⟨read,hread,h⟩ := Option.bind_eq_some_iff.mp h
    cases h
    obtain ⟨hd,hsub⟩ := collectNodes_spec read
    refine ⟨hd,fun n hn => ?_⟩
    obtain ⟨e,-,he⟩ := mem_of_mapM hread (hsub hn)
    obtain ⟨id,-,he⟩ := Option.bind_eq_some_iff.mp he
    obtain ⟨d,hd,he⟩ := Option.bind_eq_some_iff.mp he
    cases he
    exact NodeDefinition.ofTree?_isRead hd
  · cases h

theorem ofTreeWithin?_isLegible {levels : Nat} {tree : Tree} {b : Block}
    (h : ofTreeWithin? levels tree = some b) : b.IsLegible := by
  induction levels generalizing tree b with
  | zero => cases h
  | succ levels ih =>
    unfold ofTreeWithin? at h
    split at h
    · obtain ⟨steps,hs,rfl⟩ := Option.map_eq_some_iff.mp h
      refine isLegible_of_members trivial fun n hn => ?_
      obtain ⟨item,-,hi⟩ := mem_of_mapM hs hn
      exact (stepOfTree?_isRead hi).imp ih
    · obtain ⟨parts,-,h⟩ := Option.bind_eq_some_iff.mp h
      obtain ⟨nodes,hn,h⟩ := Option.bind_eq_some_iff.mp h
      obtain ⟨terminal,-,h⟩ := Option.bind_eq_some_iff.mp h
      cases h
      obtain ⟨nodesTree,hread⟩ := Entries.required?_eq_some hn
      obtain ⟨hd,hmembers⟩ := nodesOfTree?_isRead hread
      exact isLegible_of_members hd fun n hn => (hmembers n hn).imp ih
    · cases h

theorem ofTree?_isLegible {tree : Tree} {b : Block} (h : ofTree? tree = some b) : b.IsLegible :=
  ofTreeWithin?_isLegible h

/-- Whether every map of nodes in a block has different ids. -/
def IsKeyed (b : Block) : Prop :=
  ∀ path held, ∀ s ∈ Site.ofBlock path held b, s.isKeyed = true

theorem IsLegible.isKeyed {b : Block} (h : b.IsLegible) : b.IsKeyed := by
  induction b using nested_induction with
  | step b ih =>
    intro path held s hs
    rcases mem_ofBlock.mp hs with rfl | ⟨p,hp,hs⟩ | rfl
    · cases b with
      | steps => rfl
      | graph nodes terminal => exact decide_eq_true (h _ .self).1
    · have hmember := mem_members hp
      rcases Site.mem_ofNode.mp hs with rfl | ⟨part,hpart,hs⟩
      · rfl
      · exact ih p.2 hmember part hpart (h.inside hmember hpart) _ _ s hs
    · rfl

end Block

namespace Definition

/-- Whether a definition is such as is read. -/
structure IsLegible (d : Definition) : Prop where
  bindings : Fields.Ordered d.bindings ∧ ∀ p ∈ d.bindings, p.2.Tidy Value.isFinite
  distinct : (d.nodes.map (·.1)).Nodup
  nodes : ∀ n ∈ d.nodes, n.2.IsLegible ∧ ∀ b ∈ n.2.nested, b.IsLegible
  steps : ∀ steps ∈ d.steps, ∀ n ∈ steps, n.2.IsLegible ∧ ∀ b ∈ n.2.nested, b.IsLegible

theorem IsLegible.block {d : Definition} (h : d.IsLegible) : d.block.IsLegible := by
  unfold Definition.block
  split
  · next steps hsteps _ =>
    refine Block.isLegible_of_members (List.nodup_singleton _) fun n hn => ?_
    rw [List.mem_singleton.mp hn]
    refine ⟨⟨trivial,nofun,nofun⟩,fun b hb => ?_⟩
    rw [List.mem_singleton.mp hb]
    exact Block.isLegible_of_members trivial (h.steps steps hsteps)
  · exact Block.isLegible_of_members h.distinct h.nodes

theorem IsLegible.isKeyed {d : Definition} (h : d.IsLegible) : d.isKeyed = true :=
  List.all_eq_true.mpr (h.block.isKeyed "" [])

theorem stepOfNode?_isLegible {node : Node} {n : NamedNode} (h : stepOfNode? node = some n) :
    n.2.IsLegible ∧ ∀ b ∈ n.2.nested, b.IsLegible := by
  unfold stepOfNode? at h
  split at h
  · simp only [Option.bind_eq_bind,Option.bind_eq_some_iff,Option.some.injEq] at h
    obtain ⟨entries,-,id,-,rest,-,d,hd,rfl⟩ := h
    exact (NodeDefinition.ofEntries?_isRead hd).imp Block.ofTree?_isLegible
  · cases h

theorem ofNode?_isLegible {node : Node} {d : Definition} (h : ofNode? node = some d) :
    d.IsLegible := by
  unfold ofNode? at h
  simp only [Option.bind_eq_bind,Option.bind_eq_some_iff,Option.some.injEq] at h
  obtain ⟨parts,-,name,-,description,-,bindings,hbindings,nodes,hnodes,steps,hsteps,terminal,-,rfl⟩ := h
  have hread : (nodes.map (·.1)).Nodup ∧
      ∀ n ∈ nodes, n.2.IsLegible ∧ ∀ b ∈ n.2.nested, b.IsLegible := by
    obtain rfl | ⟨part,hpart⟩ := Entries.defaulted?_eq_some hnodes
    · exact ⟨List.nodup_nil,fun n hn => absurd hn List.not_mem_nil⟩
    obtain ⟨entries,-,hpart⟩ := Option.bind_eq_some_iff.mp hpart
    obtain ⟨read,hread,hpart⟩ := Option.bind_eq_some_iff.mp hpart
    cases hpart
    obtain ⟨hd,hsub⟩ := Block.collectNodes_spec read
    refine ⟨hd,fun n hn => ?_⟩
    obtain ⟨e,-,he⟩ := mem_of_mapM hread (hsub hn)
    obtain ⟨d,hd,rfl⟩ := Option.map_eq_some_iff.mp he
    exact (NodeDefinition.ofNode?_isRead hd).imp Block.ofTree?_isLegible
  refine ⟨?_,hread.1,hread.2,?_⟩
  · obtain rfl | ⟨part,hpart⟩ := Entries.defaulted?_eq_some hbindings
    · exact ⟨.nil,fun p hp => absurd hp List.not_mem_nil⟩
    obtain ⟨entries,-,hpart⟩ := Option.bind_eq_some_iff.mp hpart
    obtain ⟨fields,hfields,hpart⟩ := Option.bind_eq_some_iff.mp hpart
    cases hpart
    refine ⟨Fields.ofList_ordered fields,fun p hp => ?_⟩
    obtain ⟨e,-,he⟩ := mem_of_mapM hfields (Fields.mem_ofList hp)
    obtain ⟨v,hv,rfl⟩ := Option.map_eq_some_iff.mp he
    exact Node.value?_tidy e.2 hv
  · rintro read rfl n hn
    obtain ⟨x,hx⟩ := Entries.exists_of_optional? hsteps
    obtain ⟨items,-,hlist⟩ := Option.bind_eq_some_iff.mp hx
    obtain ⟨item,-,hitem⟩ := mem_of_mapM hlist hn
    exact stepOfNode?_isLegible hitem

theorem check_eq_ok {d d' : Definition} (h : d.check = .ok d') : d' = d := by
  unfold check at h
  split at h
  · cases h
  split at h
  · cases h
  · cases h
  · exact (Except.ok.inj h).symm

/-- No text is read as a definition with two nodes of one id in a map. -/
theorem parse_isKeyed {text : String} {d : Definition} (h : parse text = .ok d) :
    d.isKeyed = true := by
  unfold parse at h
  split at h
  · cases h
  · next read hread =>
    obtain ⟨node,-,hnode⟩ := Option.bind_eq_some_iff.mp hread
    rw [check_eq_ok h]
    exact (ofNode?_isLegible hnode).isKeyed

theorem reread_isKeyed {d d' : Definition} (h : d.reread = .ok d') : d'.isKeyed = true := by
  unfold reread at h
  dsimp only at h
  split at h
  · cases h
  · next read hread =>
    rw [check_eq_ok h]
    split at hread
    · exact (ofNode?_isLegible hread).isKeyed
    · cases hread

end Definition

end TaskGraph
