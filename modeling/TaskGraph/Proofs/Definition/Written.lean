import TaskGraph.Proofs.Definition.Legible

/-!
A definition that has been read is written in a form from which the same definition is read again: the
outer parts straight from the document, what lies deeper from plain trees.
-/

namespace TaskGraph

open Yaml

namespace Dependency

theorem toTree_isSomething (d : Dependency) : d.toTree.isSomething = true := by
  cases d <;> rfl

section Operators

variable {read : Tree → Option Dependency}

theorem ofRecord?_all {terms : List Dependency} {ts : List Tree} (h : ts.mapM read = some terms) :
    ofRecord? read (Tree.ofFields [("and",.list ts)]) = some (.all terms) := by
  have hand : Entries.optional? ["and"] (Tree.asOption? (Tree.asList? read)) [("and",.list ts)] =
      some (some terms) := congrArg (Option.map some) h
  unfold ofRecord?
  rw [Tree.record?_ofFields]
  simp only [Option.bind_eq_bind,Option.bind_some,hand]
  rfl

theorem ofRecord?_any {terms : List Dependency} {ts : List Tree} (h : ts.mapM read = some terms) :
    ofRecord? read (Tree.ofFields [("or",.list ts)]) = some (.any terms) := by
  have hor : Entries.optional? ["or"] (Tree.asOption? (Tree.asList? read)) [("or",.list ts)] =
      some (some terms) := congrArg (Option.map some) h
  unfold ofRecord?
  rw [Tree.record?_ofFields]
  simp only [Option.bind_eq_bind,Option.bind_some,hor]
  rfl

theorem ofRecord?_negation {term : Dependency} {t : Tree} (ht : t.isSomething = true)
    (h : read t = some term) :
    ofRecord? read (Tree.ofFields [("not",t)]) = some (.negation term) := by
  have hnot : Entries.optional? ["not"] (Tree.asOption? read) [("not",t)] = some (some term) := by
    show Tree.asOption? read t = _
    rw [Tree.asOption?_of_isSomething ht,h]
    rfl
  unfold ofRecord?
  rw [Tree.record?_ofFields]
  simp only [Option.bind_eq_bind,Option.bind_some,hnot]
  rfl

end Operators

mutual

/-- A dependency is read from its tree if one may go deeper than the tree is high. -/
theorem ofTreeWithin?_toTree : (d : Dependency) → {n : Nat} → d.toTree.height < n →
    ofTreeWithin? n d.toTree = some d
  | .node id, n+1, _ => by
    unfold toTree
    rfl
  | .all terms, n+1, h => by
    unfold toTree at h ⊢
    rw [Tree.height_ofField,Yaml.Tree.height] at h
    exact ofRecord?_all (mapM_toTrees terms (Nat.lt_of_succ_lt (Nat.lt_of_succ_lt_succ h)))
  | .any terms, n+1, h => by
    unfold toTree at h ⊢
    rw [Tree.height_ofField,Yaml.Tree.height] at h
    exact ofRecord?_any (mapM_toTrees terms (Nat.lt_of_succ_lt (Nat.lt_of_succ_lt_succ h)))
  | .negation term, n+1, h => by
    unfold toTree at h ⊢
    rw [Tree.height_ofField] at h
    exact ofRecord?_negation term.toTree_isSomething
      (ofTreeWithin?_toTree term (Nat.lt_of_succ_lt_succ h))

theorem mapM_toTrees : (ds : List Dependency) → {n : Nat} → Tree.heightItems (toTrees ds) < n →
    (toTrees ds).mapM (ofTreeWithin? n) = some ds
  | [], _, _ => rfl
  | d::ds, n, h => by
    rw [toTrees,Tree.heightItems] at h
    have hd := ofTreeWithin?_toTree d (Nat.lt_of_le_of_lt (Nat.le_max_left ..) h)
    have hds := mapM_toTrees ds (Nat.lt_of_le_of_lt (Nat.le_max_right ..) h)
    rw [toTrees,List.mapM_cons,hd,hds]
    rfl

end

theorem ofTree?_toTree (d : Dependency) : ofTree? d.toTree = some d :=
  ofTreeWithin?_toTree d (Nat.lt_succ_self _)

end Dependency

namespace Targets

theorem toTree_isSomething (t : Targets) : t.toTree.isSomething = true := by
  cases t <;> rfl

theorem ofTree?_toTree (t : Targets) : ofTree? t.toTree = some t := by
  cases t with
  | one id => rfl
  | many ids =>
    show ((ids.map Tree.string).mapM Tree.asString?).map many = _
    rw [Tree.mapM_asString?]
    rfl

end Targets

theorem ArmDefinition.ofTree?_toTree {arm : ArmDefinition}
    (h : arm.condition.Tidy Value.isFinite) : ofTree? arm.toTree = some arm := by
  have hcondition : Entries.required? ["when"] Tree.value?
      [("when",.ofValue arm.condition),("target",arm.targets.toTree)] = some arm.condition :=
    Tree.value?_ofValue h
  have htargets : Entries.required? ["target","then"] Targets.ofTree?
      [("when",.ofValue arm.condition),("target",arm.targets.toTree)] = some arm.targets :=
    arm.targets.ofTree?_toTree
  unfold ofTree? toTree
  rw [Tree.record?_ofFields]
  simp only [Option.bind_eq_bind,Option.bind_some,hcondition,htargets]

namespace KindDefinition

variable {nested? : Tree → Option Block}

theorem ofTag?_name {Nested : Type} (k : KindDefinition Nested) :
    ofTag? (.string k.name) = some k.name := by
  cases k <;> rfl

/-- The parts of a kind besides its tag, as they are written. -/
def writtenParts : KindDefinition Block → List (String × Option Tree)
  | .action name params => [("action",some (.string name)),("params",some (.ofValue params))]
  | .sequence steps => [("steps",some steps.toTree)]
  | .forEach items binding template => [("items",some (.ofValue items)),
      ("as",some (.string binding)),("template",some template.toTree)]
  | .loop condition cap body => [("condition",some (.ofValue condition)),
      ("max_iterations",some ((cap.map fun n => .int n).getD .null)),("body",some body.toTree)]
  | .branch arms fallback => [("branches",some (.list (arms.map ArmDefinition.toTree))),
      ("default",fallback.map Targets.toTree)]
  | .guarded body recovery always => [("body",some body.toTree),
      ("recovery",recovery.map Block.toTree),("always",always.map Block.toTree)]

theorem mem_writtenParts {k : KindDefinition Block} {part : String × Block} (h : part ∈ k.parts) :
    (part.1,some part.2.toTree) ∈ k.writtenParts := by
  cases k with
  | action | branch => cases h
  | sequence | forEach | loop =>
    rw [List.mem_singleton.mp h]
    simp [writtenParts]
  | guarded body recovery always =>
    rcases List.mem_cons.mp h with rfl | h
    · exact List.mem_cons_self
    rcases List.mem_append.mp h with h | h
    · obtain ⟨b,rfl,rfl⟩ := Option.map_eq_some_iff.mp (Option.mem_toList.mp h)
      simp [writtenParts]
    · obtain ⟨b,rfl,rfl⟩ := Option.map_eq_some_iff.mp (Option.mem_toList.mp h)
      simp [writtenParts]

theorem optionalField_eq {α : Type} (name : String) (write : α → Tree) (x : Option α) :
    optionalField name write x = Entries.ofOptions [(name,x.map write)] := by
  cases x <;> rfl

theorem nestedField_eq (name : String) (x : Option Block) :
    nestedField name x = Entries.ofOptions [(name,x.map Block.toTree)] := by
  cases x <;> rw [nestedField] <;> rfl

theorem kindFields_eq (k : KindDefinition Block) :
    kindFields k = Entries.ofOptions (("type",some (.string k.name))::k.writtenParts) := by
  cases k with
  | branch arms fallback =>
    rw [kindFields,optionalField_eq]
    rfl
  | guarded body recovery always =>
    rw [kindFields,nestedField_eq,nestedField_eq,List.append_assoc,← Entries.ofOptions_append]
    rfl
  | _ =>
    rw [kindFields]
    rfl

end KindDefinition

theorem Block.toTree_isSomething (b : Block) : b.toTree.isSomething = true := by
  cases b <;> rw [toTree] <;> rfl

namespace KindDefinition

variable {nested? : Tree → Option Block}

theorem optional?_nested {names : List String} {entries : Entries Tree} {x : Option Block}
    (h : entries.part? names = some (x.map Block.toTree))
    (hx : ∀ b ∈ x, nested? b.toTree = some b) :
    entries.optional? names (Tree.asOption? nested?) = some x :=
  Tree.optional?_asOption h fun b hb => ⟨b.toTree_isSomething,hx b hb⟩

theorem ofParts?_written {k : KindDefinition Block} (h : k.IsLegible)
    (hnested : ∀ b ∈ k.nested, nested? b.toTree = some b) :
    ofParts? nested? ((Entries.ofOptions k.writtenParts).map fun f => (Tree.string f.1,f.2)) k.name =
      some k := by
  have hpart {names : List String} {name : String} {x : Option Tree}
      (hx : k.writtenParts.filter (fun p => names.contains p.1) = [(name,x)]) :
      Entries.part? names (Entries.ofOptions k.writtenParts) = some x := Entries.part?_ofOptions hx
  generalize Entries.ofOptions k.writtenParts = entries at hpart ⊢
  unfold ofParts?
  cases k with
  | action name params =>
    have hname : Entries.required? ["action"] Tree.asString? entries = some name :=
      Entries.required?_of_part (hpart rfl) rfl
    have hparams : Entries.defaulted? ["params"] .null Tree.value? entries = some params :=
      Entries.defaulted?_of_part (hpart rfl) (Tree.value?_ofValue h) .null
    simp only [KindDefinition.name,Tree.keyed?_fields,Option.bind_eq_bind,Option.bind_some,hname,
      hparams]
  | sequence steps =>
    have hsteps : Entries.required? ["steps"] nested? entries = some steps :=
      Entries.required?_of_part (hpart rfl) (hnested steps List.mem_cons_self)
    simp only [KindDefinition.name,Tree.keyed?_fields,Option.bind_eq_bind,Option.bind_some,hsteps]
  | forEach items binding template =>
    have hitems : Entries.required? ["items"] Tree.value? entries = some items :=
      Entries.required?_of_part (hpart rfl) (Tree.value?_ofValue h)
    have hbinding : Entries.defaulted? ["as","item_name"] "item" Tree.asString? entries =
        some binding :=
      Entries.defaulted?_of_part (hpart rfl)
        (show Tree.asString? (.string binding) = some binding from rfl) "item"
    have htemplate : Entries.required? ["template"] nested? entries = some template :=
      Entries.required?_of_part (hpart rfl) (hnested template List.mem_cons_self)
    simp only [KindDefinition.name,Tree.keyed?_fields,Option.bind_eq_bind,Option.bind_some,hitems,
      hbinding,htemplate]
  | loop condition cap body =>
    have hcondition : Entries.required? ["condition"] Tree.value? entries = some condition :=
      Entries.required?_of_part (hpart rfl) (Tree.value?_ofValue h.1)
    have hread : Tree.asOption? (Tree.asNat? greatestCount)
        ((cap.map fun n => .int n).getD .null) = some cap := by
      cases cap with
      | none => rfl
      | some n => exact congrArg (Option.map some) (Tree.asNat?_ofNat (h.2 n rfl))
    have hcap : Entries.optional? ["max_iterations"]
        (Tree.asOption? (Tree.asNat? greatestCount)) entries = some cap := Entries.defaulted?_of_part (hpart rfl) hread none
    have hbody : Entries.required? ["body"] nested? entries = some body :=
      Entries.required?_of_part (hpart rfl) (hnested body List.mem_cons_self)
    simp only [KindDefinition.name,Tree.keyed?_fields,Option.bind_eq_bind,Option.bind_some,
      hcondition,hcap,hbody]
  | branch arms fallback =>
    have harms : Entries.required? ["branches"] (Tree.asList? ArmDefinition.ofTree?) entries =
        some arms :=
      Entries.required?_of_part (v := Tree.list (arms.map ArmDefinition.toTree)) (hpart rfl)
        (mapM_map_of_forall fun arm harm => ArmDefinition.ofTree?_toTree (h arm harm))
    have hfallback : Entries.optional? ["default"] (Tree.asOption? Targets.ofTree?) entries =
        some fallback :=
      Tree.optional?_asOption (hpart rfl) fun t _ => ⟨t.toTree_isSomething,t.ofTree?_toTree⟩
    simp only [KindDefinition.name,Tree.keyed?_fields,Option.bind_eq_bind,Option.bind_some,harms,
      hfallback]
  | guarded body recovery always =>
    have hbody : Entries.required? ["body"] nested? entries = some body :=
      Entries.required?_of_part (hpart rfl) (hnested body List.mem_cons_self)
    have hrecovery : Entries.optional? ["recovery"] (Tree.asOption? nested?) entries = some recovery :=
      optional?_nested (hpart rfl) fun b hb => hnested b
        (List.mem_cons_of_mem _ (List.mem_append_left _ (Option.mem_toList.mpr hb)))
    have halways : Entries.optional? ["always"] (Tree.asOption? nested?) entries = some always :=
      optional?_nested (hpart rfl) fun b hb => hnested b
        (List.mem_cons_of_mem _ (List.mem_append_right _ (Option.mem_toList.mpr hb)))
    simp only [KindDefinition.name,Tree.keyed?_fields,Option.bind_eq_bind,Option.bind_some,hbody,
      hrecovery,halways]
    rfl

theorem writtenParts_filter_tag (k : KindDefinition Block) :
    (("type",some (.string k.name))::k.writtenParts).filter (fun p => p.1 == "type") =
      [("type",some (.string k.name))] := by
  cases k <;> rfl

theorem writtenParts_filter_others (k : KindDefinition Block) :
    (("type",some (.string k.name))::k.writtenParts).filter (fun p => !(p.1 == "type")) =
      k.writtenParts := by
  cases k <;> rfl

/-- A kind is read from what is written of it. -/
theorem ofEntries?_kindFields {k : KindDefinition Block} (h : k.IsLegible)
    (hnested : ∀ b ∈ k.nested, nested? b.toTree = some b) :
    ofEntries? nested? ((kindFields k).map fun f => (Tree.string f.1,f.2)) = some k := by
  have htag := Tree.filter_fields isTag (· == "type") (fun _ _ => rfl)
    (kindFields k)
  have hrest := Tree.filter_fields (fun e => !isTag e) (fun name => !(name == "type"))
    (fun _ _ => rfl) (kindFields k)
  rw [kindFields_eq,Entries.filter_ofOptions (· == "type"),writtenParts_filter_tag] at htag
  rw [kindFields_eq,Entries.filter_ofOptions fun name => !(name == "type"),
    writtenParts_filter_others] at hrest
  unfold ofEntries?
  rw [kindFields_eq,htag,hrest]
  show (ofTag? (.string k.name)).bind _ = _
  rw [ofTag?_name,Option.bind_some,ofParts?_written h hnested]

end KindDefinition

namespace RetrySettings

variable {α : Type} {r : Reader α} {embed : Tree → α} {real : Double → Prop}

theorem duration?_durationTree (hr : r.IsFaithful embed real) {d : Duration} (h : d.IsLegible) :
    r.duration? (embed (durationTree d)) = some d := by
  unfold Reader.duration? durationTree
  rw [hr.text,Option.bind_eq_bind,Option.bind_some]
  exact h

/-- The parts of a policy, as they are written. -/
def writtenParts (s : RetrySettings) : List (String × Option Tree) :=
  [("max_attempts",some (.int s.maxAttempts)),("delay",some (durationTree s.delay)),
    ("backoff_multiplier",some (.float s.multiplier)),("max_delay",s.maxDelay.map durationTree)]

theorem toTree_eq (s : RetrySettings) :
    s.toTree = Tree.ofFields (Entries.ofOptions s.writtenParts) := by
  unfold toTree writtenParts
  cases s.maxDelay <;> rfl

theorem read?_toTree (hr : r.IsFaithful embed real) {s : RetrySettings} (h : s.IsLegible)
    (hm : real s.multiplier) : read? r (embed s.toTree) = some s := by
  have hpart {names : List String} {name : String} {t : Tree}
      (ht : s.writtenParts.filter (fun p => names.contains p.1) = [(name,some t)]) :
      Entries.part? names ((Entries.ofOptions s.writtenParts).map fun e => (e.1,embed e.2)) =
        some (some (embed t)) := Reader.IsFaithful.part embed ht
  have hmax : Entries.optional? ["max_delay"] (r.option? r.duration?)
      ((Entries.ofOptions s.writtenParts).map fun e => (e.1,embed e.2)) = some s.maxDelay :=
    hr.optional rfl fun d hd => ⟨rfl,duration?_durationTree hr (h.maxDelay d hd)⟩
  unfold read?
  rw [toTree_eq,hr.record]
  generalize (Entries.ofOptions s.writtenParts).map (fun e => (e.1,embed e.2)) = entries
    at hpart hmax ⊢
  have hbound : s.maxAttempts < Nat.pow 2 64 := Nat.lt_of_le_of_lt h.maxAttempts (by decide)
  have hattempts : Entries.defaulted? ["max_attempts"] 3 (r.nat? greatestCount) entries =
      some s.maxAttempts :=
    Entries.defaulted?_of_part (hpart rfl) (hr.nat h.maxAttempts hbound) 3
  have hdelay : Entries.defaulted? ["delay","initial_delay"] (.ofSecs 1) r.duration? entries =
      some s.delay :=
    Entries.defaulted?_of_part (hpart rfl) (duration?_durationTree hr h.delay) (.ofSecs 1)
  have hmultiplier : Entries.defaulted? ["backoff_multiplier"] .one r.double? entries =
      some s.multiplier := Entries.defaulted?_of_part (hpart rfl) (hr.double hm) .one
  simp only [Option.bind_eq_bind,Option.bind_some,hattempts,hdelay,hmultiplier,hmax]

end RetrySettings

namespace NodeDefinition

/-- The parts that a node may have whatever its kind, as they are written. -/
def sharedParts (d : NodeDefinition Block) : List (String × Option Tree) :=
  [("description",d.description.map .string),("depends_on",d.dependsOn.map Dependency.toTree),
    ("resources",if d.resources.isEmpty then none else some (Tree.ofStrings d.resources)),
    ("retry",d.retry.map RetrySettings.toTree),("timeout",d.timeout.map RetrySettings.durationTree),
    ("on_failure",d.onFailure.map Block.toTree)]

/-- All parts of a node, as they are written. -/
def writtenParts (d : NodeDefinition Block) : List (String × Option Tree) :=
  ("description",d.description.map .string)
    ::(("type",some (.string d.kind.name))::d.kind.writtenParts ++ d.sharedParts.tail)

theorem nodeFields_eq (d : NodeDefinition Block) :
    nodeFields d = Entries.ofOptions d.writtenParts := by
  obtain ⟨description,kind,dependsOn,resources,retry,timeout,onFailure⟩ := d
  rw [nodeFields,Entries.ofOptions_unless]
  simp only [KindDefinition.kindFields_eq,KindDefinition.optionalField_eq,
    KindDefinition.nestedField_eq,← Entries.ofOptions_append]
  simp [writtenParts,sharedParts]

theorem writtenParts_filter_shared (d : NodeDefinition Block) :
    d.writtenParts.filter (fun p => sharedNames.contains p.1) = d.sharedParts := by
  obtain ⟨description,kind,dependsOn,resources,retry,timeout,onFailure⟩ := d
  cases kind <;> rfl

theorem writtenParts_filter_kind (d : NodeDefinition Block) :
    d.writtenParts.filter (fun p => !sharedNames.contains p.1) =
      ("type",some (.string d.kind.name))::d.kind.writtenParts := by
  obtain ⟨description,kind,dependsOn,resources,retry,timeout,onFailure⟩ := d
  cases kind <;> rfl

theorem writtenParts_filter_id (id : String) (d : NodeDefinition Block) :
    (("id",some (Tree.string id))::d.writtenParts).filter (fun p => ["id"].contains p.1) =
      [("id",some (.string id))] := by
  obtain ⟨description,kind,dependsOn,resources,retry,timeout,onFailure⟩ := d
  cases kind <;> rfl

theorem writtenParts_filter_others (id : String) (d : NodeDefinition Block) :
    (("id",some (Tree.string id))::d.writtenParts).filter (fun p => !(p.1 == "id")) =
      d.writtenParts := by
  obtain ⟨description,kind,dependsOn,resources,retry,timeout,onFailure⟩ := d
  cases kind <;> rfl

variable {nested? : Tree → Option Block}

/-- A node is read from its parts as they are written, whatever the way in which they are read. -/
theorem read?_written {α : Type} {r : Reader α} {embed : Tree → α} {real : Double → Prop}
    (hr : r.IsFaithful embed real) {d : NodeDefinition Block} (h : d.IsLegible)
    (hm : ∀ s ∈ d.retry, real s.multiplier) (hnested : ∀ b ∈ d.nested, nested? b.toTree = some b) :
    read? r nested? ((Entries.ofOptions d.sharedParts).map fun e => (e.1,embed e.2))
      ((kindFields d.kind).map fun f => (Tree.string f.1,f.2)) = some d := by
  have hkind : KindDefinition.ofEntries? nested?
      ((kindFields d.kind).map fun f => (Tree.string f.1,f.2)) = some d.kind :=
    KindDefinition.ofEntries?_kindFields h.kind fun b hb => hnested b (List.mem_append_left _ hb)
  have hdescription : Entries.optional? ["description"] (r.option? r.text?)
      ((Entries.ofOptions d.sharedParts).map fun e => (e.1,embed e.2)) = some d.description :=
    hr.optional rfl fun s _ => ⟨rfl,hr.text s⟩
  have hdependsOn : Entries.optional? ["depends_on"]
      (r.option? fun x => (r.tree? x).bind Dependency.ofTree?)
      ((Entries.ofOptions d.sharedParts).map fun e => (e.1,embed e.2)) = some d.dependsOn :=
    hr.optional rfl fun e _ => ⟨e.toTree_isSomething,by rw [hr.tree]; exact e.ofTree?_toTree⟩
  have hretry : Entries.optional? ["retry","retry_config"] (r.option? (RetrySettings.read? r))
      ((Entries.ofOptions d.sharedParts).map fun e => (e.1,embed e.2)) = some d.retry :=
    hr.optional rfl fun s hs => ⟨rfl,RetrySettings.read?_toTree hr (h.retry s hs) (hm s hs)⟩
  have htimeout : Entries.optional? ["timeout"] (r.option? r.duration?)
      ((Entries.ofOptions d.sharedParts).map fun e => (e.1,embed e.2)) = some d.timeout :=
    hr.optional rfl fun t ht => ⟨rfl,RetrySettings.duration?_durationTree hr (h.timeout t ht)⟩
  have honFailure : Entries.optional? ["on_failure"] (r.option? fun x => (r.tree? x).bind nested?)
      ((Entries.ofOptions d.sharedParts).map fun e => (e.1,embed e.2)) = some d.onFailure :=
    hr.optional rfl fun b hb => ⟨b.toTree_isSomething,by
      rw [hr.tree]
      exact hnested b (List.mem_append_right _ (Option.mem_toList.mpr hb))⟩
  have hresources : Entries.defaulted? ["resources"] [] r.texts?
      ((Entries.ofOptions d.sharedParts).map fun e => (e.1,embed e.2)) = some d.resources := by
    have hpart : Entries.part? ["resources"]
      ((Entries.ofOptions d.sharedParts).map fun e => (e.1,embed e.2)) = _ :=
      Reader.IsFaithful.part embed rfl
    split at hpart
    · next hempty =>
      rw [List.isEmpty_iff.mp hempty]
      exact Entries.defaulted?_of_missing hpart [] r.texts?
    · exact Entries.defaulted?_of_part hpart (hr.texts d.resources) []
  unfold read?
  simp only [Option.bind_eq_bind,Option.bind_some,hdescription,hdependsOn,hresources,hretry,htimeout,
    honFailure,hkind]

theorem nodeFields_filter_shared (d : NodeDefinition Block) :
    (nodeFields d).filter (fun f => sharedNames.contains f.1) = Entries.ofOptions d.sharedParts := by
  rw [nodeFields_eq,Entries.filter_ofOptions sharedNames.contains,writtenParts_filter_shared]

theorem nodeFields_filter_kind (d : NodeDefinition Block) :
    (nodeFields d).filter (fun f => !sharedNames.contains f.1) = kindFields d.kind := by
  rw [nodeFields_eq,Entries.filter_ofOptions fun name => !sharedNames.contains name,
    writtenParts_filter_kind,KindDefinition.kindFields_eq]

/-- A node is read from its plain tree. -/
theorem ofEntries?_nodeFields {d : NodeDefinition Block} (h : d.IsLegible)
    (hnested : ∀ b ∈ d.nested, nested? b.toTree = some b) :
    ofEntries? nested? ((nodeFields d).map fun f => (Tree.string f.1,f.2)) = some d := by
  have hread := read?_written Reader.trees_isFaithful h (fun _ _ => trivial) hnested
  unfold ofEntries?
  dsimp only
  rw [Tree.filterMap_fields _ sharedNames.contains fun _ _ => rfl,
    Tree.filter_fields _ (fun name => !sharedNames.contains name) fun _ _ => rfl,
    nodeFields_filter_shared,nodeFields_filter_kind]
  simpa using hread

/-- A node of the outermost graph is read from the document. -/
theorem ofNode?_nodeFields {d : NodeDefinition Block} (h : d.IsLegible)
    (hm : ∀ s ∈ d.retry, Node.asDouble? (Node.ofDouble s.multiplier) = some s.multiplier)
    (hnested : ∀ b ∈ d.nested, nested? b.toTree = some b) :
    ofNode? nested? (Node.ofTree (Tree.ofFields (nodeFields d))) = some d := by
  have hread := read?_written Reader.nodes_isFaithful h hm hnested
  have hentries := Node.entries?_ofFields (nodeFields d)
  have hshared : ((nodeFields d).map fun f => (f.1,Node.ofTree f.2)).filter
      (fun e => sharedNames.contains e.1) =
        (Entries.ofOptions d.sharedParts).map fun f => (f.1,Node.ofTree f.2) := by
    rw [List.filter_map,← nodeFields_filter_shared]
    rfl
  have hrest : (((nodeFields d).map fun f => (f.1,Node.ofTree f.2)).filter
      fun e => !sharedNames.contains e.1).mapM
        (fun e => e.2.tree?.map fun t => (Tree.string e.1,t)) =
          some ((kindFields d.kind).map fun f => (Tree.string f.1,f.2)) := by
    rw [List.filter_map,← nodeFields_filter_kind]
    exact mapM_map_eq_map fun f _ => by rw [Node.tree?_ofTree]; rfl
  unfold ofNode?
  show (Node.ofTree (Tree.ofFields (nodeFields d))).entries? >>= _ = _
  rw [hentries,Option.bind_eq_bind,Option.bind_some]
  dsimp only
  rw [hrest,hshared,Option.bind_eq_bind,Option.bind_some]
  exact hread

theorem mem_nodeFields {d : NodeDefinition Block} {part : String × Block} (h : part ∈ d.parts) :
    (part.1,part.2.toTree) ∈ nodeFields d := by
  rw [nodeFields_eq]
  apply Entries.mem_ofOptions
  rcases List.mem_append.mp h with h | h
  · exact List.mem_cons_of_mem _ (List.mem_append_left _
      (List.mem_cons_of_mem _ (KindDefinition.mem_writtenParts h)))
  · obtain ⟨b,hb,rfl⟩ := Option.map_eq_some_iff.mp (Option.mem_toList.mp h)
    simp [writtenParts,sharedParts,hb]

end NodeDefinition

namespace Block

theorem stepFields_eq (n : NamedNode) : ("id",Tree.string n.1)::nodeFields n.2 =
    Entries.ofOptions (("id",some (.string n.1))::n.2.writtenParts) := by
  rw [NodeDefinition.nodeFields_eq]
  rfl

theorem stepTrees_eq (steps : List NamedNode) : stepTrees steps =
    steps.map fun n => Tree.ofFields (("id",.string n.1)::nodeFields n.2) := by
  induction steps with
  | nil => rfl
  | cons n rest ih => rw [stepTrees,ih,List.map_cons]

theorem nodeTrees_eq (nodes : List NamedNode) :
    nodeTrees nodes = nodes.map fun n => (n.1,Tree.ofFields (nodeFields n.2)) := by
  induction nodes with
  | nil => rfl
  | cons n rest ih => rw [nodeTrees,ih,List.map_cons]

/-- The parts of a graph, as they are written. -/
def graphParts (nodes : List NamedNode) (terminal : Option (List String)) :
    List (String × Option Tree) :=
  [("nodes",some (Tree.ofFields (nodeTrees nodes))),("terminal_nodes",terminal.map Tree.ofStrings)]

theorem toTree_graph (nodes : List NamedNode) (terminal : Option (List String)) :
    (graph nodes terminal).toTree = Tree.ofFields (Entries.ofOptions (graphParts nodes terminal)) := by
  rw [toTree,KindDefinition.optionalField_eq]
  rfl

/-- What lies in a node of a block is less high than the block. -/
theorem height_lt {b : Block} {n : NamedNode} (hn : n ∈ b.members) {part : String × Block}
    (hp : part ∈ n.2.parts) : part.2.toTree.height < b.toTree.height := by
  have hpart := NodeDefinition.mem_nodeFields hp
  cases b with
  | steps steps =>
    have hstep : Tree.ofFields (("id",.string n.1)::nodeFields n.2) ∈ stepTrees steps := by
      rw [stepTrees_eq]
      exact List.mem_map_of_mem hn
    rw [toTree]
    exact Nat.lt_trans (Tree.height_lt_of_field (List.mem_cons_of_mem _ hpart))
      (Tree.height_lt_of_item hstep)
  | graph nodes terminal =>
    have hnode : (n.1,Tree.ofFields (nodeFields n.2)) ∈ nodeTrees nodes := by
      rw [nodeTrees_eq]
      exact List.mem_map_of_mem hn
    have hnodes : ("nodes",Tree.ofFields (nodeTrees nodes)) ∈
        Entries.ofOptions (graphParts nodes terminal) := Entries.mem_ofOptions List.mem_cons_self
    rw [toTree_graph]
    exact Nat.lt_trans (Tree.height_lt_of_field hpart)
      (Nat.lt_trans (Tree.height_lt_of_field hnode) (Tree.height_lt_of_field hnodes))

/-- Nodes of different ids are collected as they are. -/
theorem collectNodes_of_nodup {nodes : List NamedNode} (h : (nodes.map (·.1)).Nodup) :
    collectNodes nodes = nodes := by
  have hfold (l kept : List NamedNode) (h : ((kept ++ l).map (·.1)).Nodup) :
      l.foldl (fun nodes node => insertNode node nodes) kept = kept ++ l := by
    induction l generalizing kept with
    | nil => simp
    | cons n rest ih =>
      have hfresh : kept.any (·.1 == n.1) = false := by
        rw [List.map_append] at h
        refine List.any_eq_false.mpr fun m hm he => ?_
        exact (List.nodup_append.mp h).2.2 m.1 (List.mem_map_of_mem hm) n.1 (by simp)
          (by simpa using he)
      have hinsert : insertNode n kept = kept ++ [n] := by
        unfold insertNode
        rw [hfresh,if_neg Bool.false_ne_true]
      rw [List.foldl_cons,hinsert,ih _ (by simpa using h)]
      simp
  exact hfold nodes [] h

variable {nested? : Tree → Option Block}

theorem stepOfTree?_written {n : NamedNode} (h : n.2.IsLegible)
    (hnested : ∀ b ∈ n.2.nested, nested? b.toTree = some b) :
    stepOfTree? nested? (Tree.ofFields (("id",.string n.1)::nodeFields n.2)) = some n := by
  have hnode := NodeDefinition.ofEntries?_nodeFields h hnested
  rw [NodeDefinition.nodeFields_eq] at hnode
  unfold stepOfTree? Tree.ofFields
  dsimp only
  have hkey (name : String) : (name == "id") = ["id"].contains name := by
    rw [List.contains_cons,List.contains_nil,Bool.or_false]
  rw [stepFields_eq,Tree.filter_fields _ ["id"].contains fun name _ => hkey name,
    Tree.filter_fields _ (fun name => !(name == "id")) fun _ _ => rfl,
    Entries.filter_ofOptions ["id"].contains,Entries.filter_ofOptions fun name => !(name == "id"),
    NodeDefinition.writtenParts_filter_id,NodeDefinition.writtenParts_filter_others,hnode]
  rfl

theorem nodesOfTree?_written {nodes : List NamedNode} (hd : (nodes.map (·.1)).Nodup)
    (h : ∀ n ∈ nodes, n.2.IsLegible ∧ ∀ b ∈ n.2.nested, nested? b.toTree = some b) :
    nodesOfTree? nested? (Tree.ofFields (nodeTrees nodes)) = some nodes := by
  have hread : ((nodeTrees nodes).map fun f => (Tree.string f.1,f.2)).mapM (fun e => do
      some (← e.1.asString?,← NodeDefinition.ofTree? nested? e.2)) = some nodes := by
    rw [nodeTrees_eq,List.map_map]
    refine mapM_map_of_forall fun n hn => ?_
    have hnode : NodeDefinition.ofTree? nested? (Tree.ofFields (nodeFields n.2)) = some n.2 :=
      NodeDefinition.ofEntries?_nodeFields (h n hn).1 (h n hn).2
    show (NodeDefinition.ofTree? nested? (Tree.ofFields (nodeFields n.2))).bind
      (fun d => some (n.1,d)) = some n
    rw [hnode]
    rfl
  unfold nodesOfTree? Tree.ofFields
  dsimp only
  rw [hread,Option.bind_eq_bind,Option.bind_some,collectNodes_of_nodup hd]

/-- A block is read from its tree if one may go deeper than the tree is high. -/
theorem ofTreeWithin?_toTree {b : Block} (h : b.IsLegible) {levels : Nat}
    (hlevels : b.toTree.height < levels) : ofTreeWithin? levels b.toTree = some b := by
  induction b using nested_induction generalizing levels with
  | step b ih =>
    obtain _ | levels := levels
    · cases hlevels
    -- what lies in a member is less high than the block, so the levels that are left suffice for it
    have hmembers : ∀ n ∈ b.members, n.2.IsLegible ∧
        ∀ c ∈ n.2.nested, ofTreeWithin? levels c.toTree = some c := by
      intro n hn
      refine ⟨(h b .self).2 n hn,fun c hc => ?_⟩
      rw [NodeDefinition.nested_eq] at hc
      obtain ⟨part,hp,rfl⟩ := List.mem_map.mp hc
      exact ih n hn part hp (h.inside hn hp)
        (Nat.lt_of_lt_of_le (height_lt hn hp) (Nat.le_of_lt_succ hlevels))
    cases b with
    | steps steps =>
      rw [toTree,stepTrees_eq]
      exact congrArg (Option.map Block.steps) (mapM_map_of_forall fun n hn =>
        stepOfTree?_written (hmembers n hn).1 (hmembers n hn).2)
    | graph nodes terminal =>
      have hnodes : Entries.required? ["nodes"] (nodesOfTree? (ofTreeWithin? levels))
          (Entries.ofOptions (graphParts nodes terminal)) = some nodes :=
        Entries.required?_of_part (Entries.part?_ofOptions rfl)
          (nodesOfTree?_written (h _ .self).1 hmembers)
      have hterminal : Entries.optional? ["terminal_nodes"]
          (Tree.asOption? (Tree.asList? Tree.asString?))
          (Entries.ofOptions (graphParts nodes terminal)) = some terminal :=
        @Tree.optional?_asOption _ _ _ _ Tree.ofStrings (Entries.part?_ofOptions rfl) _
          fun names _ => ⟨rfl,Tree.mapM_asString? names⟩
      rw [toTree_graph]
      unfold ofTreeWithin? Tree.ofFields
      dsimp only
      rw [Tree.keyed?_fields]
      simp only [Option.bind_eq_bind,Option.bind_some,hnodes,hterminal]

theorem ofTree?_toTree {b : Block} (h : b.IsLegible) : ofTree? b.toTree = some b :=
  ofTreeWithin?_toTree h (Nat.lt_succ_self _)

end Block

namespace Definition

/-- The parts of a definition, as they are written. -/
def writtenParts (d : Definition) : List (String × Option Tree) :=
  [("name",some (.string d.name)),("description",d.description.map .string),
    ("variables",some (.map (Tree.ofValueFields d.bindings))),
    ("nodes",if d.nodes.isEmpty then none else some (Tree.ofFields (nodeTrees d.nodes))),
    ("steps",d.steps.map fun steps => .list (stepTrees steps)),
    ("terminal_nodes",d.terminal.map Tree.ofStrings)]

theorem toTree_eq (d : Definition) :
    d.toTree = Tree.ofFields (Entries.ofOptions d.writtenParts) := by
  unfold toTree
  rw [Entries.ofOptions_unless]
  simp only [KindDefinition.optionalField_eq]
  show Tree.ofFields (Entries.ofOptions [("name",some (.string d.name))] ++ _ ++
    Entries.ofOptions [("variables",some (.map (Tree.ofValueFields d.bindings)))] ++ _ ++ _ ++ _) = _
  simp only [← Entries.ofOptions_append]
  rfl

theorem stepOfNode?_written {n : NamedNode} (h : n.2.IsLegible)
    (hnested : ∀ b ∈ n.2.nested, b.IsLegible) :
    stepOfNode? (Node.ofTree (Tree.ofFields (("id",.string n.1)::nodeFields n.2))) = some n := by
  have hid : Entries.required? ["id"] Node.asText?
      ((("id",Tree.string n.1)::nodeFields n.2).map fun f => (f.1,Node.ofTree f.2)) = some n.1 := by
    have hpart := Reader.IsFaithful.part Node.ofTree (NodeDefinition.writtenParts_filter_id n.1 n.2)
    rw [Block.stepFields_eq]
    exact Entries.required?_of_part hpart rfl
  -- no part of a node is called `id`, so without the id its own parts are left
  have hrest : (((("id",Tree.string n.1)::nodeFields n.2).map fun f => (f.1,Node.ofTree f.2)).filter
      fun e => e.1 != "id").mapM (fun e => e.2.tree?.map fun t => (Tree.string e.1,t)) =
        some ((nodeFields n.2).map fun f => (Tree.string f.1,f.2)) := by
    have hothers : (("id",Tree.string n.1)::nodeFields n.2).filter (fun f => f.1 != "id") =
        nodeFields n.2 := by
      rw [Block.stepFields_eq,Entries.filter_ofOptions fun name => name != "id",
        NodeDefinition.nodeFields_eq]
      exact congrArg _ (NodeDefinition.writtenParts_filter_others n.1 n.2)
    rw [List.filter_map]
    conv_rhs => rw [← hothers]
    exact mapM_map_eq_map fun f _ => by rw [Node.tree?_ofTree]; rfl
  have hnode := NodeDefinition.ofEntries?_nodeFields h fun b hb => Block.ofTree?_toTree (hnested b hb)
  show (Node.ofTree (Tree.ofFields (("id",.string n.1)::nodeFields n.2))).entries? >>= _ = _
  rw [Node.entries?_ofFields,Option.bind_eq_bind,Option.bind_some,hid,Option.bind_eq_bind,
    Option.bind_some,hrest,Option.bind_eq_bind,Option.bind_some,hnode]
  rfl

theorem bindings_written {bindings : Fields}
    (h : Fields.Ordered bindings ∧ ∀ p ∈ bindings, p.2.Tidy Value.isFinite) :
    (do
      let fields ← (← (Node.ofTree (.map (Tree.ofValueFields bindings))).entries?).mapM fun e =>
        e.2.value?.map fun v => (e.1,v)
      some (Fields.ofList fields)) = some bindings := by
  have hentries := Node.entries?_ofFields (bindings.map fun p => (p.1,Tree.ofValue p.2))
  have hvalues : ((bindings.map fun p => (p.1,Tree.ofValue p.2)).map fun f =>
      (f.1,Node.ofTree f.2)).mapM (fun e => e.2.value?.map fun v => (e.1,v)) = some bindings := by
    rw [List.map_map]
    exact mapM_map_of_forall fun p hp =>
      congrArg (Option.map fun v => (p.1,v)) (Node.value?_ofValue (h.2 p hp))
  rw [Tree.ofValueFields_eq,hentries,Option.bind_eq_bind,Option.bind_some,hvalues,
    Option.bind_eq_bind,Option.bind_some,Fields.ofList_of_ordered h.1]

/-- The nodes of the outermost graph are read from the document, as far as their multipliers are. -/
theorem mapM_ofNode?_written {nodes : List NamedNode}
    (h : ∀ n ∈ nodes, n.2.IsLegible ∧ ∀ b ∈ n.2.nested, b.IsLegible)
    (hm : ∀ n ∈ nodes, ∀ s ∈ n.2.retry,
      Node.asDouble? (Node.ofDouble s.multiplier) = some s.multiplier) :
    ((nodeTrees nodes).map fun f => (f.1,Node.ofTree f.2)).mapM (fun e =>
      (NodeDefinition.ofNode? Block.ofTree? e.2).map fun d => (e.1,d)) = some nodes := by
  rw [Block.nodeTrees_eq,List.map_map]
  refine mapM_map_of_forall fun n hn => ?_
  have hnode := NodeDefinition.ofNode?_nodeFields (h n hn).1 (hm n hn) fun b hb =>
    Block.ofTree?_toTree ((h n hn).2 b hb)
  show (NodeDefinition.ofNode? Block.ofTree? (Node.ofTree (Tree.ofFields (nodeFields n.2)))).map
    (fun d => (n.1,d)) = some n
  rw [hnode]
  rfl

/-- A definition that is such as is read is read from its tree in a document. -/
theorem ofNode?_toTree {d : Definition} (h : d.IsLegible)
    (hm : ∀ n ∈ d.nodes, ∀ s ∈ n.2.retry,
      Node.asDouble? (Node.ofDouble s.multiplier) = some s.multiplier) :
    ofNode? (Node.ofTree d.toTree) = some d := by
  have hpart {names : List String} {name : String} {x : Option Tree}
      (hx : d.writtenParts.filter (fun p => names.contains p.1) = [(name,x)]) {y : Option Node}
      (hy : x.map Node.ofTree = y) : Entries.part? names
        ((Entries.ofOptions d.writtenParts).map fun e => (e.1,Node.ofTree e.2)) = some y :=
    hy ▸ Reader.IsFaithful.part Node.ofTree hx
  have hoptional {β : Type} {names : List String} {name : String} {x : Option β} {write : β → Tree}
      (hx : d.writtenParts.filter (fun p => names.contains p.1) = [(name,x.map write)])
      {read : Node → Option β}
      (hread : ∀ b ∈ x, (write b).isSomething = true ∧ read (Node.ofTree (write b)) = some b) :
      Entries.optional? names (Node.asOption? read)
        ((Entries.ofOptions d.writtenParts).map fun e => (e.1,Node.ofTree e.2)) = some x :=
    Reader.nodes_isFaithful.optional hx hread
  rw [toTree_eq]
  unfold ofNode?
  rw [Node.entries?_ofFields]
  generalize (Entries.ofOptions d.writtenParts).map (fun e => (e.1,Node.ofTree e.2)) = entries
    at hpart hoptional ⊢
  have hname : Entries.required? ["name"] Node.asText? entries = some d.name :=
    Entries.required?_of_part (hpart rfl rfl) rfl
  have hdescription : Entries.optional? ["description"] (Node.asOption? Node.asText?) entries =
      some d.description := hoptional rfl fun s _ => ⟨rfl,rfl⟩
  have hbindings : Entries.defaulted? ["variables"] [] (fun node => do
      let fields ← (← node.entries?).mapM fun e => e.2.value?.map fun v => (e.1,v)
      some (Fields.ofList fields)) entries = some d.bindings :=
    Entries.defaulted?_of_part (hpart rfl rfl) (bindings_written h.bindings) []
  have hnodes : Entries.defaulted? ["nodes"] [] (fun node => do
      some (Block.collectNodes (← (← node.entries?).mapM fun e =>
        (NodeDefinition.ofNode? Block.ofTree? e.2).map fun d => (e.1,d)))) entries =
          some d.nodes := by
    cases hempty : d.nodes.isEmpty with
    | true =>
      rw [List.isEmpty_iff.mp hempty]
      exact Entries.defaulted?_of_missing (hpart rfl (by rw [hempty]; rfl)) [] _
    | false =>
      refine Entries.defaulted?_of_part (hpart rfl (by rw [hempty]; rfl)) ?_ []
      rw [Node.entries?_ofFields,Option.bind_eq_bind,Option.bind_some,
        mapM_ofNode?_written h.nodes hm,Option.bind_eq_bind,Option.bind_some,
        Block.collectNodes_of_nodup h.distinct]
  have hsteps : Entries.optional? ["steps"] (Node.asOption? (Node.asList? stepOfNode?)) entries =
      some d.steps := by
    refine hoptional rfl fun steps hs => ⟨rfl,?_⟩
    show (Node.ofTreeItems (stepTrees steps)).mapM stepOfNode? = some steps
    rw [Node.ofTreeItems_eq,Block.stepTrees_eq,List.map_map]
    exact mapM_map_of_forall fun n hn =>
      stepOfNode?_written (h.steps steps hs n hn).1 (h.steps steps hs n hn).2
  have hterminal : Entries.optional? ["terminal_nodes"] (Node.asOption? (Node.asList? Node.asText?))
      entries = some d.terminal := by
    refine hoptional rfl fun names _ => ⟨rfl,?_⟩
    exact Reader.nodes_isFaithful.texts names
  simp only [Option.bind_eq_bind,Option.bind_some] at hbindings hnodes ⊢
  simp only [Option.bind_some,hname,hdescription,hbindings,hnodes,hsteps,hterminal]

/-- Whatever text is read as a definition, writing the definition and reading it again gives the same
definition, with every node, dependency, target, nested graph and duration, and with all maps of nodes
in the same order. The multipliers of the outermost nodes have to be told from their texts; and what
is written may lie too deep for a document, although what was read did not. -/
theorem reread_of_parse {text : String} {d : Definition} (h : parse text = .ok d)
    (hm : ∀ n ∈ d.nodes, ∀ s ∈ n.2.retry,
      Node.asDouble? (Node.ofDouble s.multiplier) = some s.multiplier) :
    ofNode? (Node.ofTree d.toTree) = some d ∧ d.check = .ok d ∧
      d.reread = if d.toTree.height ≤ Node.levels then .ok d else .error .malformed := by
  have hlegible : d.IsLegible ∧ d.check = .ok d := by
    unfold parse at h
    split at h
    · cases h
    · next read hread =>
      obtain ⟨node,-,hnode⟩ := Option.bind_eq_some_iff.mp hread
      rw [← check_eq_ok h] at hnode h
      exact ⟨ofNode?_isLegible hnode,h⟩
  have hread := ofNode?_toTree hlegible.1 hm
  refine ⟨hread,hlegible.2,?_⟩
  unfold reread
  dsimp only
  split_ifs
  · rw [hread]
    exact hlegible.2
  · rfl

/-- A node whose kind goes by its other name and whose dependency is a list, and a step whose kind goes
by its number and whose time limit is written in another unit. -/
def tea : String := String.intercalate "\n" ["name: tea","nodes:"," pour:","  type: for_each",
  "  items: [1]","  depends_on: [not: rest]","  template:","  - id: sip","    type: 0",
  "    action: echo","    timeout: 90s"," rest:","  type: action","  action: fail"]

theorem reread_of_parse_tea : ∃ d, parse tea = .ok d ∧ d.nodes.map (·.1) = ["pour","rest"] ∧
    (∀ n ∈ d.nodes, ∀ s ∈ n.2.retry,
      Node.asDouble? (Node.ofDouble s.multiplier) = some s.multiplier) ∧
    ofNode? (Node.ofTree d.toTree) = some d ∧ d.reread = .ok d := by
  have hgood : (match parse tea with
      | .ok d => decide (d.nodes.map (·.1) = ["pour","rest"]) && d.nodes.all (·.2.retry.isNone) &&
        decide (d.toTree.height ≤ Node.levels)
      | .error _ => false) = true := by decide +kernel
  cases hd : parse tea with
  | error fault =>
    rw [hd] at hgood
    cases hgood
  | ok d =>
    simp only [hd,Bool.and_eq_true,decide_eq_true_eq,List.all_eq_true] at hgood
    obtain ⟨⟨hids,hretry⟩,hheight⟩ := hgood
    have hm : ∀ n ∈ d.nodes, ∀ s ∈ n.2.retry,
        Node.asDouble? (Node.ofDouble s.multiplier) = some s.multiplier := by
      intro n hn s hs
      have hnone := hretry n hn
      rw [Option.mem_def.mp hs] at hnone
      cases hnone
    obtain ⟨hread,-,hreread⟩ := reread_of_parse hd hm
    rw [if_pos hheight] at hreread
    exact ⟨d,rfl,hids,hm,hread,hreread⟩

end Definition

end TaskGraph
