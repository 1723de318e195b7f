import TaskGraph.Proofs.Engine.Journal
import TaskGraph.Proofs.Engine.Scene

/-!
What is seen where in an engine: what tasks and nested runs get to see when they start, and what is
added to the results of a run, over all that happens.
-/

namespace TaskGraph

/-- What a node may let the runs that it starts see under names of its own. -/
def GraphNode.lends (n : GraphNode Graph) : List String :=
  "error"::match n.kind with
    | .forEach _ binding _ => [binding,"index"]
    | .loop .. => ["iteration","last"]
    | _ => []

theorem Scope.binding?_bind_of_ne (scope : Scope) {name other : String} (h : other ≠ name)
    (v : Value) : (scope.bind name v).binding? other = scope.binding? other :=
  Fields.get?_insert_of_ne h v scope.bindings

namespace Engine

/-- Nested runs see the results that their task sees, and its bindings but for what is lent. -/
theorem Task.Starts.sees {t : Task} {graph : Graph} {scope : Scope} (h : t.Starts graph scope) :
    scope.results = t.scope.results ∧
      ∀ name ∉ t.node.lends, scope.binding? name = t.scope.binding? name := by
  have herror (f : Failure) {name : String} (hn : name ∉ t.node.lends) :
      (t.failureScope f).binding? name = t.scope.binding? name :=
    Scope.binding?_bind_of_ne _ (List.ne_of_not_mem_cons hn) _
  cases h with
  | sequence | guarded | always => exact ⟨rfl,fun _ _ => rfl⟩
  | recovery f | alwaysAfter f | handler f => exact ⟨rfl,fun _ hn => herror f hn⟩
  | item index item hk =>
    refine ⟨rfl,fun name hn => ?_⟩
    simp only [GraphNode.lends,hk,List.mem_cons,not_or] at hn
    obtain ⟨-,hbinding,hindex,-⟩ := hn
    exact (Scope.binding?_bind_of_ne _ hindex _).trans (Scope.binding?_bind_of_ne _ hbinding _)
  | turn outputs hk =>
    refine ⟨rfl,fun name hn => ?_⟩
    simp only [GraphNode.lends,hk,List.mem_cons,not_or] at hn
    obtain ⟨-,hiteration,hlast,-⟩ := hn
    exact (Scope.binding?_bind_of_ne _ hlast _).trans (Scope.binding?_bind_of_ne _ hiteration _)

/-- A run whose results change takes in the report of one of its nodes, and keeps its value. -/
theorem Run.Course.gains {w : World} {r q : Run} {fresh : List Task} (hc : Run.Course w r q fresh)
    (hs : r.Sensible) : q.schedule.scope = r.schedule.scope ∨
    ∃ node report v unselected, .finished node report ∈ r.inbox ∧ node ∈ r.schedule.graph.ids ∧
      report.ending = .success v unselected ∧
      q.schedule.scope = r.schedule.scope.recordResult node v := by
  have hpassed : (w.passed r).1.scope = r.schedule.scope := by
    unfold World.passed
    split
    · rfl
    · exact Schedule.pass_scope _ _
  cases hc with
  | keeps hsch => exact .inl (by rw [hsch])
  | passes hsch => exact .inl (by rw [hsch,hpassed])
  | closes _ hsch =>
    rw [hsch]
    exact .inl hpassed
  | @takes event rest hi hsch =>
    rw [hsch]
    have hmem : event ∈ r.inbox := hi ▸ List.mem_cons_self
    have hknown := hs.known _ (hs.awaited event hmem).mem
    cases hgains : r.schedule.apply_gains w.now event with
    | nothing hscope => exact .inl hscope
    | value he hscope => exact .inr ⟨_,_,_,_,hmem,hknown,he,hscope⟩

/-- What is seen where, by what was written down until a world. -/
structure Shielded (e : Engine) (log : List Entry) (w : World) : Prop where
  /-- A dispatched node sees the bindings that its run has started with, the results of the nodes
  that have succeeded in the run, and under all other ids the results that it has started with. -/
  dispatched : ∀ t s, .dispatches t s ∈ log → t.node ∈ s.graph.nodes ∧
    ∃ first, .starts t.id.run s.graph first ∈ log ∧ s.Shows first t.scope
  /-- Every task works with what it saw when it was dispatched. -/
  tasks : ∀ t ∈ w.tasks, ∃ u s, .dispatches u s ∈ log ∧ u.id = t.id ∧ u.node = t.node ∧
    u.scope = t.scope
  /-- No run shows results of other runs, but those that it has started with. -/
  runs : ∀ r ∈ w.runs, ∃ first, .starts r.id r.schedule.graph first ∈ log ∧
    r.schedule.Shows first r.schedule.scope
  /-- A run has one start, and a task is dispatched with one scope. -/
  starts_once : ∀ id graph graph' first first', .starts id graph first ∈ log →
    .starts id graph' first' ∈ log → graph = graph' ∧ first = first'
  dispatches_once : ∀ t u s s', .dispatches t s ∈ log → .dispatches u s' ∈ log → t.id = u.id →
    t = u
  cause : ∀ id graph first, .starts id graph first ∈ log → HasCause log id graph first
  /-- The runs that a node starts see the same at first, but for what the node lends them. -/
  siblings : ∀ a b graph graph' first first' owner, .starts a graph first ∈ log →
    .starts b graph' first' ∈ log → a.owner? = some owner → b.owner? = some owner →
    ∃ t s, .dispatches t s ∈ log ∧ t.id = owner ∧ first.results = t.scope.results ∧
      first'.results = t.scope.results ∧
      ∀ name ∉ t.node.lends, first.binding? name = first'.binding? name
  /-- A run gains nothing but what the task of one of its own nodes has told it, under the id of
  that node. -/
  gains : ∀ turn w', Step e turn w w' → ∀ r ∈ w.runs, ∀ q ∈ w'.runs, q.id = r.id →
    q.schedule.scope = r.schedule.scope ∨ ∃ node x report v unselected,
      node ∈ r.schedule.graph.ids ∧ .tells x ∈ log ∧ x.task = ⟨r.id,node⟩ ∧
      x.event = .finished node report ∧ report.ending = .success v unselected ∧
      q.schedule.scope = r.schedule.scope.recordResult node v

theorem HasCause.of_owner {log : List Entry} {id : RunId} {graph : Graph} {first : Scope}
    {owner : TaskId} (h : HasCause log id graph first) (ho : id.owner? = some owner) :
    ∃ t s, .dispatches t s ∈ log ∧ t.id = owner ∧ t.Starts graph first := by
  obtain ⟨hroot,-⟩ | ⟨t,s,k,hts,rfl,hstarts⟩ := h
  · rw [RunId.owner?,hroot] at ho
    cases ho
  · exact ⟨t,s,hts,Option.some.inj ho,hstarts⟩

/-- Whatever happens, nodes see what their run has started with and what has succeeded in it by
then; results of nested runs stay in them, and the nested runs of a node see nothing of each other but
what the node hands on. -/
theorem scopes_are_shielded {e : Engine} {log : List Entry} {w : World} (hj : Journal e log w) :
    Shielded e log w where
  dispatched t s hts := by
    obtain ⟨-,hnode,hscope,first,hfirst,hl⟩ := hj.books.dispatched t s hts
    exact ⟨hnode,first,hfirst,hscope ▸ hl.shows⟩
  tasks := hj.books.tasks
  runs r hr := by
    obtain ⟨first,hfirst,hl⟩ := hj.books.runs r hr
    exact ⟨first,hfirst,hl.shows⟩
  starts_once := hj.books.starts_once
  dispatches_once := hj.books.dispatches_once
  cause := hj.books.started
  siblings a b graph graph' first first' owner ha hb hao hbo := by
    obtain ⟨t,s,hts,hid,hstarts⟩ := (hj.books.started _ _ _ ha).of_owner hao
    obtain ⟨u,s',hus,huid,hstarts'⟩ := (hj.books.started _ _ _ hb).of_owner hbo
    obtain rfl := hj.books.dispatches_once t u s s' hts hus (hid.trans huid.symm)
    obtain ⟨hresults,hbindings⟩ := hstarts.sees
    obtain ⟨hresults',hbindings'⟩ := hstarts'.sees
    exact ⟨t,s,hts,hid,hresults,hresults',fun name hn =>
      (hbindings name hn).trans (hbindings' name hn).symm⟩
  gains turn w' hs r hr q hq hid := by
    have hw := hj.reaches.coherent
    obtain ⟨hsame,-⟩ | ⟨fresh,hcourse⟩ := (hs.goes hj.reaches).same_run hw hr hq hid
    · exact .inl (by rw [hsame])
    · obtain hsame | ⟨node,report,v,unselected,hin,hnode,he,hscope⟩ := hcourse.gains (hw.run r hr)
      · exact .inl hsame
      · obtain ⟨x,hx,htask,hevent⟩ := hj.told hr hin
        exact .inr ⟨node,x,report,v,unselected,hnode,hx,htask,hevent,he,hscope⟩

namespace Namesakes

/-- An action that answers with the place where it is used. -/
abbrev sign : Action where
  name := "sign"
  logged := false
  check _ := .ok ()
  start use := ⟨0,true,.done (.string use.path)⟩

abbrev engine : Engine := { config := {}, pools := {}, setting := { actions := [sign] } }

/-- Two copies of a graph with a node that is named like one outside. -/
abbrev definition : Definition where
  name := "namesakes"
  nodes := [("seed",{ kind := .action "sign" .null }),
    ("fan",{
      kind := .forEach (.array [.int 1,.int 2]) "item"
        (.graph [("seed",{ kind := .action "sign" .null })] none)
      dependsOn := some (.node "seed") })]

abbrev run : RunId := ⟨0,[]⟩

abbrev fan : TaskId := ⟨run,"fan"⟩

/-- The first copy has the result of its node, the second has just started. -/
abbrev moves : List Move :=
  [.pass run,.step ⟨run,"seed"⟩,.take run,.pass run,.take run,.pass run,.step fan,
    .pass (fan.child 0),.step ⟨fan.child 0,"seed"⟩,.take (fan.child 0),.pass (fan.child 0),
    .take (fan.child 0)]

def started : World :=
  match engine.start engine.world definition [] 0 none with
  | .ok w => w
  | .error _ => engine.world

theorem started_eq : engine.start engine.world definition [] 0 none = .ok started := rfl

theorem world_isSome : (started.moves? engine.setting moves).isSome = true := by decide +kernel

def world : World := (started.moves? engine.setting moves).get world_isSome

theorem reaches : Reaches engine world := by
  have hstarted : Reaches engine started :=
    .step .world (.start rfl (fun _ hr => absurd hr List.not_mem_nil) started_eq)
  exact (hstarted.moves (Option.some_get world_isSome).symm).1

end Namesakes

/-- The result inside is seen where it was recorded, and neither outside nor in the other copy. -/
theorem scopes_are_shielded_namesakes :
    (∃ r ∈ Namesakes.world.runs, r.id = Namesakes.run ∧
      r.schedule.scope.result? "seed" = some (.string "seed")) ∧
    (∃ r ∈ Namesakes.world.runs, r.id = Namesakes.fan.child 0 ∧
      r.schedule.scope.result? "seed" = some (.string "fan[0]/seed")) ∧
    (∃ r ∈ Namesakes.world.runs, r.id = Namesakes.fan.child 1 ∧
      r.schedule.scope.result? "seed" = some (.string "seed")) ∧
    ∃ log, Journal Namesakes.engine log Namesakes.world ∧
      Shielded Namesakes.engine log Namesakes.world := by
  refine ⟨by decide +kernel,by decide +kernel,by decide +kernel,?_⟩
  obtain ⟨log,hj⟩ := Namesakes.reaches.journal
  exact ⟨log,hj,scopes_are_shielded hj⟩

end Engine

end TaskGraph
