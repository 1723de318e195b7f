import TaskGraph.Proofs.Engine.Courses

/-!
The letters that tasks send to their runs, over all runs of an engine in the order in which they are
sent, and which of them a step sends.
-/

namespace TaskGraph

def Event.time : Event → Instant
  | .started _ time => time
  | .finished _ report => report.time

theorem Graph.node?_of_mem {g : Graph} (hd : g.ids.Nodup) {n : GraphNode Graph} (hn : n ∈ g.nodes) :
    g.node? n.id = some n := by
  cases hf : g.node? n.id with
  | none => simpa using List.find?_eq_none.mp hf n hn
  | some m =>
    have hm := List.mem_of_find?_eq_some hf
    have hid : m.id = n.id := by simpa using List.find?_some hf
    rw [List.inj_on_of_nodup_map hd hm hn hid]

namespace Engine

/-- An event that a task sends to its run, and the tags that its node carries. -/
structure Letter where
  task : TaskId
  tags : NameSet
  event : Event

namespace Letter

/-- Whether it says that the node was admitted. -/
def isStart (l : Letter) : Bool := !l.event.isReport

/-- Whether it is the report of a task that broke down. -/
def isBreakdown (l : Letter) : Bool :=
  match l.event with
  | .finished _ ⟨.failed (.internal _),_,_⟩ => true
  | _ => false

end Letter

/-- An event of a run as a letter. -/
def Run.letter (r : Run) (e : Event) : Letter where
  task := ⟨r.id,e.node⟩
  tags := ((r.schedule.graph.node? e.node).map (·.tags)).getD []
  event := e

/-- What a task tells its run as letters. -/
def Task.letters (t : Task) (es : List Event) : List Letter :=
  es.map fun x => ⟨t.id,t.node.tags,x⟩

/-- What has come in for a run since an earlier world. -/
def Run.news (w : World) (r : Run) : List Event :=
  r.inbox.drop (((w.run? r.id).map fun old => old.inbox.length).getD 0)

/-- What has been sent when one world comes after another. -/
def World.sent (w w' : World) : List Letter := w'.runs.flatMap fun r => (r.news w).map r.letter

/-- The worlds that an engine comes to, with all letters that were sent until then. -/
inductive Chronicle (e : Engine) : List Letter → World → Prop
  | world : Chronicle e [] e.world
  | step {log : List Letter} {w w' : World} {turn : Option Nat} : Chronicle e log w →
    Step e turn w w' → Chronicle e (log ++ w.sent w') w'

theorem Chronicle.reaches {e : Engine} {log : List Letter} {w : World} (hc : Chronicle e log w) :
    Reaches e w := by
  induction hc with
  | world => exact .world
  | step _ hs ih => exact ih.step hs

/-- What only one of a list has. -/
theorem flatMap_eq_of_unique {α β : Type} {f : α → List β} {l : List α} (hd : l.Nodup) {x : α}
    (hx : x ∈ l) (h : ∀ y ∈ l, y ≠ x → f y = []) : l.flatMap f = f x := by
  induction l with
  | nil => cases hx
  | cons y rest ih =>
    obtain ⟨hy,hrest⟩ := List.nodup_cons.mp hd
    rw [List.flatMap_cons]
    rcases List.mem_cons.mp hx with rfl | hx
    · have hnone : rest.flatMap f = [] := List.flatMap_eq_nil_iff.mpr fun z hz =>
        h z (List.mem_cons_of_mem x hz) fun he => hy (he ▸ hz)
      rw [hnone,List.append_nil]
    · rw [h y List.mem_cons_self fun he => hy (he ▸ hx),List.nil_append]
      exact ih hrest hx fun z hz => h z (List.mem_cons_of_mem y hz)

namespace World

variable {e : Engine} {w w' : World} {t : Task} {d : Deed} {es : List Event}

theorem Coherent.news_hear (hw : w.Coherent) {r : Run} (hr : r ∈ w.runs) (id : RunId) :
    (r.hear id es).news w = if r.id = id then es else [] := by
  have hfound : w.run? (r.hear id es).id = some r := run?_of_mem hw.runs_nodup hr
  rw [Run.news,hfound,Run.hear]
  exact List.drop_left

/-- Nothing is sent when nothing has come in. -/
theorem Coherent.sent_eq_nil (hw : w.Coherent) (h : ∀ r' ∈ w'.runs, r'.inbox = [] ∨
    ∃ r ∈ w.runs, r'.id = r.id ∧ r'.inbox.length ≤ r.inbox.length) : w.sent w' = [] := by
  refine List.flatMap_eq_nil_iff.mpr fun r' hr' => ?_
  have hnone : r'.news w = [] := by
    obtain hempty | ⟨r,hr,hid,hle⟩ := h r' hr'
    · rw [Run.news,hempty,List.drop_nil]
    · rw [Run.news,hid,run?_of_mem hw.runs_nodup hr]
      exact List.drop_eq_nil_of_le hle
  rw [hnone,List.map_nil]

theorem Tells.node (h : Tells e w t d es) {x : Event} (hx : x ∈ es) : x.node = t.node.id := by
  have hreport (hx : x ∈ d.posted.toList.map (Event.finished t.node.id)) : x.node = t.node.id := by
    obtain ⟨report,-,rfl⟩ := List.mem_map.mp hx
    rfl
  cases h with
  | begins =>
    rcases List.mem_cons.mp hx with rfl | hx
    · rfl
    · exact hreport hx
  | goesOn => exact hreport hx

/-- A task that does something sends what it tells its run. -/
theorem Performs.sent_eq (h : Performs e w w' t d es) (hw : w.Coherent) (ht : t ∈ w.tasks) :
    w.sent w' = t.letters es := by
  obtain ⟨home,hhome,hat⟩ := hw.home t ht
  have hnode := (hw.task t ht).node
  have hstays : home ∈ w.runs.filter fun r => !r.id.isWithinAny t.phase.runs := by
    have hself : t.id.run.isWithinAny t.phase.runs = false := hw.stays_self ht
    rw [List.mem_filter,hat.id,hself]
    exact ⟨hhome,rfl⟩
  have hnew : d.opened.flatMap (fun r => (r.news w).map r.letter) = [] := by
    refine List.flatMap_eq_nil_iff.mpr fun r hr => ?_
    obtain ⟨g,-,hnew⟩ := h.fits.opened r hr
    rw [Run.news,hnew.inbox,List.drop_nil,List.map_nil]
  rw [sent,h.runs,List.flatMap_append,hnew,List.append_nil,List.flatMap_map,
    flatMap_eq_of_unique (hw.runs_nodup.of_map.filter _) hstays fun r hr hne => ?_]
  · rw [hw.news_hear hhome,if_pos hat.id]
    refine List.map_congr_left fun x hx => ?_
    have hx := h.tells.node hx
    have hfound := Graph.node?_of_mem ((hw.run home hhome).graph _ (.self _)) hat.node
    rw [Run.letter,Run.hear]
    simp only [hx,hfound,Option.map_some,Option.getD_some,Letter.mk.injEq,and_true]
    exact TaskId.eq_of hat.id hnode
  · have hr := (List.mem_filter.mp hr).1
    have hid : r.id ≠ t.id.run := fun he => hne (hw.run_unique hr hhome (he.trans hat.id.symm))
    rw [hw.news_hear hr,if_neg hid,List.map_nil]

/-- What a step does to runs and tasks, and the letters that are sent in it. -/
inductive Goes (e : Engine) (w w' : World) : List Letter → Prop
  | starts {run : Run} {graph : Graph} : run.IsNew graph → run.id.steps = [] →
    (∀ r ∈ w.runs, r.id.root ≠ run.id.root) → (∀ g, graph.Contains g → g.Sound) →
    w'.runs = w.runs ++ [run] → w'.tasks = w.tasks → w'.clock = w.clock →
    run.schedule.scope.results = [] → Goes e w w' []
  | passes {r r' : Run} {fresh : List Task} : r ∈ w.runs → r.result? = none → r'.id = r.id →
    Run.Course w r r' fresh → w'.runs = (w.setRun r').runs → w'.tasks = w.tasks ++ fresh →
    w'.clock = w.clock → Goes e w w' []
  | performs {t : Task} {d : Deed} {es : List Event} : t ∈ w.tasks → Performs e w w' t d es →
    Goes e w w' (t.letters es)
  | leaves {t : Task} : t ∈ w.tasks → t.phase.isLeaving = true → w'.runs = w.runs →
    w'.tasks = w.tasks.filter (fun other => other.id != t.id) → w'.clock = w.clock → Goes e w w' []
  | waits : w'.runs = w.runs → w'.tasks = w.tasks → w.clock ≤ w'.clock → Goes e w w' []

theorem Coherent.sent_same (hw : w.Coherent) (h : w'.runs = w.runs) : w.sent w' = [] :=
  hw.sent_eq_nil fun r hr => .inr ⟨r,h ▸ hr,rfl,Nat.le_refl _⟩

end World

theorem Step.goes {e : Engine} {w w' : World} {turn : Option Nat} (hs : Step e turn w w')
    (hr : Reaches e w) : World.Goes e w w' (w.sent w') := by
  have hw := hr.coherent
  cases hs with
  | @start _ _ d given number cancelAt hk hfree hstart =>
    obtain ⟨graph,bindings,expiry,hb,ha,-⟩ := start_firstRun hstart
    have hn := firstRun_isNew w d graph bindings number expiry
    have hnone : w.sent w' = [] := by
      refine hw.sent_eq_nil fun r hr => ?_
      rw [ha.runs] at hr
      rcases List.mem_append.mp hr with hr | hr
      · exact .inr ⟨r,hr,rfl,Nat.le_refl _⟩
      · exact .inl (List.mem_singleton.mp hr ▸ hn.inbox)
    rw [hnone]
    exact .starts hn rfl hfree (fun g hc => Definition.sound_of_build hb hk hc) ha.runs ha.tasks
      ha.clock rfl
  | move hm =>
    obtain ⟨r,hrun,-,hturn⟩ | ⟨t,ht,-,hstep⟩ | ⟨-,⟨n,rfl⟩ | ⟨millis,rfl⟩⟩ := World.move_cases hm
    · obtain ⟨hgoing,r',fresh,hid,hcourse,hruns,htasks,hclock⟩ := hturn.course
      have hnone : w.sent w' = [] := by
        refine hw.sent_eq_nil fun q hq => .inr ?_
        rw [hruns] at hq
        obtain rfl | ⟨hq,-⟩ := (World.mem_setRun hrun hid).mp hq
        · exact ⟨r,hrun,hid,hcourse.inbox.length_le⟩
        · exact ⟨q,hq,rfl,Nat.le_refl _⟩
      rw [hnone]
      exact .passes hrun hgoing hid hcourse hruns htasks hclock
    · have hsens := hw.task t ht
      have hturn := World.stepTask_turn hsens.node hsens.phase hstep
      obtain ha | ⟨d,es,hp⟩ | ⟨hl,ha⟩ := hturn.performs hr ht
      · rw [hw.sent_same ha.runs]
        exact .waits ha.runs ha.tasks (Nat.le_of_eq ha.clock.symm)
      · rw [hp.sent_eq hw ht]
        exact .performs ht hp
      · rw [hw.sent_same ha.runs]
        exact .leaves ht hl ha.runs ha.tasks ha.clock
    · obtain ⟨c,ha,-⟩ := w.cancel_alike n
      rw [hw.sent_same ha.runs]
      exact .waits ha.runs ha.tasks (Nat.le_of_eq ha.clock.symm)
    · rw [hw.sent_same (show { w with clock := w.clock+millis }.runs = w.runs from rfl)]
      exact .waits rfl rfl (Nat.le_add_right _ _)
  | agenda _ ready plans =>
    rw [hw.sent_same (show { w with ready, plans }.runs = w.runs from rfl)]
    exact .waits rfl rfl (Nat.le_refl _)

end Engine

end TaskGraph
