import TaskGraph.Proofs.Engine.Scene
import TaskGraph.Proofs.Engine.Traces

/-!
Nodes that share a tag. There are never more of them at work than the pool of the tag has room for, and
where there is room for one only, the next one starts when the one before it has reported, by the
letters and by the times in the records.
-/

namespace TaskGraph

theorem pair_sublist {α : Type} {xs ys : List α} {x y : α} (hx : x ∈ xs) (hy : y ∈ ys) :
    [x,y].Sublist (xs ++ ys) :=
  (List.singleton_sublist.mpr hx).append (List.singleton_sublist.mpr hy)

/-- Of two elements of a list one precedes the other, if they are not the same. -/
theorem precedes_total {α : Type} {l : List α} {x y : α} (hx : x ∈ l) (hy : y ∈ l) :
    x = y ∨ [x,y].Sublist l ∨ [y,x].Sublist l := by
  obtain ⟨l₁,l₂,rfl⟩ := List.append_of_mem hx
  rcases List.mem_append.mp hy with hy | hy
  · exact .inr (.inr (pair_sublist hy List.mem_cons_self))
  · rcases List.mem_cons.mp hy with rfl | hy
    · exact .inl rfl
    · have h : [x,y].Sublist (x::l₂) := (List.singleton_sublist.mpr hy).cons_cons x
      exact .inr (.inl (h.trans (List.sublist_append_right _ _)))

namespace Engine

open Letter

variable {e : Engine} {log : List Letter} {w : World} {a b f : Letter}

namespace Chronicle

/-- A task starts once and reports once. -/
theorem unique (hc : Chronicle e log w) (ha : a ∈ log) (hb : b ∈ log) (hid : a.task = b.task)
    (hs : a.isStart = b.isStart) : a = b := by
  obtain he | h | h := precedes_total ha hb
  · exact he
  · obtain ⟨hstart,hreport⟩ := hc.paired_of_precedes h hid
    rw [hstart,hreport] at hs
    cases hs
  · obtain ⟨hstart,hreport⟩ := hc.paired_of_precedes h hid.symm
    rw [hstart,hreport] at hs
    cases hs

theorem not_before_of_precedes (hc : Chronicle e log w) (h : [a,b].Sublist log) :
    b.event.time.isBefore a.event.time = false :=
  List.pairwise_iff_forall_sublist.mp hc.ordered.1 h

variable {r : Run} {q : Record} {time : Instant}

/-- The record of a node tells when its start was sent. -/
theorem of_started (hc : Chronicle e log w) {id : TaskId} (hr : r ∈ w.runs) (hid : r.id = id.run)
    (hq : r.schedule.record? id.node = some q) (ht : q.started = some time) :
    ∃ x ∈ log, x.task = id ∧ x.isStart = true ∧ x.event.time = time := by
  obtain ⟨scope,h,s,htraces⟩ := hc.traces r hr
  have hevent := (htraces.stamped id.node q hq).started time ht
  have hheard : .started id.node time ∈ heard log id.run := by
    rw [← hid,htraces.sent]
    exact List.mem_append_left _ hevent
  obtain ⟨x,hx,htask,hev⟩ := hc.letter_of_heard hheard rfl
  exact ⟨x,hx,htask,by rw [isStart,hev]; rfl,by rw [hev]; rfl⟩

/-- The record of a node that has sent anything tells when its report was sent, or its start. -/
theorem of_finished (hc : Chronicle e log w) (ha : a ∈ log) (hr : r ∈ w.runs)
    (hid : r.id = a.task.run) (hq : r.schedule.record? a.task.node = some q)
    (ht : q.finished = some time) : ∃ x ∈ log, x.task = a.task ∧ x.isStart = false ∧
      (x.event.time = time ∨ q.started = some time) := by
  obtain ⟨scope,h,s,htraces⟩ := hc.traces r hr
  have hsent : a.event ∈ heard log r.id := mem_heard.mpr ⟨a,ha,hid.symm,rfl⟩
  have hdispatched := htraces.dispatched (hc.reaches.coherent.run r hr) hsent
  rw [hc.node_eq a ha] at hdispatched
  obtain ⟨report,hm,htime⟩ := (htraces.stamped _ q hq).finished hdispatched time ht
  have hheard : .finished a.task.node report ∈ heard log a.task.run := by
    rw [← hid,htraces.sent]
    exact List.mem_append_left _ hm
  obtain ⟨x,hx,htask,hev⟩ := hc.letter_of_heard hheard rfl
  refine ⟨x,hx,htask,by rw [isStart,hev]; rfl,htime.imp_left fun h => ?_⟩
  rw [hev]
  exact h.symm

/-- Whoever has started has reported, or is there, or its run is not there any more. -/
theorem accounted (hc : Chronicle e log w) (ha : a ∈ log) :
    (∃ f ∈ log, f.task = a.task ∧ f.isStart = false) ∨ (∃ t ∈ w.tasks, t.id = a.task) ∨
      ∀ r ∈ w.runs, r.id ≠ a.task.run := by
  by_cases hrun : ∃ r ∈ w.runs, r.id = a.task.run
  · obtain ⟨r,hr,hid⟩ := hrun
    have hw := hc.reaches.coherent
    obtain ⟨scope,h,s,htraces⟩ := hc.traces r hr
    have hsent : a.event ∈ heard log r.id := mem_heard.mpr ⟨a,ha,hid.symm,rfl⟩
    have hdispatched := htraces.dispatched (hw.run r hr) hsent
    rw [hc.node_eq a ha] at hdispatched
    have hreported {report : Report} (hm : .finished a.task.node report ∈ h.events ++ r.inbox) :
        ∃ f ∈ log, f.task = a.task ∧ f.isStart = false := by
      have hheard : .finished a.task.node report ∈ heard log a.task.run := hid ▸ htraces.sent ▸ hm
      obtain ⟨x,hx,htask,hev⟩ := hc.letter_of_heard hheard rfl
      exact ⟨x,hx,htask,by rw [isStart,hev]; rfl⟩
    obtain hin | ⟨report,hm⟩ := htraces.reaches.reported_of_dispatched _ hdispatched
    · obtain ⟨report,hm⟩ | ⟨t,ht,htid,-⟩ := hw.carried r hr _ (htraces.inFlight ▸ hin)
      · exact .inl (hreported (List.mem_append_right _ hm))
      · exact .inr (.inl ⟨t,ht,htid.trans (TaskId.eq_of hid rfl)⟩)
    · exact .inl (hreported (List.mem_append_left _ hm))
  · exact .inr (.inr fun r hr he => hrun ⟨r,hr,he⟩)

section Rivals

variable {l₁ l₂ l₃ : List Letter} (hc : Chronicle e log w) (hlog : log = l₁ ++ a::l₂ ++ b::l₃)

include hc hlog

/-- The first of two rivals reports before the second starts. -/
theorem between (hr : Rivals e a b) (hf : f ∈ log) (hid : f.task = a.task)
    (hreport : f.isStart = false) (hb : f.isBreakdown = false) : f ∈ l₂ := by
  have hfa : f ≠ a := by
    rintro rfl
    rw [hr.first] at hreport
    cases hreport
  have hfb : f ≠ b := by
    rintro rfl
    rw [hr.second] at hreport
    cases hreport
  have hsplit : f ∈ l₁ ∨ f ∈ l₂ ∨ f ∈ l₃ := by
    rw [hlog] at hf
    simpa [hfa,hfb] using hf
  obtain hf | hf | hf := hsplit
  · have h : [f,a].Sublist log := by
      rw [hlog,List.append_assoc]
      exact pair_sublist hf List.mem_cons_self
    rw [(hc.paired_of_precedes h hid).1] at hreport
    cases hreport
  · exact hf
  · have h : [a,b,f].Sublist log := by
      have hfirst : a ∈ l₁ ++ a::l₂ := List.mem_append_right l₁ List.mem_cons_self
      have hlast : [b,f].Sublist (b::l₃) := (List.singleton_sublist.mpr hf).cons_cons b
      rw [hlog]
      exact (List.singleton_sublist.mpr hfirst).append hlast
    rw [hc.exclusive h hr hid hreport] at hb
    cases hb

/-- The record of the second of two rivals tells no earlier start than the record of the first tells
its end. -/
theorem records_ordered (hr : Rivals e a b) (hf : f ∈ log) (hid : f.task = a.task)
    (hreport : f.isStart = false) (hb : f.isBreakdown = false) {r r' : Run} (hrun : r ∈ w.runs)
    (hrid : r.id = a.task.run) (hrun' : r' ∈ w.runs) (hrid' : r'.id = b.task.run) {q q' : Record}
    (hq : r.schedule.record? a.task.node = some q)
    (hq' : r'.schedule.record? b.task.node = some q') {first second : Instant}
    (hfirst : q.finished = some first) (hsecond : q'.started = some second) :
    second.isBefore first = false := by
  have hmem : a ∈ log ∧ b ∈ log := by
    rw [hlog]
    simp
  have hab : [a,b].Sublist log := by
    rw [hlog]
    exact pair_sublist (List.mem_append_right l₁ List.mem_cons_self) List.mem_cons_self
  have hfb : [f,b].Sublist log := by
    have hf := hc.between hlog hr hf hid hreport hb
    rw [hlog]
    exact pair_sublist (List.mem_append_right l₁ (List.mem_cons_of_mem a hf)) List.mem_cons_self
  obtain ⟨x,hx,hxid,hxs,rfl⟩ := hc.of_started hrun' hrid' hq' hsecond
  obtain rfl := hc.unique hx hmem.2 hxid (hxs.trans hr.second.symm)
  obtain ⟨y,hy,hyid,hys,htime⟩ := hc.of_finished hmem.1 hrun hrid hq hfirst
  obtain rfl | hstarted := htime
  · obtain rfl := hc.unique hy hf (hyid.trans hid.symm) (hys.trans hreport.symm)
    exact hc.not_before_of_precedes hfb
  · obtain ⟨z,hz,hzid,hzs,rfl⟩ := hc.of_started hrun hrid hq hstarted
    obtain rfl := hc.unique hz hmem.1 hzid (hzs.trans hr.first.symm)
    exact hc.not_before_of_precedes hab

end Rivals

end Chronicle

/-- Of the nodes that carry a tag no more are between their admission and their report than its pool has
room for, and of the actions no more are at work than there are slots, also when another is used. Who
is at work has started and has not reported; who has started is at work until it reports, unless it
breaks down or is dropped with the run that it belongs to. Of two nodes that carry a tag of which there
is only one, the one that starts first reports before the other starts, unless it breaks down, and by
their records the second does not start before the first has ended. -/
theorem shared_tags_exclude (hc : Chronicle e log w) :
    (∀ tag, w.tasks.countP (fun t => w.isServing t && t.node.tags.contains tag) ≤
      e.pools.capacity tag) ∧
    w.tasks.countP (·.phase.isActing) ≤ e.config.maxConcurrent ∧
    (∀ turn w', Step e turn w w' → w'.invocations ≠ w.invocations →
      w.tasks.countP (·.phase.isActing) < e.config.maxConcurrent) ∧
    (∀ t ∈ w.tasks, t.phase.isAtWork = true ↔ (∃ x ∈ log, x.task = t.id ∧ x.isStart = true) ∧
      (∀ x ∈ log, x.task = t.id → x.isStart = true) ∧ t.phase.isCollapsed = false) ∧
    (∀ x ∈ log, (∃ f ∈ log, f.task = x.task ∧ f.isStart = false) ∨ (∃ t ∈ w.tasks, t.id = x.task) ∨
      ∀ r ∈ w.runs, r.id ≠ x.task.run) ∧
    ∀ l₁ l₂ l₃ a b, log = l₁ ++ a::l₂ ++ b::l₃ → Rivals e a b →
      ∀ f ∈ log, f.task = a.task → f.isStart = false → f.isBreakdown = false →
        f ∈ l₂ ∧ ∀ r ∈ w.runs, r.id = a.task.run → ∀ r' ∈ w.runs, r'.id = b.task.run →
          ∀ q q' first second, r.schedule.record? a.task.node = some q →
            r'.schedule.record? b.task.node = some q' → q.finished = some first →
            q'.started = some second → second.isBefore first = false := by
  have hr := hc.reaches
  refine ⟨hr.serving_le,hr.acting_le,fun turn w' hs hused => hs.acting_lt hr hused,
    fun t ht => (hc.voiced t ht).isAtWork_iff,fun x hx => hc.accounted hx,?_⟩
  intro l₁ l₂ l₃ a b hlog hrivals f hf hid hreport hb
  refine ⟨hc.between hlog hrivals hf hid hreport hb,?_⟩
  intro r hrun hrid r' hrun' hrid' q q' first second hq hq' hfirst hsecond
  exact hc.records_ordered hlog hrivals hf hid hreport hb hrun hrid hrun' hrid' hq hq' hfirst hsecond

/-- What is sent in the course of moves, and the world that they lead to. -/
def World.record? (σ : Setting) (log : List Letter) (w : World) : List Move →
    Option (List Letter × World)
  | [] => some (log,w)
  | m::rest => do
    let v ← w.move? σ m
    v.record? σ (log ++ w.sent v) rest

theorem Chronicle.record (hc : Chronicle e log w) {moves : List Move} {log' : List Letter}
    {w' : World} (h : w.record? e.setting log moves = some (log',w')) : Chronicle e log' w' := by
  induction moves generalizing log w with
  | nil =>
    cases h
    exact hc
  | cons m rest ih =>
    obtain ⟨v,hv,hrest⟩ := Option.bind_eq_some_iff.mp h
    exact ih (hc.step (.move hv)) hrest

namespace Laundry

/-- An action that takes a while. -/
abbrev soak : Action where
  name := "soak"
  logged := false
  check _ := .ok ()
  start _ := ⟨100,true,.done .null⟩

abbrev engine : Engine := { config := {}, pools := {}, setting := { actions := [soak] } }

/-- A node that needs the only tub, takes too long and is wiped up after. -/
abbrev definition : Definition where
  name := "laundry"
  nodes := [("wash",{
    kind := .action "soak" .null
    resources := ["tub"]
    timeout := some (.ofMillis 50)
    onFailure := some (.steps [("mop",{ kind := .action "soak" .null })]) })]

abbrev wash (n : Nat) : TaskId := ⟨⟨n,[]⟩,"wash"⟩

abbrev mop : TaskId := ⟨(wash 0).child 0,"mop"⟩

/-- While the second run waits for the tub the first has it, fails, wipes up and reports. -/
abbrev moves : List Move :=
  [.pass ⟨0,[]⟩,.pass ⟨1,[]⟩,.step (wash 0),.step (wash 1),.tick 50,.step (wash 0),
    .pass mop.run,.step mop,.tick 100,.step mop,.step mop,.take mop.run,.pass mop.run,.take mop.run,
    .pass mop.run,.step (wash 0),.step (wash 0),.tick 7,.step (wash 1),.take ⟨0,[]⟩,.pass ⟨0,[]⟩,
    .take ⟨0,[]⟩,.take ⟨1,[]⟩]

def opened : World :=
  match engine.start engine.world definition [] 0 none with
  | .ok w => w
  | .error _ => engine.world

def started : World :=
  match engine.start opened definition [] 1 none with
  | .ok w => w
  | .error _ => engine.world

theorem opened_eq : engine.start engine.world definition [] 0 none = .ok opened := rfl

theorem started_eq : engine.start opened definition [] 1 none = .ok started := rfl

theorem record_isSome : (started.record? engine.setting [] moves).isSome = true := by
  decide +kernel

def letters : List Letter := ((started.record? engine.setting [] moves).get record_isSome).1

def world : World := ((started.record? engine.setting [] moves).get record_isSome).2

theorem chronicle : Chronicle engine letters world := by
  have hopened : Chronicle engine [] opened :=
    Chronicle.world.step (.start rfl (fun _ hr => absurd hr List.not_mem_nil) opened_eq)
  have hfree : ∀ r ∈ opened.runs, r.id.root ≠ 1 := by decide
  have hstarted : Chronicle engine [] started := hopened.step (.start rfl hfree started_eq)
  exact hstarted.record (Option.some_get record_isSome).symm

/-- Who has sent letters, what they are, and which tags their nodes carry. -/
theorem letters_eq : letters.map (fun x => (x.task,x.isStart,x.isBreakdown,x.tags)) =
    [(wash 0,true,false,["tub"]),(mop,true,false,[]),(mop,false,false,[]),
      (wash 0,false,false,["tub"]),(wash 1,true,false,["tub"])] := by
  decide +kernel

/-- A time in the record of a node. -/
def time? (get : Record → Option Instant) (id : TaskId) : Option Instant :=
  (world.run? id.run).bind fun r => (r.schedule.record? id.node).bind get

end Laundry

/-- The first node holds the tub until its handler is done; then the second one has it. -/
theorem shared_tags_exclude_laundry : ∃ l₁ l₂ l₃ a b f first second,
    Laundry.letters = l₁ ++ a::l₂ ++ b::l₃ ∧ Rivals Laundry.engine a b ∧ a.task = Laundry.wash 0 ∧
    b.task = Laundry.wash 1 ∧ f.task = Laundry.wash 0 ∧ f.isStart = false ∧ f ∈ l₂ ∧
    Laundry.time? Record.finished (Laundry.wash 0) = some first ∧
    Laundry.time? Record.started (Laundry.wash 1) = some second ∧ second.isBefore first = false ∧
    Laundry.world.tasks.countP (fun t => Laundry.world.isServing t && t.node.tags.contains "tub") = 1 ∧
    Laundry.engine.pools.capacity "tub" = 1 := by
  have hletters := Laundry.letters_eq
  simp only [List.map_eq_cons_iff,List.map_eq_nil_iff,Prod.mk.injEq] at hletters
  obtain ⟨a,-,hlog,⟨ha,has,-,hatags⟩,m,-,rfl,-,n,-,rfl,-,f,-,rfl,⟨hf,hfs,hfb,-⟩,b,-,rfl,
    ⟨hb,hbs,-,hbtags⟩,rfl⟩ := hletters
  have hrivals : Rivals Laundry.engine a b :=
    ⟨has,hbs,"tub",hatags ▸ List.mem_cons_self,hbtags ▸ List.mem_cons_self,rfl⟩
  have hfirst : Laundry.time? Record.finished (Laundry.wash 0) = some (.ofMillis 150) := by
    decide +kernel
  have hsecond : Laundry.time? Record.started (Laundry.wash 1) = some (.ofMillis 157) := by
    decide +kernel
  obtain ⟨r,hr,hq⟩ := Option.bind_eq_some_iff.mp hfirst
  obtain ⟨q,hq,hqt⟩ := Option.bind_eq_some_iff.mp hq
  obtain ⟨r',hr',hq'⟩ := Option.bind_eq_some_iff.mp hsecond
  obtain ⟨q',hq',hqt'⟩ := Option.bind_eq_some_iff.mp hq'
  obtain ⟨hrun,hid⟩ := World.mem_of_run? hr
  obtain ⟨hrun',hid'⟩ := World.mem_of_run? hr'
  obtain ⟨-,-,-,-,-,hexcludes⟩ := shared_tags_exclude Laundry.chronicle
  obtain ⟨hbetween,htimes⟩ := hexcludes [] [m,n,f] [] a b hlog hrivals f (by simp [hlog])
    (hf.trans ha.symm) hfs hfb
  have horder := htimes r hrun (by rw [hid,ha]) r' hrun' (by rw [hid',hb]) q q' _ _ (by rwa [ha])
    (by rwa [hb]) hqt hqt'
  exact ⟨[],[m,n,f],[],a,b,f,_,_,hlog,hrivals,ha,hb,hf,hfs,hbetween,hfirst,hsecond,horder,
    by decide +kernel,rfl⟩

end Engine

end TaskGraph
