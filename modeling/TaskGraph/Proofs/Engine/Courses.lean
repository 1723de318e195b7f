import TaskGraph.Proofs.Engine.Capacity

/-!
Steps once more, as what they do to runs and tasks: which runs go on and how, who begins, what it tells
its run, and what it goes on to.
-/

namespace TaskGraph.Engine

/-- Whether a run has dispatched a node, or knows already how the node ends. -/
def Run.HasDispatched (r : Run) (node : String) : Prop :=
  node ∈ r.schedule.inFlight ∨ (r.schedule.status node).isTerminal = true

/-- A run hears of events. -/
def Run.hear (id : RunId) (es : List Event) (r : Run) : Run :=
  { r with inbox := r.inbox ++ if r.id = id then es else [] }

theorem Run.hear_append (id : RunId) (es fs : List Event) (r : Run) :
    (r.hear id es).hear id fs = r.hear id (es ++ fs) := by
  by_cases h : r.id = id <;> simp [hear,h]

/-- How a run goes on in its turn, with the tasks of what it dispatches. -/
inductive Run.Course (w : World) (r r' : Run) : List Task → Prop
  | keeps : r'.schedule = r.schedule → r'.inbox = r.inbox → r'.result? = none → Course w r r' []
  | passes : r'.schedule = (w.passed r).1 → r'.inbox = r.inbox → r'.result? = none →
    Course w r r' ((w.passed r).2.map { r with schedule := (w.passed r).1 }.task)
  | closes : (w.passed r).1.inFlight = [] → r'.schedule = (w.passed r).1.sweep w.now →
    r'.inbox = r.inbox → r'.result? ≠ none → Course w r r' []
  | takes {e : Event} {rest : List Event} : r.inbox = e::rest →
    r'.schedule = r.schedule.apply w.now e → r'.inbox = rest → r'.result? = none → Course w r r' []

namespace Run.Course

variable {w : World} {r r' : Run} {fresh : List Task}

theorem hasDispatched (hc : Course w r r' fresh) (hs : r.Sensible) {node : String}
    (hd : r.HasDispatched node) : r'.HasDispatched node := by
  have hg := w.passed_grows r
  have hlater {s : Schedule} (hl : Schedule.Later r.schedule s)
      (ht : (r.schedule.status node).isTerminal = true) : (s.status node).isTerminal = true := by
    rw [Schedule.status_of_terminal hl ht]
    exact ht
  unfold HasDispatched
  cases hc with
  | keeps hsch => rwa [hsch]
  | passes hsch =>
    rw [hsch,hg.inFlight]
    exact hd.imp (fun hin => List.mem_append_left _ hin) (hlater hg.later)
  | closes hnone hsch =>
    rw [hsch]
    refine .inr (hlater (.sweep w.now hg.later) (hd.resolve_left fun hin => ?_))
    have hmem := List.mem_append_left ((w.passed r).2.map GraphNode.id) hin
    rw [← hg.inFlight,hnone] at hmem
    cases hmem
  | @takes e rest hi hsch =>
    rw [hsch]
    obtain hin | ht := hd
    · by_cases he : e.isReport = true ∧ node = e.node
      · cases e with
        | started => cases he.1
        | finished id report =>
          obtain ⟨-,rfl⟩ := he
          exact .inr (Schedule.finished_isTerminal hs.table w.now (hs.known _ hin) report)
      · exact .inl (Schedule.mem_inFlight_apply.mpr ⟨hin,fun hr hne => he ⟨hr,hne⟩⟩)
    · exact .inr (hlater (.event w.now e .refl) ht)

/-- What is dispatched was not dispatched before. -/
theorem of_fresh (hc : Course w r r' fresh) {t : Task} (ht : t ∈ fresh) :
    t.id.run = r.id ∧ t.phase = .asking ∧ ¬ r.HasDispatched t.id.node := by
  cases hc with
  | passes =>
    obtain ⟨n,hn,rfl⟩ := List.mem_map.mp ht
    obtain ⟨-,hf,ho⟩ := (w.passed_grows r).fresh n hn
    refine ⟨rfl,rfl,?_⟩
    rintro (hin | hterminal)
    · exact hf hin
    · have hterminal : (r.schedule.status n.id).isTerminal = true := hterminal
      rw [ho] at hterminal
      cases hterminal
  | _ => cases ht

theorem inbox (hc : Course w r r' fresh) : r'.inbox <:+ r.inbox := by
  cases hc with
  | keeps _ hi | passes _ hi | closes _ _ hi =>
    rw [hi]
  | takes hi _ hi' =>
    rw [hi,hi']
    exact List.suffix_cons _ _

theorem later (hc : Course w r r' fresh) : Schedule.Later r.schedule r'.schedule := by
  have hg := (w.passed_grows r).later
  cases hc with
  | keeps hs =>
    rw [hs]
    exact .refl
  | passes hs =>
    rw [hs]
    exact hg
  | closes _ hs =>
    rw [hs]
    exact .sweep w.now hg
  | takes _ hs =>
    rw [hs]
    exact .event w.now _ .refl

theorem graph (hc : Course w r r' fresh) : r'.schedule.graph = r.schedule.graph := by
  have hg := (w.passed_grows r).graph
  cases hc with
  | keeps hs => rw [hs]
  | passes hs => rw [hs,hg]
  | closes _ hs =>
    rw [hs]
    exact hg
  | takes _ hs => rw [hs,(Schedule.apply_frame _ _ _).1]

end Run.Course

namespace World

variable {w v w' : World} {r : Run} {t : Task} {d : Deed}

theorem RunTurn.course (h : RunTurn w r w') : r.result? = none ∧ ∃ r' fresh, r'.id = r.id ∧
    Run.Course w r r' fresh ∧ w'.runs = (w.setRun r').runs ∧ w'.tasks = w.tasks ++ fresh ∧
    w'.clock = w.clock := by
  have happ : w.tasks = w.tasks ++ [] := (List.append_nil _).symm
  cases h with
  | passes hp =>
    refine ⟨by rw [Run.result?,hp],?_⟩
    by_cases hi : (w.passed r).1.inFlight = []
    · obtain ⟨p,he⟩ := pass_closed hi
      rw [he]
      refine ⟨_,[],?_,.closes hi ?_ ?_ ?_,rfl,happ,rfl⟩
      · rfl
      · rfl
      · rfl
      · exact Option.some_ne_none _
    · obtain ⟨p,ha⟩ := pass_waiting hi
      exact ⟨{ r with schedule := (w.passed r).1, phase := .waiting, published := p },_,rfl,
        .passes rfl rfl rfl,ha.runs,ha.tasks,ha.clock⟩
  | notices hp =>
    exact ⟨by rw [Run.result?,hp],{ r with stopped := true, phase := .passing },[],rfl,
      .keeps rfl rfl rfl,rfl,happ,rfl⟩
  | expires hp =>
    obtain ⟨c,ha,-⟩ := w.cancel_alike r.id.root
    refine ⟨by rw [Run.result?,hp],{ r with stopped := true, phase := .passing },[],rfl,
      .keeps rfl rfl rfl,?_,ha.tasks.trans happ,ha.clock⟩
    rw [expire,notice,setRun,setRun,ha.runs]
  | @takes e rest hp hi =>
    exact ⟨by rw [Run.result?,hp],
      { r with schedule := r.schedule.apply w.now e, inbox := rest, phase := .passing },[],rfl,
      .takes hi rfl rfl rfl,rfl,happ,rfl⟩

/-- What a task tells its run in one step: that it has been admitted, if no other that needs a tag of
its own of which there is only one is at work; and its report, if it has come to that. -/
inductive Tells (e : Engine) (w : World) (t : Task) (d : Deed) : List Event → Prop
  | begins : t.phase = .asking →
    (∀ tag ∈ t.node.tags, e.pools.capacity tag = 1 → ∀ u ∈ w.tasks, u.phase.isAtWork = true →
      tag ∉ u.node.tags) →
    Tells e w t d (.started t.node.id w.now::d.posted.toList.map (.finished t.node.id))
  | goesOn : (∀ p ∈ d.next, t.phase.Allows p) →
    Tells e w t d (d.posted.toList.map (.finished t.node.id))

/-- A task does something, and its run hears of it. -/
structure Performs (e : Engine) (w w' : World) (t : Task) (d : Deed) (es : List Event) : Prop where
  clock : w'.clock = w.clock
  runs : w'.runs = ((w.runs.filter fun r => !r.id.isWithinAny t.phase.runs).map
    (Run.hear t.id.run es)) ++ d.opened
  tasks : ∀ u, u ∈ w'.tasks ↔
    u ∈ w.tasks ∧ Stays t u.id.run ∧ u.id ≠ t.id ∨ d.follower? t = some u
  fits : d.Fits t
  going : t.phase.isLeaving = false
  tells : Tells e w t d es
  time : ∀ report ∈ d.posted, report.time = w.now

/-- When a task is admitted there is nobody at work with a tag of which there is only one. -/
theorem Manned.alone {e : Engine} (h : w.Manned) (hs : w.Staffed e) (hw : w.Coherent)
    (ht : t ∈ w.tasks) (hg : w.admission.isGranted t.id = true) (hp : t.phase.isAtWork = false)
    {tag : String} (htag : tag ∈ t.node.tags) (hcap : e.pools.capacity tag = 1) {u : Task}
    (hu : u ∈ w.tasks) (hwork : u.phase.isAtWork = true) : tag ∉ u.node.tags := by
  intro hcarried
  have hle : w.tasks.countP (fun x => x.id == t.id || x.id == u.id) ≤ 1 := by
    rw [← hcap]
    refine hs.carrying_le hw fun x hx hf => ?_
    rw [Bool.or_eq_true,beq_iff_eq,beq_iff_eq] at hf
    obtain hid | hid := hf
    · obtain rfl := hw.task_unique hx ht hid
      exact ⟨htag,hg⟩
    · obtain rfl := hw.task_unique hx hu hid
      exact ⟨hcarried,h.granted x hx hwork⟩
  have hne : u.id ≠ t.id := by
    intro he
    rw [hw.task_unique hu ht he,hp] at hwork
    cases hwork
  have hone : 0 < w.tasks.countP (·.id == t.id) :=
    List.countP_pos_iff.mpr ⟨t,ht,beq_self_eq_true _⟩
  have hmore : w.tasks.countP (·.id == t.id) <
      w.tasks.countP fun x => x.id == t.id || x.id == u.id :=
    Schedule.countP_lt (fun x _ hx => by simp [hx]) hu (by simp) (by simpa using hne)
  omega

theorem Turn.performs {e : Engine} (hr : Reaches e w) (ht : t ∈ w.tasks) (hd : Turn w w' t) :
    Alike w w' ∨ (∃ d es, Performs e w w' t d es) ∨ t.phase.isLeaving = true ∧
      Alike { w with tasks := w.tasks.filter fun other => other.id != t.id } w' := by
  have hw := hr.coherent
  cases hd with
  | idle _ ha => exact .inl ha
  | @begins v time _ hp ha hd hadm hgranted htime =>
    obtain ⟨hstart,htasks,d,hact,hf⟩ := hw.begun ht hp ha hd
    have hnodup := hr.layered.tags_nodup hw ht
    have hmanned := hr.manned.seek hw hr.staffed.balanced ht hnodup hp htasks hadm
    have hstaffed := hr.staffed.seek ht hnodup hp htasks hadm
    have hclock : v.clock = w.clock := ha.clock.trans (w.post_frame _ _).1
    have hruns : v.runs = w.runs.map (Run.hear t.id.run [.started t.node.id time]) := by
      rw [ha.runs,post_runs _ _ _ hw.runs_nodup]
      refine List.map_congr_left fun r _ => ?_
      by_cases he : r.id = t.id.run <;> simp [Run.hear,he]
    have hnone : t.phase.runs = [] := by rw [hp]; rfl
    refine .inr (.inl ⟨d,_,?_,?_,fun u => ?_,hf,by rw [hp]; rfl,
      .begins hp fun tag htag hcap u hu => ?_,fun report hrep => ?_⟩)
    · exact hact.clock.trans ((v.discard_spec _).1.trans hclock)
    · rw [hact.runs_eq hstart,hruns,hnone]
      have hall (rs : List Run) : (rs.filter fun r => !r.id.isWithinAny []) = rs :=
        List.filter_eq_self.mpr fun _ _ => rfl
      rw [hall,hall,List.map_map,htime]
      congr 1
      refine List.map_congr_left fun r _ => ?_
      exact r.hear_append t.id.run _ _
    · rw [hact.mem_tasks hstart (htasks ▸ ht),htasks]
    · have hphase : t.phase.isAtWork = false := by rw [hp]; rfl
      exact hmanned.alone hstaffed hstart (htasks ▸ ht) hgranted hphase htag hcap (htasks ▸ hu)
    · rw [hact.time report hrep,now,(v.discard_spec _).1,hclock]
      rfl
  | acts hl hd _ hallows =>
    obtain ⟨d,ha,hf,-⟩ := hd
    refine .inr (.inl ⟨d,_,?_,?_,fun u => ha.mem_tasks hw ht,hf,hl,.goesOn fun p hp => ?_,
      fun report hrep => ?_⟩)
    · exact ha.clock.trans (w.discard_spec _).1
    · exact ha.runs_eq hw
    · exact hallows _ ((ha.mem_tasks hw ht).mpr (.inr (Deed.follower?_eq hp))) rfl
    · rw [ha.time report hrep,now,(w.discard_spec _).1]
      rfl
  | leaves hl ha => exact .inr (.inr ⟨hl,ha⟩)

end World

end TaskGraph.Engine
