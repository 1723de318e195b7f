import TaskGraph.Proofs.Engine.Diary
import TaskGraph.Proofs.Engine.Progress

/-!
What runs come to. A run ends as cancelled if it is cancelled by then, and only then, and what it has
come to stays. So a task that waits for nested runs finds there what they have come to.
-/

namespace TaskGraph

theorem Schedule.result_status_eq_cancelled (s : Schedule) (name : String) (cancelled : Bool) :
    (s.result name cancelled).status = .cancelled ↔ cancelled = true := by
  unfold result RunResult.assemble
  cases cancelled with
  | true => simp
  | false =>
    simp only [Bool.false_eq_true,if_false,iff_false]
    split <;> exact nofun

namespace Engine

/-- How a run comes out of a step: nothing has become of it, it is new, or it has had its turn. -/
inductive Run.Fares (w w' : World) (q : Run) : Prop
  | same {r : Run} : r ∈ w.runs → r.id = q.id → r.expiry = q.expiry → r.stopped = q.stopped →
    r.result? = q.result? → Fares w w' q
  | new : (q.id.steps = [] ∨ q.expiry = none) → q.stopped = false → q.result? = none → Fares w w' q
  | turn {r : Run} : r ∈ w.runs → r.id = q.id → r.expiry = q.expiry → r.result? = none →
    (q.stopped = true → w'.isCancelled q.id = true) →
    (∀ result, q.result? = some result →
      (result.status = .cancelled ↔ w.isCancelled q.id = true)) → Fares w w' q

/-- The runs that have taken note of a cancellation are cancelled. -/
def World.IsHonest (w : World) : Prop := ∀ r ∈ w.runs, r.stopped = true → w.isCancelled r.id = true

variable {e : Engine} {w w' : World} {r q : Run}

theorem Run.IsNew.result?_eq {graph : Graph} (hn : r.IsNew graph) : r.result? = none := by
  rw [result?,hn.phase]

/-- A run ends in its turn, as cancelled if it is cancelled. -/
theorem World.RunTurn.ends (h : RunTurn w r w') (hs : r.stopped = true → w.isCancelled r.id = true) :
    ∃ r', (r'.id = r.id ∧ r'.expiry = r.expiry) ∧ w'.runs = (w.setRun r').runs ∧
      (r'.stopped = true → w'.isCancelled r.id = true) ∧
      ∀ result, r'.result? = some result →
        (result.status = .cancelled ↔ w.isCancelled r.id = true) := by
  have hopen {q : Run} (hq : q.result? = none) (result : RunResult) (hres : q.result? = some result) :
      result.status = .cancelled ↔ w.isCancelled r.id = true := by
    rw [hq] at hres
    cases hres
  cases h with
  | passes hp =>
    by_cases hi : (w.passed r).1.inFlight = []
    · obtain ⟨published,he⟩ := pass_closed hi
      rw [he]
      refine ⟨_,⟨?_,?_⟩,rfl,hs,fun result hres => ?_⟩
      · rfl
      · rfl
      · cases hres
        rw [Schedule.result_status_eq_cancelled,Bool.or_eq_true]
        exact ⟨fun hc => hc.elim hs id,.inr⟩
    · obtain ⟨published,ha⟩ := pass_waiting hi
      refine ⟨{ r with schedule := (w.passed r).1, phase := .waiting, published },⟨rfl,rfl⟩,
        ha.runs,fun hstopped => ?_,hopen rfl⟩
      rw [isCancelled,ha.cancelled]
      exact hs hstopped
  | notices _ _ hc =>
    exact ⟨{ r with stopped := true, phase := .passing },⟨rfl,rfl⟩,rfl,fun _ => hc,hopen rfl⟩
  | expires =>
    obtain ⟨c,ha,hmem⟩ := w.cancel_alike r.id.root
    refine ⟨{ r with stopped := true, phase := .passing },⟨rfl,rfl⟩,?_,fun _ => ?_,hopen rfl⟩
    · rw [expire,notice,setRun,setRun,ha.runs]
    · refine isCancelled_iff.mpr ?_
      rw [show (w.expire r).cancelled = (w.cancel r.id.root).cancelled from rfl,ha.cancelled]
      exact (hmem _).mpr (.inl rfl)
  | @takes event rest =>
    exact ⟨{ r with schedule := r.schedule.apply w.now event, inbox := rest, phase := .passing },
      ⟨rfl,rfl⟩,rfl,hs,hopen rfl⟩

theorem Step.fares {turn : Option Nat} (hs : Step e turn w w') (hr : Reaches e w) (hw : w.IsHonest)
    (hq : q ∈ w'.runs) : q.Fares w w' := by
  have hsame (h : q ∈ w.runs) : q.Fares w w' := .same h rfl rfl rfl rfl
  cases hs with
  | start _ _ hstart =>
    obtain ⟨graph,run,-,hn,-,ha,-⟩ := Engine.start_spec hstart
    rw [ha.runs] at hq
    rcases List.mem_append.mp hq with hq | hq
    · exact hsame hq
    · rw [List.mem_singleton.mp hq]
      exact .new hn.expiry hn.stopped hn.result?_eq
  | move hm =>
    obtain ⟨r,hrun,-,hturn⟩ | ⟨t,ht,-,hstep⟩ | ⟨-,⟨n,rfl⟩ | ⟨millis,rfl⟩⟩ := World.move_cases hm
    · obtain ⟨r',⟨hid,hexpiry⟩,hruns,hstopped,hends⟩ := hturn.ends (hw r hrun)
      rw [hruns] at hq
      obtain rfl | ⟨hq,-⟩ := (World.mem_setRun hrun hid).mp hq
      · rw [← hid] at hstopped hends
        exact .turn hrun hid.symm hexpiry.symm hturn.course.1 hstopped hends
      · exact hsame hq
    · have hsens := hr.coherent.task t ht
      obtain ha | ⟨d,es,hp⟩ | ⟨-,ha⟩ :=
        (World.stepTask_turn hsens.node hsens.phase hstep).performs hr ht
      · exact hsame (ha.runs ▸ hq)
      · obtain ⟨p,hmem,-,rfl⟩ | hopened := hp.mem_runs.mp hq
        · exact .same hmem rfl rfl rfl rfl
        · obtain ⟨g,-,hn⟩ := hp.fits.opened q hopened
          exact .new hn.expiry hn.stopped hn.result?_eq
      · exact hsame (ha.runs ▸ hq)
    · obtain ⟨c,ha,-⟩ := w.cancel_alike n
      exact hsame (ha.runs ▸ hq)
    · exact hsame hq
  | agenda => exact hsame hq

/-- What runs show of a cancellation is true. -/
theorem Reaches.honest (hr : Reaches e w) : w.IsHonest ∧ ∀ r ∈ w.runs, ∀ result,
    r.result? = some result → result.status = .cancelled → w.isCancelled r.id = true := by
  induction hr with
  | world => exact ⟨nofun,nofun⟩
  | @step w w' turn hr hs ih =>
    have hlater {id : RunId} (hc : w.isCancelled id = true) : w'.isCancelled id = true :=
      World.isCancelled_iff.mpr (hs.cancels hr (World.isCancelled_iff.mp hc))
    refine ⟨fun q hq hstopped => ?_,fun q hq result hres hc => ?_⟩
    · cases hs.fares hr ih.1 hq with
      | same hmem hid _ hst =>
        rw [← hid]
        exact hlater (ih.1 _ hmem (hst.trans hstopped))
      | new _ hst =>
        rw [hst] at hstopped
        cases hstopped
      | turn _ _ _ _ hst => exact hst hstopped
    · cases hs.fares hr ih.1 hq with
      | same hmem hid _ _ hsame =>
        rw [← hid]
        exact hlater (ih.2 _ hmem result (hsame.trans hres) hc)
      | new _ _ hnone =>
        rw [hnone] at hres
        cases hres
      | turn _ _ _ _ _ hends => exact hlater ((hends result hres).mp hc)

/-- A run that ends is cancelled then if it ends as cancelled, and only then. -/
theorem Step.ends_cancelled {turn : Option Nat} (hs : Step e turn w w') (hr : Reaches e w)
    {result : RunResult} {id : RunId} (hnone : w.result? id = none)
    (hres : w'.result? id = some result) :
    result.status = .cancelled ↔ w.isCancelled id = true := by
  obtain ⟨q,hfound,hq⟩ := Option.bind_eq_some_iff.mp hres
  obtain ⟨hmem,rfl⟩ := World.mem_of_run? hfound
  cases hs.fares hr hr.honest.1 hmem with
  | same hr₀ hid _ _ hsame =>
    rw [← hid,World.result?,World.run?_of_mem hr.coherent.runs_nodup hr₀,Option.bind_some,hsame,hq]
      at hnone
    cases hnone
  | new _ _ hn =>
    rw [hn] at hq
    cases hq
  | turn _ _ _ _ _ hends => exact hends result hq

/-- A nested run never takes too long by itself. -/
theorem Reaches.expiry (hr : Reaches e w) : ∀ r ∈ w.runs, r.id.steps = [] ∨ r.expiry = none := by
  induction hr with
  | world => exact nofun
  | @step w w' turn hr hs ih =>
    intro q hq
    cases hs.fares hr hr.honest.1 hq with
    | same hmem hid he | turn hmem hid he =>
      rw [← hid,← he]
      exact ih _ hmem
    | new h => exact h

namespace World

/-- What a run has come to stays. -/
theorem Goes.result_stays {news : List Letter} (hg : Goes e w w' news) (hw : w.Coherent)
    (hr : r ∈ w.runs) (hq : q ∈ w'.runs) (hid : q.id = r.id) {result : RunResult}
    (h : r.result? = some result) : q.result? = some result := by
  have hsame (hq : q ∈ w.runs) : q.result? = some result := by rwa [hw.run_unique hq hr hid]
  cases hg with
  | starts _ _ hfree _ hruns =>
    rw [hruns] at hq
    rcases List.mem_append.mp hq with hq | hq
    · exact hsame hq
    · rw [List.mem_singleton.mp hq] at hid
      exact absurd (by rw [hid]) (hfree r hr)
  | @passes r₀ r' fresh hr₀ hgoing hid₀ _ hruns =>
    rw [hruns] at hq
    obtain rfl | ⟨hq,-⟩ := (mem_setRun hr₀ hid₀).mp hq
    · rw [hw.run_unique hr₀ hr (hid₀.symm.trans hid),h] at hgoing
      cases hgoing
    · exact hsame hq
  | @performs t d es ht hp =>
    obtain ⟨p,hmem,-,rfl⟩ | hq := hp.mem_runs.mp hq
    · obtain rfl := hw.run_unique hmem hr hid
      exact h
    · exact absurd hid.symm (hw.opened_fresh ht hp.fits hq r hr)
  | leaves _ _ hruns | waits hruns =>
    rw [hruns] at hq
    exact hsame hq

variable {σ : Setting} {t : Task}

theorem result?_of_mem (hw : w.Coherent) (hr : r ∈ w.runs) : w.result? r.id = r.result? := by
  rw [result?,run?_of_mem hw.runs_nodup hr,Option.bind_some]

theorem results?_isSome_iff {items : List (Value × RunId)} : (w.results? items).isSome = true ↔
    ∀ item ∈ items, (w.result? item.2).isSome = true := by
  refine ⟨fun h => ?_,results?_isSome⟩
  induction items with
  | nil => exact nofun
  | cons item rest ih =>
    obtain ⟨results,hresults⟩ := Option.isSome_iff_exists.mp h
    obtain ⟨result,hr,hrest⟩ := Option.bind_eq_some_iff.mp hresults
    obtain ⟨results,hs,-⟩ := Option.bind_eq_some_iff.mp hrest
    intro other ho
    obtain rfl | ho := List.mem_cons.mp ho
    · rw [hr]
      rfl
    · exact ih (by rw [hs]; rfl) other ho

theorem afterStage_isSome_iff (σ : Setting) (t : Task) (attempt : Nat) (limit : Option Timer)
    {stage : Stage} : (w.afterStage σ t attempt limit stage).isSome = true ↔
      ∀ id ∈ stage.runs, (w.result? id).isSome = true := by
  refine ⟨fun h => ?_,afterStage_isSome t attempt limit⟩
  obtain ⟨v,hv⟩ := Option.isSome_iff_exists.mp h
  have hone {run : RunId} {f : RunResult → Option World} (hf : (w.result? run).bind f = some v) :
      ∀ id ∈ [run], (w.result? id).isSome = true := by
    obtain ⟨r,hr,-⟩ := Option.bind_eq_some_iff.mp hf
    intro id hid
    rw [List.mem_singleton.mp hid,hr]
    rfl
  cases stage with
  | fanOut items =>
    obtain ⟨results,hr,-⟩ := Option.bind_eq_some_iff.mp hv
    intro id hid
    obtain ⟨item,hitem,rfl⟩ := List.mem_map.mp hid
    exact results?_isSome_iff.mp (by rw [hr]; rfl) item hitem
  | _ => exact hone hv

end World

/-- The limit of the attempt that is going on. -/
def Phase.limit? : Phase → Option Timer
  | .acting _ limit _ _ | .nesting _ limit _ => limit
  | _ => none

/-- Whether a task waits for nested runs. -/
def Phase.isNested : Phase → Bool
  | .nesting .. | .always .. | .handling .. => true
  | _ => false

/-- How a task waits for nested runs. It can act when all of them are over, or when the limit of its
attempt has passed. When they are over it takes what they have come to. Each ends as cancelled if the
task is cancelled by then, and only then, and what it has come to stays while it is there. -/
structure World.Waits (e : Engine) (w : World) (t : Task) : Prop where
  there : ∀ id ∈ t.phase.runs, ∃ r ∈ w.runs, r.id = id
  acts : (w.move? e.setting (.step t.id)).isSome = true ↔
    (∀ id ∈ t.phase.runs, (w.result? id).isSome = true) ∨ w.limitPassed t.phase.limit? = true
  takes : (∀ id ∈ t.phase.runs, (w.result? id).isSome = true) → ∀ w', ∃ rest,
    w.lines e.setting w' t.id = (w.closings t.phase.runs).map (Line.mk (w.moment t)) ++ rest
  ends : ∀ id ∈ t.phase.runs, ∀ turn w' result, Step e turn w w' → w.result? id = none →
    w'.result? id = some result → (result.status = .cancelled ↔ w.isCancelled t.id.run = true)
  stays : ∀ id ∈ t.phase.runs, ∀ turn w' result, Step e turn w w' → w.result? id = some result →
    ∀ r ∈ w'.runs, r.id = id → r.result? = some result

namespace World

variable {σ : Setting} {t : Task}

theorem closings_one {run : RunId} {result : RunResult} (h : w.result? run = some result) :
    w.closings [run] = [.closes run result] := by
  simp [closings,h]

theorem stepTask_isSome_iff (hp : t.phase.isNested = true) : (w.stepTask σ t).isSome = true ↔
    (∀ id ∈ t.phase.runs, (w.result? id).isSome = true) ∨ w.limitPassed t.phase.limit? = true := by
  have hone {run : RunId} {f : RunResult → World} :
      ((w.result? run).bind fun r => some (f r)).isSome = true ↔
        (∀ id ∈ [run], (w.result? id).isSome = true) ∨ w.limitPassed none = true := by
    cases h : w.result? run <;> simp [limitPassed,h]
  unfold stepTask
  cases hphase : t.phase with
  | nesting attempt limit stage =>
    rw [show (Phase.nesting attempt limit stage).runs = stage.runs from rfl,
      ← afterStage_isSome_iff σ t attempt limit]
    dsimp only [Phase.limit?]
    cases w.afterStage σ t attempt limit stage with
    | some v => simp
    | none => cases w.limitPassed limit <;> simp
  | always | handling => exact hone
  | _ =>
    rw [hphase] at hp
    cases hp

/-- A task takes what the runs that it has waited for have come to. -/
theorem sequel?_closings (hp : t.phase.isNested = true)
    (h : ∀ id ∈ t.phase.runs, (w.result? id).isSome = true) :
    ∃ q rest, w.sequel? σ t = some q ∧ q.notes = w.closings t.phase.runs ++ rest := by
  have hone {run : RunId} {f : RunResult → Sequel} (h : (w.result? run).isSome = true) :
      ∃ q rest, ((w.result? run).bind fun r => some ((f r).after [.closes run r])) = some q ∧
        q.notes = w.closings [run] ++ rest := by
    obtain ⟨r,hr⟩ := Option.isSome_iff_exists.mp h
    rw [closings_one hr,hr]
    exact ⟨_,_,rfl,rfl⟩
  unfold sequel?
  cases hphase : t.phase with
  | nesting attempt limit stage =>
    rw [hphase] at h
    obtain ⟨v,hv⟩ := Option.isSome_iff_exists.mp
      ((afterStage_isSome_iff σ t attempt limit).mpr h)
    obtain ⟨p,hstaged,-⟩ := Sequel.Shows.of_afterStage hv
    simp only [progress?,hphase,hstaged]
    exact ⟨_,_,rfl,rfl⟩
  | always | handling =>
    rw [hphase] at h
    exact hone (h _ List.mem_cons_self)
  | _ =>
    rw [hphase] at hp
    cases hp

end World

section Closings

variable {σ : Setting} {t : Task} {m : Moment} {k : Nat} {id : RunId} {result : RunResult}

theorem Task.concluded_closes (outcome : Outcome) :
    .closes id result ∉ (t.concluded m k outcome).notes := by
  obtain ⟨c,rfl⟩ | rfl | ⟨f,hf,rfl⟩ := outcome.cases
  · simp [concluded,Sequel.ofReport]
  · simp [concluded,Sequel.ofReport]
  · rw [concluded_failed hf]
    split <;> simp [Sequel.ofReport]

theorem Task.finished_closes (outcome : Outcome) :
    .closes id result ∉ (t.finished m k outcome).notes := by
  unfold finished
  split
  · split
    · exact concluded_closes _
    · exact List.not_mem_nil
  · exact concluded_closes outcome

theorem Task.followed_closes (p : Progress) : .closes id result ∉ (t.followed m k p).notes := by
  cases p with
  | goesOn => exact List.not_mem_nil
  | ended outcome =>
    intro h
    obtain h | h := List.mem_append.mp h
    · cases List.mem_singleton.mp h
    · unfold judged at h
      split at h
      · exact finished_closes _ h
      · cases List.mem_singleton.mp h
  | broken => simp [followed]

/-- A task takes results as they are, and only of runs that it waits for. -/
theorem World.sequel?_closes {q : Sequel} (hq : w.sequel? σ t = some q)
    (h : .closes id result ∈ q.notes) : id ∈ t.phase.runs ∧ w.result? id = some result := by
  have hrest {q : Sequel} {notes : List Note} (hq : .closes id result ∉ q.notes)
      (h : .closes id result ∈ (q.after notes).notes) : .closes id result ∈ notes :=
    (List.mem_append.mp h).resolve_right hq
  have hone {q : Sequel} {run : RunId} {r : RunResult} (hr : w.result? run = some r)
      (hq : .closes id result ∉ q.notes) (h : .closes id result ∈ (q.after [.closes run r]).notes) :
      id ∈ [run] ∧ w.result? id = some result := by
    cases List.mem_singleton.mp (hrest hq h)
    exact ⟨List.mem_cons_self,hr⟩
  unfold sequel? at hq
  cases hp : t.phase with
  | asking =>
    simp only [hp] at hq
    split at hq
    · cases hq
      simp [Sequel.after,Sequel.ofReport] at h
    split at hq
    · cases hq
      cases List.mem_singleton.mp (hrest (Task.followed_closes _) h)
    · split at hq
      · cases hq
        cases h
      · cases hq
  | acting | nesting =>
    simp only [hp] at hq
    obtain ⟨⟨k,notes,p⟩,hx,he⟩ := Option.bind_eq_some_iff.mp hq
    cases he
    have hmem := hrest (Task.followed_closes _) h
    unfold progress? at hx
    simp only [hp] at hx
    split at hx
    · cases hx
      first
        | cases hmem
        | obtain ⟨x,hx,he⟩ := List.mem_filterMap.mp hmem
          obtain ⟨r,hr,he⟩ := Option.map_eq_some_iff.mp he
          cases he
          exact ⟨hx,hr⟩
    · repeat' split at hx
      all_goals cases hx
      all_goals cases hmem
  | pausing =>
    simp only [hp] at hq
    split at hq
    · cases hq
      cases List.mem_singleton.mp (hrest (Task.finished_closes _) h)
    split at hq
    · cases hq
      cases List.mem_singleton.mp (hrest (Task.followed_closes _) h)
    · cases hq
  | always =>
    simp only [hp] at hq
    obtain ⟨r,hr,he⟩ := Option.bind_eq_some_iff.mp hq
    cases he
    exact hone hr (Task.concluded_closes _) h
  | handling =>
    simp only [hp] at hq
    obtain ⟨r,hr,he⟩ := Option.bind_eq_some_iff.mp hq
    cases he
    exact hone hr (by simp [Sequel.ofReport]) h
  | leaving | collapsed =>
    simp only [hp] at hq
    cases hq
    simp [Sequel.ofReport] at h

/-- A result that tells of a cancellation was taken from a run that is cancelled. -/
theorem Diary.closes_cancelled {id : TaskId} {log : List Line} (hd : Diary e id log w) {x : Line}
    (hx : x ∈ log) {run : RunId} (hnote : x.note = .closes run result)
    (hc : result.status = .cancelled) : w.isCancelled id.run = true := by
  have hlater {w w' : World} {turn : Option Nat} (hr : Reaches e w) (hs : Step e turn w w')
      (h : w.isCancelled id.run = true) : w'.isCancelled id.run = true :=
    World.isCancelled_iff.mpr (hs.cancels hr (World.isCancelled_iff.mp h))
  induction hd with
  | world => cases hx
  | @own log w w' hd hm ih =>
    refine hlater hd.reaches (.move hm) ?_
    rcases List.mem_append.mp hx with hx | hx
    · exact ih hx
    · obtain ⟨t,q,rfl,henacts⟩ := World.enacts hd.reaches hm
      rw [henacts.lines] at hx
      obtain ⟨note,hn,rfl⟩ := List.mem_map.mp hx
      cases hnote
      obtain ⟨hmem,hres⟩ := World.sequel?_closes henacts.sequel (q.mem_notes hn nofun)
      have hw := hd.reaches.coherent
      obtain ⟨r,hr,rfl⟩ := hw.children t henacts.mem run hmem
      rw [World.result?_of_mem hw hr] at hres
      obtain ⟨j,-,hid⟩ := (hw.task t henacts.mem).runs _ hmem
      have hcancelled := hd.reaches.honest.2 r hr result hres hc
      rw [hid] at hcancelled
      exact hcancelled
  | aside hd ha ih =>
    obtain ⟨turn,hs⟩ := ha.step
    exact hlater hd.reaches hs (ih hx)

end Closings

/-- A task waits for the runs that it has started. -/
theorem Reaches.waits (hr : Reaches e w) {t : Task} (ht : t ∈ w.tasks) (hp : t.phase.isNested = true) :
    w.Waits e t where
  there := hr.coherent.children t ht
  acts := by
    rw [World.move?_step hr.coherent ht]
    exact World.stepTask_isSome_iff hp
  takes hover w' := by
    obtain ⟨q,rest,hq,hnotes⟩ := World.sequel?_closings (σ := e.setting) hp hover
    rw [World.lines,World.task?_of_mem hr.coherent.tasks_nodup ht]
    simp only [hq,hnotes,List.append_assoc,List.map_append]
    exact ⟨_,rfl⟩
  ends id hid turn w' result hs hnone hres := by
    obtain ⟨k,-,rfl⟩ := (hr.coherent.task t ht).runs id hid
    have hsame : w.isCancelled t.id.run = w.isCancelled (t.id.child k) := rfl
    rw [hsame]
    exact hs.ends_cancelled hr hnone hres
  stays id hid turn w' result hs hres q hq hqid := by
    obtain ⟨r,hmem,rfl⟩ := hr.coherent.children t ht id hid
    rw [World.result?_of_mem hr.coherent hmem] at hres
    exact (hs.goes hr).result_stays hr.coherent hmem hq hqid hres

end Engine

end TaskGraph
