import TaskGraph.Proofs.Engine.Apart
import TaskGraph.Proofs.Engine.Lifetime
import TaskGraph.Proofs.Engine.Views

/-!
Fan-outs. An attempt starts a run for each of its items, waits until all of them are over, whatever
becomes of each, and gathers what they have come to in the order of the items.
-/

namespace TaskGraph

/-- What the run for an item sees: the item, and its place among the items. -/
def Scope.forItem (s : Scope) (binding : String) (index : Nat) (item : Value) : Scope :=
  (s.bind binding item).bind "index" (.int index)

theorem Scope.forItem_sees (s : Scope) {binding : String} (hb : binding ≠ "index") (index : Nat)
    (item : Value) : (s.forItem binding index item).binding? binding = some item ∧
      (s.forItem binding index item).binding? "index" = some (.int index) := by
  refine ⟨?_,Fields.get?_insert_self "index" _ _⟩
  rw [forItem,binding?_bind_of_ne _ hb]
  exact Fields.get?_insert_self binding item s.bindings

theorem RunResult.handed_eq_error {r : RunResult} {f : Failure} (hne : r.status ≠ .cancelled) :
    r.handed = .error f ↔ r.status = .failed ∧ f = r.failure := by
  unfold handed
  cases hs : r.status with
  | success => simp
  | cancelled => exact absurd hs hne
  | failed => simp [eq_comm]

namespace Attempt

/-- What the runs of an attempt have come to all in all, when none is cancelled: a success if all of
them are, with their outputs in order, and otherwise a failure that tells of each of the failed ones,
in order, with its place, its item and its failure. -/
inductive Gathers (results : List (Value × RunResult)) : Outcome → Prop
  | success : (∀ x ∈ results, x.2.status = .success) →
    Gathers results (.ok ⟨.array (results.map fun x => x.2.output),[]⟩)
  | failed {failures : List (ItemFailure Failure)} : (∀ x ∈ results, x.2.status ≠ .cancelled) →
    (∃ x ∈ results, x.2.status = .failed) → failures.Pairwise (fun a b => a.index < b.index) →
    (∀ y, y ∈ failures ↔ ∃ r, results[y.index]? = some (y.item,r) ∧ r.status = .failed ∧
      y.failure = r.failure) → Gathers results (.error (.aggregate results.length failures))

variable {results : List (Value × RunResult)} {start : Nat}

theorem mem_itemFailures {y : ItemFailure Failure} : y ∈ itemFailures start results ↔
    ∃ i r, results[i]? = some (y.item,r) ∧ r.handed = .error y.failure ∧ y.index = start+i := by
  induction results generalizing start with
  | nil => simp [itemFailures]
  | cons x rest ih =>
    obtain ⟨item,r⟩ := x
    -- A place is that of the first item or lies further on.
    have hplaces : (∃ i q, ((item,r)::rest)[i]? = some (y.item,q) ∧ q.handed = .error y.failure ∧
        y.index = start+i) ↔ (item = y.item ∧ r.handed = .error y.failure ∧ y.index = start) ∨
          y ∈ itemFailures (start+1) rest := by
      rw [ih]
      constructor
      · rintro ⟨i,q,hq,hf,hi⟩
        cases i with
        | zero =>
          cases hq
          exact .inl ⟨rfl,hf,hi⟩
        | succ i => exact .inr ⟨i,q,hq,hf,by omega⟩
      · rintro (⟨rfl,hf,hi⟩ | ⟨i,q,hq,hf,hi⟩)
        · exact ⟨0,r,rfl,hf,hi⟩
        · exact ⟨i+1,q,hq,hf,by omega⟩
    rw [hplaces,itemFailures]
    cases hh : r.handed with
    | ok v => simp
    | error f =>
      rw [List.mem_cons]
      refine or_congr_left ⟨?_,?_⟩
      · rintro rfl
        exact ⟨rfl,rfl,rfl⟩
      · rintro ⟨rfl,he,rfl⟩
        cases he
        rfl

theorem itemFailures_pairwise :
    (itemFailures start results).Pairwise fun a b => a.index < b.index := by
  induction results generalizing start with
  | nil => exact .nil
  | cons x rest ih =>
    obtain ⟨item,r⟩ := x
    rw [itemFailures]
    cases r.handed with
    | ok v => exact ih
    | error f =>
      refine .cons (fun y hy => ?_) ih
      obtain ⟨i,-,-,-,hi⟩ := mem_itemFailures.mp hy
      show start < y.index
      omega

theorem collect_of_cancelled {cancelled : Bool}
    (h : cancelled = true ∨ ∃ x ∈ results, x.2.status = .cancelled) :
    collect cancelled results = .error .cancelled := by
  refine if_pos (Bool.or_eq_true_iff.mpr (h.imp_right fun ⟨x,hx,hc⟩ => ?_))
  exact List.any_eq_true.mpr ⟨x,hx,by rw [hc]; rfl⟩

theorem collect_gathers (h : ∀ x ∈ results, x.2.status ≠ .cancelled) :
    Gathers results (collect false results) := by
  have hnone : ¬ (false || results.any fun x => x.2.status == .cancelled) = true := by
    simpa using h
  have hmem {y : ItemFailure Failure} : y ∈ itemFailures 0 results ↔
      ∃ r, results[y.index]? = some (y.item,r) ∧ r.status = .failed ∧ y.failure = r.failure := by
    rw [mem_itemFailures]
    constructor
    · rintro ⟨i,r,hr,hf,hi⟩
      obtain rfl : y.index = i := by omega
      exact ⟨r,hr,(RunResult.handed_eq_error (h _ (List.mem_of_getElem? hr))).mp hf⟩
    · rintro ⟨r,hr,hf⟩
      exact ⟨_,r,hr,(RunResult.handed_eq_error (h _ (List.mem_of_getElem? hr))).mpr hf,
        (Nat.zero_add _).symm⟩
  rw [collect,if_neg hnone]
  split
  · next hfailures =>
    have hall : ∀ x ∈ results, x.2.status = .success := by
      intro x hx
      cases hs : x.2.status with
      | success => rfl
      | cancelled => exact absurd hs (h x hx)
      | failed =>
        obtain ⟨i,hi⟩ := List.mem_iff_getElem?.mp hx
        have hin : ⟨i,x.1,x.2.failure⟩ ∈ itemFailures 0 results := hmem.mpr ⟨x.2,hi,hs,rfl⟩
        rw [hfailures] at hin
        cases hin
    have houtputs : (results.filterMap fun x => x.2.handed.toOption) =
        results.map fun x => x.2.output := by
      rw [← List.filterMap_eq_map]
      refine List.filterMap_congr fun x hx => ?_
      rw [RunResult.handed,hall x hx]
      rfl
    rw [houtputs]
    exact .success hall
  · next hfailures =>
    obtain ⟨first,hfirst⟩ := List.exists_mem_of_ne_nil _ hfailures
    obtain ⟨r,hr,hs,-⟩ := hmem.mp hfirst
    exact .failed h ⟨_,List.mem_of_getElem? hr,hs⟩ itemFailures_pairwise fun y => hmem

theorem Gathers.isCancelled {outcome : Outcome} (h : Gathers results outcome) :
    outcome.isCancelled = false := by
  cases h <;> rfl

end Attempt

namespace Engine

/-- What a fan-out is given to work on. -/
def itemsOf (σ : Setting) (s : Scope) (list : Value) : Except Task.Stop (List Value) := do
  let v ← (Template.renderValue σ.surroundings s.value list).mapError Task.Stop.ofTemplate
  (Attempt.items v).mapError Task.Stop.failed

section Attempts

variable (σ : Setting) (n : GraphNode Graph) (s : Scope) (list : Value) (binding : String)
  (template : Graph)

/-- The runs that start for items, each for its own. -/
def itemLines (m : Moment) (items : List Value) (run : Nat → RunId) : List Line :=
  items.mapIdx fun i v =>
    ⟨m,.opens (.item i v) (run i) (some (.start template (s.forItem binding i v)))⟩

/-- The results of runs, in the order in which they were started. -/
def resultLines (m : Moment) (results : List (Value × RunResult)) (run : Nat → RunId) : List Line :=
  results.mapIdx fun i x => ⟨m,.closes (run i) x.2⟩

/-- What an attempt has come to. -/
inductive Fanned (start : Moment) : List Line → Moment → Outcome → Prop
  | refused {m : Moment} {f : Failure} : itemsOf σ s list = .error (.failed f) →
    Fanned start [] m (.error f)
  | gathered {m : Moment} {items : List Value} {run : Nat → RunId}
    {results : List (Value × RunResult)} {outcome : Outcome} : itemsOf σ s list = .ok items →
    run.Injective → results.map Prod.fst = items → Attempt.Gathers results outcome →
    Fanned start (itemLines s binding template start items run ++ resultLines m results run) m outcome
  | cancelled {m : Moment} {items : List Value} {run : Nat → RunId}
    {results : List (Value × RunResult)} : itemsOf σ s list = .ok items →
    results.map Prod.fst = items →
    (m.cancelled = true ∨ ∃ x ∈ results, x.2.status = .cancelled) →
    Fanned start (itemLines s binding template start items run ++ resultLines m results run) m
      (.error .cancelled)
  | late {m : Moment} {items : List Value} {run : Nat → RunId} {d : Duration} :
    itemsOf σ s list = .ok items → n.timeout = some d → start.time+d.wait ≤ m.time →
    Fanned start (itemLines s binding template start items run) m (.error (.timeout d))

/-- What is told of the attempts of a fan-out. They break down only over their items. -/
def Account.fanning : Account where
  upto k start inner phase := ∃ limit items run,
    phase = .nesting k limit (.fanOut (items.mapIdx fun i v => (v,run i))) ∧
    limit.map Timer.time = n.timeout.map (fun d => start.time+d.wait) ∧
    itemsOf σ s list = .ok items ∧ run.Injective ∧
    inner = itemLines s binding template start items run
  whole _ start inner finish outcome := Fanned σ n s list binding template start inner finish outcome
  breaks := ∃ message, itemsOf σ s list = .error (.collapsed message)

end Attempts

/-- What is told of the attempts of fan-outs, and nothing of others. -/
def Account.fanned (σ : Setting) (n : GraphNode Graph) (s : Scope) : Account :=
  match n.kind with
  | .forEach list binding template => .fanning σ n s list binding template
  | _ => silent

section Holds

theorem map_mapIdx {α β γ : Type} (f : β → γ) (g : Nat → α → β) (l : List α) :
    (l.mapIdx g).map f = l.mapIdx fun i x => f (g i x) := by
  rw [List.mapIdx_eq_zipIdx_map,List.mapIdx_eq_zipIdx_map,List.map_map]
  rfl

variable {σ : Setting} {w : World} {t : Task} {k : Nat} {list : Value} {binding : String}
  {template : Graph}

theorem Task.runAt_injective (t : Task) : t.runAt.Injective := by
  intro i j h
  simpa [runAt] using h

/-- The results of the runs of a fan-out, in the order of the items. -/
theorem World.results?_spec {items : List Value} {run : Nat → RunId}
    {results : List (Value × RunResult)}
    (h : w.results? (items.mapIdx fun i v => (v,run i)) = some results) :
    results.map Prod.fst = items ∧
      w.closings (Stage.fanOut (items.mapIdx fun i v => (v,run i))).runs =
        results.mapIdx fun i x => .closes (run i) x.2 := by
  induction items generalizing run results with
  | nil =>
    cases h
    exact ⟨rfl,rfl⟩
  | cons item rest ih =>
    rw [List.mapIdx_cons] at h ⊢
    obtain ⟨result,hr,h⟩ := Option.bind_eq_some_iff.mp h
    obtain ⟨others,ho,h⟩ := Option.bind_eq_some_iff.mp h
    cases h
    obtain ⟨hitems,hclosings⟩ := ih ho
    refine ⟨by rw [List.map_cons,hitems],?_⟩
    rw [List.mapIdx_cons,← hclosings]
    simp [Stage.runs,closings,hr]

theorem Phase.openings_fanOut {n : GraphNode Graph} (hk : n.kind = .forEach list binding template)
    (s : Scope) (m : Moment) (limit : Option Timer) (items : List Value) (run : Nat → RunId) :
    ((Phase.nesting k limit (.fanOut (items.mapIdx fun i v => (v,run i)))).openings n s).map
      (Line.mk m) = itemLines s binding template m items run := by
  simp only [openings,parts,itemLines,List.mapIdx_mapIdx,map_mapIdx,Part.start?_item hk,
    Function.comp_def,Scope.forItem]

theorem World.beginning_fanOut (hk : t.node.kind = .forEach list binding template) :
    w.beginning σ t k =
      match itemsOf σ t.scope list with
      | .error s => .ofStop s
      | .ok [] => .ended (Attempt.collect (w.isCancelled t.id.run) [])
      | .ok items => .goesOn (.nesting k (w.startLimit t).2
          (.fanOut (items.mapIdx fun i v => (v,t.runAt i)))) := by
  rw [beginning,hk]
  rfl

/-- The runs are over. -/
theorem Fanned.collected {n : GraphNode Graph} {s : Scope} {start m : Moment} {items : List Value}
    {run : Nat → RunId} {results : List (Value × RunResult)} (hi : itemsOf σ s list = .ok items)
    (hrun : run.Injective) (hr : results.map Prod.fst = items) :
    Fanned σ n s list binding template start
      (itemLines s binding template start items run ++ resultLines m results run) m
      (Attempt.collect m.cancelled results) := by
  by_cases hc : m.cancelled = true ∨ ∃ x ∈ results, x.2.status = .cancelled
  · rw [Attempt.collect_of_cancelled hc]
    exact .cancelled hi hr hc
  · obtain ⟨hm,hnone⟩ := not_or.mp hc
    rw [Bool.eq_false_of_not_eq_true hm]
    exact .gathered hi hrun hr (Attempt.collect_gathers fun x hx he => hnone ⟨x,hx,he⟩)

theorem Account.fanned_holds (σ : Setting) (n : GraphNode Graph) (s : Scope) :
    (Account.fanned σ n s).Holds σ n s := by
  cases hk : n.kind with
  | forEach list binding template =>
    constructor
    · rintro w t k rfl rfl
      rw [World.beginning_fanOut hk,Account.fanned,hk]
      cases hi : itemsOf σ t.scope list with
      | error stop =>
        cases stop with
        | failed f => exact .refused hi
        | collapsed message => exact ⟨message,hi⟩
      | ok items =>
        cases items with
        | nil =>
          have hnone : ([] : List (Value × RunResult)).map Prod.fst = [] := rfl
          exact .collected hi t.runAt_injective hnone
        | cons item rest =>
          refine ⟨_,item::rest,t.runAt,rfl,w.startLimit_time t,hi,t.runAt_injective,?_⟩
          exact Phase.openings_fanOut hk _ _ _ _ _
    · rintro w t k start inner notes p rfl rfl hupto hstart hp
      rw [Account.fanned,hk] at hupto ⊢
      obtain ⟨limit,items,run,hphase,hl,hi,hrun,rfl⟩ := hupto
      obtain ⟨-,⟨hq,rfl⟩ | ⟨hpassed,rfl,rfl⟩⟩ := World.progress?_nesting hphase hp
      · obtain ⟨results,hr,he⟩ := Option.bind_eq_some_iff.mp hq
        cases he
        obtain ⟨hitems,hclosings⟩ := World.results?_spec hr
        rw [hclosings,map_mapIdx]
        exact .collected hi hrun hitems
      · obtain ⟨d,hd,he,hle⟩ := World.late_of_limit hl hpassed
        rw [he,List.map_nil,List.append_nil]
        exact .late hi hd hle
  | _ =>
    rw [Account.fanned,hk]
    exact silent_holds σ n s

/-- Items that cannot be worked on fail an attempt. -/
theorem itemsOf_failed {s : Scope} {f : Failure} (h : itemsOf σ s list = .error (.failed f)) :
    Outcome.isCancelled (.error f) = false := by
  unfold itemsOf at h
  cases hv : Template.renderValue σ.surroundings s.value list with
  | error fault =>
    rw [hv] at h
    simp only [Except.mapError,bind,Except.bind,Except.error.injEq,Task.Stop.ofTemplate] at h
    split at h
    · cases h
    · cases h
      rfl
  | ok v =>
    rw [hv] at h
    simp only [Except.mapError,bind,Except.bind] at h
    cases hitems : Attempt.items v with
    | ok items =>
      rw [hitems] at h
      cases h
    | error fault =>
      rw [hitems] at h
      cases h
      unfold Attempt.items at hitems
      dsimp only at hitems
      repeat' split at hitems
      all_goals cases hitems
      all_goals rfl

/-- Without a cancellation an attempt does not end as cancelled. -/
theorem Fanned.isCancelled {n : GraphNode Graph} {s : Scope} {start m : Moment} {inner : List Line}
    {outcome : Outcome} (h : Fanned σ n s list binding template start inner m outcome)
    (hm : m.cancelled = false)
    (hr : ∀ x ∈ inner, ∀ run result, x.note = .closes run result → result.status ≠ .cancelled) :
    outcome.isCancelled = false := by
  cases h with
  | refused hi => exact itemsOf_failed hi
  | gathered _ _ _ hg => exact hg.isCancelled
  | @cancelled _ items run results _ _ hc =>
    obtain hc | ⟨x,hx,hc⟩ := hc
    · rw [hm] at hc
      cases hc
    · obtain ⟨i,hi,rfl⟩ := List.mem_iff_getElem.mp hx
      have hin : ⟨m,.closes (run i) results[i].2⟩ ∈ resultLines m results run :=
        List.mem_mapIdx.mpr ⟨i,hi,rfl⟩
      exact absurd hc (hr _ (List.mem_append_right _ hin) _ _ rfl)
  | late => rfl

end Holds

section Claims

variable {e : Engine} {id : TaskId} {log : List Line} {w : World} {n : GraphNode Graph}
  {list : Value} {binding : String} {template : Graph}

/-- How an attempt of a fan-out goes on: a run for each item was started, and what happens in one of
them changes nothing in another. -/
structure FansOut (e : Engine) (w : World) (log : List Line) (s : Scope) (list : Value)
    (binding : String) (template : Graph) (k : Nat) (stage : Stage) (start : Moment)
    (items : List Value) (run : Nat → RunId) : Prop where
  listed : itemsOf e.setting s list = .ok items
  distinct : run.Injective
  waits : stage = .fanOut (items.mapIdx fun i v => (v,run i))
  started : ⟨start,.begins k⟩::itemLines s binding template start items run <:+ log
  apart : ∀ i < items.length, ∀ j < items.length, i ≠ j → ∀ m w' a,
    w.move? e.setting m = some w' → m.run? = some a → a.isWithin (run i) = true →
    w.Undisturbed w' (run j)

/-- What a task waits for in a fan-out are runs of its own, of which none lies in another. -/
theorem Living.fansOut (hr : Reaches e w) {t : Task} (ht : t ∈ w.tasks) {k : Nat}
    {limit : Option Timer} {stage : Stage} (hp : t.phase = .nesting k limit stage)
    (hl : Living t.node t.scope (.fanning e.setting t.node t.scope list binding template) log t.phase) :
    ∃ start items run, FansOut e w log t.scope list binding template k stage start items run := by
  have hruns := (hr.coherent.task t ht).runs
  rw [hp] at hl hruns
  cases hl with
  | @attempting k' _ front inner start _ _ _ _ ha hupto =>
    cases ha
    obtain ⟨limit,items,run,hphase,-,hi,hinj,rfl⟩ := hupto
    cases hphase
    refine ⟨start,items,run,hi,hinj,rfl,List.suffix_append _ _,?_⟩
    intro i hilt j hjlt hne m w' a hm ha hin
    have hmem {i : Nat} (hi : i < items.length) :
        run i ∈ (Stage.fanOut (items.mapIdx fun i v => (v,run i))).runs := by
      rw [Stage.runs,map_mapIdx]
      exact List.mem_mapIdx.mpr ⟨i,hi,rfl⟩
    obtain ⟨x,-,hx⟩ := hruns (run i) (hmem hilt)
    obtain ⟨y,-,hy⟩ := hruns (run j) (hmem hjlt)
    have hxy : x ≠ y := by
      rintro rfl
      exact hne (hinj (hx.trans hy.symm))
    rw [hx] at hin
    rw [hy]
    refine World.move_undisturbed hr hm ha ?_ (RunId.apart_child hxy hin)
    -- What lies in a nested run is nested itself.
    intro hroot
    have hle := (RunId.isWithin_iff.mp hin).2.length_le
    rw [hroot] at hle
    cases hle

/-- An attempt of a fan-out in a run that is not cancelled starts a run for each of its items, which
sees the item and its place. It can end when all of these are over or its limit has passed, no matter
how one of them ends, and then comes to what all of them have come to, in the order of the items. -/
theorem fan_outs_gather_their_items {r : Run} (hd : Diary e id log w) (hr : r ∈ w.runs)
    (hid : r.id = id.run) (hn : n ∈ r.schedule.graph.nodes) (hnode : n.id = id.node)
    (hk : n.kind = .forEach list binding template) (hc : w.isCancelled id.run = false) :
    (∀ t ∈ w.tasks, t.id = id → ∀ k limit stage, t.phase = .nesting k limit stage → w.Waits e t ∧
      ∃ start items run, FansOut e w log t.scope list binding template k stage start items run) ∧
    (∃ s, ∀ x ∈ log, ∀ k outcome, x.note = .ends k outcome → outcome.isCancelled = false ∧
      ∃ a : Tried, a.attempt = k ∧ a.finish = x.moment ∧ a.lines <:+: log ∧
        Fanned e.setting n s list binding template a.start a.inner a.finish outcome) ∧
    ∀ s i v, (Scope.forItem s binding i v).binding? binding = some v ∧
      (Scope.forItem s binding i v).binding? "index" = some (.int i) := by
  have haccount (s : Scope) : Account.fanned e.setting n s =
      .fanning e.setting n s list binding template := by rw [Account.fanned,hk]
  refine ⟨fun t ht htid k limit stage hp => ?_,?_,fun s i v => Scope.forItem_sees s ?_ i v⟩
  · have hl := (hd.story fun n s => Account.fanned_holds e.setting n s).living t ht htid
    obtain rfl := hd.reaches.coherent.node_eq ht hr (hid.trans (by rw [htid])) hn
      (hnode.trans (by rw [htid]))
    rw [haccount] at hl
    exact ⟨hd.reaches.waits ht (by rw [hp]; rfl),hl.fansOut hd.reaches ht hp⟩
  · obtain rfl | hne := eq_or_ne log []
    · exact ⟨default,nofun⟩
    obtain ⟨s,p,hl,-⟩ := hd.living (fun n s => Account.fanned_holds e.setting n s) hr hid hne hn hnode
    rw [haccount] at hl
    refine ⟨s,fun x hx k outcome hends => ?_⟩
    obtain ⟨a,hattempt,-,hfinish,hin,hfanned⟩ := hl.tellsEnds x hx k outcome hends
    refine ⟨Fanned.isCancelled hfanned ?_ fun y hy run result hcloses hcancelled => ?_,a,hattempt,hfinish,
      hin,hfanned⟩
    · rw [hfinish]
      refine Bool.eq_false_iff.mpr fun hcancelled => ?_
      rw [(hd.past x hx).2 hcancelled] at hc
      cases hc
    · have hmem : y ∈ log :=
        hin.subset (List.mem_append_left _ (List.mem_cons_of_mem _ hy))
      rw [hd.closes_cancelled hmem hcloses hcancelled] at hc
      cases hc
  · have hkind := (hd.reaches.usable hr n hn).kind
    rw [hk] at hkind
    rintro rfl
    exact hkind.2 (by decide)

end Claims

namespace Mill

/-- An action that fails at one place. -/
abbrev grind : Action where
  name := "grind"
  logged := false
  check _ := .ok ()
  start use := .ended (if use.path = "mill[1]/stone" then .fault (.failed "stuck") else .done .null)

abbrev engine : Engine := { config := {}, pools := {}, setting := { actions := [grind] } }

abbrev definition : Definition where
  name := "bread"
  nodes := [("mill",{
    kind := .forEach (.array [.string "rye",.string "pebbles",.string "oats"]) "grain"
      (.steps [("stone",{ kind := .action "grind" .null })]) })]

abbrev mill : TaskId := ⟨⟨0,[]⟩,"mill"⟩

abbrev stone (k : Nat) : TaskId := ⟨mill.child k,"stone"⟩

abbrev inner (k : Nat) : List Move :=
  let run := (stone k).run
  [.pass run,.step (stone k),.step (stone k),.take run,.pass run,.take run,.pass run]

/-- The last item is done first; then one fails, and the first is yet to be done. -/
abbrev moves : List Move := [.pass mill.run,.step mill] ++ inner 2 ++ inner 1

def working : List Line × World := (engine.started definition).diary engine.setting mill [] moves

theorem working_spec : Diary engine mill working.1 working.2 := (Diary.started rfl).moves moves

def diary : List Line × World :=
  working.2.diary engine.setting mill working.1 (inner 0 ++ [.step mill])

theorem diary_spec : Diary engine mill diary.1 diary.2 := working_spec.moves _

def isFanOut (_ : Run) (n : GraphNode Graph) : Bool :=
  match n.kind with
  | .forEach .. => true
  | _ => false

def isNesting (t : Task) : Bool :=
  t.id == mill && match t.phase with
    | .nesting .. => true
    | _ => false

def hasGathered (x : Line) : Bool :=
  match x.note with
  | .ends 1 (.error (.aggregate 3 [⟨1,.string "pebbles",_⟩])) => true
  | _ => false

end Mill

/-- The pebbles are not ground, and nothing else fails for it, in whichever order. -/
theorem fan_outs_gather_their_items_mill :
    (∃ t ∈ Mill.working.2.tasks, ∃ list binding template k stage start items run,
      Mill.working.2.Waits Mill.engine t ∧
      FansOut Mill.engine Mill.working.2 Mill.working.1 t.scope list binding template k stage start
        items run) ∧
    ∃ n list binding template s f, ∃ a : Tried, n.kind = .forEach list binding template ∧
      a.lines <:+: Mill.diary.1 ∧
      Fanned Mill.engine.setting n s list binding template a.start a.inner a.finish
        (.error (.aggregate 3 [⟨1,.string "pebbles",f⟩])) := by
  constructor
  · obtain ⟨r,hr,hid,n,hn,hnode,hkind⟩ := World.exists_node Mill.working.2 Mill.mill Mill.isFanOut
      (by decide +kernel)
    unfold Mill.isFanOut at hkind
    split at hkind
    · next list binding template hk =>
      obtain ⟨hworks,-⟩ := fan_outs_gather_their_items Mill.working_spec hr hid hn hnode hk
        (by decide +kernel)
      have hany : Mill.working.2.tasks.any Mill.isNesting = true := by decide +kernel
      obtain ⟨t,ht,hnesting⟩ := List.any_eq_true.mp hany
      obtain ⟨htid,hphase⟩ := Bool.and_eq_true_iff.mp hnesting
      split at hphase
      · next k limit stage hp =>
        obtain ⟨hwaits,start,items,run,hfans⟩ := hworks t ht (eq_of_beq htid) k limit stage hp
        exact ⟨t,ht,list,binding,template,k,stage,start,items,run,hwaits,hfans⟩
      · cases hphase
    · cases hkind
  · obtain ⟨r,hr,hid,n,hn,hnode,hkind⟩ := World.exists_node Mill.diary.2 Mill.mill Mill.isFanOut
      (by decide +kernel)
    unfold Mill.isFanOut at hkind
    split at hkind
    · next list binding template hk =>
      obtain ⟨-,⟨s,hends⟩,-⟩ := fan_outs_gather_their_items Mill.diary_spec hr hid hn hnode hk
        (by decide +kernel)
      have hany : Mill.diary.1.any Mill.hasGathered = true := by decide +kernel
      obtain ⟨x,hx,hgathered⟩ := List.any_eq_true.mp hany
      unfold Mill.hasGathered at hgathered
      split at hgathered
      · next f hnote =>
        obtain ⟨-,a,-,-,hin,hfanned⟩ := hends x hx 1 _ hnote
        exact ⟨n,list,binding,template,s,f,a,hk,hin,hfanned⟩
      · cases hgathered
    · cases hkind

end Engine

end TaskGraph
