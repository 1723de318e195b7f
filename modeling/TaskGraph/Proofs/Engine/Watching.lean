import TaskGraph.Proofs.Engine.Knowing
import TaskGraph.Proofs.Engine.Scene
import TaskGraph.Proofs.Schedule.Advance

/-!
What observers of a started run get to see: first that all nodes wait, then whatever changes, and in the
end, once only, how all nodes have ended. No state that they have seen is taken back.
-/

namespace TaskGraph.Engine

/-- What was seen before goes on to what is seen after, node by node. -/
def Snapshot.Advances (before after : Snapshot) : Prop := StatusesAdvance before.nodes after.nodes

/-- What has been published of a run by now fits what it has come to. -/
structure Run.Posted (r : Run) : Prop where
  first : r.published.getLast?.map (·.2) = some ⟨r.id,r.schedule.graph.ids.map (·,.pending),false⟩
  listed : ∀ p ∈ r.published, p.2.run = r.id ∧ p.2.nodes.map (·.1) = r.schedule.graph.ids
  advances : r.published.IsChain fun newer older =>
    older.2.Advances newer.2 ∧ newer.2 ≠ older.2
  current : ∀ p ∈ r.published.head?, StatusesAdvance p.2.nodes r.schedule.statuses

/-- What observers of a run see at every moment. Snapshots stand with the newest first. -/
structure Run.IsWatched (r : Run) : Prop extends r.Posted where
  going : r.result? = none → ∀ p ∈ r.published, p.2.finished = false
  waiting : r.phase = .waiting → r.published.head?.map (·.2) = some (r.snapshot false)
  ended : ∀ result time, r.phase = .ended result time →
    r.published.head?.map (·.2) =
      some ⟨r.id,result.records.map fun x => (x.node,x.status),true⟩ ∧
    (∀ p ∈ r.published.tail, p.2.finished = false) ∧
    (∀ x ∈ result.records, x.status.isTerminal = true) ∧
    result.summary.succeeded + result.summary.failed + result.summary.skipped +
      result.summary.blocked + result.summary.cancelled = r.schedule.graph.nodes.length

namespace Run

variable {r : Run}

/-- The comparison record by record tells whether a snapshot is the present one. -/
theorem isShownBy_iff {finished : Bool} {s : Snapshot} :
    r.isShownBy finished s = true ↔ s = r.snapshot finished := by
  obtain ⟨run,nodes,flag⟩ := s
  have hzip (records : List Record) (nodes : List (String × Status)) :
      nodes.length = records.length ∧ (records.zip nodes).all (fun p =>
        p.1.node == p.2.1 && p.1.status == p.2.2) = true ↔
      nodes = records.map fun x => (x.node,x.status) := by
    induction records generalizing nodes with
    | nil => simp
    | cons x records ih =>
      cases nodes with
      | nil => simp
      | cons y nodes =>
        obtain ⟨id,status⟩ := y
        have hrest := ih nodes
        simp only [List.length_cons,Nat.add_right_cancel_iff,List.zip_cons_cons,List.all_cons,
          Bool.and_eq_true,beq_iff_eq,List.map_cons,List.cons.injEq,Prod.mk.injEq] at hrest ⊢
        rw [← hrest]
        constructor
        · rintro ⟨hlen,⟨hid,hst⟩,hall⟩
          exact ⟨⟨hid.symm,hst.symm⟩,hlen,hall⟩
        · rintro ⟨⟨hid,hst⟩,hlen,hall⟩
          exact ⟨hlen,⟨hid.symm,hst.symm⟩,hall⟩
  simp only [isShownBy,snapshot,Bool.and_eq_true,beq_iff_eq,Snapshot.mk.injEq,Schedule.statuses]
  rw [← hzip r.schedule.records nodes]
  constructor
  · rintro ⟨⟨⟨hflag,hrun⟩,hlen⟩,hall⟩
    exact ⟨hrun,⟨hlen,hall⟩,hflag⟩
  · rintro ⟨hrun,⟨hlen,hall⟩,hflag⟩
    exact ⟨⟨⟨hflag,hrun⟩,hlen⟩,hall⟩

/-- Observers are told exactly when what there is to see is not what they have seen last. -/
theorem publish_published (hroot : r.isRoot = true) (time : Nat) (finished : Bool) :
    (r.publish time finished).published =
      if r.published.head?.map (·.2) = some (r.snapshot finished) then r.published
      else (time,r.snapshot finished)::r.published := by
  have hseen : r.published.head?.any (fun p => r.isShownBy finished p.2) = true ↔
      r.published.head?.map (·.2) = some (r.snapshot finished) := by
    cases r.published.head? with
    | none => simp
    | some p => simpa using isShownBy_iff
  unfold publish
  by_cases hs : r.published.head?.map (·.2) = some (r.snapshot finished)
  · rw [if_pos hs,if_pos (by rw [hseen.mpr hs,Bool.or_true])]
  · have hnew : ¬ (!r.isRoot || r.published.head?.any fun p => r.isShownBy finished p.2) = true := by
      rw [hroot,Bool.not_true,Bool.false_or,hseen]
      exact hs
    rw [if_neg hs,if_neg hnew]

/-- Afterwards what they have seen last is what there is to see. -/
theorem publish_head (hroot : r.isRoot = true) (time : Nat) (finished : Bool) :
    (r.publish time finished).published.head?.map (·.2) = some (r.snapshot finished) := by
  rw [publish_published hroot]
  split
  · assumption
  · rfl

namespace Posted

theorem publish (h : r.Posted) (hroot : r.isRoot = true) (hs : r.schedule.IsTable) (time : Nat)
    (finished : Bool) : (r.publish time finished).Posted := by
  obtain ⟨published,hp⟩ := World.publish_eq r time finished
  have hpublished := publish_published hroot time finished
  rw [hp] at hpublished ⊢
  have hpublished : published = if r.published.head?.map (·.2) = some (r.snapshot finished) then
    r.published else (time,r.snapshot finished)::r.published := hpublished
  split at hpublished
  · rw [hpublished]
    exact ⟨h.first,h.listed,h.advances,h.current⟩
  next hnew =>
  rw [hpublished]
  obtain ⟨p,rest,hlast⟩ : ∃ p rest, r.published = p::rest := by
    cases hl : r.published with
    | nil =>
      have hfirst := h.first
      rw [hl] at hfirst
      cases hfirst
    | cons p rest => exact ⟨p,rest,rfl⟩
  constructor
  · have hfirst := h.first
    rw [hlast] at hfirst ⊢
    rw [List.getLast?_cons_cons]
    exact hfirst
  · intro q hq
    rcases List.mem_cons.mp hq with rfl | hq
    · exact ⟨rfl,hs.statuses_ids⟩
    · exact h.listed q hq
  · have hchain := h.advances
    have hcurrent := h.current p (by rw [hlast]; rfl)
    rw [hlast] at hchain hnew ⊢
    refine List.isChain_cons_cons.mpr ⟨⟨hcurrent,fun he => hnew ?_⟩,hchain⟩
    exact congrArg some he.symm
  · intro q hq
    cases hq
    exact .refl _

/-- What has been published fits what a run comes to later. -/
theorem later (h : r.Posted) {q : Run} (hid : q.id = r.id) (hp : q.published = r.published)
    (hl : Schedule.Later r.schedule q.schedule) (hs : r.schedule.IsTable)
    (hd : r.schedule.graph.ids.Nodup) : q.Posted := by
  have hg := hl.frame.1
  constructor
  · rw [hp,hid,hg]
    exact h.first
  · rw [hp,hid,hg]
    exact h.listed
  · rw [hp]
    exact h.advances
  · rw [hp]
    exact fun p hlast => (h.current p hlast).trans (hl.statuses_advance hs hd)

end Posted

theorem IsWatched.hear (h : r.IsWatched) (id : RunId) (es : List Event) :
    (r.hear id es).IsWatched :=
  ⟨⟨h.first,h.listed,h.advances,h.current⟩,h.going,h.waiting,h.ended⟩

/-- A run that goes on at once has nothing new to show. -/
theorem IsWatched.goOn (h : r.IsWatched) (hnone : r.result? = none) {q : Run} (hq : q.Posted)
    (hp : q.published = r.published) (hphase : q.phase = .passing) : q.IsWatched where
  toPosted := hq
  going _ := hp ▸ h.going hnone
  waiting hw := by
    rw [hphase] at hw
    cases hw
  ended result time he := by
    rw [hphase] at he
    cases he

end Run

theorem firstRun_isWatched (w : World) (d : Definition) (graph : Graph) (bindings : Fields)
    (number : Nat) (expiry : Option Timer) :
    (firstRun w d graph bindings number expiry).IsWatched := by
  have hstatuses := Schedule.start_statuses graph { bindings }
  have hids : (Schedule.start graph { bindings }).statuses.map (·.1) = graph.ids :=
    (Schedule.IsTable.start graph { bindings }).statuses_ids
  refine ⟨⟨?_,?_,.singleton _,?_⟩,fun _ p hp => ?_,nofun,nofun⟩
  · exact congrArg (fun nodes => some (Snapshot.mk ⟨number,[]⟩ nodes false)) hstatuses
  · intro p hp
    rw [List.mem_singleton.mp hp]
    exact ⟨rfl,hids⟩
  · intro p hp
    cases hp
    exact .refl _
  · rw [List.mem_singleton.mp hp]

namespace World

variable {e : Engine} {w w' : World} {r : Run} {t : Task}

/-- The run that waits after a pass. -/
def waited (w : World) (r : Run) : Run :=
  ({ r with schedule := (w.passed r).1, phase := .waiting } : Run).publish w.clock false

/-- The run that is over after a pass, what had not ended being cancelled. -/
def closed (w : World) (r : Run) : Run :=
  let last := ({ w.waited r with schedule := (w.passed r).1.sweep w.now } : Run).publish w.clock true
  { last with
    phase := .ended (last.schedule.result last.name (last.stopped || w.isCancelled last.id)) w.clock }

theorem waited_eq (w : World) (r : Run) : ∃ published,
    w.waited r = { r with schedule := (w.passed r).1, phase := .waiting, published } :=
  publish_eq _ _ _

theorem waited_id (w : World) (r : Run) : (w.waited r).id = r.id := by
  obtain ⟨p,hp⟩ := w.waited_eq r
  rw [hp]

theorem closed_id (w : World) (r : Run) : (w.closed r).id = r.id := by
  obtain ⟨p,hp⟩ :=
    publish_eq { w.waited r with schedule := (w.passed r).1.sweep w.now } w.clock true
  simp only [closed,hp]
  exact w.waited_id r

theorem pass_runs (w : World) (r : Run) : (w.pass r).runs =
    (w.setRun (if (w.passed r).1.inFlight.isEmpty then w.closed r else w.waited r)).runs := by
  obtain ⟨p,hp⟩ := w.waited_eq r
  rw [pass_eq]
  change (if (w.passed r).1.inFlight.isEmpty then w.close (w.waited r)
    else (w.setRun (w.waited r)).spawn (w.waited r) (w.passed r).2).runs = _
  split
  · rw [close,closed,hp]
  · exact (foldl_alike (fun w t => wake_alike w _) _ _).runs

theorem waited_isWatched (h : r.IsWatched) (hroot : r.isRoot = true) (hs : r.Sensible)
    (hnone : r.result? = none) : (w.waited r).IsWatched := by
  have hg := w.passed_grows r
  have htable : (w.passed r).1.IsTable := hg.table hs.table
  let before : Run := { r with schedule := (w.passed r).1, phase := .waiting }
  have hbefore : before.Posted := h.toPosted.later rfl rfl hg.later hs.table (hs.graph _ (.self _))
  have hposted : (w.waited r).Posted := hbefore.publish hroot htable w.clock false
  have hpublished : (w.waited r).published = _ :=
    Run.publish_published (r := before) hroot w.clock false
  have hhead := Run.publish_head (r := before) hroot w.clock false
  obtain ⟨p,hp⟩ := w.waited_eq r
  refine ⟨hposted,fun _ q hq => ?_,fun _ => ?_,fun result time he => ?_⟩
  · rw [hpublished] at hq
    split at hq
    · exact h.going hnone q hq
    · rcases List.mem_cons.mp hq with rfl | hq
      · rfl
      · exact h.going hnone q hq
  · change (w.waited r).published.head?.map (·.2) = some (before.snapshot false) at hhead
    rw [hhead,hp]
    rfl
  · rw [hp] at he
    cases he

theorem closed_isWatched (h : r.IsWatched) (hroot : r.isRoot = true) (hs : r.Sensible)
    (hnone : r.result? = none) : (w.closed r).IsWatched := by
  have hwaited : (w.waited r).IsWatched := waited_isWatched h hroot hs hnone
  have hg := w.passed_grows r
  have htable : (w.passed r).1.IsTable := hg.table hs.table
  have hneat : (w.passed r).1.graph.ids.Nodup := by
    rw [hg.graph]
    exact hs.graph _ (.self _)
  obtain ⟨p,hp⟩ := w.waited_eq r
  let swept : Run := { w.waited r with schedule := (w.passed r).1.sweep w.now }
  have hswept : swept.Posted := by
    refine hwaited.toPosted.later rfl rfl (q := swept) ?_ ?_ ?_
    · rw [hp]
      exact .sweep w.now .refl
    · rwa [hp]
    · rwa [hp]
  have hsweptRoot : swept.isRoot = true := by
    change (w.waited r).isRoot = true
    rwa [hp]
  -- The run was going on until now, so that its end is news.
  have hunfinished : ∀ q ∈ swept.published, q.2.finished = false :=
    hwaited.going (by rw [hp]; rfl)
  have hnews : swept.published.head?.map (·.2) ≠ some (swept.snapshot true) := by
    intro he
    obtain ⟨q,hq,hlast⟩ := Option.map_eq_some_iff.mp he
    have hfalse := hunfinished q (List.mem_of_mem_head? hq)
    rw [hlast] at hfalse
    cases hfalse
  obtain ⟨published,hlast⟩ := publish_eq swept w.clock true
  have hpublished := Run.publish_published hsweptRoot w.clock true
  rw [if_neg hnews,hlast] at hpublished
  have hpublished : published = (w.clock,swept.snapshot true)::swept.published := hpublished
  have hposted := hswept.publish hsweptRoot (htable.sweep w.now) w.clock true
  rw [hlast] at hposted
  have hclosed : w.closed r = { swept with
      published
      phase := .ended (swept.schedule.result swept.name (swept.stopped || w.isCancelled swept.id))
        w.clock } := by
    change ({ swept.publish w.clock true with phase := _ } : Run) = _
    rw [hlast]
  rw [hclosed,hpublished]
  rw [hpublished] at hposted
  refine ⟨⟨hposted.first,hposted.listed,hposted.advances,hposted.current⟩,nofun,nofun,?_⟩
  intro result time he
  cases he
  have hterminal := (w.passed r).1.sweep_isTerminal w.now
  refine ⟨rfl,hunfinished,hterminal,?_⟩
  have hlength : ((w.passed r).1.sweep w.now).records.length = r.schedule.graph.nodes.length := by
    have hids := congrArg List.length (htable.sweep w.now)
    rw [List.length_map,Graph.ids,List.length_map] at hids
    rw [hids,← hg.graph]
    rfl
  have htotal := Summary.ofRecords_total hterminal
  rw [hlength] at htotal
  rw [show swept.schedule.graph = r.schedule.graph from hg.graph]
  exact htotal

/-- A started run that takes its turn goes on being watched. -/
theorem RunTurn.watched (ht : RunTurn w r w') (h : r.isRoot = true → r.IsWatched)
    (hs : r.Sensible) : ∃ r', r'.id = r.id ∧ w'.runs = (w.setRun r').runs ∧
      (r.isRoot = true → r'.IsWatched) := by
  cases ht with
  | passes hp =>
    have hnone : r.result? = none := by rw [Run.result?,hp]
    refine ⟨_,?_,w.pass_runs r,fun hroot => ?_⟩
    · split
      · exact w.closed_id r
      · exact w.waited_id r
    · split
      · exact closed_isWatched (h hroot) hroot hs hnone
      · exact waited_isWatched (h hroot) hroot hs hnone
  | notices hp =>
    have hnone : r.result? = none := by rw [Run.result?,hp]
    refine ⟨{ r with stopped := true, phase := .passing },rfl,rfl,fun hroot => ?_⟩
    have hw := h hroot
    exact hw.goOn hnone ⟨hw.first,hw.listed,hw.advances,hw.current⟩ rfl rfl
  | expires hp =>
    have hnone : r.result? = none := by rw [Run.result?,hp]
    obtain ⟨c,ha,-⟩ := w.cancel_alike r.id.root
    refine ⟨{ r with stopped := true, phase := .passing },rfl,?_,fun hroot => ?_⟩
    · rw [expire,notice,setRun,setRun,ha.runs]
    · have hw := h hroot
      exact hw.goOn hnone ⟨hw.first,hw.listed,hw.advances,hw.current⟩ rfl rfl
  | @takes e rest hp hi =>
    have hnone : r.result? = none := by rw [Run.result?,hp]
    let taken : Run :=
      { r with schedule := r.schedule.apply w.now e, inbox := rest, phase := .passing }
    refine ⟨taken,rfl,rfl,fun hroot => ?_⟩
    have hposted : taken.Posted := (h hroot).toPosted.later rfl rfl (.event w.now e .refl) hs.table
      (hs.graph _ (.self _))
    exact (h hroot).goOn hnone hposted rfl rfl

/-- Observers of every started run are served. -/
def Watched (w : World) : Prop := ∀ r ∈ w.runs, r.isRoot = true → r.IsWatched

theorem Watched.of_same (h : w.Watched) (hruns : w'.runs = w.runs) : w'.Watched := by
  intro r hr
  exact h r (hruns ▸ hr)

theorem Watched.performs {d : Deed} {es : List Event} (h : w.Watched)
    (hp : Performs e w w' t d es) : w'.Watched := by
  intro q hq hroot
  obtain ⟨r,hr,-,rfl⟩ | hq := hp.mem_runs.mp hq
  · exact (h r hr hroot).hear _ _
  · obtain ⟨k,-,hid⟩ := hp.fits.opened_id hq
    rw [Run.isRoot,hid] at hroot
    cases hroot

end World

theorem Reaches.watched {e : Engine} {w : World} (hr : Reaches e w) : w.Watched := by
  induction hr with
  | world =>
    intro r hr
    cases hr
  | @step w w' turn hr hs ih =>
    have hw := hr.coherent
    cases hs with
    | start _ _ hstart =>
      obtain ⟨graph,bindings,expiry,-,ha,-⟩ := start_firstRun hstart
      intro r hmem hroot
      rw [ha.runs] at hmem
      rcases List.mem_append.mp hmem with hmem | hmem
      · exact ih r hmem hroot
      · rw [List.mem_singleton.mp hmem]
        exact firstRun_isWatched _ _ _ _ _ _
    | move hm =>
      obtain ⟨r,hrun,-,hturn⟩ | ⟨t,ht,-,hstep⟩ | ⟨-,⟨n,rfl⟩ | ⟨millis,rfl⟩⟩ := World.move_cases hm
      · obtain ⟨r',hid,hruns,hwatched⟩ := hturn.watched (ih r hrun) (hw.run r hrun)
        intro q hq hroot
        rw [hruns] at hq
        obtain rfl | ⟨hq,-⟩ := (World.mem_setRun hrun hid).mp hq
        · exact hwatched (by rwa [Run.isRoot,← hid])
        · exact ih q hq hroot
      · have hsens := hw.task t ht
        have hturn := World.stepTask_turn hsens.node hsens.phase hstep
        obtain ha | ⟨d,es,hp⟩ | ⟨-,ha⟩ := hturn.performs hr ht
        · exact ih.of_same ha.runs
        · exact ih.performs hp
        · exact ih.of_same ha.runs
      · obtain ⟨c,ha,-⟩ := w.cancel_alike n
        exact ih.of_same ha.runs
      · exact ih.of_same rfl
    | agenda => exact ih.of_same rfl

/-- Whatever happens, what observers of a started run see starts with all nodes waiting, takes no state
back and ends with the outcome of the run; and they are told of news only. -/
theorem observers_follow {e : Engine} {w : World} (hr : Reaches e w) {r : Run} (hrun : r ∈ w.runs)
    (hroot : r.isRoot = true) : r.IsWatched ∧ ∀ time finished,
      (r.publish time finished).published =
        (if r.published.head?.map (·.2) = some (r.snapshot finished) then r.published
        else (time,r.snapshot finished)::r.published) ∧
      (r.publish time finished).published.head?.map (·.2) = some (r.snapshot finished) :=
  ⟨hr.watched r hrun hroot,fun time finished =>
    ⟨Run.publish_published hroot time finished,Run.publish_head hroot time finished⟩⟩

namespace Crossroads

/-- An action that takes a while. -/
abbrev walk : Action where
  name := "walk"
  logged := false
  check _ := .ok ()
  start _ := ⟨100,true,.done .null⟩

abbrev engine : Engine := { config := {}, pools := {}, setting := { actions := [walk] } }

/-- A branch takes the short way; the long one, with what follows it, is given up. -/
abbrev definition : Definition where
  name := "crossroads"
  nodes := [("pick",{ kind := .branch [⟨.bool true,.one "short"⟩] (some (.one "long")) }),
    ("short",{ kind := .action "walk" .null }),
    ("long",{ kind := .action "walk" .null }),
    ("late",{ kind := .action "walk" .null, dependsOn := some (.node "long") })]

abbrev run : RunId := ⟨0,[]⟩

abbrev moves : List Move :=
  [.pass run,.step ⟨run,"pick"⟩,.step ⟨run,"pick"⟩,.take run,.pass run,.take run,.pass run,
    .step ⟨run,"short"⟩,.tick 100,.step ⟨run,"short"⟩,.step ⟨run,"short"⟩,.take run,.pass run,
    .take run,.pass run]

def started : World :=
  match engine.start engine.world definition [] 0 none with
  | .ok w => w
  | .error _ => engine.world

theorem started_eq : engine.start engine.world definition [] 0 none = .ok started := rfl

theorem world_isSome : (started.moves? engine.setting moves).isSome = true := by decide +kernel

def world : World := (started.moves? engine.setting moves).get world_isSome

theorem reaches : Reaches engine world := by
  have hstarted : Reaches engine started :=
    .step .world (.start rfl (fun _ hr => absurd hr List.not_mem_nil) started_eq)
  exact (hstarted.moves (Option.some_get world_isSome).symm).1

end Crossroads

/-- The run is over; its observers have seen the branch at work, the way that it takes, and the end. -/
theorem observers_follow_crossroads : ∃ r ∈ Crossroads.world.runs, r.isRoot = true ∧
    r.published.map (fun p => (p.2.nodes.map (·.2),p.2.finished)) =
      [([.success,.success,.skipped,.skipped],true),([.success,.success,.skipped,.skipped],false),
        ([.success,.running,.skipped,.skipped],false),([.success,.pending,.skipped,.skipped],false),
        ([.running,.pending,.pending,.pending],false),([.pending,.pending,.pending,.pending],false)] ∧
    r.IsWatched := by
  have hrun : ∃ r ∈ Crossroads.world.runs, r.isRoot = true ∧
      r.published.map (fun p => (p.2.nodes.map (·.2),p.2.finished)) =
        [([.success,.success,.skipped,.skipped],true),([.success,.success,.skipped,.skipped],false),
          ([.success,.running,.skipped,.skipped],false),
          ([.success,.pending,.skipped,.skipped],false),
          ([.running,.pending,.pending,.pending],false),
          ([.pending,.pending,.pending,.pending],false)] := by
    decide +kernel
  obtain ⟨r,hr,hroot,hseen⟩ := hrun
  obtain ⟨hwatched,-⟩ := observers_follow Crossroads.reaches hr hroot
  exact ⟨r,hr,hroot,hseen,hwatched⟩

end TaskGraph.Engine
