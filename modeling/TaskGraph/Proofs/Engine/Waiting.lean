import Mathlib.Logic.Relation
import TaskGraph.Proofs.Admission.Turns
import TaskGraph.Proofs.Engine.Holding
import TaskGraph.Proofs.Engine.Scene

/-!
Who waits for whom in an engine. Inside nodes that hold tags the rank of what is waited for falls, and
in turn the tickets do, so that nobody waits for itself and everybody waits for somebody who can go on.
-/

namespace TaskGraph.Engine

open Admission Relation

namespace World

/-- A node that waits for its tags. -/
def IsWaiting (w : World) (p : Party TaskId) : Prop := p ∈ w.admission.parties ∧ p.holdsTags = false

/-- A node that waits for tags waits for another to get its tags: for one that comes before it and asks
for one of its tags, or for one inside a node that holds a tag of which there is no more. -/
inductive WaitsFor (w : World) (p q : Party TaskId) : Prop
  | turn {k j : Nat} {tag : String} : w.IsWaiting p → w.IsWaiting q → p.ticket? = some k →
    q.ticket? = some j → j < k → tag ∈ p.request.tags → tag ∈ q.request.tags → WaitsFor w p q
  | holder {h : Party TaskId} {tag : String} : w.IsWaiting p → w.IsWaiting q → tag ∈ p.request.tags →
    w.admission.capacity tag ≤ w.admission.used tag → h ∈ w.admission.parties →
    h.holds tag = true → q.id.IsInside h.id → WaitsFor w p q

/-- No node waits for tags inside a node. -/
def IsCalm (w : World) (id : TaskId) : Prop := ∀ q, w.IsWaiting q → ¬ q.id.IsInside id

/-- Whether a rank falls from the tags that are held around a node to those of the node. -/
def Ranks (w : World) (rank : String → Nat) : Prop :=
  ∀ t ∈ w.tasks, ∀ outer ∈ t.held, ∀ tag ∈ t.node.tags, rank tag < rank outer

variable {e : Engine} {w : World} {p q : Party TaskId} {rank : String → Nat}

/-- A node that waits inside a holder does not queue, and all that it waits for ranks lower. -/
theorem Ranks.of_inside (hrank : w.Ranks rank) (hr : Reaches e w) (hq : w.IsWaiting q)
    {h : Party TaskId} (hh : h ∈ w.admission.parties) {tag : String} (htag : h.holds tag = true)
    (hin : q.id.IsInside h.id) : q.ticket? = none ∧ ∀ x ∈ q.request.tags, rank x < rank tag := by
  obtain ⟨t,ht,htsuits⟩ := hr.staffed.seated h hh
  obtain ⟨u,hu,husuits⟩ := hr.staffed.seated q hq.1
  rw [← htsuits.id,← husuits.id] at hin
  have htags := (hr.layered.isInside hr.coherent ht hu hin).2
  have hheld : tag ∈ u.held := by
    refine htags ?_
    rw [Party.holds,Bool.and_eq_true,List.contains_iff_mem,htsuits.request] at htag
    exact htag.2
  constructor
  · have hqueues := ((hr.staffed.balanced.sensible q hq.1).waiting hq.2).2
    have hbypass : q.request.bypass = true := by
      rw [husuits.request,Task.request]
      simpa using List.ne_nil_of_mem hheld
    rw [hbypass] at hqueues
    simpa using hqueues
  · intro x hx
    rw [husuits.request] at hx
    exact hrank u hu tag hheld x hx

theorem Ranks.acc_of_inside (hrank : w.Ranks rank) (hr : Reaches e w) (hq : w.IsWaiting q)
    {h : Party TaskId} (hh : h ∈ w.admission.parties) {tag : String} (htag : h.holds tag = true)
    (hin : q.id.IsInside h.id) : Acc (fun q p => w.WaitsFor p q) q := by
  induction hn : rank tag using Nat.strong_induction_on generalizing q h tag with
  | _ n ih =>
    obtain ⟨hnone,hlower⟩ := hrank.of_inside hr hq hh htag hin
    refine .intro q fun o hwaits => ?_
    cases hwaits with
    | turn _ _ hk =>
      rw [hnone] at hk
      cases hk
    | @holder _ inner _ ho hinner _ hh' hholds hin' =>
      exact ih (rank inner) (hn ▸ hlower inner hinner) ho hh' hholds hin' rfl

theorem Ranks.acc_of_ticket (hrank : w.Ranks rank) (hr : Reaches e w) {k : Nat}
    (hk : p.ticket? = some k) : Acc (fun q p => w.WaitsFor p q) p := by
  induction k using Nat.strong_induction_on generalizing p with
  | _ k ih =>
    refine .intro p fun q hwaits => ?_
    cases hwaits with
    | turn _ _ hk' hj hlt =>
      obtain rfl := Option.some.inj (hk.symm.trans hk')
      exact ih _ hlt hj
    | holder _ hq _ _ hh hholds hin => exact hrank.acc_of_inside hr hq hh hholds hin

/-- Waiting comes to an end: in turn the tickets fall, inside holders the ranks. -/
theorem Ranks.wellFounded (hrank : w.Ranks rank) (hr : Reaches e w) :
    WellFounded fun q p => w.WaitsFor p q := by
  refine ⟨fun p => .intro p fun q hwaits => ?_⟩
  cases hwaits with
  | turn _ _ _ hj => exact hrank.acc_of_ticket hr hj
  | holder _ hq _ _ hh hholds hin => exact hrank.acc_of_inside hr hq hh hholds hin

/-- A node that waits and could not have its tags waits for somebody, or for a node in which nobody
waits. -/
theorem exists_waitsFor (hb : w.admission.Balanced)
    (hroom : ∀ tag, 0 < w.admission.capacity tag) (hp : w.IsWaiting p)
    (hg : w.admission.canGrant p = false) : (∃ q, w.WaitsFor p q) ∨
      ∃ tag ∈ p.request.tags, ∃ h ∈ w.admission.parties, h.holds tag = true ∧ w.IsCalm h.id := by
  by_cases hbehind : ∃ k, p.ticket? = some k ∧ w.admission.isBehind k p.request.tags = true
  · obtain ⟨k,hk,hbefore⟩ := hbehind
    obtain ⟨entry,hentry,hlt⟩ := List.any_eq_true.mp hbefore
    rw [Bool.and_eq_true,decide_eq_true_eq,List.any_eq_true] at hlt
    obtain ⟨hlt,tag,htag,hshared⟩ := hlt
    rw [hb.queue] at hentry
    obtain ⟨q,hq,he⟩ := List.mem_filterMap.mp hentry
    obtain ⟨j,hj,rfl⟩ := Option.map_eq_some_iff.mp he
    have hwaits : q.holdsTags = false := by
      rw [Bool.eq_false_iff]
      intro hholds
      rw [Party.ticket?_of_holdsTags hholds] at hj
      cases hj
    exact .inl ⟨q,.turn hp ⟨hq,hwaits⟩ hk hj hlt (by simpa using hshared) htag⟩
  · have hfull : w.admission.hasRoom p.request.tags = false := by
      rw [Bool.eq_false_iff]
      intro hfree
      rw [canGrant_eq_true.mpr ⟨hp.2,fun k hk => ?_,hfree⟩] at hg
      · cases hg
      · rw [Bool.eq_false_iff]
        exact fun h => hbehind ⟨k,hk,h⟩
    obtain ⟨tag,htag,hno⟩ := List.all_eq_false.mp hfull
    have hno : w.admission.capacity tag ≤ w.admission.used tag := by simpa using hno
    have hsome : 0 < w.admission.parties.countP (·.holds tag) := by
      have hused := hb.used tag
      have := hroom tag
      rw [List.count_nil] at hused
      omega
    obtain ⟨h,hh,hholds⟩ := List.countP_pos_iff.mp hsome
    by_cases hcalm : w.IsCalm h.id
    · exact .inr ⟨tag,htag,h,hh,hholds,hcalm⟩
    · simp only [IsCalm,not_forall,not_not] at hcalm
      obtain ⟨q,hq,hin⟩ := hcalm
      exact .inl ⟨q,.holder hp hq htag hno hh hholds hin⟩

/-- Whoever waits waits in the end for somebody who can have its tags, or for a node in which nobody
waits. -/
theorem Ranks.exists_free (hrank : w.Ranks rank) (hr : Reaches e w)
    (hroom : ∀ tag, 0 < w.admission.capacity tag) (hp : w.IsWaiting p) :
    ∃ q, ReflTransGen w.WaitsFor p q ∧ w.IsWaiting q ∧ (w.admission.canGrant q = true ∨
      ∃ tag ∈ q.request.tags, ∃ h ∈ w.admission.parties, h.holds tag = true ∧ w.IsCalm h.id) := by
  induction p using (hrank.wellFounded hr).induction with
  | _ p ih =>
    cases hg : w.admission.canGrant p with
    | true => exact ⟨p,.refl,hp,.inl hg⟩
    | false =>
      obtain ⟨q,hpq⟩ | hfree := exists_waitsFor hr.staffed.balanced hroom hp hg
      · have hq : w.IsWaiting q := by
          cases hpq with
          | turn _ hq => exact hq
          | holder _ hq => exact hq
        obtain ⟨o,hqo,hrest⟩ := ih q hpq hq
        exact ⟨o,.head hpq hqo,hrest⟩
      · exact ⟨p,.refl,hp,.inr hfree⟩

/-- Tags that can be ranked for all definitions that run keep waiting from going in a circle. -/
theorem no_circle (hr : Reaches e w) (hroom : ∀ tag, 0 < e.pools.capacity tag) {ds : List Definition}
    (hf : Graph.tagFaults (ds.flatMap Definition.tagPairs) = [])
    (hof : ∀ r ∈ w.runs, r.id.steps = [] → ∃ d ∈ ds, e.validate d = .ok r.schedule.graph) :
    (∀ p, ¬ TransGen w.WaitsFor p p) ∧
    ∀ p, w.IsWaiting p → ∃ q, ReflTransGen w.WaitsFor p q ∧ w.IsWaiting q ∧
      (w.admission.canGrant q = true ∨ ∃ tag ∈ q.request.tags, ∃ h ∈ w.admission.parties,
        h.holds tag = true ∧ w.IsCalm h.id) := by
  obtain ⟨rank,hrank⟩ := Definition.exists_rank hf
  have hranks : w.Ranks rank := by
    intro t ht outer houter tag htag
    obtain ⟨root,hroot,hsteps,g,henc,hn⟩ := hr.layered.site hr.coherent ht
    obtain ⟨d,hd,hv⟩ := hof root hroot hsteps
    have hpair := (Definition.nestings_of_build (validate_eq_ok.mp hv) henc hn).2
    exact hrank d hd _ (hpair outer houter tag htag)
  have hpools : w.admission.pools = e.pools := congrArg Prod.fst hr.staffed.later.premises_eq
  refine ⟨fun p hcycle => ?_,fun p hp => hranks.exists_free hr (fun tag => ?_) hp⟩
  · have hswap : TransGen (fun q p => w.WaitsFor p q) p p := transGen_swap.mpr hcycle
    exact (hranks.wellFounded hr).transGen.asymmetric p p hswap hswap
  · rw [Admission.capacity,hpools]
    exact hroom tag

/-- A node that holds a slot has no nodes inside it. -/
theorem not_isInside_of_holdsSlot (hr : Reaches e w) {h : Party TaskId}
    (hh : h ∈ w.admission.parties) (hs : h.holdsSlot = true) :
    ∀ t ∈ w.tasks, ¬ t.id.IsInside h.id := by
  intro t ht hin
  obtain ⟨u,hu,hsuits⟩ := hr.staffed.seated h hh
  rw [← hsuits.id] at hin
  have hruns := (hr.layered.isInside hr.coherent hu ht hin).1
  rw [hsuits.slot hruns] at hs
  cases hs

end World

theorem pools_of_make {config : Config} {setting : Setting} {e : Engine}
    (h : make config setting = .ok e) (tag : String) : 0 < e.pools.capacity tag := by
  unfold make at h
  cases hc : config.check with
  | error f =>
    rw [hc] at h
    cases h
  | ok =>
    cases hp : Pools.make config.standardPool config.pools with
    | error f =>
      rw [hc,hp] at h
      cases h
    | ok pools =>
      rw [hc,hp] at h
      cases h
      exact Pools.capacity_pos hp tag

/-- As long as an engine runs one definition, in however many runs, nodes do not wait for tags in a
circle. Whoever waits waits in the end for a node that could have its tags, or for tags that a node
holds in which nobody waits; and a node that holds a slot neither waits nor contains one that does. -/
theorem no_circular_wait {config : Config} {setting : Setting} {e : Engine}
    (hmake : make config setting = .ok e) {required : List String} {d : Definition} {graph : Graph}
    (hv : e.validate d = .ok graph) {w : World} (hr : Reaches { e with required } w)
    (hone : ∀ r ∈ w.runs, r.id.steps = [] → r.schedule.graph = graph) :
    (∀ p ∈ w.admission.parties, ∃ t ∈ w.tasks, t.id = p.id ∧ t.request = p.request) ∧
    (∀ p, ¬ TransGen w.WaitsFor p p) ∧
    (∀ p, w.IsWaiting p → ∃ q, ReflTransGen w.WaitsFor p q ∧ w.IsWaiting q ∧
      (w.admission.canGrant q = true ∨ ∃ tag ∈ q.request.tags, ∃ h ∈ w.admission.parties,
        h.holds tag = true ∧ w.IsCalm h.id)) ∧
    ∀ h ∈ w.admission.parties, h.holdsSlot = true →
      h.isGranted = true ∧ ∀ t ∈ w.tasks, ¬ t.id.IsInside h.id := by
  have hf : Graph.tagFaults ([d].flatMap Definition.tagPairs) = [] := by
    rw [List.flatMap_singleton]
    exact Definition.tagFaults_of_build (validate_eq_ok.mp hv)
  obtain ⟨hcircle,hfree⟩ := w.no_circle hr (fun tag => pools_of_make hmake tag) hf fun r hrun hsteps =>
    ⟨d,List.mem_singleton_self d,hone r hrun hsteps ▸ hv⟩
  refine ⟨fun p hp => ?_,hcircle,hfree,fun h hh hs => ⟨?_,w.not_isInside_of_holdsSlot hr hh hs⟩⟩
  · obtain ⟨t,ht,hsuits⟩ := hr.staffed.seated p hp
    exact ⟨t,ht,hsuits.id,hsuits.request.symm⟩
  · unfold Party.holdsSlot at hs
    rw [Party.isGranted,beq_iff_eq.mp hs]

namespace Errands

abbrev engine : Engine := { config := {}, pools := {}, setting := { actions := [] } }

/-- At the counter one needs the desk, and there the pen to sign; the letter needs the pen. -/
abbrev definition : Definition where
  name := "errands"
  nodes := [("counter",{
      kind := .sequence (.steps [("sign",{ kind := .action "echo" .null, resources := ["pen"] })])
      resources := ["desk"] }),
    ("letter",{
      kind := .sequence (.steps [("write",{ kind := .action "echo" .null })])
      resources := ["pen"] })]

abbrev counter (n : Nat) : TaskId := ⟨⟨n,[]⟩,"counter"⟩

/-- The first run has the desk and writes the letter, so that it cannot sign; the second waits for the
desk. -/
abbrev moves : List Move :=
  [.pass ⟨0,[]⟩,.step (counter 0),.step ⟨⟨0,[]⟩,"letter"⟩,.pass ((counter 0).child 0),
    .step ⟨(counter 0).child 0,"sign"⟩,.pass ⟨1,[]⟩,.step (counter 1)]

theorem scene_isSome : (scene engine definition definition moves).isSome = true := by decide +kernel

def world : World := (scene engine definition definition moves).get scene_isSome

theorem scene_eq : scene engine definition definition moves = some world :=
  (Option.some_get scene_isSome).symm

end Errands

/-- The second run waits for the desk, and nobody can have its tags; but nobody waits inside the
letter. -/
theorem no_circular_wait_errands :
    (∀ q ∈ Errands.world.admission.parties, Errands.world.admission.canGrant q = false) ∧
    ∃ p, Errands.world.IsWaiting p ∧ p.id = Errands.counter 1 ∧
      ∃ q, ReflTransGen Errands.world.WaitsFor p q ∧ Errands.world.IsWaiting q ∧
        ∃ tag ∈ q.request.tags, ∃ h ∈ Errands.world.admission.parties,
          h.holds tag = true ∧ Errands.world.IsCalm h.id := by
  have hnone : ∀ q ∈ Errands.world.admission.parties,
      Errands.world.admission.canGrant q = false := by decide +kernel
  have hwaits : ∃ p ∈ Errands.world.admission.parties,
      p.holdsTags = false ∧ p.id = Errands.counter 1 := by decide +kernel
  obtain ⟨p,hp,hw,hid⟩ := hwaits
  have hv : Errands.engine.validate Errands.definition =
      .ok (Errands.definition.block.toGraph standardCap) := rfl
  have hmake : make {} { actions := [] } = .ok Errands.engine := rfl
  obtain ⟨hr,hroots⟩ := reaches_scene rfl rfl Errands.scene_eq
  obtain ⟨-,-,hfree,-⟩ := no_circular_wait hmake hv hr fun r hrun hsteps => by
    obtain ⟨-,hr⟩ | ⟨-,hr⟩ := hroots r hrun hsteps
    all_goals
      rw [hv] at hr
      exact (Except.ok.inj hr).symm
  obtain ⟨q,hpq,hq,hg | hcalm⟩ := hfree p ⟨hp,hw⟩
  · rw [hnone q hq.1] at hg
    cases hg
  · exact ⟨hnone,p,⟨hp,hw⟩,hid,q,hpq,hq,hcalm⟩

end TaskGraph.Engine
