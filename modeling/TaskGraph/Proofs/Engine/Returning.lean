import TaskGraph.Proofs.Engine.Dealing
import TaskGraph.Proofs.Engine.Scene
import TaskGraph.Proofs.Engine.Share

/-!
What a run gives back. Once it has ended only tasks that leave are left of it, and when they are gone,
however the run went, an engine that was idle before is idle again.
-/

namespace TaskGraph.Engine

open Admission

/-- The worlds that come later while no started run but one makes a move. -/
inductive Alone (e : Engine) (n : Nat) (w : World) : World → Prop
  | refl : Alone e n w w
  | step {v v' : World} {turn : Option Nat} : Alone e n w v → Step e turn v v' →
    (∀ m, turn = some m → m = n) → Alone e n w v'

variable {e : Engine} {w v : World} {n : Nat}

theorem Alone.reaches (h : Alone e n w v) (hr : Reaches e w) : Reaches e v := by
  induction h with
  | refl => exact hr
  | step _ hs _ ih => exact ih.step hs

theorem Alone.moves (h : Alone e n w v) {v' : World} {moves : List Move}
    (hm : v.moves? e.setting moves = some v') (hroots : ∀ m ∈ moves, ∀ k ∈ m.root?, k = n) :
    Alone e n w v' := by
  induction moves generalizing v with
  | nil =>
    cases hm
    exact h
  | cons m rest ih =>
    obtain ⟨u,hu,hrest⟩ := Option.bind_eq_some_iff.mp hm
    exact ih (h.step (.move hu) (hroots m List.mem_cons_self)) hrest
      fun x hx => hroots x (List.mem_cons_of_mem m hx)

namespace World

/-- No task of another started run holds anything or is in a line. -/
def OthersBare (n : Nat) (w : World) : Prop :=
  ∀ p ∈ w.admission.parties, p.id.run.root ≠ n → p.IsBare

end World

theorem Reaches.orderly (hr : Reaches e w) : w.admission.Orderly fun _ => True :=
  hr.staffed.later.orderly (start_balanced e.pools e.config.maxConcurrent)
    fun _ hp => absurd hp List.not_mem_nil

theorem Step.othersBare {turn : Option Nat} (hs : Step e turn w v) (hr : Reaches e w)
    (hturn : ∀ m, turn = some m → m = n) (hb : w.OthersBare n) : v.OthersBare n := by
  obtain ⟨acts,hadm,hall⟩ := hs.deals hr
  intro p hp hne
  rw [hadm] at hp
  refine hr.staffed.balanced.isBare_foldl (fun x hx => (hall x hx).1) (fun id => id.run.root ≠ n)
    (fun x hx hother => hother ?_) hb p hp hne
  exact hturn x.actor.run.root (hall x hx).2

theorem Alone.othersBare (h : Alone e n w v) (hr : Reaches e w) (hb : w.OthersBare n) :
    v.OthersBare n := by
  induction h with
  | refl => exact hb
  | step hl hs hturn ih => exact hs.othersBare (hl.reaches hr) hturn ih

namespace World

variable {r q : Run} {t : Task}

theorem Coherent.leaving_of_ended (hw : w.Coherent) (hr : r ∈ w.runs)
    (hended : r.result?.isSome = true) (ht : t ∈ w.tasks) (hid : r.id = t.id.run) :
    t.phase.isLeaving = true := by
  cases hl : t.phase.isLeaving with
  | true => rfl
  | false =>
    have hin := ((hw.at ht hr hid).going hl).1
    rw [(hw.run r hr).ended hended] at hin
    cases hin

/-- A started run that has ended contains no run any more. -/
theorem Coherent.eq_root_of_ended (hw : w.Coherent) (hr : r ∈ w.runs) (hroot : r.id.steps = [])
    (hended : r.result?.isSome = true) (hq : q ∈ w.runs) (hn : q.id.root = r.id.root) : q = r := by
  induction hlen : q.id.steps.length using Nat.strong_induction_on generalizing q with
  | _ len ih =>
    by_cases hsteps : q.id.steps = []
    · exact hw.run_unique hq hr (by rw [RunId.mk.injEq]; exact ⟨hn,hsteps.trans hroot.symm⟩)
    · obtain ⟨t,ht,home,hhome,hat,hmem,⟨k,hk⟩,hlt⟩ := hw.around hq hsteps
      have hhome' : home.id.root = r.id.root := by
        rw [hat.id,← hn,hk]
        rfl
      obtain rfl := ih _ (hlen ▸ hlt) hhome hhome' rfl
      have hl := hw.leaving_of_ended hr hended ht hat.id
      rw [Phase.eq_leaving hl] at hmem
      cases hmem

/-- All tasks that are left of a run that has ended are its own, and leave. -/
theorem Coherent.tasks_of_ended (hw : w.Coherent) (hr : r ∈ w.runs) (hroot : r.id.steps = [])
    (hended : r.result?.isSome = true) (ht : t ∈ w.tasks) (hn : t.id.run.root = r.id.root) :
    t.id.run = r.id ∧ t.phase.isLeaving = true := by
  obtain ⟨home,hhome,hat⟩ := hw.home t ht
  obtain rfl := hw.eq_root_of_ended hr hroot hended hhome (hat.id ▸ hn)
  exact ⟨hat.id.symm,hw.leaving_of_ended hr hended ht hat.id⟩

/-- Who leaves can do so at once. -/
theorem stepTask_leaving {σ : Setting} (hl : t.phase.isLeaving = true) :
    ∃ w', w.stepTask σ t = some w' ∧ w'.tasksOf n = (w.tasksOf n).filter (·.id != t.id) := by
  refine ⟨_,by rw [stepTask,Phase.eq_leaving hl],?_⟩
  rw [tasksOf,tasksOf,(setAdmission_alike w _).tasks,List.filter_comm]

end World

theorem Reaches.idle_of_gone (hr : Reaches e v) (hb : v.OthersBare n) (hnone : v.tasksOf n = []) :
    v.admission.IsIdle ∧ v.admission.free = e.config.maxConcurrent := by
  have hs := hr.staffed
  have hidle : v.admission.IsIdle := by
    refine hs.balanced.isIdle fun p hp => hb p hp fun hn => ?_
    obtain ⟨t,ht,hsuits⟩ := hs.seated p hp
    have hmem : t ∈ v.tasksOf n := World.mem_tasksOf.mpr ⟨ht,by rw [hsuits.id,hn]⟩
    rw [hnone] at hmem
    cases hmem
  exact ⟨hidle,hidle.slots.trans (congrArg Prod.snd hs.later.premises_eq)⟩

/-- A definition is started on an engine where nothing is held or queued, and its run goes on in any way
while other runs make no move. Once it has ended, all that is left of it are tasks of its own nodes that
leave, each of which can go at once; and when they are gone nothing is in use of any tag, nobody is
queued and all slots are free. -/
theorem ended_run_returns_all {d : Definition} {given : Fields} {cancelAt : Option Duration}
    {started : World} (hr : Reaches e w) (hidle : w.admission.IsIdle) (hk : d.isKeyed = true)
    (hfree : ∀ r ∈ w.runs, r.id.root ≠ n) (hs : e.start w d given n cancelAt = .ok started)
    (hv : Alone e n started v) {r : Run} (hrun : r ∈ v.runs) (hid : r.id = ⟨n,[]⟩)
    (hended : r.result?.isSome = true) :
    (∀ t ∈ v.tasksOf n, t.id.run = r.id ∧ t.phase.isLeaving = true ∧
      ∃ v', v.stepTask e.setting t = some v' ∧ v'.tasksOf n = (v.tasksOf n).filter (·.id != t.id)) ∧
    (v.tasksOf n = [] → (∀ tag, v.admission.used tag = 0) ∧ v.admission.queued = 0 ∧
      v.admission.slotQueue = [] ∧ v.admission.free = e.config.maxConcurrent) := by
  have hreach : Reaches e started := hr.step (.start hk hfree hs)
  have hlast := hv.reaches hreach
  have hbare : started.OthersBare n := by
    obtain ⟨-,-,-,-,-,-,-,hadm⟩ := start_spec hs
    intro p hp _
    rw [hadm] at hp
    exact hidle.isBare hr.staffed.balanced hr.orderly hp
  refine ⟨fun t ht => ?_,fun hnone => ?_⟩
  · obtain ⟨ht,hn⟩ := World.mem_tasksOf.mp ht
    obtain ⟨htr,hl⟩ := hlast.coherent.tasks_of_ended hrun (by rw [hid]) hended ht (by rw [hn,hid])
    exact ⟨htr,hl,World.stepTask_leaving hl⟩
  · obtain ⟨hi,hslots⟩ := hlast.idle_of_gone (hv.othersBare hreach hbare) hnone
    exact ⟨hi.tags,by rw [queued,hi.queue,List.length_nil],hi.line,hslots⟩

namespace Overtime

/-- An action that takes a while. -/
abbrev dwell : Action where
  name := "dwell"
  logged := false
  check _ := .ok ()
  start _ := ⟨100,true,.done .null⟩

abbrev engine : Engine := { config := {}, pools := {}, setting := { actions := [dwell] } }

/-- An attempt that may take half as long as what it contains. -/
abbrev definition : Definition where
  name := "overtime"
  nodes := [("visit",{
    kind := .sequence (.steps [("stay",{ kind := .action "dwell" .null, resources := ["bed"] })])
    resources := ["key"]
    timeout := some (.ofMillis 50) })]

abbrev visit : TaskId := ⟨⟨0,[]⟩,"visit"⟩

/-- Both nodes are admitted, and the action is at work. -/
abbrev moves : List Move :=
  [.pass ⟨0,[]⟩,.step visit,.pass (visit.child 0),.step ⟨visit.child 0,"stay"⟩]

/-- The attempt is dropped, its node leaves, and the run hears of it. -/
abbrev further : List Move :=
  [.tick 50,.step visit,.step visit,.take ⟨0,[]⟩,.pass ⟨0,[]⟩,.take ⟨0,[]⟩,.pass ⟨0,[]⟩]

def started : World :=
  match engine.start engine.world definition [] 0 none with
  | .ok w => w
  | .error _ => engine.world

theorem start_eq : engine.start engine.world definition [] 0 none = .ok started := rfl

theorem busy_isSome : (started.moves? engine.setting moves).isSome = true := by decide +kernel

def busy : World := (started.moves? engine.setting moves).get busy_isSome

theorem ended_isSome : (busy.moves? engine.setting further).isSome = true := by decide +kernel

def ended : World := (busy.moves? engine.setting further).get ended_isSome

theorem alone : Alone engine 0 started ended := by
  have hbusy : Alone engine 0 started busy :=
    Alone.refl.moves (Option.some_get busy_isSome).symm (by decide)
  exact hbusy.moves (Option.some_get ended_isSome).symm (by decide)

end Overtime

/-- When the attempt is dropped both nodes hold a tag and one a slot; in the end nothing is held. -/
theorem ended_run_returns_all_overtime :
    Overtime.busy.admission.used "key" = 1 ∧ Overtime.busy.admission.used "bed" = 1 ∧
    Overtime.busy.admission.free = 3 ∧ (∀ tag, Overtime.ended.admission.used tag = 0) ∧
    Overtime.ended.admission.queued = 0 ∧ Overtime.ended.admission.free = 4 := by
  have hidle : Overtime.engine.world.admission.IsIdle :=
    ⟨fun _ => rfl,rfl,rfl,rfl⟩
  have hended : ∃ r ∈ Overtime.ended.runs, r.id = ⟨0,[]⟩ ∧ r.result?.isSome = true := by
    decide +kernel
  have hgone : Overtime.ended.tasksOf 0 = [] := by
    have hnone : (Overtime.ended.tasksOf 0).length = 0 := by decide +kernel
    exact List.length_eq_zero_iff.mp hnone
  obtain ⟨r,hr,hid,hresult⟩ := hended
  obtain ⟨-,hfree⟩ := ended_run_returns_all .world hidle rfl (fun r hr => absurd hr List.not_mem_nil)
    Overtime.start_eq Overtime.alone hr hid hresult
  obtain ⟨htags,hqueued,-,hslots⟩ := hfree hgone
  exact ⟨by decide +kernel,by decide +kernel,by decide +kernel,htags,hqueued,hslots⟩

end TaskGraph.Engine
