import TaskGraph.Proofs.Admission.Standing
import TaskGraph.Proofs.Engine.Enclosed

/-!
Who holds what in an engine. The parties of its admission are tasks: they ask for what their nodes need,
have it as long as they are at work, and hold no slot while nested runs go on.
-/

namespace TaskGraph

namespace Admission

variable {κ : Type} [DecidableEq κ] {a : Admission κ} {p : Party κ}

theorem Ledger.leaves (h : a.Balanced) (ids : List κ) : (ids.foldl Admission.leave a).Balanced := by
  induction ids generalizing a with
  | nil => exact h
  | cons id rest ih => exact ih (h.leave id)

/-- Who is there after others have left was there before, and is none of them. -/
theorem Ledger.was_leaves (h : a.Balanced) {ids : List κ}
    (hp : p ∈ (ids.foldl Admission.leave a).parties) : a.Was p ∧ p.id ∉ ids := by
  induction ids generalizing a with
  | nil => exact ⟨was_self hp,List.not_mem_nil⟩
  | cons id rest ih =>
    obtain ⟨hwas,hrest⟩ := ih (h.leave id) hp
    refine ⟨hwas.trans fun q hq _ => h.was_leave hq,?_⟩
    rw [List.mem_cons,not_or]
    obtain ⟨q,hq,hqid,-⟩ := hwas
    exact ⟨hqid ▸ (h.mem_leave id hq).1,hrest⟩

end Admission

namespace Engine

/-- How a task stands in the admission. -/
structure Task.Suits (t : Task) (p : Admission.Party TaskId) : Prop where
  id : t.id = p.id
  request : p.request = t.request
  granted : t.phase.isAsking = false → p.isGranted = true
  sound : t.phase.isCollapsed = false
  /-- While nested runs go on no slot is held. -/
  slot : t.phase.runs ≠ [] → p.holdsSlot = false

theorem Phase.isAsking_of_runs {p : Phase} (h : p.runs ≠ []) : p.isAsking = false := by
  cases p with
  | asking => exact absurd rfl h
  | _ => rfl

theorem Phase.eq_asking {p : Phase} (h : p.isAsking = true) : p = .asking := by
  cases p with
  | asking => rfl
  | _ => cases h

theorem Phase.eq_leaving {p : Phase} (h : p.isLeaving = true) : p = .leaving := by
  cases p with
  | leaving => rfl
  | _ => cases h

/-- What others do does not change how a task stands. -/
theorem Task.Suits.of_was {t : Task} {q p : Admission.Party TaskId} (h : t.Suits q)
    (hid : q.id = p.id) (hrequest : q.request = p.request) (hsame : q.isGranted = true → p = q) :
    t.Suits p where
  id := h.id.trans hid
  request := hrequest ▸ h.request
  granted ha := by
    have hg := h.granted ha
    rw [hsame hg]
    exact hg
  sound := h.sound
  slot hr := by
    rw [hsame (h.granted (Phase.isAsking_of_runs hr))]
    exact h.slot hr

namespace Deed

variable {d : Deed} {t : Task}

/-- Who gives back what it holds is gone, or keeps its tags. -/
theorem Fits.keeps {a : Admission TaskId} (hf : d.Fits t) (hb : a.Balanced)
    {p : Admission.Party TaskId} (hp : p ∈ (d.acts.foldl Admission.act a).parties) :
    (p.id ≠ t.id → a.Was p) ∧ (p.id = t.id → d.acts ≠ [.leave t.id] ∧
      (d.acts = [.releaseSlot t.id] → p.holdsSlot = false) ∧
      ∃ q ∈ a.parties, q.id = p.id ∧ q.request = p.request ∧
        (q.isGranted = true → p.isGranted = true)) := by
  obtain hacts | hacts | hacts := hf.acts
  · rw [hacts] at hp ⊢
    exact ⟨fun _ => Admission.was_self hp,fun _ => ⟨nofun,nofun,p,hp,rfl,rfl,fun hg => hg⟩⟩
  · rw [hacts] at hp ⊢
    obtain ⟨hother,hself⟩ := hb.was_releaseSlot hp
    refine ⟨hother,fun hid => ⟨nofun,fun _ => ?_,?_⟩⟩
    · exact (hself hid).1
    · exact (hself hid).2
  · rw [hacts] at hp
    exact ⟨fun _ => hb.was_leave hp,fun hid => absurd hid (hb.mem_leave t.id hp).1⟩

theorem Fits.mem_acts (hf : d.Fits t) {x : Admission.Act TaskId} (hx : x ∈ d.acts) :
    x = .releaseSlot t.id ∨ x = .leave t.id := by
  obtain hacts | hacts | hacts := hf.acts <;> rw [hacts] at hx
  · cases hx
  · exact .inl (List.mem_singleton.mp hx)
  · exact .inr (List.mem_singleton.mp hx)

theorem Fits.proper (hf : d.Fits t) : ∀ x ∈ d.acts, x.IsProper := by
  intro x hx
  obtain rfl | rfl := hf.mem_acts hx <;> trivial

end Deed

namespace World

/-- Every party of the admission is a task. -/
def Seated (w : World) : Prop := ∀ p ∈ w.admission.parties, ∃ t ∈ w.tasks, t.Suits p

variable {w v w' : World} {t : Task} {d : Deed}

theorem Seated.suits (h : w.Seated) (hw : w.Coherent) (ht : t ∈ w.tasks) {p : Admission.Party TaskId}
    (hp : p ∈ w.admission.parties) (hid : p.id = t.id) : t.Suits p := by
  obtain ⟨u,hu,hsuits⟩ := h p hp
  rwa [hw.task_unique ht hu (hid.symm.trans hsuits.id.symm)]

theorem Seated.of_frame (h : w.Seated) (htasks : w.tasks ⊆ v.tasks)
    (hadm : v.admission = w.admission) : v.Seated := by
  intro p hp
  obtain ⟨t,ht,hsuits⟩ := h p (hadm ▸ hp)
  exact ⟨t,htasks ht,hsuits⟩

/-- A task that waits to be admitted asks and looks. -/
theorem Seated.seek (h : w.Seated) (hb : w.admission.Balanced) (ht : t ∈ w.tasks)
    (hnodup : t.node.tags.Nodup) (hp : t.phase = .asking) (htasks : v.tasks = w.tasks)
    (hadm : v.admission = (w.admission.ask t.id t.request).look t.id) : v.Seated := by
  intro p hmem
  rw [hadm] at hmem
  rw [htasks]
  obtain ⟨q,hq,hid,hrequest,hsame⟩ := (hb.ask t.id hnodup).was_look hmem
  obtain ⟨r,hr,hrid,hrrequest,hrsame⟩ | ⟨hqid,hqrequest⟩ := Admission.was_ask hq
  · obtain ⟨u,hu,hsuits⟩ := h r hr
    exact ⟨u,hu,(hsuits.of_was hrid hrrequest hrsame).of_was hid hrequest hsame⟩
  · refine ⟨t,ht,(hid.symm.trans hqid).symm,hrequest.symm.trans hqrequest,fun hno => ?_,?_,?_⟩
    · rw [hp] at hno
      cases hno
    · rw [hp]
      rfl
    · intro hr
      rw [hp] at hr
      exact absurd rfl hr

/-- Who is there after a task has dropped what it waits for lies in none of that. -/
theorem was_discard (hb : w.admission.Balanced) (ids : List RunId) :
    (w.discard ids).admission.Balanced ∧ ∀ p ∈ (w.discard ids).admission.parties,
      w.admission.Was p ∧ ∀ u ∈ w.tasks, u.id = p.id → u.id.run.isWithinAny ids = false := by
  have hgone : (w.discard ids).admission =
      ((w.tasks.filter fun u => u.id.run.isWithinAny ids).map Task.id).foldl Admission.leave
        w.admission := by
    rw [discard_admission,List.foldl_map]
  rw [hgone]
  refine ⟨hb.leaves _,fun p hp => ?_⟩
  obtain ⟨hwas,hnot⟩ := hb.was_leaves hp
  refine ⟨hwas,fun u hu hid => ?_⟩
  by_contra hin
  refine hnot (List.mem_map.mpr ⟨u,List.mem_filter.mpr ⟨hu,?_⟩,hid⟩)
  simpa using hin

/-- Whoever drops what it waits for and does something keeps what it holds, or gives its slot back, or
leaves; what it drops leaves. -/
theorem Seated.acts (h : w.Seated) (hw : w.Coherent) (hb : w.admission.Balanced)
    (hb' : w'.admission.Balanced) (ht : t ∈ w.tasks)
    (ha : (w.discard t.phase.runs).Acts w' t d) (hf : d.Fits t)
    (hown : ∀ p ∈ w'.admission.parties, p.id = t.id →
      ∀ q ∈ w.admission.parties, q.id = t.id → q.isGranted = true) : w'.Seated := by
  intro p hp
  obtain ⟨hbalanced,hleft⟩ := was_discard hb t.phase.runs
  have hmoved := hf.keeps hbalanced (ha.admission ▸ hp)
  by_cases hid : p.id = t.id
  · obtain ⟨hnot,hslot,q,hq,hqid,hrequest,hgranted⟩ := hmoved.2 hid
    obtain ⟨⟨r,hr,hrid,hrrequest,hrsame⟩,-⟩ := hleft q hq
    have hrt : r.id = t.id := hrid.trans (hqid.trans hid)
    have hsuits := h.suits hw ht hr hrt
    have hg := hown p hp hid r hr hrt
    cases hn : d.next with
    | none =>
      have := hf.gone hn
      rw [hsuits.sound] at this
      cases this
    | some phase =>
      have hfol := Deed.follower?_eq (t := t) hn
      refine ⟨_,(ha.mem_tasks hw ht).mpr (.inr hfol),hid.symm,?_,fun _ => ?_,?_,fun hne => ?_⟩
      · rw [← hrequest,← hrrequest,hsuits.request]
        rfl
      · exact hgranted ((hrsame hg) ▸ hg)
      · rw [Bool.eq_false_iff]
        exact fun hc => hnot (hf.parted phase hn hc)
      · obtain haction | hacts := hf.slot phase hn hne
        · rw [Bool.eq_false_iff]
          intro hs
          have := (hb'.sensible p hp).slot hs
          rw [← hrequest,← hrrequest,hsuits.request,Task.request,haction] at this
          cases this
        · exact hslot hacts
  · obtain ⟨q,hq,hqid,hqrequest,hqsame⟩ := hmoved.1 hid
    obtain ⟨⟨r,hr,hrid,hrrequest,hrsame⟩,hstays⟩ := hleft q hq
    obtain ⟨u,hu,hsuits⟩ := h r hr
    have huq : u.id = q.id := hsuits.id.trans hrid
    have hne : u.id ≠ t.id := fun he => hid (hqid.symm.trans (huq.symm.trans he))
    refine ⟨u,(ha.mem_tasks hw ht).mpr (.inl ⟨hu,hstays u hu huq,hne⟩),?_⟩
    exact (hsuits.of_was hrid hrrequest hrsame).of_was hqid hqrequest hqsame

/-- What an engine has admitted. -/
structure Staffed (e : Engine) (w : World) : Prop where
  later : Admission.Later (.start e.pools e.config.maxConcurrent) w.admission
  seated : w.Seated

variable {e : Engine}

theorem Staffed.balanced (h : w.Staffed e) : w.admission.Balanced :=
  h.later.balanced (Admission.start_balanced e.pools e.config.maxConcurrent)

theorem Staffed.of_frame (h : w.Staffed e) (htasks : w.tasks ⊆ v.tasks)
    (hadm : v.admission = w.admission) : v.Staffed e :=
  ⟨hadm ▸ h.later,h.seated.of_frame htasks hadm⟩

theorem Staffed.seek (h : w.Staffed e) (ht : t ∈ w.tasks) (hnodup : t.node.tags.Nodup)
    (hp : t.phase = .asking) (htasks : v.tasks = w.tasks)
    (hadm : v.admission = (w.admission.ask t.id t.request).look t.id) : v.Staffed e where
  later := by
    rw [hadm]
    exact (h.later.act (.ask t.id t.request) hnodup).act (.look t.id) trivial
  seated := h.seated.seek h.balanced ht hnodup hp htasks hadm

theorem Staffed.acts (h : w.Staffed e) (hw : w.Coherent) (ht : t ∈ w.tasks)
    (ha : (w.discard t.phase.runs).Acts w' t d) (hf : d.Fits t)
    (hown : ∀ p ∈ w'.admission.parties, p.id = t.id →
      ∀ q ∈ w.admission.parties, q.id = t.id → q.isGranted = true) : w'.Staffed e := by
  have hlater : Admission.Later (.start e.pools e.config.maxConcurrent) w'.admission := by
    rw [ha.admission,discard_admission]
    refine Admission.Later.foldl ?_ hf.proper
    let leaving : List (Admission.Act TaskId) :=
      (w.tasks.filter fun u => u.id.run.isWithinAny t.phase.runs).map fun u => .leave u.id
    have hproper : ∀ x ∈ leaving, x.IsProper := by
      intro x hx
      obtain ⟨u,-,rfl⟩ := List.mem_map.mp hx
      trivial
    have hgone := h.later.foldl hproper
    rwa [List.foldl_map] at hgone
  have hb' := hlater.balanced (Admission.start_balanced e.pools e.config.maxConcurrent)
  exact ⟨hlater,h.seated.acts hw h.balanced hb' ht ha hf hown⟩

theorem Staffed.leaves (h : w.Staffed e)
    (htasks : w'.tasks = w.tasks.filter fun other => other.id != t.id)
    (hadm : w'.admission = w.admission.leave t.id) : w'.Staffed e where
  later := by
    rw [hadm]
    exact h.later.act (.leave t.id) trivial
  seated := by
    intro p hp
    rw [hadm] at hp
    obtain ⟨hne,-⟩ := h.balanced.mem_leave t.id hp
    obtain ⟨q,hq,hid,hrequest,hsame⟩ := h.balanced.was_leave hp
    obtain ⟨u,hu,hsuits⟩ := h.seated q hq
    refine ⟨u,?_,hsuits.of_was hid hrequest hsame⟩
    rw [htasks]
    refine List.mem_filter.mpr ⟨hu,?_⟩
    rw [hsuits.id,hid]
    simpa using hne

theorem Staffed.turn {cap : Nat} (h : w.Staffed e) (hw : w.Coherent) (hl : w.Layered cap)
    (ht : t ∈ w.tasks) (hd : Turn w w' t) : w'.Staffed e := by
  have hnodup := hl.tags_nodup hw ht
  cases hd with
  | idle _ ha hp hadm => exact h.seek ht hnodup hp ha.tasks hadm
  | begins time _ hp ha hd hadm hgranted =>
    obtain ⟨hstart,htasks,d,hact,hf⟩ := hw.begun ht hp ha hd
    have hseek := h.seek ht hnodup hp htasks hadm
    refine hseek.acts hstart (htasks ▸ ht) hact hf fun p _ _ q hq hid => ?_
    rw [Admission.isGranted,← hid,Admission.party?_of_mem hseek.balanced.ids hq] at hgranted
    exact hgranted
  | acts _ hd hadm =>
    obtain ⟨d,ha,hf,-⟩ := hd
    refine h.acts hw ht ha hf fun p hp hid q hq hqid => ?_
    cases hasks : t.phase.isAsking with
    | false => exact (h.seated.suits hw ht hq hqid).granted hasks
    | true =>
      rw [(hadm (Phase.eq_asking hasks)).2] at hp
      exact absurd hid (h.balanced.mem_leave t.id hp).1
  | leaves _ ha hadm => exact h.leaves ha.tasks hadm

end World

variable {e : Engine} {w : World}

/-- In every world of an engine its admission is one that parties came to, and they are its tasks. -/
theorem Reaches.staffed (hr : Reaches e w) : w.Staffed e := by
  induction hr with
  | world =>
    refine ⟨.refl,?_⟩
    intro p hp
    cases hp
  | @step w w' turn hr hs ih =>
    cases hs with
    | start hk hfree hstart =>
      obtain ⟨graph,run,hb,hn,hid,ha,hheld,hadm⟩ := start_spec hstart
      exact ih.of_frame (fun t ht => ha.tasks ▸ ht) hadm
    | move hm =>
      obtain ⟨r,hrun,-,hturn⟩ | ⟨t,ht,-,hstep⟩ | ⟨-,⟨n,rfl⟩ | ⟨millis,rfl⟩⟩ :=
        World.move_cases hm
      · obtain ⟨r',fresh,-,-,htasks,-,-,hadm,-⟩ := hturn.spec
        refine ih.of_frame (fun t ht => ?_) hadm
        rw [htasks]
        exact List.mem_append_left fresh ht
      · have hs := hr.coherent.task t ht
        exact ih.turn hr.coherent hr.layered ht (World.stepTask_turn hs.node hs.phase hstep)
      · obtain ⟨cancelled,ha,-⟩ := w.cancel_alike n
        exact ih.of_frame (fun t ht => ha.tasks ▸ ht) (w.cancel_admission n)
      · exact ih.of_frame (List.Subset.refl _) rfl
    | agenda ready plans => exact ih.of_frame (List.Subset.refl _) rfl

end Engine

end TaskGraph
