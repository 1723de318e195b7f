import TaskGraph.Proofs.Admission.Lasting
import TaskGraph.Proofs.Engine.Dealing

/-!
Who is at work has been admitted. So of the nodes that carry a tag no more are at work than its pool has
room for, and of the actions no more than there are slots.
-/

namespace TaskGraph

open Admission

namespace Engine

theorem Phase.cases (p : Phase) : p.isAsking = true ∨ p.isAtWork = true ∨ p.isLeaving = true ∨
    p.isCollapsed = true := by
  cases p with
  | asking => exact .inl rfl
  | leaving => exact .inr (.inr (.inl rfl))
  | collapsed => exact .inr (.inr (.inr rfl))
  | _ => exact .inr (.inl rfl)

/-- Nobody begins to work but by being admitted. -/
theorem Phase.isAtWork_of_allows {p q : Phase} (ha : p.Allows q) (hl : p.isLeaving = false)
    (hq : q.isAtWork = true) : p.isAtWork = true := by
  cases p with
  | asking | handling =>
    have hleaves : q.isLeaving = true := ha
    cases q with
    | leaving => cases hq
    | _ => cases hleaves
  | collapsed => exact ha.elim
  | leaving => cases hl
  | _ => rfl

theorem Phase.isLeaving_of_allows {p q : Phase} (h : p.isHandling = true) (ha : p.Allows q) :
    q.isLeaving = true := by
  cases p with
  | handling => exact ha
  | _ => cases h

theorem Phase.not_allows {p : Phase} (h : p.isCollapsed = true) (q : Phase) : ¬ p.Allows q := by
  cases p with
  | collapsed => exact id
  | _ => cases h

namespace World

/-- A task has given its slot back, for its handler or because it is done. -/
def IsLent (w : World) (id : TaskId) : Prop :=
  ∃ t ∈ w.tasks, t.id = id ∧ (t.phase.isHandling = true ∨ t.phase.isLeaving = true)

/-- Whoever is at work has been admitted, and has its slot unless it lent it. -/
structure Manned (w : World) : Prop where
  granted : ∀ t ∈ w.tasks, t.phase.isAtWork = true → w.admission.isGranted t.id = true
  orderly : w.admission.Orderly w.IsLent
  acting : ∀ t ∈ w.tasks, t.phase.isActing = true → t.node.kind.isAction = true

variable {w v w' : World} {t : Task} {d : Deed}

theorem Manned.of_more (h : w.Manned) {fresh : List Task} (htasks : v.tasks = w.tasks ++ fresh)
    (hfresh : ∀ t ∈ fresh, t.phase = .asking) (hadm : v.admission = w.admission) : v.Manned where
  granted t ht hw := by
    rw [htasks] at ht
    rw [hadm]
    rcases List.mem_append.mp ht with ht | ht
    · exact h.granted t ht hw
    · rw [hfresh t ht] at hw
      cases hw
  orderly := by
    rw [hadm]
    refine fun p hp => (h.orderly p hp).mono (fun hin => hin) ?_
    rintro ⟨t,ht,hl⟩
    exact ⟨t,htasks ▸ List.mem_append_left fresh ht,hl⟩
  acting t ht ha := by
    rw [htasks] at ht
    rcases List.mem_append.mp ht with ht | ht
    · exact h.acting t ht ha
    · rw [hfresh t ht] at ha
      cases ha

theorem Manned.of_frame (h : w.Manned) (htasks : v.tasks = w.tasks)
    (hadm : v.admission = w.admission) : v.Manned :=
  h.of_more (htasks.trans (List.append_nil _).symm) (fun _ ht => absurd ht List.not_mem_nil) hadm

/-- A task that asks concerns nobody at work. -/
theorem Manned.seek (h : w.Manned) (hw : w.Coherent) (hb : w.admission.Balanced) (ht : t ∈ w.tasks)
    (hnodup : t.node.tags.Nodup) (hp : t.phase = .asking) (htasks : v.tasks = w.tasks)
    (hadm : v.admission = (w.admission.ask t.id t.request).look t.id) : v.Manned where
  granted u hu hwork := by
    rw [htasks] at hu
    have hne : u.id ≠ t.id := by
      intro he
      rw [hw.task_unique hu ht he,hp] at hwork
      cases hwork
    rw [hadm]
    have hasked : (w.admission.ask t.id t.request).isGranted u.id = true :=
      hb.isGranted_act (x := .ask t.id t.request) (h.granted u hu hwork) hne hnodup
    exact (hb.ask t.id hnodup).isGranted_act (x := .look t.id) hasked hne trivial
  orderly := by
    rw [hadm]
    have hasked := h.orderly.ask t.id t.request
    refine fun p hp => ((hb.ask t.id hnodup).orderly_look hasked t.id p hp).mono (fun hin => hin) ?_
    rintro ⟨u,hu,hl⟩
    exact ⟨u,htasks ▸ hu,hl⟩
  acting u hu ha := h.acting u (htasks ▸ hu) ha

/-- What a task drops leaves; the others are as they were. -/
theorem discard_manned (h : w.Manned) (hb : w.admission.Balanced) (ids : List RunId) :
    (w.discard ids).admission.Orderly w.IsLent ∧ ∀ id : TaskId, id.run.isWithinAny ids = false →
      w.admission.isGranted id = true → (w.discard ids).admission.isGranted id = true := by
  obtain ⟨acts,hacts,hall⟩ := discard_deals (w := w) ids
  constructor
  · rw [discard_admission]
    have hleft := hb.orderly_leaves h.orderly
      ((w.tasks.filter fun t => t.id.run.isWithinAny ids).map Task.id)
    rwa [List.foldl_map] at hleft
  · intro id hstays hg
    rw [hacts]
    refine hb.isGranted_foldl (fun x hx => (hall x hx).1) (fun x hx he => ?_) hg
    have hgone := (hall x hx).2
    rw [← he,hstays] at hgone
    cases hgone

namespace Manned

variable (h : w.Manned) (hw : w.Coherent) (hb : w.admission.Balanced) (ht : t ∈ w.tasks)
  (hl : t.phase.isLeaving = false) (ha : (w.discard t.phase.runs).Acts w' t d) (hf : d.Fits t)

include h hw hb ht ha hf

theorem granted_acts
    (hself : ∀ p ∈ d.next, p.isAtWork = true → w.admission.isGranted t.id = true) {u : Task}
    (hu : u ∈ w'.tasks) (hwork : u.phase.isAtWork = true) : w'.admission.isGranted u.id = true := by
  obtain ⟨-,hstay⟩ := discard_manned h hb t.phase.runs
  obtain ⟨hbalanced,-⟩ := was_discard hb t.phase.runs
  rw [ha.admission]
  obtain ⟨hu,hs,hne⟩ | hu := (ha.mem_tasks hw ht).mp hu
  · have hg := hstay u.id hs (h.granted u hu hwork)
    refine hbalanced.isGranted_foldl hf.proper (fun x hx he => hne ?_) hg
    obtain rfl | rfl := hf.mem_acts hx <;> exact he
  · obtain ⟨p,hp,rfl⟩ := Option.map_eq_some_iff.mp hu
    have hg := hstay t.id (hw.stays_self ht) (hself p hp hwork)
    obtain hacts | ⟨hacts,-⟩ := hf.retains p hp hwork
    · rw [hacts]
      exact hg
    · rw [hacts]
      exact hbalanced.isGranted_releaseSlot hg

include hl

theorem orderly_acts (hseated : w'.Seated)
    (hallows : t.phase.isHandling = true → ∀ p ∈ d.next, p.isLeaving = true) :
    w'.admission.Orderly w'.IsLent := by
  obtain ⟨horderly,-⟩ := discard_manned h hb t.phase.runs
  obtain ⟨hbalanced,-⟩ := was_discard hb t.phase.runs
  have hafter := hbalanced.orderly_foldl horderly hf.proper
  intro p hp
  obtain ⟨u,hu,hsuits⟩ := hseated p hp
  refine ((ha.admission ▸ hafter) p (ha.admission ▸ hp)).mono (fun hin => ha.admission ▸ hin) ?_
  intro hlent
  refine ⟨u,hu,hsuits.id,?_⟩
  obtain ⟨hu,-,hne⟩ | hu := (ha.mem_tasks hw ht).mp hu
  · obtain ⟨o,ho,hid,hphase⟩ | hreleased := hlent
    · rwa [← hw.task_unique ho hu (hid.trans hsuits.id.symm)]
    · obtain he | he := hf.mem_acts hreleased
      · exact absurd (hsuits.id.trans (Act.releaseSlot.inj he)) hne
      · cases he
  · obtain ⟨q,hq,rfl⟩ := Option.map_eq_some_iff.mp hu
    obtain ⟨o,ho,hid,hphase⟩ | hreleased := hlent
    · rw [hw.task_unique ho ht (hid.trans hsuits.id.symm),hl] at hphase
      exact .inr (hallows (by simpa using hphase) q hq)
    · -- Only who goes on to its handler, or to leave, gives its slot back.
      obtain hasks | hwork | hleaves | hcollapsed := q.cases
      · rw [hf.asked q hq] at hasks
        cases hasks
      · obtain hacts | ⟨-,hhandles⟩ := hf.retains q hq hwork
        · rw [hacts] at hreleased
          cases hreleased
        · exact .inl hhandles
      · exact .inr hleaves
      · rw [hf.parted q hq hcollapsed] at hreleased
        simp at hreleased

theorem acts (hseated : w'.Seated)
    (hself : ∀ p ∈ d.next, p.isAtWork = true → w.admission.isGranted t.id = true)
    (hallows : t.phase.isHandling = true → ∀ p ∈ d.next, p.isLeaving = true) : w'.Manned where
  granted u hu hwork := h.granted_acts hw hb ht ha hf hself hu hwork
  orderly := h.orderly_acts hw hb ht hl ha hf hseated hallows
  acting u hu hacts := by
    obtain ⟨hu,-⟩ | hu := (ha.mem_tasks hw ht).mp hu
    · exact h.acting u hu hacts
    · obtain ⟨p,hp,rfl⟩ := Option.map_eq_some_iff.mp hu
      exact hf.acting p hp hacts

end Manned

theorem Manned.leaves (h : w.Manned) (hb : w.admission.Balanced)
    (htasks : w'.tasks = w.tasks.filter fun other => other.id != t.id)
    (hadm : w'.admission = w.admission.leave t.id) : w'.Manned where
  granted u hu hwork := by
    rw [htasks,List.mem_filter,bne_iff_ne] at hu
    rw [hadm]
    exact hb.isGranted_act (x := .leave t.id) (h.granted u hu.1 hwork) hu.2 trivial
  orderly := by
    intro p hp
    rw [hadm] at hp ⊢
    refine (hb.orderly_leave h.orderly t.id p hp).mono (fun hin => hin) ?_
    rintro ⟨u,hu,hid,hl⟩
    refine ⟨u,?_,hid,hl⟩
    rw [htasks,List.mem_filter,bne_iff_ne,hid]
    exact ⟨hu,(hb.mem_leave t.id hp).1⟩
  acting u hu hacts := by
    rw [htasks] at hu
    exact h.acting u (List.mem_of_mem_filter hu) hacts

variable {e : Engine}

theorem Manned.turn {cap : Nat} (h : w.Manned) (hw : w.Coherent) (hl : w.Layered cap)
    (hs : w.Staffed e) (ht : t ∈ w.tasks) (hd : Turn w w' t) : w'.Manned := by
  have hnodup := hl.tags_nodup hw ht
  have hs' := hs.turn hw hl ht hd
  cases hd with
  | idle _ ha hp hadm => exact h.seek hw hs.balanced ht hnodup hp ha.tasks hadm
  | @begins v time _ hp ha hd hadm hgranted =>
    obtain ⟨hstart,htasks,d,hact,hf⟩ := hw.begun ht hp ha hd
    have hseek := h.seek hw hs.balanced ht hnodup hp htasks hadm
    have hbalanced := (hs.seek ht hnodup hp htasks hadm).balanced
    have hasks : t.phase.isHandling = false := by rw [hp]; rfl
    refine hseek.acts hstart hbalanced (htasks ▸ ht) (by rw [hp]; rfl) hact hf hs'.seated
      (fun _ _ _ => hgranted) fun hhandles => ?_
    rw [hasks] at hhandles
    cases hhandles
  | acts hleaving hd _ hallows =>
    obtain ⟨d,ha,hf,-⟩ := hd
    have hnext (p : Phase) (hp : p ∈ d.next) : t.phase.Allows p :=
      hallows _ ((ha.mem_tasks hw ht).mpr (.inr (Deed.follower?_eq hp))) rfl
    refine h.acts hw hs.balanced ht hleaving ha hf hs'.seated (fun p hp hwork => ?_)
      fun hhandles p hp => ?_
    · exact h.granted t ht (Phase.isAtWork_of_allows (hnext p hp) hleaving hwork)
    · exact Phase.isLeaving_of_allows hhandles (hnext p hp)
  | leaves _ ha hadm => exact h.leaves hs.balanced ha.tasks hadm

end World

variable {e : Engine} {w w' : World}

theorem Reaches.manned (hr : Reaches e w) : w.Manned := by
  induction hr with
  | world =>
    constructor
    all_goals
      intro x hx
      cases hx
  | @step w w' turn hr hs ih =>
    cases hs with
    | start hk hfree hstart =>
      obtain ⟨graph,run,-,-,-,ha,-,hadm⟩ := start_spec hstart
      exact ih.of_frame ha.tasks hadm
    | move hm =>
      obtain ⟨r,hrun,-,hturn⟩ | ⟨t,ht,-,hstep⟩ | ⟨-,⟨n,rfl⟩ | ⟨millis,rfl⟩⟩ :=
        World.move_cases hm
      · obtain ⟨r',fresh,-,-,htasks,hfresh,-,hadm,-⟩ := hturn.spec
        exact ih.of_more htasks (fun t ht => (hfresh t ht).2.2) hadm
      · have hs := hr.coherent.task t ht
        exact ih.turn hr.coherent hr.layered hr.staffed ht
          (World.stepTask_turn hs.node hs.phase hstep)
      · obtain ⟨cancelled,ha,-⟩ := w.cancel_alike n
        exact ih.of_frame ha.tasks (w.cancel_admission n)
      · exact ih.of_frame rfl rfl
    | agenda ready plans => exact ih.of_frame rfl rfl

end Engine

end TaskGraph
