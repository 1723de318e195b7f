import TaskGraph.Proofs.Engine.Manning

/-!
How many there may be at a time: nodes that carry a tag, as the pool has room for, and actions at work,
as there are slots.
-/

namespace TaskGraph

/-- Of two lists the second has more of what is looked for if each of the first has one there. -/
theorem countP_le_of_keys {α β γ : Type} {f : α → Bool} {g : β → Bool} (key : α → γ) (key' : β → γ)
    {xs : List α} {ys : List β} (hnodup : (xs.map key).Nodup)
    (h : ∀ x ∈ xs, f x = true → ∃ y ∈ ys, key' y = key x ∧ g y = true) :
    xs.countP f ≤ ys.countP g := by
  have hkeys : ((xs.filter f).map key).Nodup :=
    hnodup.sublist (List.Sublist.map key List.filter_sublist)
  have hsub : (xs.filter f).map key ⊆ (ys.filter g).map key' := by
    intro k hk
    obtain ⟨x,hx,rfl⟩ := List.mem_map.mp hk
    obtain ⟨hx,hf⟩ := List.mem_filter.mp hx
    obtain ⟨y,hy,he,hg⟩ := h x hx hf
    exact he ▸ List.mem_map_of_mem (List.mem_filter.mpr ⟨hy,hg⟩)
  have hle := (hkeys.subperm hsub).length_le
  rwa [List.length_map,List.length_map,← List.countP_eq_length_filter,
    ← List.countP_eq_length_filter] at hle

namespace Engine

open Admission

namespace World

/-- Whether a task has been admitted and has neither reported nor broken down. -/
def isServing (w : World) (t : Task) : Bool :=
  t.phase.isAtWork || t.phase.isAsking && w.admission.isGranted t.id

variable {e : Engine} {w w' : World} {t : Task}

theorem Seated.granted_party (h : w.Seated) (hw : w.Coherent) (hb : w.admission.Balanced)
    (ht : t ∈ w.tasks) (hg : w.admission.isGranted t.id = true) : ∃ p ∈ w.admission.parties,
      p.id = t.id ∧ p.isGranted = true ∧ p.request = t.request := by
  obtain ⟨p,hp,hid,hgranted⟩ := hb.isGranted_iff.mp hg
  exact ⟨p,hp,hid,hgranted,(h.suits hw ht hp hid).request⟩

theorem Staffed.carrying_le (hs : w.Staffed e) (hw : w.Coherent) {f : Task → Bool} {tag : String}
    (hf : ∀ t ∈ w.tasks, f t = true → tag ∈ t.node.tags ∧ w.admission.isGranted t.id = true) :
    w.tasks.countP f ≤ e.pools.capacity tag := by
  have hb := hs.balanced
  have hle : w.tasks.countP f ≤ w.admission.parties.countP (·.holds tag) := by
    refine countP_le_of_keys Task.id Party.id hw.tasks_nodup fun t ht hft => ?_
    obtain ⟨htag,hg⟩ := hf t ht hft
    obtain ⟨p,hp,hid,hgranted,hrequest⟩ := hs.seated.granted_party hw hb ht hg
    refine ⟨p,hp,hid,?_⟩
    have hholds : p.holdsTags = true := by
      cases hst : p.stage <;> simp_all [Party.isGranted,Party.holdsTags]
    have hcarried : tag ∈ p.request.tags := by
      rw [hrequest]
      exact htag
    simp [Party.holds,hholds,hcarried]
  have hused := hb.used tag
  have hfits := hb.fits tag
  have hpools : w.admission.pools = e.pools := congrArg Prod.fst hs.later.premises_eq
  rw [Admission.capacity,hpools] at hfits
  simp only [List.count_nil] at hused
  omega

theorem Manned.working_le (h : w.Manned) (hs : w.Staffed e) (hw : w.Coherent) {f : Task → Bool}
    (hf : ∀ t ∈ w.tasks, f t = true → t.node.kind.isAction = true ∧
      w.admission.isGranted t.id = true ∧ ¬ w.IsLent t.id) :
    w.tasks.countP f ≤ e.config.maxConcurrent := by
  have hb := hs.balanced
  have hle : w.tasks.countP f ≤ w.admission.parties.countP Party.holdsSlot := by
    refine countP_le_of_keys Task.id Party.id hw.tasks_nodup fun t ht hft => ?_
    obtain ⟨haction,hg,hlent⟩ := hf t ht hft
    obtain ⟨p,hp,hid,hgranted,hrequest⟩ := hs.seated.granted_party hw hb ht hg
    refine ⟨p,hp,hid,?_⟩
    cases hst : p.stage with
    | tags | slot => simp [Party.isGranted,hst] at hgranted
    | granted slot =>
      rw [Party.holdsSlot_of_granted hst]
      obtain hslot | hl := (h.orderly p hp).served slot hst
      · rw [hslot,hrequest]
        exact haction
      · exact absurd (hid ▸ hl) hlent
  have hslots := hb.slots
  have hall : w.admission.slots = e.config.maxConcurrent := congrArg Prod.snd hs.later.premises_eq
  omega

theorem Coherent.not_isLent (hw : w.Coherent) (ht : t ∈ w.tasks)
    (hp : t.phase.isHandling = false ∧ t.phase.isLeaving = false) : ¬ w.IsLent t.id := by
  rintro ⟨u,hu,hid,hl⟩
  rw [hw.task_unique hu ht hid,hp.1,hp.2] at hl
  simp at hl

/-- What an action at work has. -/
theorem Manned.of_isActing (h : w.Manned) (hw : w.Coherent) (ht : t ∈ w.tasks)
    (ha : t.phase.isActing = true) : t.node.kind.isAction = true ∧
      w.admission.isGranted t.id = true ∧ ¬ w.IsLent t.id := by
  have hphase : t.phase.isAtWork = true ∧ t.phase.isHandling = false ∧ t.phase.isLeaving = false := by
    cases hp : t.phase with
    | acting => exact ⟨rfl,rfl,rfl⟩
    | _ =>
      rw [hp] at ha
      cases ha
  exact ⟨h.acting t ht ha,h.granted t ht hphase.1,hw.not_isLent ht hphase.2⟩

/-- A task that is about to use its action has a slot for it. -/
theorem Manned.acting_lt (h : w.Manned) (hs : w.Staffed e) (hw : w.Coherent) (ht : t ∈ w.tasks)
    (hk : t.node.kind.isAction = true) (hg : w.admission.isGranted t.id = true)
    (hfresh : t.phase.isFresh = true) :
    w.tasks.countP (·.phase.isActing) < e.config.maxConcurrent := by
  have hphase : t.phase.isActing = false ∧ t.phase.isHandling = false ∧ t.phase.isLeaving = false := by
    cases hp : t.phase with
    | asking | pausing => exact ⟨rfl,rfl,rfl⟩
    | _ =>
      rw [hp] at hfresh
      cases hfresh
  have hlt : w.tasks.countP (·.phase.isActing) <
      w.tasks.countP fun u => u.phase.isActing || u.id == t.id :=
    Schedule.countP_lt (fun u _ hu => by simp [hu]) ht (by simp) hphase.1
  refine Nat.lt_of_lt_of_le hlt (h.working_le hs hw fun u hu hf => ?_)
  rw [Bool.or_eq_true,beq_iff_eq] at hf
  obtain ha | hid := hf
  · exact h.of_isActing hw hu ha
  · obtain rfl := hw.task_unique hu ht hid
    exact ⟨hk,hg,hw.not_isLent hu hphase.2⟩

end World

variable {e : Engine} {w w' : World}

/-- The nodes that carry a tag, from their admission to their report. -/
theorem Reaches.serving_le (hr : Reaches e w) (tag : String) :
    w.tasks.countP (fun t => w.isServing t && t.node.tags.contains tag) ≤ e.pools.capacity tag := by
  refine hr.staffed.carrying_le hr.coherent fun t ht hf => ?_
  rw [Bool.and_eq_true,List.contains_iff_mem,World.isServing,Bool.or_eq_true,Bool.and_eq_true] at hf
  obtain ⟨hwork | ⟨-,hg⟩,htag⟩ := hf
  · exact ⟨htag,hr.manned.granted t ht hwork⟩
  · exact ⟨htag,hg⟩

theorem Reaches.acting_le (hr : Reaches e w) :
    w.tasks.countP (·.phase.isActing) ≤ e.config.maxConcurrent :=
  hr.manned.working_le hr.staffed hr.coherent fun _ ht ha => hr.manned.of_isActing hr.coherent ht ha

/-- When an action is used there is a slot for it besides those of the actions at work. -/
theorem Step.acting_lt {turn : Option Nat} (hs : Step e turn w w') (hr : Reaches e w)
    (hused : w'.invocations ≠ w.invocations) :
    w.tasks.countP (·.phase.isActing) < e.config.maxConcurrent := by
  cases hs with
  | start _ _ hstart =>
    obtain ⟨-,run,-,-,-,ha,-⟩ := start_spec hstart
    exact absurd ha.invocations hused
  | move hm =>
    obtain ⟨r,-,-,hturn⟩ | ⟨t,ht,-,hstep⟩ | ⟨-,⟨n,rfl⟩ | ⟨millis,rfl⟩⟩ := World.move_cases hm
    · obtain ⟨-,-,-,-,-,-,hinv,-⟩ := hturn.spec
      exact absurd hinv hused
    · have hw := hr.coherent
      have hsens := hw.task t ht
      cases World.stepTask_turn hsens.node hsens.phase hstep with
      | idle _ ha => exact absurd ha.invocations hused
      | begins time _ hp ha hd hadm hgranted =>
        obtain ⟨hstart,htasks,d,hact,hf⟩ := hw.begun ht hp ha hd
        have hnodup := hr.layered.tags_nodup hw ht
        have hmanned := hr.manned.seek hw hr.staffed.balanced ht hnodup hp htasks hadm
        have hstaffed := hr.staffed.seek ht hnodup hp htasks hadm
        obtain hnone | ⟨hk,hfresh⟩ := hf.user
        · refine absurd ?_ hused
          rw [hact.invocations,hnone,(World.discard_spec _ _).2.2.2.2,ha.invocations,
            (w.post_frame _ _).2.2.2]
          rfl
        · rw [← htasks]
          exact hmanned.acting_lt hstaffed hstart (htasks ▸ ht) hk hgranted hfresh
      | acts hl hd hcancelled =>
        obtain ⟨d,hact,hf,hbound⟩ := hd
        have hsame : d.used ≠ [] := by
          intro hnone
          refine hused ?_
          rw [hact.invocations,hnone,(w.discard_spec _).2.2.2.2]
          rfl
        obtain hnone | ⟨hk,hfresh⟩ := hf.user
        · exact absurd hnone hsame
        · cases hp : t.phase with
          | pausing =>
            refine hr.manned.acting_lt hr.staffed hw ht hk ?_ hfresh
            exact hr.manned.granted t ht (by rw [hp]; rfl)
          | asking =>
            -- A task that is cancelled before it is admitted uses nothing.
            refine absurd (hbound ?_).1 hsame
            rw [World.isCancelled,(w.discard_spec _).2.2.2.1]
            exact (hcancelled hp).1
          | _ =>
            rw [hp] at hfresh
            cases hfresh
      | leaves _ ha => exact absurd ha.invocations hused
    · obtain ⟨c,ha,-⟩ := w.cancel_alike n
      exact absurd ha.invocations hused
    · exact absurd rfl hused
  | agenda => exact absurd rfl hused

end Engine

end TaskGraph
