import TaskGraph.Proofs.Admission.Bystanders
import TaskGraph.Proofs.Engine.Holding

/-!
What a step does to the admission: acts of the task whose turn it is, and of those that it drops with
the runs that it waits for.
-/

namespace TaskGraph.Engine

open Admission

namespace World

variable {w v w' : World} {t : Task} {d : Deed} {who : TaskId → Prop}

/-- The admission goes on by acts of certain parties. -/
def Deals (who : TaskId → Prop) (w v : World) : Prop :=
  ∃ acts : List (Act TaskId), v.admission = acts.foldl Admission.act w.admission ∧
    ∀ x ∈ acts, x.IsProper ∧ who x.actor

theorem Deals.refl (h : v.admission = w.admission) : Deals who w v :=
  ⟨[],h,fun _ hx => absurd hx List.not_mem_nil⟩

theorem Deals.trans (h : Deals who w v) (h' : Deals who v w') : Deals who w w' := by
  obtain ⟨acts,hacts,hall⟩ := h
  obtain ⟨more,hmore,hall'⟩ := h'
  refine ⟨acts ++ more,by rw [hmore,hacts,List.foldl_append],fun x hx => ?_⟩
  exact (List.mem_append.mp hx).elim (hall x) (hall' x)

theorem Deals.mono {others : TaskId → Prop} (h : Deals who w v) (hsub : ∀ id, who id → others id) :
    Deals others w v := by
  obtain ⟨acts,hacts,hall⟩ := h
  exact ⟨acts,hacts,fun x hx => (hall x hx).imp_right (hsub x.actor)⟩

theorem discard_deals (ids : List RunId) :
    Deals (fun id => id.run.isWithinAny ids = true) w (w.discard ids) := by
  refine ⟨(w.tasks.filter fun u => u.id.run.isWithinAny ids).map fun u => .leave u.id,?_,?_⟩
  · rw [discard_admission,List.foldl_map]
    rfl
  · intro x hx
    obtain ⟨u,hu,rfl⟩ := List.mem_map.mp hx
    exact ⟨trivial,(List.mem_filter.mp hu).2⟩

theorem Acts.deals (ha : Acts w w' t d) (hf : d.Fits t) : Deals (· = t.id) w w' := by
  refine ⟨d.acts,ha.admission,fun x hx => ⟨hf.proper x hx,?_⟩⟩
  obtain rfl | rfl := hf.mem_acts hx <;> rfl

/-- Who may be concerned by a turn of a task: it, and what it drops. -/
def Concerns (t : Task) (id : TaskId) : Prop := id = t.id ∨ id.run.isWithinAny t.phase.runs = true

theorem Acts.deals_all (ha : (w.discard t.phase.runs).Acts w' t d) (hf : d.Fits t) :
    Deals (Concerns t) w w' :=
  ((discard_deals t.phase.runs).mono fun _ => .inr).trans ((ha.deals hf).mono fun _ => .inl)

theorem deals_seek (hnodup : t.node.tags.Nodup)
    (hadm : v.admission = (w.admission.ask t.id t.request).look t.id) : Deals (Concerns t) w v := by
  refine ⟨[.ask t.id t.request,.look t.id],hadm,fun x hx => ?_⟩
  rw [List.mem_cons,List.mem_singleton] at hx
  obtain rfl | rfl := hx
  · exact ⟨hnodup,.inl rfl⟩
  · exact ⟨trivial,.inl rfl⟩

theorem Turn.deals (hd : Turn w w' t) (hw : w.Coherent) (ht : t ∈ w.tasks)
    (hnodup : t.node.tags.Nodup) : Deals (Concerns t) w w' := by
  cases hd with
  | idle _ _ _ hadm => exact deals_seek hnodup hadm
  | begins time _ hp ha hd hadm =>
    obtain ⟨-,-,d,hact,hf⟩ := hw.begun ht hp ha hd
    exact (deals_seek hnodup hadm).trans (hact.deals_all hf)
  | acts _ hd =>
    obtain ⟨d,ha,hf,-⟩ := hd
    exact ha.deals_all hf
  | leaves _ _ hadm =>
    refine ⟨[.leave t.id],hadm,fun x hx => ?_⟩
    rw [List.mem_singleton.mp hx]
    exact ⟨trivial,.inl rfl⟩

theorem Concerns.root (ht : t.Sensible) {id : TaskId} (h : Concerns t id) :
    id.run.root = t.id.run.root := by
  obtain rfl | hin := h
  · rfl
  · obtain ⟨x,hx,hwithin⟩ := List.any_eq_true.mp hin
    obtain ⟨k,-,rfl⟩ := ht.runs x hx
    exact (RunId.isWithin_iff.mp hwithin).1

end World

variable {e : Engine} {w v : World}

/-- A step is at most an act of tasks of the run whose turn it is. -/
theorem Step.deals {turn : Option Nat} (hs : Step e turn w v) (hr : Reaches e w) :
    World.Deals (fun id => turn = some id.run.root) w v := by
  cases hs with
  | start _ _ hstart =>
    obtain ⟨-,-,-,-,-,-,-,hadm⟩ := start_spec hstart
    exact .refl hadm
  | move hm =>
    obtain ⟨r,-,-,hturn⟩ | ⟨t,ht,rfl,hstep⟩ | ⟨-,⟨n,rfl⟩ | ⟨millis,rfl⟩⟩ := World.move_cases hm
    · obtain ⟨-,-,-,-,-,-,-,hadm,-⟩ := hturn.spec
      exact .refl hadm
    · have hsens := hr.coherent.task t ht
      have hd := World.stepTask_turn hsens.node hsens.phase hstep
      refine (hd.deals hr.coherent ht (hr.layered.tags_nodup hr.coherent ht)).mono fun id hid => ?_
      exact congrArg some (hid.root hsens).symm
    · exact .refl (w.cancel_admission n)
    · exact .refl rfl
  | agenda => exact .refl rfl

end TaskGraph.Engine
