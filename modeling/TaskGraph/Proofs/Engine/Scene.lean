import TaskGraph.Proofs.Engine.Enclosed

/-!
Two runs that are started together, and what certain moves make of them.
-/

namespace TaskGraph.Engine

namespace World

variable {σ : Setting} {w v w' : World} {r : Run} {t : Task} {d : Deed}

theorem Acts.same (hw : w.Coherent) (ha : (w.discard t.phase.runs).Acts w' t d) (hf : d.Fits t)
    {q : Run} (hq : q ∈ w'.runs) (hroot : q.id.steps = []) : ∃ p ∈ w.runs, SamePlace p q := by
  obtain ⟨p,hp,-,rfl⟩ | hq := (ha.mem_runs hw).mp hq
  · exact ⟨p,hp,.refl p⟩
  · obtain ⟨k,-,hid⟩ := hf.opened_id hq
    rw [hid] at hroot
    cases hroot

theorem Turn.same (hd : Turn w w' t) (hw : w.Coherent) (ht : t ∈ w.tasks) {q : Run}
    (hq : q ∈ w'.runs) (hroot : q.id.steps = []) : ∃ p ∈ w.runs, SamePlace p q := by
  cases hd with
  | idle _ ha => exact ⟨q,ha.runs ▸ hq,.refl q⟩
  | begins time _ hp ha hd =>
    obtain ⟨hstart,-,d,hact,hf⟩ := hw.begun ht hp ha hd
    obtain ⟨p,hpv,hpq⟩ := hact.same hstart hf hq hroot
    obtain ⟨o,ho,hop⟩ := same_post hw _ _ p (ha.runs ▸ hpv)
    exact ⟨o,ho,hop.trans hpq⟩
  | acts _ hd =>
    obtain ⟨d,ha,hf,-⟩ := hd
    exact ha.same hw hf hq hroot
  | leaves _ ha => exact ⟨q,ha.runs ▸ hq,.refl q⟩

/-- Moves start no runs but nested ones. -/
theorem Coherent.root_of_move (hw : w.Coherent) {m : Move} (hm : w.move? σ m = some w') {q : Run}
    (hq : q ∈ w'.runs) (hroot : q.id.steps = []) : ∃ p ∈ w.runs, SamePlace p q := by
  obtain ⟨r,hr,-,hturn⟩ | ⟨t,ht,-,hs⟩ | ⟨-,⟨n,rfl⟩ | ⟨millis,rfl⟩⟩ := move_cases hm
  · exact hturn.same hr q hq
  · exact (stepTask_turn (hw.task t ht).node (hw.task t ht).phase hs).same hw ht hq hroot
  · obtain ⟨cancelled,ha,-⟩ := w.cancel_alike n
    exact ⟨q,ha.runs ▸ hq,.refl q⟩
  · exact ⟨q,hq,.refl q⟩

def moves? (σ : Setting) (w : World) : List Move → Option World
  | [] => some w
  | m::rest => do moves? σ (← w.move? σ m) rest

end World

variable {e : Engine} {w w' : World}

theorem Reaches.moves (h : Reaches e w) {moves : List Move}
    (hm : w.moves? e.setting moves = some w') : Reaches e w' ∧
      ∀ q ∈ w'.runs, q.id.steps = [] → ∃ p ∈ w.runs, World.SamePlace p q := by
  induction moves generalizing w with
  | nil =>
    cases hm
    exact ⟨h,fun q hq _ => ⟨q,hq,.refl q⟩⟩
  | cons m rest ih =>
    obtain ⟨v,hv,hrest⟩ := Option.bind_eq_some_iff.mp hm
    obtain ⟨hreach,hsame⟩ := ih (h.step (.move hv)) hrest
    refine ⟨hreach,fun q hq hroot => ?_⟩
    obtain ⟨p,hp,hpq⟩ := hsame q hq hroot
    obtain ⟨o,ho,hop⟩ := h.coherent.root_of_move hv hp (hpq.1 ▸ hroot)
    exact ⟨o,ho,hop.trans hpq⟩

/-- What moves make of two definitions that are started one after the other. -/
def scene (e : Engine) (first second : Definition) (moves : List Move) : Option World :=
  match e.start e.world first [] 0 none with
  | .error _ => none
  | .ok w =>
    match e.start w second [] 1 none with
    | .error _ => none
    | .ok w => w.moves? e.setting moves

theorem reaches_scene {first second : Definition} {moves : List Move} (hk : first.isKeyed = true)
    (hk' : second.isKeyed = true) (h : scene e first second moves = some w) : Reaches e w ∧
      ∀ r ∈ w.runs, r.id.steps = [] →
        r.id.root = 0 ∧ e.validate first = .ok r.schedule.graph ∨
        r.id.root = 1 ∧ e.validate second = .ok r.schedule.graph := by
  unfold scene at h
  split at h
  · cases h
  next u hu =>
  split at h
  · cases h
  next v hv =>
  obtain ⟨g,r,hb,hn,hid,ha,-⟩ := start_spec hu
  obtain ⟨g',r',hb',hn',hid',ha',-⟩ := start_spec hv
  have hruns : v.runs = [r,r'] := by
    rw [ha'.runs,ha.runs]
    rfl
  have hnew : ∀ p ∈ u.runs, p.id.root ≠ 1 := by
    intro p hp
    rw [ha.runs] at hp
    rw [List.mem_singleton.mp hp,hid]
    decide
  have hu' : Reaches e u := .step .world (.start hk (fun _ hp => absurd hp List.not_mem_nil) hu)
  obtain ⟨hreach,hsame⟩ := (hu'.step (.start hk' hnew hv)).moves h
  refine ⟨hreach,fun q hq hroot => ?_⟩
  obtain ⟨p,hp,hpid,-,hgraph⟩ := hsame q hq hroot
  rw [hpid,hgraph]
  rw [hruns,List.mem_cons,List.mem_singleton] at hp
  obtain rfl | rfl := hp
  · obtain ⟨scope,hs⟩ := hn.schedule
    refine .inl ⟨by rw [hid],validate_eq_ok.mpr ?_⟩
    rw [hs]
    exact hb
  · obtain ⟨scope,hs⟩ := hn'.schedule
    refine .inr ⟨by rw [hid'],validate_eq_ok.mpr ?_⟩
    rw [hs]
    exact hb'

end TaskGraph.Engine
