import TaskGraph.Proofs.Engine.Effort

/-!
What holds of a started run from its cancellation on, with the runs of it that are still there: they use
no actions, and what has become of their nodes is settled.
-/

namespace TaskGraph.Engine

/-- What has become of a started run that was cancelled in a world. -/
structure Aftermath (n : Nat) (w v : World) : Prop where
  coherent : v.Coherent
  cancelled : n ∈ v.cancelled
  root : ∃ q ∈ v.runsOf n, q.id.steps = []
  used : v.invocationsOf n = w.invocationsOf n
  faded : ∀ q ∈ v.runsOf n, ∀ r ∈ w.runsOf n, q.id = r.id → Run.Faded r q
  /-- No task is new, and none gives a number to a run again. -/
  grown : ∀ u ∈ v.tasksOf n, ∃ t ∈ w.tasksOf n, t.id = u.id ∧ t.started ≤ u.started

namespace Aftermath

open World

variable {w v v' : World} {n : Nat}

theorem refl (h : w.Coherent) (hc : n ∈ w.cancelled) (hroot : ∃ r ∈ w.runsOf n, r.id.steps = []) :
    Aftermath n w w where
  coherent := h
  cancelled := hc
  root := hroot
  used := rfl
  faded q hq r hr hid := by
    rw [h.run_unique (mem_runsOf.mp hq).1 (mem_runsOf.mp hr).1 hid]
    exact .refl r
  grown u hu := ⟨u,hu,rfl,Nat.le_refl _⟩

theorem spares (h : Aftermath n w v) (hs : Spares n v v') (hcoh : v'.Coherent)
    (hc : n ∈ v'.cancelled) : Aftermath n w v' where
  coherent := hcoh
  cancelled := hc
  root := hs.runs ▸ h.root
  used := hs.invocations.trans h.used
  faded := hs.runs ▸ h.faded
  grown := hs.tasks ▸ h.grown

theorem run (h : Aftermath n w v) {r r' : Run} (hr : r ∈ v.runs) (hn : r.id.root = n)
    (hid : r'.id = r.id) (hf : r.Fading r') (ha : Alike (v.setRun r') v') (hcoh : v'.Coherent)
    (hc : n ∈ v'.cancelled) : Aftermath n w v' := by
  have hrn : r ∈ v.runsOf n := mem_runsOf.mpr ⟨hr,hn⟩
  have hmem {q : Run} : q ∈ v'.runsOf n ↔ q = r' ∨ q ∈ v.runsOf n ∧ q.id ≠ r.id := by
    rw [mem_runsOf,mem_runsOf,ha.runs,mem_setRun hr hid]
    constructor
    · rintro ⟨rfl | ⟨hq,hne⟩,hqn⟩
      · exact .inl rfl
      · exact .inr ⟨⟨hq,hqn⟩,hne⟩
    · rintro (rfl | ⟨⟨hq,hqn⟩,hne⟩)
      · exact ⟨.inl rfl,hid ▸ hn⟩
      · exact ⟨.inr ⟨hq,hne⟩,hqn⟩
  constructor
  · exact hcoh
  · exact hc
  · obtain ⟨q,hq,hroot⟩ := h.root
    by_cases hne : q.id = r.id
    · exact ⟨r',hmem.mpr (.inl rfl),by rw [hid,← hne,hroot]⟩
    · exact ⟨q,hmem.mpr (.inr ⟨hq,hne⟩),hroot⟩
  · exact (congrArg (List.filter _) ha.invocations).trans h.used
  · intro q hq p hp hqp
    rcases hmem.mp hq with rfl | ⟨hq,-⟩
    · exact (h.faded r hrn p hp (hid.symm.trans hqp)).step (h.coherent.run r hr) hf
    · exact h.faded q hq p hp hqp
  · intro u hu
    rw [tasksOf,ha.tasks] at hu
    exact h.grown u hu

/-- No run that a task starts was there before. -/
theorem opened_fresh (h : Aftermath n w v) (hw : w.Coherent) {t : Task} {d : Deed} (ht : t ∈ v.tasks)
    (hn : t.id.run.root = n) (hf : d.Fits t) {q r : Run} (hq : q ∈ d.opened) (hr : r ∈ w.runs) :
    q.id ≠ r.id := by
  intro hid
  obtain ⟨k,hk,hqk⟩ := hf.opened_id hq
  rcases hw.owned r hr with hroot | ⟨u,hu,hl⟩
  · rw [← hid,hqk] at hroot
    cases hroot
  · obtain ⟨j,hj,hrj⟩ := (hw.task u hu).runs _ hl
    obtain ⟨htu,rfl⟩ := RunId.child_inj (hqk.symm.trans (hid.trans hrj))
    obtain ⟨t₀,ht₀,htid,hle⟩ := h.grown t (mem_tasksOf.mpr ⟨ht,hn⟩)
    rw [hw.task_unique (mem_tasksOf.mp ht₀).1 hu (htid.trans htu)] at hle
    omega

theorem acts (h : Aftermath n w v) (hw : w.Coherent) {t : Task} {d : Deed} (ht : t ∈ v.tasks)
    (hn : t.id.run.root = n) (ha : (v.discard t.phase.runs).Acts v' t d) (hf : d.Fits t)
    (hused : d.used = []) (hcoh : v'.Coherent) (hc : n ∈ v'.cancelled) : Aftermath n w v' := by
  have hco := h.coherent
  constructor
  · exact hcoh
  · exact hc
  · obtain ⟨q,hq,hroot⟩ := h.root
    obtain ⟨hqv,hqn⟩ := mem_runsOf.mp hq
    have hstays : Stays t q.id := by
      refine stays_iff.mpr fun x hx => ?_
      obtain ⟨k,-,rfl⟩ := (hco.task t ht).runs x hx
      rw [Bool.eq_false_iff]
      intro hin
      have hsuffix := (RunId.isWithin_iff.mp hin).2
      rw [hroot] at hsuffix
      cases List.suffix_nil.mp hsuffix
    exact ⟨d.receive t q,mem_runsOf.mpr ⟨(ha.mem_runs hco).mpr (.inl ⟨q,hqv,hstays,rfl⟩),hqn⟩,hroot⟩
  · rw [invocationsOf,ha.invocations,hused,List.nil_append,(v.discard_spec t.phase.runs).2.2.2.2]
    exact h.used
  · intro q hq p hp hqp
    obtain ⟨hqv,hqn⟩ := mem_runsOf.mp hq
    rcases (ha.mem_runs hco).mp hqv with ⟨r,hr,-,rfl⟩ | hopened
    · exact (h.faded r (mem_runsOf.mpr ⟨hr,hqn⟩) p hp hqp).step (hco.run r hr) (.rests rfl rfl)
    · exact absurd hqp (h.opened_fresh hw ht hn hf hopened (mem_runsOf.mp hp).1)
  · intro u hu
    obtain ⟨huv,hun⟩ := mem_tasksOf.mp hu
    rcases (ha.mem_tasks hco ht).mp huv with ⟨hu,-⟩ | hu
    · exact h.grown u (mem_tasksOf.mpr ⟨hu,hun⟩)
    · obtain ⟨hid,-,hstarted,-⟩ := hf.follower hu
      obtain ⟨t₀,ht₀,htid,hle⟩ := h.grown t (mem_tasksOf.mpr ⟨ht,hn⟩)
      exact ⟨t₀,ht₀,htid.trans hid.symm,by omega⟩

theorem wanes (h : Aftermath n w v) (hw : w.Coherent) (hs : Wanes n v v') (hcoh : v'.Coherent)
    (hc : n ∈ v'.cancelled) : Aftermath n w v' := by
  cases hs with
  | run hr hn hid hf _ ha => exact h.run hr hn hid hf ha hcoh hc
  | acts ht hn _ ha hf hused _ => exact h.acts hw ht hn ha hf hused hcoh hc
  | @leaves t ht hn _ ha =>
    have hgone : Aftermath n w { v with tasks := v.tasks.filter fun other => other.id != t.id } := by
      refine ⟨hcoh.of_alike ha.symm,h.cancelled,h.root,h.used,h.faded,fun u hu => ?_⟩
      obtain ⟨huv,hun⟩ := mem_tasksOf.mp hu
      exact h.grown u (mem_tasksOf.mpr ⟨(List.mem_filter.mp huv).1,hun⟩)
    exact hgone.spares (ha.spares n) hcoh hc

end Aftermath

/-- From its cancellation on a started run makes no more moves than there is left to do. -/
theorem Later.aftermath {e : Engine} {n k : Nat} {w v : World} (hl : Later e n w k v)
    (h : w.Coherent) (hc : n ∈ w.cancelled) (hroot : ∃ r ∈ w.runsOf n, r.id.steps = []) :
    Aftermath n w v ∧ v.effort n+k ≤ w.effort n := by
  induction hl with
  | refl => exact ⟨.refl h hc hroot,Nat.le_refl _⟩
  | @step u _ _ _ _ hs ih =>
    obtain ⟨ha,he⟩ := ih
    have hthere : ∃ r ∈ u.runs, r.id.root = n := by
      obtain ⟨r,hr,-⟩ := ha.root
      exact ⟨r,World.mem_runsOf.mp hr⟩
    have hcoh := hs.coherent ha.coherent
    obtain ⟨hc',⟨hne,hspares⟩ | ⟨hturn,hwanes⟩⟩ := hs.wanes ha.coherent ha.cancelled hthere
    · rw [if_neg hne,hspares.effort]
      exact ⟨ha.spares hspares hcoh hc',he⟩
    · rw [if_pos hturn]
      have hlt := hwanes.effort_lt ha.coherent
      exact ⟨ha.wanes h hwanes hcoh hc',by omega⟩

end TaskGraph.Engine
