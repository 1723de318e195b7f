import TaskGraph.Proofs.Engine.Results

/-!
Runs of which none lies in the other. What happens in one of them changes nothing that lies in the
other, and cancels nothing.
-/

namespace TaskGraph.Engine

/-- Neither of two runs lies in the other. -/
def RunId.Apart (a b : RunId) : Prop := a.isWithin b = false ∧ b.isWithin a = false

namespace RunId

variable {a b x : RunId} {t : TaskId} {i j : Nat}

theorem isWithin_trans (h : x.isWithin a = true) (h' : a.isWithin b = true) :
    x.isWithin b = true := by
  obtain ⟨hr,hs⟩ := isWithin_iff.mp h
  obtain ⟨hr',hs'⟩ := isWithin_iff.mp h'
  exact isWithin_iff.mpr ⟨hr.trans hr',hs'.trans hs⟩

/-- What lies in two runs of a task shows that they are the same. -/
theorem child_eq_of_isWithin (h : x.isWithin (t.child i) = true) (h' : x.isWithin (t.child j) = true) :
    i = j := by
  have hsuffix := List.suffix_of_suffix_length_le (isWithin_iff.mp h).2 (isWithin_iff.mp h').2
    (Nat.le_refl _)
  have hsteps := hsuffix.eq_of_length rfl
  have hchild : t.child i = t.child j := congrArg (RunId.mk t.run.root) hsteps
  exact (child_inj hchild).2

/-- What lies in one run of a task lies apart from another. -/
theorem apart_child (hne : i ≠ j) (h : a.isWithin (t.child i) = true) : a.Apart (t.child j) := by
  constructor
  · exact Bool.eq_false_iff.mpr fun hw => hne (child_eq_of_isWithin h hw)
  · exact Bool.eq_false_iff.mpr fun hw =>
      hne (child_eq_of_isWithin (isWithin_trans hw h) (isWithin_self _))

/-- What starts in a run lies apart from whatever the run lies apart from. -/
theorem Apart.child (h : t.run.Apart b) (k : Nat) : (t.child k).Apart b := by
  constructor
  · refine Bool.eq_false_iff.mpr fun hw => ?_
    obtain rfl | hw := child_isWithin.mp hw
    · have hin : (t.child k).isWithin t.run = true := child_isWithin.mpr (.inr (isWithin_self _))
      rw [h.2] at hin
      cases hin
    · rw [h.1] at hw
      cases hw
  · refine Bool.eq_false_iff.mpr fun hw => ?_
    have hin : b.isWithin t.run = true :=
      isWithin_trans hw (child_isWithin.mpr (.inr (isWithin_self _)))
    rw [h.2] at hin
    cases hin

/-- What lies in one of two runs that lie apart does not lie in the other. -/
theorem Apart.not_isWithin (h : a.Apart b) (hx : x.isWithin b = true) : x.isWithin a = false := by
  refine Bool.eq_false_iff.mpr fun hw => ?_
  obtain ⟨hr,hs⟩ := isWithin_iff.mp hx
  obtain ⟨hr',hs'⟩ := isWithin_iff.mp hw
  obtain hle | hle := Nat.le_total a.steps.length b.steps.length
  · have hin : b.isWithin a = true :=
      isWithin_iff.mpr ⟨hr.symm.trans hr',List.suffix_of_suffix_length_le hs' hs hle⟩
    rw [h.2] at hin
    cases hin
  · have hin : a.isWithin b = true :=
      isWithin_iff.mpr ⟨hr'.symm.trans hr,List.suffix_of_suffix_length_le hs hs' hle⟩
    rw [h.1] at hin
    cases hin

theorem Apart.ne (h : a.Apart b) (hx : x.isWithin b = true) : x ≠ a := by
  rintro rfl
  rw [h.1] at hx
  cases hx

end RunId

namespace World

/-- What lies in a run stays as it is, and nothing is cancelled. -/
structure Undisturbed (w w' : World) (id : RunId) : Prop where
  runs : ∀ q : Run, q.id.isWithin id = true → (q ∈ w'.runs ↔ q ∈ w.runs)
  tasks : ∀ u : Task, u.id.run.isWithin id = true → (u ∈ w'.tasks ↔ u ∈ w.tasks)
  cancelled : w'.cancelled = w.cancelled

variable {e : Engine} {w w' : World} {r : Run} {t : Task} {b : RunId}

theorem Alike.undisturbed (h : Alike w w') (b : RunId) : Undisturbed w w' b where
  runs _ _ := by rw [h.runs]
  tasks _ _ := by rw [h.tasks]
  cancelled := h.cancelled

/-- A turn of a nested run. -/
theorem RunTurn.undisturbed (h : RunTurn w r w') (hr : r ∈ w.runs) (he : r.expiry = none)
    (hap : r.id.Apart b) : Undisturbed w w' b := by
  have hcancelled : w'.cancelled = w.cancelled := by
    cases h with
    | passes =>
      by_cases hi : (w.passed r).1.inFlight = []
      · obtain ⟨published,hp⟩ := pass_closed hi
        rw [hp]
        rfl
      · obtain ⟨published,ha⟩ := pass_waiting hi
        exact ha.cancelled
    | expires _ _ hexpired =>
      rw [hasExpired,he] at hexpired
      cases hexpired
    | _ => rfl
  obtain ⟨r',fresh,⟨hid,-⟩,hruns,htasks,hfresh,-⟩ := h.spec
  refine ⟨fun q hq => ?_,fun u hu => ?_,hcancelled⟩
  · have hne := hap.ne hq
    rw [hruns,mem_setRun hr hid]
    constructor
    · rintro (rfl | ⟨hmem,-⟩)
      · exact absurd hid hne
      · exact hmem
    · exact fun hmem => .inr ⟨hmem,hne⟩
  · rw [htasks,List.mem_append]
    exact or_iff_left fun hnew => hap.ne hu (hfresh u hnew).1

/-- A step of a task in a run. -/
theorem Turn.undisturbed (h : Turn w w' t) (hr : Reaches e w) (ht : t ∈ w.tasks)
    (hap : t.id.run.Apart b) : Undisturbed w w' b := by
  have hw := hr.coherent
  have hcancelled := h.cancelled
  -- What the task drops are runs that it has started.
  have hstays {x : RunId} (hx : x.isWithin b = true) : Stays t x := by
    refine stays_iff.mpr fun y hy => ?_
    obtain ⟨k,-,rfl⟩ := (hw.task t ht).runs y hy
    exact (hap.child k).not_isWithin hx
  have hdeaf {p : Run} (es : List Event) (hx : p.id.isWithin b = true) : p.hear t.id.run es = p := by
    rw [Run.hear,if_neg (hap.ne hx),List.append_nil]
  have hother {u : Task} (hu : u.id.run.isWithin b = true) : u.id ≠ t.id :=
    fun he => hap.ne hu (congrArg TaskId.run he)
  obtain ha | ⟨d,es,hp⟩ | ⟨-,ha⟩ := h.performs hr ht
  · exact ha.undisturbed b
  · refine ⟨fun q hq => ?_,fun u hu => ?_,hcancelled⟩
    · rw [hp.mem_runs]
      constructor
      · rintro (⟨p,hmem,-,rfl⟩ | hopened)
        · have hp : p.id.isWithin b = true := hq
          rwa [hdeaf es hp]
        · obtain ⟨k,-,hid⟩ := hp.fits.opened_id hopened
          exact absurd hid ((hap.child k).ne hq)
      · exact fun hmem => .inl ⟨q,hmem,hstays hq,(hdeaf es hq).symm⟩
    · rw [hp.tasks]
      constructor
      · rintro (⟨hmem,-⟩ | hfollows)
        · exact hmem
        · exact absurd (hp.fits.follower hfollows).1 (hother hu)
      · exact fun hmem => .inl ⟨hmem,hstays hu,hother hu⟩
  · refine ⟨fun q _ => by rw [ha.runs],fun u hu => ?_,hcancelled⟩
    rw [ha.tasks]
    simpa using fun _ => hother hu

/-- A move in a nested run leaves what lies apart alone. -/
theorem move_undisturbed (hr : Reaches e w) {m : Move} (hm : w.move? e.setting m = some w')
    {a : RunId} (ha : m.run? = some a) (hnested : a.steps ≠ []) (hap : a.Apart b) :
    Undisturbed w w' b := by
  obtain ⟨r,hrun,hid,hturn⟩ | ⟨t,ht,rfl,hstep⟩ | ⟨hnone,-⟩ := move_cases hm
  · obtain rfl := Option.some.inj (hid.symm.trans ha)
    exact hturn.undisturbed hrun ((hr.expiry r hrun).resolve_left hnested) hap
  · obtain rfl := Option.some.inj ha
    have hsens := hr.coherent.task t ht
    exact (stepTask_turn hsens.node hsens.phase hstep).undisturbed hr ht hap
  · rw [m.root?_eq,ha] at hnone
    cases hnone

end World

end TaskGraph.Engine
