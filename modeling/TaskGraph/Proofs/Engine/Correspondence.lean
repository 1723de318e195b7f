import TaskGraph.Proofs.Engine.Knowing

/-!
What the letters that were sent tell of the tasks: who has started and who has reported. Between two
starts of nodes that need a tag of which there is only one lies the report of the first.
-/

namespace TaskGraph

namespace Instant

theorem not_isBefore_trans {a b c : Instant} (hab : a.isBefore b = false)
    (hbc : b.isBefore c = false) : a.isBefore c = false := by
  simp only [isBefore,Bool.or_eq_false_iff,Bool.and_eq_false_iff,decide_eq_false_iff_not,
    beq_eq_false_iff_ne] at *
  omega

theorem ofMillis_not_isBefore {m n : Nat} (h : m ≤ n) :
    (ofMillis n).isBefore (ofMillis m) = false := by
  simp only [isBefore,Bool.or_eq_false_iff,Bool.and_eq_false_iff,decide_eq_false_iff_not,
    beq_eq_false_iff_ne]
  simp only [ofMillis]
  omega

end Instant

namespace Engine

open Letter

/-- Two starts of nodes that carry a tag of which there is only one. -/
structure Letter.Rivals (e : Engine) (a b : Letter) : Prop where
  first : a.isStart = true
  second : b.isStart = true
  shared : ∃ tag ∈ a.tags, tag ∈ b.tags ∧ e.pools.capacity tag = 1

/-- Letters in an order came in that order before the last ones, or the last of them has just come. -/
theorem sublist_append_last {α : Type} {l xs ys : List α} {y : α}
    (h : (l ++ [y]).Sublist (xs ++ ys)) : (l ++ [y]).Sublist xs ∨ y ∈ ys := by
  obtain ⟨l₁,l₂,he,h₁,h₂⟩ := List.sublist_append_iff.mp h
  rcases List.eq_nil_or_concat' l₂ with rfl | ⟨l₂,z,rfl⟩
  · rw [List.append_nil] at he
    exact .inl (he ▸ h₁)
  · rw [← List.append_assoc] at he
    obtain rfl := List.singleton_inj.mp (List.append_inj' he rfl).2
    exact .inr (h₂.subset (List.mem_append_right _ (List.mem_singleton_self y)))

/-- How a task agrees with the letters that were sent. -/
structure Task.Voiced (t : Task) (log : List Letter) : Prop where
  silent : t.phase.isAsking = true → ∀ x ∈ log, x.task ≠ t.id
  begun : t.phase.isAtWork = true → ∃ x ∈ log, x.task = t.id ∧ x.isStart = true
  going : t.phase.isLeaving = false → ∀ x ∈ log, x.task = t.id → x.isStart = true
  left : t.phase.isLeaving = true → ∃ x ∈ log, x.task = t.id ∧ x.isStart = false
  tags : ∀ x ∈ log, x.task = t.id → x.tags = t.node.tags

namespace Task.Voiced

variable {t : Task} {log news : List Letter}

theorem append (h : t.Voiced log) (hnews : ∀ x ∈ news, x.task ≠ t.id) :
    t.Voiced (log ++ news) where
  silent ha x hx := (List.mem_append.mp hx).elim (h.silent ha x) (hnews x)
  begun hw := by
    obtain ⟨x,hx,hb⟩ := h.begun hw
    exact ⟨x,List.mem_append_left _ hx,hb⟩
  going hl x hx ht := (List.mem_append.mp hx).elim (fun hx => h.going hl x hx ht)
    fun hx => absurd ht (hnews x hx)
  left hl := by
    obtain ⟨x,hx,hb⟩ := h.left hl
    exact ⟨x,List.mem_append_left _ hx,hb⟩
  tags x hx ht := (List.mem_append.mp hx).elim (fun hx => h.tags x hx ht)
    fun hx => absurd ht (hnews x hx)

theorem of_silent (ha : t.phase.isAsking = true) (hs : ∀ x ∈ log, x.task ≠ t.id) :
    t.Voiced log where
  silent _ := hs
  begun hw := by
    rw [Phase.eq_asking ha] at hw
    cases hw
  going _ x hx ht := absurd ht (hs x hx)
  left hl := by
    rw [Phase.eq_asking ha] at hl
    cases hl
  tags x hx ht := absurd ht (hs x hx)

/-- Between its start and its report a task is at work, unless it has broken down. -/
theorem isAtWork_iff (h : t.Voiced log) : t.phase.isAtWork = true ↔
    (∃ x ∈ log, x.task = t.id ∧ x.isStart = true) ∧
    (∀ x ∈ log, x.task = t.id → x.isStart = true) ∧ t.phase.isCollapsed = false := by
  constructor
  · intro hw
    have hphase : t.phase.isLeaving = false ∧ t.phase.isCollapsed = false := by
      cases hp : t.phase with
      | asking | leaving | collapsed =>
        rw [hp] at hw
        cases hw
      | _ => exact ⟨rfl,rfl⟩
    exact ⟨h.begun hw,h.going hphase.1,hphase.2⟩
  · rintro ⟨⟨x,hx,hid,-⟩,hgoing,hc⟩
    obtain ha | hw | hl | hcollapsed := t.phase.cases
    · exact absurd hid (h.silent ha x hx)
    · exact hw
    · obtain ⟨y,hy,hyid,hreport⟩ := h.left hl
      rw [hgoing y hy hyid] at hreport
      cases hreport
    · rw [hc] at hcollapsed
      cases hcollapsed

end Task.Voiced

namespace World

variable {e : Engine} {w w' : World} {t : Task} {d : Deed} {es : List Event}

namespace Tells

theorem start (h : Tells e w t d es) {x : Event} (hx : x ∈ es) (hs : x.isReport = false) :
    t.phase = .asking ∧ ∀ tag ∈ t.node.tags, e.pools.capacity tag = 1 → ∀ u ∈ w.tasks,
      u.phase.isAtWork = true → tag ∉ u.node.tags := by
  cases h with
  | begins hp halone => exact ⟨hp,halone⟩
  | goesOn =>
    obtain ⟨report,hr,rfl⟩ := List.mem_map.mp hx
    cases hs

theorem report (h : Tells e w t d es) {x : Event} (hx : x ∈ es) (hr : x.isReport = true) :
    ∃ report ∈ d.posted, x = .finished t.node.id report := by
  have hposted (hx : x ∈ d.posted.toList.map (Event.finished t.node.id)) :
      ∃ report ∈ d.posted, x = .finished t.node.id report := by
    obtain ⟨report,hrep,rfl⟩ := List.mem_map.mp hx
    exact ⟨report,Option.mem_toList.mp hrep,rfl⟩
  cases h with
  | begins =>
    rcases List.mem_cons.mp hx with rfl | hx
    · cases hr
    · exact hposted hx
  | goesOn => exact hposted hx

theorem posted (h : Tells e w t d es) {report : Report} (hr : report ∈ d.posted) :
    .finished t.node.id report ∈ es := by
  have hmem := List.mem_map_of_mem (f := Event.finished t.node.id) (Option.mem_toList.mpr hr)
  cases h with
  | begins => exact List.mem_cons_of_mem _ hmem
  | goesOn => exact hmem

/-- Of two things that are told the first is the start and the second the report. -/
theorem pairwise (h : Tells e w t d es) :
    es.Pairwise fun x y => x.isReport = false ∧ y.isReport = true := by
  have hreports : (d.posted.toList.map (Event.finished t.node.id)).Pairwise
      fun x y => x.isReport = false ∧ y.isReport = true := by
    cases d.posted with
    | none => exact .nil
    | some report => exact List.pairwise_singleton _ _
  cases h with
  | begins =>
    refine List.pairwise_cons.mpr ⟨fun y hy => ?_,hreports⟩
    obtain ⟨report,-,rfl⟩ := List.mem_map.mp hy
    exact ⟨rfl,rfl⟩
  | goesOn => exact hreports

end Tells

theorem Performs.next_of_collapsed (h : Performs e w w' t d es)
    (hc : t.phase.isCollapsed = true) : d.next = none := by
  cases hn : d.next with
  | none => rfl
  | some p =>
    cases h.tells with
    | begins hasks =>
      rw [hasks] at hc
      cases hc
    | goesOn hallows => exact absurd (hallows p hn) (Phase.not_allows hc p)

theorem Performs.time_eq (h : Performs e w w' t d es) {x : Event} (hx : x ∈ es) : x.time = w.now := by
  cases hr : x.isReport with
  | true =>
    obtain ⟨report,hrep,rfl⟩ := h.tells.report hx hr
    exact h.time report hrep
  | false =>
    cases h.tells with
    | begins =>
      rcases List.mem_cons.mp hx with rfl | hx
      · rfl
      · obtain ⟨report,-,rfl⟩ := List.mem_map.mp hx
        cases hr
    | goesOn =>
      obtain ⟨report,-,rfl⟩ := List.mem_map.mp hx
      cases hr

theorem Goes.clock_le {news : List Letter} (hg : Goes e w w' news) : w.clock ≤ w'.clock := by
  cases hg with
  | starts _ _ _ _ _ _ hclock | passes _ _ _ _ _ _ hclock | leaves _ _ _ _ hclock =>
    exact Nat.le_of_eq hclock.symm
  | performs _ hp => exact Nat.le_of_eq hp.clock.symm
  | waits _ _ hclock => exact hclock

/-- All letters of a step come from one task. -/
theorem Goes.same_task {news : List Letter} (hg : Goes e w w' news) {x y : Letter} (hx : x ∈ news)
    (hy : y ∈ news) : x.task = y.task := by
  obtain ⟨t,-,-,es,-,rfl,-,htask,-⟩ := hg.sender hx
  obtain ⟨z,-,rfl⟩ := List.mem_map.mp hy
  exact htask

/-- A task that has done something agrees with what it has sent. -/
theorem Performs.voiced (h : Performs e w w' t d es) {log : List Letter} (hv : t.Voiced log)
    {u : Task} (hu : d.follower? t = some u) : u.Voiced (log ++ t.letters es) := by
  obtain ⟨p,hp,rfl⟩ := Option.map_eq_some_iff.mp hu
  have hmem {x : Letter} (hx : x ∈ log ++ t.letters es) : x ∈ log ∨ ∃ y ∈ es,
      x = ⟨t.id,t.node.tags,y⟩ := by
    refine (List.mem_append.mp hx).imp id fun hx => ?_
    obtain ⟨y,hy,rfl⟩ := List.mem_map.mp hx
    exact ⟨y,hy,rfl⟩
  have hsent {y : Event} (hy : y ∈ es) : ⟨t.id,t.node.tags,y⟩ ∈ log ++ t.letters es :=
    List.mem_append_right _ (List.mem_map.mpr ⟨y,hy,rfl⟩)
  constructor
  · intro ha
    have hasked := h.fits.asked p hp
    rw [show p.isAsking = true from ha] at hasked
    cases hasked
  · intro hwork
    cases h.tells with
    | begins => exact ⟨_,hsent List.mem_cons_self,rfl,rfl⟩
    | goesOn hallows =>
      obtain ⟨x,hx,hb⟩ := hv.begun (Phase.isAtWork_of_allows (hallows p hp) h.going hwork)
      exact ⟨x,List.mem_append_left _ hx,hb⟩
  · intro hl x hx hid
    obtain hx | ⟨y,hy,rfl⟩ := hmem hx
    · exact hv.going h.going x hx hid
    · cases hr : y.isReport with
      | false => simp [isStart,hr]
      | true =>
        obtain ⟨report,hrep,-⟩ := h.tells.report hy hr
        have hended := h.fits.ended (Option.isSome_iff_exists.mpr ⟨report,hrep⟩) p hp
        rw [show p.isLeaving = false from hl] at hended
        cases hended
  · intro hl
    cases hr : d.posted with
    | none =>
      obtain ⟨q,hq,hgoes⟩ := h.fits.going hr
      obtain rfl : p = q := Option.some.inj (hp.symm.trans hq)
      rw [show p.isLeaving = true from hl] at hgoes
      cases hgoes
    | some report => exact ⟨_,hsent (h.tells.posted hr),rfl,rfl⟩
  · intro x hx hid
    obtain hx | ⟨y,-,rfl⟩ := hmem hx
    · exact hv.tags x hx hid
    · rfl

end World

namespace Chronicle

variable {e : Engine} {log : List Letter} {w : World} {a b f : Letter}

/-- A new task has not sent anything. -/
theorem ne_of_fresh (hc : Chronicle e log w) {id : TaskId} {r : Run} (hr : r ∈ w.runs)
    (hid : r.id = id.run) (hnew : ¬ r.HasDispatched id.node) : ∀ x ∈ log, x.task ≠ id := by
  rintro x hx rfl
  exact hnew ((hc.known x hx).hasDispatched hc.reaches.coherent hr hid)

theorem voiced (hc : Chronicle e log w) : ∀ t ∈ w.tasks, t.Voiced log := by
  induction hc with
  | world =>
    intro t ht
    cases ht
  | @step log w w' turn hc hs ih =>
    intro u hu
    obtain ⟨hu,hnone⟩ | ⟨hphase,hnone,r,hr,hid,hnew⟩ | ⟨t,ht,d,es,hp,hnews,hfollows⟩ :=
      (hs.goes hc.reaches).task_from hu
    · exact (ih u hu).append hnone
    · rw [hnone,List.append_nil]
      exact .of_silent (by rw [hphase]; rfl) (hc.ne_of_fresh hr hid hnew)
    · rw [hnews]
      exact hp.voiced (ih t ht) hfollows

/-- Of two letters of a task the first is its start and the second its report. -/
theorem paired (hc : Chronicle e log w) :
    log.Pairwise fun x y => x.task = y.task → x.isStart = true ∧ y.isStart = false := by
  induction hc with
  | world => exact .nil
  | @step log w w' turn hc hs ih =>
    have hg := hs.goes hc.reaches
    refine List.pairwise_append.mpr ⟨ih,?_,fun x hx y hy hid => ?_⟩
    · generalize w.sent w' = news at hg
      cases hg with
      | @performs t d es ht hp =>
        refine List.pairwise_map.mpr (hp.tells.pairwise.imp fun {x y} h _ => ?_)
        simp [isStart,h]
      | _ => exact .nil
    · obtain ⟨t,ht,d,es,hp,-,hmem,htask,-⟩ := hg.sender hy
      have hvoiced := hc.voiced t ht
      have hidt := hid.trans htask
      refine ⟨hvoiced.going hp.going x hx hidt,?_⟩
      rw [Bool.eq_false_iff]
      intro hstart
      have hasks := (hp.tells.start hmem (by simpa [isStart] using hstart)).1
      exact hvoiced.silent (by rw [hasks]; rfl) x hx hidt

theorem paired_of_precedes (hc : Chronicle e log w) (h : [a,b].Sublist log)
    (hid : a.task = b.task) : a.isStart = true ∧ b.isStart = false :=
  List.pairwise_iff_forall_sublist.mp hc.paired h hid

/-- The letters come in the order of time. -/
theorem ordered (hc : Chronicle e log w) :
    log.Pairwise (fun x y => y.event.time.isBefore x.event.time = false) ∧
      ∀ x ∈ log, w.now.isBefore x.event.time = false := by
  induction hc with
  | world =>
    refine ⟨.nil,fun x hx => ?_⟩
    cases hx
  | @step log w w' turn hc hs ih =>
    obtain ⟨hsorted,hpast⟩ := ih
    have hg := hs.goes hc.reaches
    have hsent : ∀ y ∈ w.sent w', y.event.time = w.now := by
      intro y hy
      obtain ⟨t,ht,d,es,hp,-,hmem,-,-⟩ := hg.sender hy
      exact hp.time_eq hmem
    have hnow : w'.now.isBefore w.now = false := Instant.ofMillis_not_isBefore hg.clock_le
    have hself : w.now.isBefore w.now = false := Instant.ofMillis_not_isBefore (Nat.le_refl _)
    constructor
    · refine List.pairwise_append.mpr ⟨hsorted,?_,fun x hx y hy => ?_⟩
      · refine List.pairwise_of_forall_mem_list fun x hx y hy => ?_
        rw [hsent x hx,hsent y hy]
        exact hself
      · rw [hsent y hy]
        exact hpast x hx
    · intro x hx
      refine Instant.not_isBefore_trans hnow ?_
      rcases List.mem_append.mp hx with hx | hx
      · exact hpast x hx
      · rw [hsent x hx]
        exact hself

theorem ne_of_precedes (hc : Chronicle e log w) (h : [a,b].Sublist log) (hb : b.isStart = true) :
    a.task ≠ b.task := by
  intro he
  rw [(hc.paired_of_precedes h he).2] at hb
  cases hb

/-- Nobody is admitted while a rival is at work. -/
theorem standing_arrival (hc : Chronicle e log w) {w' : World} {news : List Letter}
    (hg : World.Goes e w w' news) (ha : a ∈ log) (hb : b ∈ news) (hr : Rivals e a b) {u : Task}
    (hu : u ∈ w'.tasks) (hid : u.id = a.task) :
    u.phase.isLeaving = true ∨ u.phase.isCollapsed = true := by
  obtain ⟨t,ht,d,es,hp,-,hmem,htask,htags⟩ := hg.sender hb
  obtain ⟨hasks,halone⟩ := hp.tells.start hmem (by simpa [isStart] using hr.second)
  have hne : u.id ≠ t.id := by
    rw [hid]
    exact (hc.voiced t ht).silent (by rw [hasks]; rfl) a ha
  obtain ⟨hu,-⟩ | ⟨-,hnone,-⟩ | ⟨v,-,d',es',hp',hnews,hfollows⟩ := hg.task_from hu
  · obtain ⟨tag,hta,htb,hcap⟩ := hr.shared
    have hvoiced := hc.voiced u hu
    have hidle : u.phase.isAtWork ≠ true := fun hwork =>
      halone tag (htags ▸ htb) hcap u hu hwork (hvoiced.tags a ha hid.symm ▸ hta)
    -- It has started, so it does not ask any more.
    obtain hasks | hwork | hdone := u.phase.cases
    · exact absurd hid.symm (hvoiced.silent hasks a ha)
    · exact absurd hwork hidle
    · exact hdone
  · rw [hnone] at hb
    cases hb
  · rw [hnews] at hb
    obtain ⟨y,-,rfl⟩ := List.mem_map.mp hb
    exact absurd ((hp'.fits.follower hfollows).1.trans htask) hne

/-- When the second of two rivals has been admitted, the first is not at work any more. -/
theorem standing (hc : Chronicle e log w) (hab : [a,b].Sublist log) (hr : Rivals e a b) :
    ∀ t ∈ w.tasks, t.id = a.task → t.phase.isLeaving = true ∨ t.phase.isCollapsed = true := by
  induction hc with
  | world => cases hab
  | @step log w w' turn hc hs ih =>
    have hg := hs.goes hc.reaches
    intro u hu hid
    obtain hab' | hb := sublist_append_last (l := [a]) hab
    · obtain ⟨hu,-⟩ | ⟨-,-,r,hrun,hidr,hnew⟩ | ⟨t,ht,d,es,hp,-,hfollows⟩ := hg.task_from hu
      · exact ih hab' u hu hid
      · have ha : a ∈ log := hab'.subset List.mem_cons_self
        exact absurd hid.symm (hc.ne_of_fresh hrun hidr hnew a ha)
      · -- Whoever leaves does nothing else, and whoever has broken down only goes.
        have hidt := (hp.fits.follower hfollows).1
        obtain hleaving | hcollapsed := ih hab' t ht (hidt.symm.trans hid)
        · rw [hp.going] at hleaving
          cases hleaving
        · rw [Deed.follower?,hp.next_of_collapsed hcollapsed] at hfollows
          cases hfollows
    · have ha : a ∈ log := by
        refine (List.mem_append.mp (hab.subset List.mem_cons_self)).resolve_right fun ha => ?_
        exact (hc.step hs).ne_of_precedes hab hr.second (hg.same_task ha hb)
      exact hc.standing_arrival hg ha hb hr hu hid

/-- The first of two rivals does not report after the second was admitted, unless it breaks down. -/
theorem exclusive (hc : Chronicle e log w) (h : [a,b,f].Sublist log) (hr : Rivals e a b)
    (hf : f.task = a.task) (hreport : f.isStart = false) : f.isBreakdown = true := by
  induction hc with
  | world => cases h
  | @step log w w' turn hc hs ih =>
    have hg := hs.goes hc.reaches
    have hab : [a,b].Sublist (log ++ w.sent w') :=
      (List.sublist_append_left [a,b] [f]).trans h
    obtain h' | hsent := sublist_append_last (l := [a,b]) h
    · exact ih h'
    obtain hab' | hb := sublist_append_last (l := [a]) hab
    · obtain ⟨t,ht,d,es,hp,-,hmem,htask,-⟩ := hg.sender hsent
      obtain hleaving | hcollapsed := hc.standing hab' hr t ht (htask.symm.trans hf)
      · rw [hp.going] at hleaving
        cases hleaving
      · obtain ⟨report,hrep,he⟩ := hp.tells.report hmem (by simpa [isStart] using hreport)
        obtain ⟨message,hending⟩ := hp.fits.broken (hp.next_of_collapsed hcollapsed) report hrep
        obtain ⟨ending,attempts,time⟩ := report
        rw [isBreakdown,he]
        rw [show ending = .failed (.internal message) from hending]
    · have hsame := hg.same_task hb hsent
      exact absurd (hf.symm.trans hsame.symm) ((hc.step hs).ne_of_precedes hab hr.second)

end Chronicle

end Engine

end TaskGraph
