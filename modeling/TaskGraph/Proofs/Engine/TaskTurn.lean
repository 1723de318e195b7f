import TaskGraph.Proofs.Engine.Coherent

/-!
The turns of a task: what it does leaves runs and tasks fitting together. The runs that it drops go with
all that lies in them; nobody else waits for those.
-/

namespace TaskGraph.Engine

namespace Deed

/-- A run, with the report that a deed sends it. -/
def receive (d : Deed) (t : Task) (r : Run) : Run :=
  { r with inbox := r.inbox ++
      if r.id = t.id.run then d.posted.toList.map (.finished t.node.id) else [] }

def follower? (d : Deed) (t : Task) : Option Task :=
  d.next.map fun phase => { t with phase, started := t.started+d.opened.length }

variable {d : Deed} {t : Task} {r : Run}

theorem follower?_eq {p : Phase} (hn : d.next = some p) : d.follower? t =
    some { t with phase := p, started := t.started+d.opened.length } := by
  rw [follower?,hn,Option.map_some]

theorem mem_receive {e : Event} : e ∈ (d.receive t r).inbox ↔
    e ∈ r.inbox ∨ r.id = t.id.run ∧ ∃ report ∈ d.posted, e = .finished t.node.id report := by
  unfold receive
  by_cases h : r.id = t.id.run
  · simp [h,eq_comm]
  · simp [h]

theorem receive_hasReport {id : String} : (d.receive t r).HasReport id ↔
    r.HasReport id ∨ r.id = t.id.run ∧ d.posted.isSome = true ∧ id = t.node.id := by
  constructor
  · rintro ⟨report,h⟩
    rcases mem_receive.mp h with h | ⟨hr,q,hq,he⟩
    · exact .inl ⟨report,h⟩
    · cases he
      exact .inr ⟨hr,by rw [hq]; rfl,rfl⟩
  · rintro (⟨report,h⟩ | ⟨hr,hs,rfl⟩)
    · exact ⟨report,mem_receive.mpr (.inl h)⟩
    · obtain ⟨q,hq⟩ := Option.isSome_iff_exists.mp hs
      exact ⟨q,mem_receive.mpr (.inr ⟨hr,q,hq,rfl⟩)⟩

theorem Fits.opened_nodup (hf : d.Fits t) : (d.opened.map Run.id).Nodup := by
  rw [hf.ids]
  exact (List.nodup_range' 1).map fun i j he => (RunId.child_inj he).2

theorem Fits.opened_id (hf : d.Fits t) {q : Run} (hq : q ∈ d.opened) :
    ∃ k, t.started ≤ k ∧ q.id = t.id.child k := by
  have hid : q.id ∈ d.opened.map Run.id := List.mem_map.mpr ⟨q,hq,rfl⟩
  rw [hf.ids,List.mem_map] at hid
  obtain ⟨k,hk,he⟩ := hid
  exact ⟨k,(List.mem_range'_1.mp hk).1,he.symm⟩

theorem Fits.opened_inFlight (hf : d.Fits t) {q : Run} (hq : q ∈ d.opened) :
    q.schedule.inFlight = [] := by
  obtain ⟨g,-,hn⟩ := hf.opened q hq
  exact hn.inFlight

theorem receive_sensible (hs : r.Sensible) (hf : d.Fits t) (hid : t.node.id = t.id.node)
    (ha : r.id = t.id.run → t.At r) (hl : t.phase.isLeaving = false) :
    (d.receive t r).Sensible := by
  refine ⟨hs.graph,hs.table,hs.known,?_,?_,hs.waiting,hs.ended⟩
  · intro e he
    rcases mem_receive.mp he with he | ⟨hr,report,hrep,rfl⟩
    · exact hs.awaited e he
    · have hat := ha hr
      refine ⟨hid ▸ (hat.going hl).1,fun n hn hnid => ?_⟩
      have hnt : n = t.node :=
        List.inj_on_of_nodup_map (hs.graph _ (.self _)) hn hat.node hnid
      rw [hnt]
      exact hf.report report hrep
  · refine List.pairwise_append.mpr ⟨hs.reports,?_,?_⟩
    · split
      · cases d.posted with
        | none => exact .nil
        | some report => exact List.pairwise_singleton _ _
      · exact .nil
    · intro a hmem b hb hrp he
      split at hb
      · next hr =>
        obtain ⟨report,-,rfl⟩ := List.mem_map.mp hb
        cases a with
        | started => cases hrp
        | finished id q =>
          have hn : t.node.id = id := he
          exact ((ha hr).going hl).2 ⟨q,by rw [← hid,hn]; exact hmem⟩
      · cases hb

/-- The task that follows goes on, unless it has reported. -/
theorem Fits.follower (hf : d.Fits t) {u : Task} (hu : d.follower? t = some u) :
    u.id = t.id ∧ u.node = t.node ∧ u.started = t.started+d.opened.length ∧
    u.phase.runs = d.opened.map Run.id ∧ u.phase.Fits t.node.kind.targets ∧
    (d.posted.isSome = true → u.phase.isLeaving = true) := by
  obtain ⟨p,hp,rfl⟩ := Option.map_eq_some_iff.mp hu
  refine ⟨rfl,rfl,rfl,?_,hf.kept p hp,fun hs => hf.ended hs p hp⟩
  have hr := hf.runs
  rw [hp] at hr
  exact hr

theorem Fits.follower_sensible (hf : d.Fits t) (hid : t.node.id = t.id.node) {u : Task}
    (hu : d.follower? t = some u) : u.Sensible := by
  obtain ⟨hui,hun,hus,hur,hup,-⟩ := hf.follower hu
  refine ⟨by rw [hui,hun,hid],hun ▸ hup,fun id hi => ?_⟩
  rw [hur,hf.ids,List.mem_map] at hi
  obtain ⟨k,hk,rfl⟩ := hi
  have hlt := (List.mem_range'_1.mp hk).2
  exact ⟨k,by omega,by rw [hui]⟩

end Deed

namespace World

variable {w v w' : World} {r r' : Run} {t u : Task} {d : Deed}

theorem Coherent.started (h : w.Coherent) (ht : t ∈ w.tasks) (hp : t.phase.isLeaving = false)
    (time : Instant) : (w.post t.id.run (.started t.node.id time)).Coherent := by
  obtain ⟨r,hr,ha⟩ := h.home t ht
  have hs := h.run r hr
  obtain ⟨hin,hrep⟩ := ha.going hp
  have hnode := (h.task t ht).node
  have hruns : (w.post t.id.run (.started t.node.id time)).runs =
      (w.setRun { r with inbox := r.inbox ++ [.started t.node.id time] }).runs := by
    rw [post,← ha.id,run?_of_mem h.runs_nodup hr]
    exact (wakeRun_alike _ r.id).runs
  refine h.setRun { r with inbox := r.inbox ++ [.started t.node.id time] } hr rfl hruns
    ((w.post_frame _ _).2.1.trans (List.append_nil _).symm) ?_ ?_ ?_ List.nodup_nil ?_ ?_
  · refine ⟨hs.graph,hs.table,hs.known,?_,?_,hs.waiting,hs.ended⟩
    · intro e he
      rcases List.mem_append.mp he with he | he
      · exact hs.awaited e he
      · rw [List.mem_singleton.mp he]
        exact hnode ▸ hin
    · refine List.pairwise_append.mpr ⟨hs.reports,List.pairwise_singleton _ _,?_⟩
      intro a hmem b hb hrp he
      rw [List.mem_singleton.mp hb] at he
      cases a with
      | started => cases hrp
      | finished id report =>
        have hid : t.node.id = id := he
        exact hrep ⟨report,by rw [← hnode,hid]; exact hmem⟩
  · intro u hu hau
    refine ⟨hau.id,hau.node,fun hl => ⟨(hau.going hl).1,?_⟩,hau.left⟩
    rintro ⟨report,hm⟩
    rcases List.mem_append.mp hm with hm | hm
    · exact (hau.going hl).2 ⟨report,hm⟩
    · cases List.mem_singleton.mp hm
  · intro id hid
    rw [List.append_nil]
    rcases h.carried r hr id hid with ⟨report,hm⟩ | hu
    · exact .inl ⟨report,List.mem_append_left _ hm⟩
    · exact .inr hu
  · intro t ht
    cases ht
  · intro t ht
    cases ht

section Drop

/-- What stays when a task drops the runs that it waits for. -/
def Stays (t : Task) (id : RunId) : Prop := id.isWithinAny t.phase.runs = false

theorem stays_iff {id : RunId} : Stays t id ↔ ∀ x ∈ t.phase.runs, id.isWithin x = false := by
  simp [Stays,RunId.isWithinAny]

theorem Coherent.stays_self (h : w.Coherent) (ht : t ∈ w.tasks) : Stays t t.id.run := by
  refine stays_iff.mpr fun x hx => ?_
  obtain ⟨k,-,rfl⟩ := (h.task t ht).runs x hx
  exact RunId.not_isWithin_child t.id k

/-- What another task waits for stays if the task stays. -/
theorem Coherent.stays_child (h : w.Coherent) (ht : t ∈ w.tasks) (hu : u ∈ w.tasks)
    (hne : u.id ≠ t.id) (hs : Stays t u.id.run) {id : RunId} (hid : id ∈ u.phase.runs) :
    Stays t id := by
  obtain ⟨k,-,rfl⟩ := (h.task u hu).runs id hid
  refine stays_iff.mpr fun x hx => ?_
  rw [Bool.eq_false_iff]
  intro hw
  obtain ⟨j,-,rfl⟩ := (h.task t ht).runs x hx
  rcases RunId.child_isWithin.mp hw with he | hin
  · exact hne (RunId.child_inj he).1.symm
  · rw [stays_iff.mp hs _ hx] at hin
    cases hin

/-- A nested run that stays is waited for by another task, which stays too. -/
theorem Coherent.owner_stays (h : w.Coherent) (ht : t ∈ w.tasks) (hu : u ∈ w.tasks) {id : RunId}
    (hid : id ∈ u.phase.runs) (hs : Stays t id) : u.id ≠ t.id ∧ Stays t u.id.run := by
  constructor
  · intro he
    rw [h.task_unique hu ht he] at hid
    have hw := stays_iff.mp hs id hid
    rw [RunId.isWithin_self] at hw
    cases hw
  · refine stays_iff.mpr fun x hx => ?_
    obtain ⟨k,-,rfl⟩ := (h.task u hu).runs id hid
    rw [Bool.eq_false_iff]
    intro hw
    have hn := stays_iff.mp hs x hx
    rw [RunId.child_isWithin.mpr (.inr hw)] at hn
    cases hn

end Drop

theorem Coherent.opened_fresh (h : w.Coherent) (ht : t ∈ w.tasks) (hf : d.Fits t) {q : Run}
    (hq : q ∈ d.opened) : ∀ r ∈ w.runs, r.id ≠ q.id := by
  obtain ⟨k,hle,he⟩ := hf.opened_id hq
  intro r hr hrid
  rw [he] at hrid
  rcases h.owned r hr with hroot | ⟨u,hu,hl⟩
  · rw [hrid] at hroot
    cases hroot
  · obtain ⟨j,hj,hjid⟩ := (h.task u hu).runs _ hl
    obtain ⟨hid,rfl⟩ := RunId.child_inj (hrid.symm.trans hjid)
    rw [h.task_unique ht hu hid] at hle
    omega

section Acts

variable (h : w.Coherent) (ht : t ∈ w.tasks)
  (ha : (w.discard t.phase.runs).Acts w' t d)

include h ha

theorem Acts.runs_eq : w'.runs =
    ((w.runs.filter fun r => !r.id.isWithinAny t.phase.runs).map (d.receive t)) ++ d.opened := by
  obtain ⟨-,hr,-,-,-⟩ := w.discard_spec t.phase.runs
  rw [ha.runs]
  congr 1
  cases hp : d.posted with
  | none =>
    rw [deliver,hr]
    refine (List.map_id'' (fun r => ?_) _).symm
    simp [Deed.receive,hp]
  | some report =>
    have hd : ((w.discard t.phase.runs).runs.map Run.id).Nodup := by
      rw [hr]
      exact h.runs_nodup.sublist (List.Sublist.map _ List.filter_sublist)
    rw [deliver,post_runs _ _ _ hd,hr]
    refine List.map_congr_left fun r _ => ?_
    by_cases he : r.id = t.id.run <;> simp [Deed.receive,hp,he]

theorem Acts.mem_runs {q : Run} : q ∈ w'.runs ↔
    (∃ r ∈ w.runs, Stays t r.id ∧ d.receive t r = q) ∨ q ∈ d.opened := by
  rw [ha.runs_eq h,List.mem_append,List.mem_map]
  simp only [List.mem_filter,Stays,Bool.not_eq_true',and_assoc]

theorem Acts.tasks_nodup : (w'.tasks.map Task.id).Nodup := by
  obtain ⟨-,-,htasks,-,-⟩ := w.discard_spec t.phase.runs
  have hd : ((w.tasks.filter fun t' => !t'.id.run.isWithinAny t.phase.runs).map Task.id).Nodup :=
    h.tasks_nodup.sublist (List.Sublist.map _ List.filter_sublist)
  rw [ha.tasks,htasks]
  cases d.next with
  | none => exact hd.sublist (List.Sublist.map _ List.filter_sublist)
  | some p =>
    rw [List.map_map]
    refine Eq.mp (congrArg List.Nodup (List.map_congr_left fun old _ => ?_)) hd
    simp only [Function.comp_apply]
    split
    · next he => exact he
    · rfl

include ht

theorem Acts.mem_tasks : u ∈ w'.tasks ↔
    u ∈ w.tasks ∧ Stays t u.id.run ∧ u.id ≠ t.id ∨ d.follower? t = some u := by
  obtain ⟨-,-,htasks,-,-⟩ := w.discard_spec t.phase.runs
  have hself := h.stays_self ht
  rw [ha.tasks,htasks]
  cases hn : d.next with
  | none =>
    simp [Deed.follower?,hn,Stays,and_comm,and_left_comm]
  | some p =>
    simp only [Deed.follower?,hn,Option.map_some,Option.some.injEq,List.mem_map,List.mem_filter,
      Bool.not_eq_true']
    constructor
    · rintro ⟨old,⟨ho,hs⟩,rfl⟩
      split
      · exact .inr rfl
      · next hne => exact .inl ⟨ho,hs,hne⟩
    · rintro (⟨hu,hs,hne⟩ | rfl)
      · exact ⟨u,⟨hu,hs⟩,if_neg hne⟩
      · exact ⟨t,⟨ht,hself⟩,if_pos rfl⟩

variable (hf : d.Fits t) (hl : t.phase.isLeaving = false)

include hf

theorem Acts.runs_nodup : (w'.runs.map Run.id).Nodup := by
  rw [ha.runs_eq h,List.map_append,List.map_map]
  refine List.nodup_append.mpr ⟨?_,hf.opened_nodup,?_⟩
  · exact h.runs_nodup.sublist (List.Sublist.map _ List.filter_sublist)
  · intro a hmem b hb he
    obtain ⟨r,hr,rfl⟩ := List.mem_map.mp hmem
    obtain ⟨q,hq,rfl⟩ := List.mem_map.mp hb
    exact h.opened_fresh ht hf hq r (List.mem_filter.mp hr).1 he

theorem Acts.children (hu : u ∈ w'.tasks) : ∀ id ∈ u.phase.runs, ∃ r ∈ w'.runs, r.id = id := by
  intro id hi
  rcases (ha.mem_tasks h ht).mp hu with ⟨hu,hs,hne⟩ | hu
  · obtain ⟨r,hr,rfl⟩ := h.children u hu id hi
    exact ⟨d.receive t r,(ha.mem_runs h).mpr (.inl ⟨r,hr,h.stays_child ht hu hne hs hi,rfl⟩),rfl⟩
  · rw [(hf.follower hu).2.2.2.1] at hi
    obtain ⟨q,hq,rfl⟩ := List.mem_map.mp hi
    exact ⟨q,(ha.mem_runs h).mpr (.inr hq),rfl⟩

theorem Acts.owned {q : Run} (hq : q ∈ w'.runs) :
    q.id.steps = [] ∨ ∃ u ∈ w'.tasks, q.id ∈ u.phase.runs := by
  rcases (ha.mem_runs h).mp hq with ⟨r,hr,hs,rfl⟩ | hq
  · rcases h.owned r hr with hroot | ⟨u,hu,hl⟩
    · exact .inl hroot
    · obtain ⟨hne,hus⟩ := h.owner_stays ht hu hl hs
      exact .inr ⟨u,(ha.mem_tasks h ht).mpr (.inl ⟨hu,hus,hne⟩),hl⟩
  · have hmem : q.id ∈ d.opened.map Run.id := List.mem_map.mpr ⟨q,hq,rfl⟩
    cases hn : d.next with
    | none =>
      have hr := hf.runs
      rw [hn] at hr
      rw [← hr] at hmem
      cases hmem
    | some p =>
      have hfol := Deed.follower?_eq (t := t) hn
      refine .inr ⟨_,(ha.mem_tasks h ht).mpr (.inr hfol),?_⟩
      rw [(hf.follower hfol).2.2.2.1]
      exact hmem

include hl

/-- A task that stays or goes on belongs to its run as before; the report of the one that acts reaches
no other. -/
theorem Acts.home (hu : u ∈ w'.tasks) : ∃ r ∈ w'.runs, u.At r := by
  have hid := (h.task t ht).node
  rcases (ha.mem_tasks h ht).mp hu with ⟨hu,hs,hne⟩ | hu
  · obtain ⟨r,hr,hau⟩ := h.home u hu
    have hmem : d.receive t r ∈ w'.runs := (ha.mem_runs h).mpr (.inl ⟨r,hr,hau.id ▸ hs,rfl⟩)
    refine ⟨d.receive t r,hmem,hau.id,hau.node,fun hul => ⟨(hau.going hul).1,?_⟩,hau.left⟩
    intro hrep
    rcases Deed.receive_hasReport.mp hrep with hrep | ⟨hr,-,hn⟩
    · exact (hau.going hul).2 hrep
    · exact hne (TaskId.eq_of (hau.id.symm.trans hr) (hn.trans hid))
  · obtain ⟨home,hhome,hat⟩ := h.home t ht
    obtain ⟨hui,hun,-,-,-,hleft⟩ := hf.follower hu
    obtain ⟨hin,hnone⟩ := hat.going hl
    have hmem : d.receive t home ∈ w'.runs :=
      (ha.mem_runs h).mpr (.inl ⟨home,hhome,hat.id ▸ h.stays_self ht,rfl⟩)
    refine ⟨d.receive t home,hmem,hui ▸ hat.id,hun ▸ hat.node,fun hul => ?_,fun _ => ?_⟩
    · rw [hui]
      refine ⟨hin,fun hrep => ?_⟩
      rcases Deed.receive_hasReport.mp hrep with hrep | ⟨-,hs,-⟩
      · exact hnone hrep
      · rw [hleft hs] at hul
        cases hul
    · rw [hui]
      exact .inl hin

omit hl

/-- Who has not reported goes on. -/
theorem Acts.carried {q : Run} (hq : q ∈ w'.runs) {id : String} (hi : id ∈ q.schedule.inFlight) :
    q.HasReport id ∨ ∃ u ∈ w'.tasks, u.id = ⟨q.id,id⟩ ∧ u.phase.isLeaving = false := by
  rcases (ha.mem_runs h).mp hq with ⟨r,hr,hs,rfl⟩ | hq
  · rcases h.carried r hr id hi with hrep | ⟨u,hu,hui,hul⟩
    · exact .inl (Deed.receive_hasReport.mpr (.inl hrep))
    by_cases hne : u.id = t.id
    · have htid : t.id = ⟨r.id,id⟩ := hne.symm.trans hui
      cases hp : d.posted with
      | none =>
        obtain ⟨p,hn,hpl⟩ := hf.going hp
        have hfol := Deed.follower?_eq (t := t) hn
        exact .inr ⟨_,(ha.mem_tasks h ht).mpr (.inr hfol),htid,hpl⟩
      | some report =>
        refine .inl (Deed.receive_hasReport.mpr (.inr ⟨?_,by rw [hp]; rfl,?_⟩))
        · rw [htid]
        · rw [(h.task t ht).node,htid]
    · refine .inr ⟨u,(ha.mem_tasks h ht).mpr (.inl ⟨hu,?_,hne⟩),hui,hul⟩
      rw [hui]
      exact hs
  · rw [hf.opened_inFlight hq] at hi
    cases hi

end Acts

theorem Coherent.acts (h : w.Coherent) (ht : t ∈ w.tasks) (hl : t.phase.isLeaving = false)
    (ha : (w.discard t.phase.runs).Acts w' t d) (hf : d.Fits t) : w'.Coherent where
  runs_nodup := ha.runs_nodup h ht hf
  tasks_nodup := ha.tasks_nodup h
  run q hq := by
    rcases (ha.mem_runs h).mp hq with ⟨r,hr,-,rfl⟩ | hq
    · exact Deed.receive_sensible (h.run r hr) hf (h.task t ht).node (h.at ht hr) hl
    · obtain ⟨home,hhome,hat⟩ := h.home t ht
      obtain ⟨g,hg,hn⟩ := hf.opened q hq
      exact hn.sensible ((h.run home hhome).graph.nested hat.node hg)
  task u hu := by
    rcases (ha.mem_tasks h ht).mp hu with ⟨hu,-⟩ | hu
    · exact h.task u hu
    · exact hf.follower_sensible (h.task t ht).node hu
  home u hu := ha.home h ht hf hl hu
  carried q hq id hi := ha.carried h ht hf hq hi
  children u hu := ha.children h ht hf hu
  owned q hq := ha.owned h ht hf hq

theorem Coherent.leaves (h : w.Coherent) (ht : t ∈ w.tasks) (hl : t.phase.isLeaving = true)
    (ha : Alike { w with tasks := w.tasks.filter fun other => other.id != t.id } w') :
    w'.Coherent := by
  refine Coherent.of_alike ?_ ha
  have hmem {u : Task} : u ∈ w.tasks.filter (fun other => other.id != t.id) ↔
      u ∈ w.tasks ∧ u.id ≠ t.id := by simp
  have hruns : t.phase.runs = [] := by
    cases hp : t.phase with
    | leaving => rfl
    | _ =>
      rw [hp] at hl
      cases hl
  constructor
  · exact h.runs_nodup
  · exact h.tasks_nodup.sublist (List.Sublist.map _ List.filter_sublist)
  · exact h.run
  · exact fun u hu => h.task u (hmem.mp hu).1
  · exact fun u hu => h.home u (hmem.mp hu).1
  · intro r hr id hi
    rcases h.carried r hr id hi with hrep | ⟨u,hu,hui,hul⟩
    · exact .inl hrep
    · refine .inr ⟨u,hmem.mpr ⟨hu,fun he => ?_⟩,hui,hul⟩
      rw [h.task_unique hu ht he,hl] at hul
      cases hul
  · exact fun u hu => h.children u (hmem.mp hu).1
  · intro r hr
    rcases h.owned r hr with hroot | ⟨u,hu,hin⟩
    · exact .inl hroot
    · refine .inr ⟨u,hmem.mpr ⟨hu,fun he => ?_⟩,hin⟩
      rw [h.task_unique hu ht he,hruns] at hin
      cases hin

/-- A task that begins has told its run, and drops nothing. -/
theorem Coherent.begun (h : w.Coherent) (ht : t ∈ w.tasks) (hp : t.phase = .asking) {time : Instant}
    {v : World} (ha : Alike (w.post t.id.run (.started t.node.id time)) v) {bound : Nat}
    (hd : v.Does w' t bound) : v.Coherent ∧ v.tasks = w.tasks ∧
      ∃ d : Deed, (v.discard t.phase.runs).Acts w' t d ∧ d.Fits t := by
  have hstart := (h.started ht (by rw [hp]; rfl) time).of_alike ha
  have htasks : v.tasks = w.tasks := ha.tasks.trans (w.post_frame _ _).2.1
  obtain ⟨d,hact,hf,-⟩ := hd.of_alike (discard_nil v).symm v.discard_nil_admission.symm
  refine ⟨hstart,htasks,d,?_,hf⟩
  rw [hp]
  exact hact

theorem Coherent.turn (h : w.Coherent) (ht : t ∈ w.tasks) (hd : Turn w w' t) : w'.Coherent := by
  cases hd with
  | idle _ ha => exact h.of_alike ha
  | begins time _ hp ha hd =>
    obtain ⟨hstart,htasks,d,hact,hf⟩ := h.begun ht hp ha hd
    exact hstart.acts (htasks ▸ ht) (by rw [hp]; rfl) hact hf
  | acts hl hd =>
    obtain ⟨d,ha,hf,-⟩ := hd
    exact h.acts ht hl ha hf
  | leaves hl ha => exact h.leaves ht hl ha

end World

end TaskGraph.Engine
