import TaskGraph.Proofs.Engine.Life

/-!
Every diary tells a life: as long as a task is there its diary fits where it stands, and when it is gone
it has reported, unless its run was dropped.
-/

namespace TaskGraph

/-- Whether a record says what a report says. -/
structure Record.Tells (record : Record) (report : Report) : Prop where
  status : record.status = report.ending.status
  attempts : record.attempts = report.attempts
  value : ∀ v unselected, report.ending = .success v unselected → record.result = some v
  failure : ∀ f, report.ending = .failed f → record.failure = some f

theorem Schedule.settle_tells (now : Instant) (report : Report) {r : Record}
    (h : r.status.isTerminal = false) : (settle now report r).1.Tells report := by
  unfold settle
  cases he : report.ending <;> simp only [Record.succeed,Record.fail,Record.cancel,Record.finish,h] <;>
    exact ⟨by rw [he]; rfl,rfl,by rw [he]; rintro _ _ ⟨⟩ <;> rfl,by rw [he]; rintro _ ⟨⟩ <;> rfl⟩

/-- A node that has reported is not skipped any more. -/
theorem Schedule.reported_self (now : Instant) (id : String) (report : Report) (r : Record) :
    reported now id report id r = (settle now report r).1 := by
  rw [reported,if_pos rfl]
  split
  · exact (Record.skip_respects now _ _).2 (settle_isTerminal now report r)
  · rfl

namespace Engine

/-- How far the life of a node has come by a note: its attempts are 0, the block that runs in any case
1, the handler 2, a breakdown 3 and the report 4. -/
def Note.stage : Note → Nat
  | .opens (.always _) .. => 1
  | .opens (.handler _) .. => 2
  | .breaksDown _ => 3
  | .reports _ => 4
  | _ => 0

theorem Note.stage_of_isInner {note : Note} (h : note.isInner = true) : note.stage = 0 := by
  cases note with
  | opens part => cases part <;> first | rfl | cases h
  | closes => rfl
  | _ => cases h

section Stages

variable {n : GraphNode Graph} {s : Scope} {A : Account} {k ready : Nat} {log : List Line}

theorem Tried.Fits.stage {a : Tried} (h : a.Fits A ready) : ∀ x ∈ a.lines, x.note.stage = 0 := by
  intro x hx
  obtain rfl | hx := List.mem_cons.mp hx
  · rfl
  rcases List.mem_append.mp hx with hx | hx
  · exact Note.stage_of_isInner (h.inner x hx)
  · rw [List.mem_singleton.mp hx]
    rfl

theorem Rounds.stage (h : Rounds n A k ready log) : ∀ x ∈ log, x.note.stage = 0 := by
  induction h with
  | none => exact nofun
  | again _ _ hf _ ih =>
    intro x hx
    rcases List.mem_append.mp hx with hx | hx
    · exact (List.mem_append.mp hx).elim (ih x) (hf.stage x)
    · rw [List.mem_singleton.mp hx]
      rfl

theorem Rounds.stage_begun {inner : List Line} {start : Moment} (h : Rounds n A k ready log)
    (hinner : ∀ x ∈ inner, x.note.isInner = true) :
    ∀ x ∈ log ++ ⟨start,.begins (k+1)⟩::inner, x.note.stage = 0 := by
  intro x hx
  rcases List.mem_append.mp hx with hx | hx
  · exact h.stage x hx
  obtain rfl | hx := List.mem_cons.mp hx
  · rfl
  · exact Note.stage_of_isInner (hinner x hx)

theorem Over.stage {cancelled : Bool} {outcome : Outcome} (h : Over n A k cancelled log outcome) :
    ∀ x ∈ log, x.note.stage = 0 := by
  intro x hx
  cases h with
  | ended hr _ hf => exact (List.mem_append.mp hx).elim (hr.stage x) (hf.stage x)
  | stopped hr =>
    rcases List.mem_append.mp hx with hx | hx
    · exact hr.stage x hx
    · rw [List.mem_singleton.mp hx]
      rfl

theorem Settled.stage {outcome : Outcome} (h : Settled n s A k log outcome) :
    ∀ x ∈ log, x.note.stage ≤ 1 := by
  intro x hx
  cases h with
  | plain ho | dropped ho => exact Nat.le_trans (Nat.le_of_eq (ho.stage x hx)) (Nat.zero_le 1)
  | always ho =>
    rcases List.mem_append.mp hx with hx | hx
    · exact Nat.le_trans (Nat.le_of_eq (ho.stage x hx)) (Nat.zero_le 1)
    · rcases List.mem_cons.mp hx with rfl | hx
      · exact Nat.le_refl 1
      · rw [List.mem_singleton.mp hx]
        exact Nat.zero_le 1

/-- The report is the last thing in a diary. -/
theorem Life.ends {report : Report} (h : Life n s A log report) : ∃ front m,
    log = front ++ [⟨m,.reports report⟩] ∧ ∀ x ∈ front, x.note.stage < 4 := by
  have hlt {front : List Line} {k : Nat} (hk : k < 4) (h : ∀ x ∈ front, x.note.stage ≤ k) :
      ∀ x ∈ front, x.note.stage < 4 := fun x hx => Nat.lt_of_le_of_lt (h x hx) hk
  cases h with
  | unasked =>
    refine ⟨[_],_,rfl,fun x hx => ?_⟩
    rw [List.mem_singleton.mp hx]
    exact Nat.zero_lt_succ 3
  | success hs | cancelled hs | failed hs => exact ⟨_,_,rfl,hlt (by omega) hs.stage⟩
  | @handled _ log f _ m m' run result hs =>
    refine ⟨log ++ [⟨m,.opens (.handler f) run ((Part.handler f).start? n s)⟩,⟨m',.closes run result⟩],
      m',by simp,fun x hx => ?_⟩
    rcases List.mem_append.mp hx with hx | hx
    · exact hlt (by omega) hs.stage x hx
    · simp only [List.mem_cons,List.not_mem_nil,or_false] at hx
      obtain rfl | rfl := hx
      · exact Nat.lt_add_of_pos_right (Nat.zero_lt_two)
      · exact Nat.zero_lt_succ 3
  | @broken k _ log inner start m m' message hr _ hinner =>
    refine ⟨log ++ ⟨start,.begins (k+1)⟩::inner ++ [⟨m,.breaksDown message⟩],m',by simp,
      fun x hx => ?_⟩
    rcases List.mem_append.mp hx with hx | hx
    · exact hlt (by omega) (fun x hx => Nat.le_of_eq (hr.stage_begun hinner x hx)) x hx
    · rw [List.mem_singleton.mp hx]
      exact Nat.lt_succ_self 3

/-- Who has reported is leaving. -/
theorem Living.life {p : Phase} (h : Living n s A log p) {m : Moment} {report : Report}
    (hx : ⟨m,.reports report⟩ ∈ log) : p = .leaving ∧ Life n s A log report := by
  have hnone {k : Nat} (hk : k < 4) (h : ∀ x ∈ log, x.note.stage ≤ k) : False :=
    absurd (h _ hx) (Nat.not_le.mpr hk)
  cases h with
  | asking => cases hx
  | attempting hr _ hinner =>
    exact (hnone (by omega) fun x hx => Nat.le_of_eq (hr.stage_begun hinner x hx)).elim
  | pausing hr => exact (hnone (by omega) fun x hx => Nat.le_of_eq (hr.stage x hx)).elim
  | always ho =>
    rcases List.mem_append.mp hx with hx | hx
    · exact absurd (show 4 = 0 from ho.stage _ hx) (by decide)
    · cases List.mem_singleton.mp hx
  | handling hs =>
    rcases List.mem_append.mp hx with hx | hx
    · exact absurd (show 4 ≤ 1 from hs.stage _ hx) (by decide)
    · cases List.mem_singleton.mp hx
  | leaving hl =>
    obtain ⟨front,m',rfl,hfront⟩ := hl.ends
    rcases List.mem_append.mp hx with hx | hx
    · exact absurd (show 4 < 4 from hfront _ hx) (by decide)
    · cases List.mem_singleton.mp hx
      exact ⟨rfl,hl⟩
  | collapsed hr _ hinner =>
    rcases List.mem_append.mp hx with hx | hx
    · exact absurd (show 4 = 0 from hr.stage_begun hinner _ hx) (by decide)
    · cases List.mem_singleton.mp hx

theorem Living.reported (h : Living n s A log .leaving) : ∃ report, Life n s A log report := by
  cases h with
  | attempting _ _ _ ha => cases ha
  | leaving h => exact ⟨_,h⟩

end Stages

section Attempts

variable {n : GraphNode Graph} {s : Scope} {A : Account} {k ready : Nat} {log rest : List Line}

/-- Whether every end of an attempt is that of one which an account tells. -/
def Account.TellsEnds (A : Account) (log : List Line) : Prop :=
  ∀ x ∈ log, ∀ k outcome, x.note = .ends k outcome → ∃ a : Tried, a.attempt = k ∧
    a.outcome = outcome ∧ a.finish = x.moment ∧ a.lines <:+: log ∧
    A.whole k a.start a.inner a.finish outcome

namespace Account.TellsEnds

theorem append (h : A.TellsEnds log) (hr : ∀ x ∈ rest, ∀ k outcome, x.note ≠ .ends k outcome) :
    A.TellsEnds (log ++ rest) := by
  intro x hx k outcome hn
  rcases List.mem_append.mp hx with hx | hx
  · obtain ⟨a,hk,ho,hm,hin,hw⟩ := h x hx k outcome hn
    exact ⟨a,hk,ho,hm,hin.trans (List.prefix_append _ _).isInfix,hw⟩
  · exact absurd hn (hr x hx k outcome)

theorem tried (h : A.TellsEnds log) {a : Tried} (hf : a.Fits A ready) :
    A.TellsEnds (log ++ a.lines) := by
  intro x hx k outcome hn
  rcases List.mem_append.mp hx with hx | hx
  · obtain ⟨b,hk,ho,hm,hin,hw⟩ := h x hx k outcome hn
    exact ⟨b,hk,ho,hm,hin.trans (List.prefix_append _ _).isInfix,hw⟩
  · obtain rfl | hx := List.mem_cons.mp hx
    · cases hn
    rcases List.mem_append.mp hx with hx | hx
    · have hinner := hf.inner x hx
      rw [hn] at hinner
      cases hinner
    · obtain rfl := List.mem_singleton.mp hx
      cases hn
      exact ⟨a,rfl,rfl,rfl,(List.suffix_append _ _).isInfix,hf.whole⟩

end Account.TellsEnds

theorem Rounds.tellsEnds (h : Rounds n A k ready log) : A.TellsEnds log := by
  induction h with
  | none => exact nofun
  | again _ _ hf _ ih => exact (ih.tried hf).append (by simp)

theorem Rounds.tellsEnds_begun {inner : List Line} {start : Moment} (h : Rounds n A k ready log)
    (hinner : ∀ x ∈ inner, x.note.isInner = true) :
    A.TellsEnds (log ++ ⟨start,.begins (k+1)⟩::inner) := by
  refine h.tellsEnds.append fun x hx j outcome hn => ?_
  obtain rfl | hx := List.mem_cons.mp hx
  · cases hn
  · have hin := hinner x hx
    rw [hn] at hin
    cases hin

theorem Over.tellsEnds {cancelled : Bool} {outcome : Outcome}
    (h : Over n A k cancelled log outcome) : A.TellsEnds log := by
  cases h with
  | ended hr _ hf => exact hr.tellsEnds.tried hf
  | stopped hr => exact hr.tellsEnds.append (by simp)

theorem Settled.tellsEnds {outcome : Outcome} (h : Settled n s A k log outcome) :
    A.TellsEnds log := by
  cases h with
  | plain ho | dropped ho => exact ho.tellsEnds
  | always ho => exact ho.tellsEnds.append (by simp)

theorem Life.tellsEnds {report : Report} (h : Life n s A log report) : A.TellsEnds log := by
  cases h with
  | unasked => simp [Account.TellsEnds]
  | success hs | cancelled hs | failed hs | handled hs => exact hs.tellsEnds.append (by simp)
  | broken hr _ hinner => exact (hr.tellsEnds_begun hinner).append (by simp)

theorem Living.tellsEnds {p : Phase} (h : Living n s A log p) : A.TellsEnds log := by
  cases h with
  | asking => exact nofun
  | attempting hr _ hinner => exact hr.tellsEnds_begun hinner
  | pausing hr => exact hr.tellsEnds
  | always ho => exact ho.tellsEnds.append (by simp)
  | handling hs => exact hs.tellsEnds.append (by simp)
  | leaving hl => exact hl.tellsEnds
  | collapsed hr _ hinner => exact (hr.tellsEnds_begun hinner).append (by simp)

/-- Who breaks down has reason to. -/
theorem Living.breaks {p : Phase} (h : Living n s A log p) {x : Line} {message : String} (hx : x ∈ log)
    (hb : x.note = .breaksDown message) : A.breaks := by
  have hstage : x.note.stage = 3 := by rw [hb]; rfl
  have hearly (hle : x.note.stage ≤ 1) : A.breaks := by omega
  have hother {y : Line} (he : x = y) (hy : y.note.stage ≠ 3) : A.breaks := absurd (he ▸ hstage) hy
  cases h with
  | asking => cases hx
  | attempting hr _ hinner => exact hearly (by rw [hr.stage_begun hinner x hx]; decide)
  | pausing hr => exact hearly (by rw [hr.stage x hx]; decide)
  | always ho =>
    rcases List.mem_append.mp hx with hx | hx
    · exact hearly (by rw [ho.stage x hx]; decide)
    · exact hother (List.mem_singleton.mp hx) (by simp [Note.stage])
  | handling hs =>
    rcases List.mem_append.mp hx with hx | hx
    · exact hearly (hs.stage x hx)
    · exact hother (List.mem_singleton.mp hx) (by simp [Note.stage])
  | leaving hl =>
    cases hl with
    | unasked =>
      simp only [List.mem_cons,List.not_mem_nil,or_false] at hx
      obtain hx | hx := hx <;> exact hother hx (by simp [Note.stage])
    | success hs | cancelled hs | failed hs =>
      rcases List.mem_append.mp hx with hx | hx
      · exact hearly (hs.stage x hx)
      · exact hother (List.mem_singleton.mp hx) (by simp [Note.stage])
    | handled hs =>
      rcases List.mem_append.mp hx with hx | hx
      · exact hearly (hs.stage x hx)
      · simp only [List.mem_cons,List.not_mem_nil,or_false] at hx
        obtain hx | hx | hx := hx <;> exact hother hx (by simp [Note.stage])
    | broken _ _ _ hbreaks => exact hbreaks
  | collapsed _ _ _ hbreaks => exact hbreaks

end Attempts

open World

variable {e : Engine} {id : TaskId} {log : List Line} {w w' : World}

/-- The run of a known task is one that goes on. -/
theorem World.Knows.run_from {news : List Letter} (hk : w.Knows id) (hg : Goes e w w' news)
    (hw : w.Coherent) {q : Run} (hq : q ∈ w'.runs) (hid : q.id = id.run) : ∃ r ∈ w.runs, r.id = q.id ∧
    (q.schedule = r.schedule ∧ r.inbox ⊆ q.inbox ∨ ∃ fresh, Run.Course w r q fresh) := by
  obtain ⟨r,hr,hrid,-⟩ | ⟨-,hfree⟩ | ⟨t,ht,k,hle,hchild⟩ := hg.run_from hw hq
  · exact ⟨r,hr,hrid.symm,hg.same_run hw hr hq hrid⟩
  · obtain ⟨r,hr,hroots⟩ := hk.root_mem
    exact absurd (hroots.trans (by rw [hid])) (hfree r hr)
  · exact absurd (hid.symm.trans hchild) (hk.ne_child ht hle)

/-- What the diary of a task says of it, with an account of the attempts of every node. -/
structure Story (A : GraphNode Graph → Scope → Account) (id : TaskId) (log : List Line) (w : World) :
    Prop where
  living : ∀ t ∈ w.tasks, t.id = id → Living t.node t.scope (A t.node t.scope) log t.phase
  gone : (∀ t ∈ w.tasks, t.id ≠ id) → ∀ r ∈ w.runs, r.id = id.run → log = [] ∨
    ∃ n ∈ r.schedule.graph.nodes, ∃ s report, n.id = id.node ∧ Life n s (A n s) log report

theorem Diary.story {A : GraphNode Graph → Scope → Account}
    (hA : ∀ n s, (A n s).Holds e.setting n s) (hd : Diary e id log w) : Story A id log w := by
  induction hd with
  | world =>
    refine ⟨fun t ht => ?_,fun _ r hr => ?_⟩
    · cases ht
    · cases hr
  | @own log w w' hd hm ih =>
    have hw := hd.reaches.coherent
    obtain ⟨t,q,rfl,henacts⟩ := enacts hd.reaches hm
    have hcarries := (ih.living t henacts.mem rfl).carries (hA _ _)
      (fun x hx => (hd.past x hx).1) henacts.sequel
    rw [henacts.lines]
    unfold Sequel.Carries at hcarries
    constructor
    · intro u hu hid
      obtain ⟨p,hp,halike⟩ := henacts.shows.phase u hu hid
      obtain ⟨hnode,hscope⟩ := henacts.same u hu hid
      rw [hp] at hcarries
      rw [hnode,hscope]
      exact Living.of_alike hcarries halike
    · intro hgone r' hr' hid
      obtain ⟨r,hr,hrid,hs,-⟩ := henacts.home r' hr' hid
      have hat := hw.at henacts.mem hr (hrid.trans hid)
      rw [henacts.gone hgone] at hcarries
      obtain ⟨report,hlife⟩ := hcarries
      exact .inr ⟨t.node,hs ▸ hat.node,t.scope,report,(hw.task t henacts.mem).node,hlife⟩
  | @aside log w w' hd ha ih =>
    have hw := hd.reaches.coherent
    obtain ⟨turn,hs⟩ := ha.step
    have hg := hs.goes hd.reaches
    have hleaves := ha.leaves hd.reaches
    -- A run that is dispatched anew has known nothing of the task.
    have hfresh {r : Run} (hr : r ∈ w.runs) (hid : r.id = id.run) (hno : ¬ r.HasDispatched id.node) :
        log = [] := by
      by_contra hne
      exact hno ((hd.knows hne).hasDispatched hw hr hid)
    constructor
    · intro u hu hid
      obtain hu | ⟨hp,r,hr,hrid,hno⟩ := hleaves.origin u hu hid
      · exact ih.living u hu hid
      · rw [hp,hfresh hr hrid hno]
        exact .asking
    · intro hgone r' hr' hid
      by_cases hthere : ∃ t ∈ w.tasks, t.id = id
      · obtain ⟨t,ht,htid⟩ := hthere
        obtain hstays | hdropped := hleaves.stays t ht htid
        · exact absurd htid (hgone t hstays)
        · exact absurd hid (hdropped r' hr')
      have hnone (t : Task) (ht : t ∈ w.tasks) (htid : t.id = id) : False := hthere ⟨t,ht,htid⟩
      refine or_iff_not_imp_left.mpr fun hne => ?_
      obtain ⟨r,hr,hrid,hsame⟩ := (hd.knows hne).run_from hg hw hr' hid
      obtain ⟨n,hn,hlife⟩ := (ih.gone hnone r hr (hrid.trans hid)).resolve_left hne
      refine ⟨n,?_,hlife⟩
      obtain ⟨hsch,-⟩ | ⟨fresh,hcourse⟩ := hsame
      · rwa [hsch]
      · rwa [hcourse.graph]

/-- A task belongs to the node with its id. -/
theorem World.Coherent.node_eq (hw : w.Coherent) {t : Task} (ht : t ∈ w.tasks) {r : Run}
    (hr : r ∈ w.runs) (hid : r.id = t.id.run) {n : GraphNode Graph} (hn : n ∈ r.schedule.graph.nodes)
    (hnode : n.id = t.id.node) : t.node = n :=
  List.inj_on_of_nodup_map ((hw.run r hr).graph _ (.self _)) (hw.at ht hr hid).node hn
    ((hw.task t ht).node.trans hnode.symm)

/-- Of a task with a diary there is a node in its run, and the diary fits a phase of it. -/
theorem Diary.living {A : GraphNode Graph → Scope → Account}
    (hA : ∀ n s, (A n s).Holds e.setting n s) (hd : Diary e id log w) {r : Run} (hr : r ∈ w.runs)
    (hid : r.id = id.run) (hne : log ≠ []) {n : GraphNode Graph} (hn : n ∈ r.schedule.graph.nodes)
    (hnid : n.id = id.node) : ∃ s p, Living n s (A n s) log p ∧
      ((∀ t ∈ w.tasks, t.id ≠ id) → p.isLeaving = true) ∧
      ∀ t ∈ w.tasks, t.id = id → t.node = n ∧ t.scope = s ∧ t.phase = p := by
  have hw := hd.reaches.coherent
  have hst := hd.story hA
  by_cases hthere : ∃ t ∈ w.tasks, t.id = id
  · obtain ⟨t,ht,rfl⟩ := hthere
    obtain rfl := hw.node_eq ht hr hid hn hnid
    refine ⟨t.scope,t.phase,hst.living t ht rfl,fun hgone => absurd rfl (hgone t ht),?_⟩
    intro u hu hui
    rw [hw.task_unique hu ht hui]
    exact ⟨rfl,rfl,rfl⟩
  · have hgone (t : Task) (ht : t ∈ w.tasks) : t.id ≠ id := fun he => hthere ⟨t,ht,he⟩
    obtain ⟨m,hm,s,report,hmid,hlife⟩ := (hst.gone hgone r hr hid).resolve_left hne
    obtain rfl : m = n := List.inj_on_of_nodup_map ((hw.run r hr).graph _ (.self _)) hm hn
      (hmid.trans hnid.symm)
    exact ⟨s,.leaving,.leaving hlife,fun _ => rfl,fun t ht he => absurd he (hgone t ht)⟩

/-- Whether a run has heard a report, and if it has applied it already shows it. -/
def Run.HasHeard (r : Run) (node : String) (report : Report) : Prop :=
  .finished node report ∈ r.inbox ∨
    ∃ record, r.schedule.record? node = some record ∧ record.Tells report

theorem Run.HasHeard.of_same {r q : Run} (hs : q.schedule = r.schedule) (hi : r.inbox ⊆ q.inbox)
    {node : String} {report : Report} (h : r.HasHeard node report) : q.HasHeard node report := by
  rw [HasHeard,hs]
  exact h.imp_left fun hin => hi hin

/-- What a run has heard it shows once it has applied it. -/
theorem Run.Course.hasHeard {r q : Run} {fresh : List Task} (hc : Run.Course w r q fresh)
    (hs : r.Sensible) (hopen : ∀ id ∈ r.schedule.inFlight, (r.schedule.status id).isTerminal = false)
    {node : String} {report : Report} (h : r.HasHeard node report) : q.HasHeard node report := by
  obtain hin | ⟨record,hrec,htells⟩ := h
  · cases hc with
    | keeps _ hi | passes _ hi | closes _ _ hi =>
      rw [← hi] at hin
      exact .inl hin
    | @takes event rest hi hsch hi' =>
      rw [hi] at hin
      obtain rfl | hin := List.mem_cons.mp hin
      · have hawaits := hs.awaited _ (hi ▸ List.mem_cons_self)
        obtain ⟨old,hold⟩ := hs.table.record?.mp (hs.known node hawaits.mem)
        have hterminal : old.status.isTerminal = false :=
          r.schedule.status_eq hold ▸ hopen node hawaits.mem
        refine .inr ⟨_,?_,Schedule.settle_tells w.now report hterminal⟩
        rw [hsch,Schedule.record?_finished r.schedule w.now hold,hold,Option.map_some,
          Schedule.reported_self]
      · rw [← hi'] at hin
        exact .inl hin
  · refine .inr ⟨record,hc.later.of_terminal hrec ?_,htells⟩
    rw [htells.status]
    exact report.ending.status_isTerminal

/-- Who is in flight has not ended. -/
theorem Reaches.unfinished (hr : Reaches e w) {r : Run} (hmem : r ∈ w.runs) :
    ∀ node ∈ r.schedule.inFlight, (r.schedule.status node).isTerminal = false := by
  intro node hin
  obtain ⟨log,hj⟩ := hr.journal
  obtain ⟨scope,h,s,ht⟩ := hj.chronicle.traces r hmem
  have hc := ht.reaches.consistent (ht.sound _ (.self _))
  obtain hs | ⟨-,hi,-⟩ := ht.ends
  · rw [hs] at hin ⊢
    exact hc.unfinished node hin
  · rw [ht.inFlight,hi] at hin
    cases hin

theorem Run.HasHeard.tells {r : Run} {node : String} {report : Report} (h : r.HasHeard node report)
    (hr : Reaches e w) (hmem : r ∈ w.runs) {record : Record}
    (hrec : r.schedule.record? node = some record) (ht : record.status.isTerminal = true) :
    record.Tells report := by
  obtain hin | ⟨record',hrec',htells⟩ := h
  · have hawaits := (hr.coherent.run r hmem).awaited _ hin
    have hopen := hr.unfinished hmem node hawaits.mem
    rw [r.schedule.status_eq hrec,ht] at hopen
    cases hopen
  · rwa [Option.some.inj (hrec.symm.trans hrec')]

/-- What a task has reported its run has heard. -/
theorem Diary.heard (hd : Diary e id log w) {m : Moment} {report : Report}
    (h : ⟨m,.reports report⟩ ∈ log) : ∀ r ∈ w.runs, r.id = id.run → r.HasHeard id.node report := by
  induction hd with
  | world => cases h
  | @own log w w' hd hm ih =>
    intro r' hr' hid
    obtain ⟨t,q,rfl,henacts⟩ := enacts hd.reaches hm
    rcases List.mem_append.mp h with h | h
    · obtain ⟨r,hr,hrid,hs,hi⟩ := henacts.home r' hr' hid
      exact .of_same hs hi (ih h r hr (hrid.trans hid))
    · rw [henacts.lines] at h
      obtain ⟨note,hn,hnote⟩ := List.mem_map.mp h
      cases hnote
      have hnode := (hd.reaches.coherent.task t henacts.mem).node
      rw [← hnode]
      exact .inl (henacts.shows.told report (q.mem_notes hn nofun) r' hr' hid)
  | @aside log w w' hd ha ih =>
    intro r' hr' hid
    obtain ⟨turn,hs⟩ := ha.step
    have hw := hd.reaches.coherent
    have hk := hd.knows (List.ne_nil_of_mem h)
    obtain ⟨r,hr,hrid,⟨hsch,hi⟩ | ⟨fresh,hcourse⟩⟩ := hk.run_from (hs.goes hd.reaches) hw hr' hid
    · exact .of_same hsch hi (ih h r hr (hrid.trans hid))
    · exact hcourse.hasHeard (hw.run r hr) (hd.reaches.unfinished hr) (ih h r hr (hrid.trans hid))

/-- A node that is found in its run. -/
theorem World.exists_node (w : World) (id : TaskId) (check : Run → GraphNode Graph → Bool)
    (h : ((w.run? id.run).any fun r => (r.schedule.graph.node? id.node).any (check r)) = true) :
    ∃ r ∈ w.runs, r.id = id.run ∧ ∃ n ∈ r.schedule.graph.nodes, n.id = id.node ∧
      check r n = true := by
  obtain ⟨r,hr,h⟩ := (Option.any_eq_true _ _).mp h
  obtain ⟨n,hn,h⟩ := (Option.any_eq_true _ _).mp h
  obtain ⟨hmem,hid⟩ := mem_of_run? hr
  exact ⟨r,hmem,hid,n,List.mem_of_find?_eq_some hn,by simpa using List.find?_some hn,h⟩

/-- A report that is found in a diary. -/
theorem exists_report (log : List Line) (check : Report → Bool)
    (h : (log.any fun x => match x.note with
      | .reports report => check report
      | _ => false) = true) : ∃ m report, ⟨m,.reports report⟩ ∈ log ∧ check report = true := by
  obtain ⟨x,hx,hreports⟩ := List.any_eq_true.mp h
  split at hreports
  · next report hr => exact ⟨x.moment,report,hr ▸ hx,hreports⟩
  · cases hreports

end Engine

end TaskGraph
