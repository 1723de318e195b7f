import TaskGraph.Proofs.Engine.Exclusion
import TaskGraph.Proofs.Engine.Manning
import TaskGraph.Proofs.Engine.Story

/-!
Handlers of failures. The handler of a node that fails runs once, after its attempts and whatever runs in
any case, while the node holds its tags but no slot, and the node ends with the failure all the same.
Only for a task that breaks down no handler runs.
-/

namespace TaskGraph.Engine

def Note.isBeginning : Note → Bool
  | .begins _ => true
  | _ => false

/-- How many attempts have begun. -/
def begun (log : List Line) : Nat := log.countP fun x => x.note.isBeginning

/-- How often a handler was started. -/
def handlings (log : List Line) : Nat := log.countP fun x => x.note.stage == 2

section Counts

variable {n : GraphNode Graph} {s : Scope} {A : Account} {k ready : Nat} {log : List Line}
  {outcome : Outcome}

theorem begun_append (log log' : List Line) : begun (log ++ log') = begun log + begun log' :=
  List.countP_append

theorem handlings_append (log log' : List Line) :
    handlings (log ++ log') = handlings log + handlings log' := List.countP_append

theorem handlings_of_stage (h : ∀ x ∈ log, x.note.stage ≤ 1) : handlings log = 0 := by
  refine List.countP_eq_zero.mpr fun x hx he => ?_
  have hle := h x hx
  rw [eq_of_beq he] at hle
  exact absurd hle (by decide)

theorem begun_inner (h : ∀ x ∈ log, x.note.isInner = true) : begun log = 0 := by
  refine List.countP_eq_zero.mpr fun x hx he => ?_
  have hin := h x hx
  have he : x.note.isBeginning = true := he
  cases hn : x.note with
  | begins =>
    rw [hn] at hin
    cases hin
  | _ =>
    rw [hn] at he
    cases he

theorem Tried.Fits.begun_lines {a : Tried} (h : a.Fits A ready) : begun a.lines = 1 := by
  rw [Tried.lines,begun_append,begun,List.countP_cons_of_pos rfl]
  exact congrArg (· + 1 + 0) (begun_inner h.inner)

theorem Rounds.begun_eq (h : Rounds n A k ready log) : begun log = k := by
  induction h with
  | none => rfl
  | again _ _ hf _ ih =>
    rw [begun_append,begun_append,ih,hf.begun_lines]
    rfl

theorem Over.begun_eq {cancelled : Bool} (h : Over n A k cancelled log outcome) : begun log = k := by
  cases h with
  | ended hr _ hf => rw [begun_append,hr.begun_eq,hf.begun_lines]
  | stopped hr =>
    rw [begun_append,hr.begun_eq]
    rfl

theorem Settled.begun_eq (h : Settled n s A k log outcome) : begun log = k := by
  cases h with
  | plain ho | dropped ho => exact ho.begun_eq
  | always ho =>
    rw [begun_append,ho.begun_eq]
    rfl

end Counts

/-- What has led to the handler of a node: its attempts are over, and have come to a failure. -/
structure Triggers (n : GraphNode Graph) (s : Scope) (k : Nat) (f : Failure) (log : List Line) : Prop where
  settled : Settled n s .silent k log (.error f)
  proper : f.isRetryable = true
  begun : begun log = k
  first : handlings log = 0

/-- How a node with a handler ends that does not break down: with a failure, after which the handler
was started, once and for that failure, and has ended; or otherwise, and no handler was started. -/
inductive EndsHandled (n : GraphNode Graph) (block : Graph) (log : List Line) (report : Report) : Prop
  | failed {s : Scope} {f : Failure} {front : List Line} {m m' : Moment} {run : RunId}
    {result : RunResult} : report.ending = .failed f → Triggers n s report.attempts f front →
    log = front ++ [⟨m,.opens (.handler f) run (some (.start block (s.bind "error" (f.binding n.id))))⟩,
      ⟨m',.closes run result⟩,⟨m',.reports report⟩] → EndsHandled n block log report
  | other : (∀ f, report.ending ≠ .failed f) → begun log = report.attempts → handlings log = 0 →
    EndsHandled n block log report

variable {n : GraphNode Graph} {s : Scope} {k : Nat} {log : List Line} {report : Report} {block : Graph}
  {f : Failure}

theorem Settled.triggers (h : Settled n s .silent k log (.error f)) (hf : f.isRetryable = true) :
    Triggers n s k f log := ⟨h,hf,h.begun_eq,handlings_of_stage h.stage⟩

theorem Life.endsHandled (h : Life n s .silent log report) (hh : n.handler = some block)
    (hb : ∀ x ∈ log, ∀ message, x.note ≠ .breaksDown message) : EndsHandled n block log report := by
  have hother {log : List Line} {k : Nat} {outcome : Outcome} {m : Moment} {report : Report}
      (hs : Settled n s .silent k log outcome) :
      begun (log ++ [⟨m,.reports report⟩]) = k ∧ handlings (log ++ [⟨m,.reports report⟩]) = 0 := by
    rw [begun_append,handlings_append,hs.begun_eq,handlings_of_stage hs.stage]
    exact ⟨rfl,rfl⟩
  cases h with
  | unasked => exact .other nofun rfl rfl
  | success hs | cancelled hs => exact .other nofun (hother hs).1 (hother hs).2
  | failed _ _ hnone =>
    rw [hh] at hnone
    cases hnone
  | handled hs hf _ =>
    rw [Part.start?_handler hh]
    exact .failed rfl (hs.triggers hf) rfl
  | broken => exact absurd rfl (hb _ (List.mem_append_right _ List.mem_cons_self) _)

/-- For a task that breaks down no handler runs, and its report speaks of one attempt. -/
theorem Life.endsBroken (h : Life n s .silent log report) {x : Line} {message : String} (hx : x ∈ log)
    (hb : x.note = .breaksDown message) : report.ending = .failed (.internal message) ∧
      report.attempts = 1 ∧ handlings log = 0 ∧ 1 ≤ begun log := by
  have hnone (front rest : List Line) (hf : ∀ x ∈ front, x.note.stage ≤ 1)
      (hr : ∀ x ∈ rest, x.note.stage ≠ 3) (hx : x ∈ front ++ rest) : False := by
    rcases List.mem_append.mp hx with hx | hx
    · have hle := hf x hx
      rw [hb] at hle
      exact absurd (show 3 ≤ 1 from hle) (by decide)
    · exact hr x hx (by rw [hb]; rfl)
  cases h with
  | unasked =>
    exact (hnone [] _ (fun _ hy => absurd hy List.not_mem_nil) (by simp [Note.stage]) hx).elim
  | success hs | cancelled hs | failed hs | handled hs =>
    exact (hnone _ _ hs.stage (by simp [Note.stage]) hx).elim
  | @broken k ready log inner start m m' message' hr _ hinner =>
    have hfront : ∀ x ∈ log ++ ⟨start,.begins (k+1)⟩::inner, x.note.stage ≤ 1 :=
      fun x hx => Nat.le_trans (Nat.le_of_eq (hr.stage_begun hinner x hx)) (Nat.zero_le 1)
    obtain rfl : message' = message := by
      rcases List.mem_append.mp hx with hx | hx
      · exact (hnone _ [] hfront (fun _ hy => absurd hy List.not_mem_nil)
          (List.mem_append_left _ hx)).elim
      · simp only [List.mem_cons,List.not_mem_nil,or_false] at hx
        obtain rfl | rfl := hx
        · exact Note.breaksDown.inj hb
        · cases hb
    refine ⟨rfl,rfl,?_,?_⟩
    · rw [handlings_append,handlings_of_stage hfront]
      rfl
    · refine List.countP_pos_iff.mpr ⟨⟨start,.begins (k+1)⟩,?_,rfl⟩
      exact List.mem_append_left _ (List.mem_append_right _ List.mem_cons_self)

theorem Triggers.handlings_eq {front : List Line} (h : Triggers n s k f front) {m : Moment}
    {run : RunId} {first : Option Schedule} {rest : List Line} (hrest : handlings rest = 0) :
    handlings (front ++ ⟨m,.opens (.handler f) run first⟩::rest) = 1 := by
  rw [handlings_append,h.first,handlings,List.countP_cons_of_pos rfl]
  show 0+(handlings rest+1) = 1
  rw [hrest]

theorem EndsHandled.handlings_le (h : EndsHandled n block log report) :
    handlings log = 0 ∨ handlings log = 1 ∧ ∃ f, report.ending = .failed f := by
  cases h with
  | failed he ht hlog =>
    rw [hlog]
    exact .inr ⟨ht.handlings_eq rfl,_,he⟩
  | other _ _ hnone => exact .inl hnone

variable {e : Engine} {id : TaskId} {w : World} {t : Task}

/-- While the handler of a node runs the node has its tags, and no slot. -/
theorem Reaches.lent (hr : Reaches e w) (ht : t ∈ w.tasks) (hp : t.phase.isHandling = true) :
    ∃ p ∈ w.admission.parties, p.id = t.id ∧ p.request.tags = t.node.tags ∧ p.holdsTags = true ∧
      p.holdsSlot = false := by
  have hphase : t.phase.isAtWork = true ∧ t.phase.runs ≠ [] := by
    cases hc : t.phase with
    | handling => exact ⟨rfl,List.cons_ne_nil _ _⟩
    | _ =>
      rw [hc] at hp
      cases hp
  have hgranted := hr.manned.granted t ht hphase.1
  unfold Admission.isGranted at hgranted
  cases hparty : w.admission.party? t.id with
  | none =>
    rw [hparty] at hgranted
    cases hgranted
  | some p =>
    rw [hparty] at hgranted
    have hmem := List.mem_of_find?_eq_some hparty
    have hid : p.id = t.id := by simpa using List.find?_some hparty
    have hsuits := hr.staffed.seated.suits hr.coherent ht hmem hid
    refine ⟨p,hmem,hid,by rw [hsuits.request]; rfl,?_,hsuits.slot hphase.2⟩
    have hgranted : p.isGranted = true := hgranted
    unfold Admission.Party.isGranted at hgranted
    unfold Admission.Party.holdsTags
    split <;> simp_all

/-- The handler of a node is started once when the node fails, and in no other case, after the attempts
and whatever runs in any case, while the node has its tags and no slot; its end changes nothing of
what the node reports. A task that breaks down reports at once. -/
theorem failures_are_handled {r : Run} (hd : Diary e id log w) (hr : r ∈ w.runs)
    (hid : r.id = id.run) (hn : n ∈ r.schedule.graph.nodes) (hnode : n.id = id.node)
    (hh : n.handler = some block) :
    (∀ t ∈ w.tasks, t.id = id → ∀ k f run, t.phase = .handling k f run →
      (∃ p ∈ w.admission.parties, p.id = id ∧ p.request.tags = n.tags ∧ p.holdsTags = true ∧
        p.holdsSlot = false) ∧
      ∃ front m, Triggers n t.scope k f front ∧ log = front ++
        [⟨m,.opens (.handler f) run (some (.start block (t.scope.bind "error" (f.binding n.id))))⟩]) ∧
    (handlings log = 0 ∨ handlings log = 1 ∧
      ((∃ t ∈ w.tasks, t.id = id ∧ t.phase.isHandling = true) ∨
        ∃ m report f, ⟨m,.reports report⟩ ∈ log ∧ report.ending = .failed f)) ∧
    ∀ m report, ⟨m,.reports report⟩ ∈ log → r.HasHeard n.id report ∧
      ((∀ x ∈ log, ∀ message, x.note ≠ .breaksDown message) → EndsHandled n block log report) ∧
      ∀ x ∈ log, ∀ message, x.note = .breaksDown message →
        report.ending = .failed (.internal message) ∧ report.attempts = 1 ∧ handlings log = 0 := by
  have hliving (hne : log ≠ []) :=
    hd.living (fun n s => Account.silent_holds e.setting n s) hr hid hne hn hnode
  have hzero {log : List Line} (h : ∀ x ∈ log, x.note.stage = 0) : handlings log = 0 :=
    handlings_of_stage fun x hx => Nat.le_trans (Nat.le_of_eq (h x hx)) (Nat.zero_le 1)
  refine ⟨fun t ht htid k f run hp => ?_,?_,fun m report hx => ?_⟩
  · obtain ⟨p,hmem,hpid,htags,hheld,hslot⟩ := hd.reaches.lent ht (by rw [hp]; rfl)
    have hl := (hd.story fun n s => Account.silent_holds e.setting n s).living t ht htid
    obtain rfl := hd.reaches.coherent.node_eq ht hr (hid.trans (by rw [htid])) hn
      (hnode.trans (by rw [htid]))
    refine ⟨⟨p,hmem,hpid.trans htid,htags,hheld,hslot⟩,?_⟩
    rw [hp] at hl
    cases hl with
    | attempting _ _ _ ha => cases ha
    | handling hs hf _ =>
      rw [Part.start?_handler hh]
      exact ⟨_,_,hs.triggers hf,rfl⟩
  · obtain rfl | hne := eq_or_ne log []
    · exact .inl rfl
    obtain ⟨s,p,hl,hgone,hthere⟩ := hliving hne
    cases hl with
    | asking => exact .inl rfl
    | attempting hr _ hinner => exact .inl (hzero (hr.stage_begun hinner))
    | pausing hr => exact .inl (hzero hr.stage)
    | always ho =>
      rw [handlings_append,hzero ho.stage]
      exact .inl rfl
    | handling hs hf _ =>
      refine .inr ⟨(hs.triggers hf).handlings_eq rfl,.inl ?_⟩
      by_contra hnobody
      have hleaving := hgone fun t ht htid => hnobody ⟨t,ht,htid,by rw [(hthere t ht htid).2.2]; rfl⟩
      cases hleaving
    | leaving hlife =>
      by_cases hb : ∃ x ∈ log, ∃ message, x.note = .breaksDown message
      · obtain ⟨x,hx,message,hb⟩ := hb
        exact .inl (hlife.endsBroken hx hb).2.2.1
      · have hends := hlife.endsHandled hh fun x hx message hm => hb ⟨x,hx,message,hm⟩
        refine hends.handlings_le.imp_right fun ⟨hone,f,hf⟩ => ⟨hone,.inr ?_⟩
        obtain ⟨front,m,he,-⟩ := hlife.ends
        exact ⟨m,_,f,he ▸ List.mem_append_right _ List.mem_cons_self,hf⟩
    | collapsed hr _ hinner =>
      rw [handlings_append,hzero (hr.stage_begun hinner)]
      exact .inl rfl
  · obtain ⟨s,p,hl,-⟩ := hliving (List.ne_nil_of_mem hx)
    obtain ⟨-,hlife⟩ := hl.life hx
    have hheard : r.HasHeard n.id report := hnode ▸ hd.heard hx r hr hid
    refine ⟨hheard,hlife.endsHandled hh,fun x hx message hb => ?_⟩
    obtain ⟨he,hattempts,hnone,-⟩ := hlife.endsBroken hx hb
    exact ⟨he,hattempts,hnone⟩

namespace Laundry

def diary : List Line × World := started.diary engine.setting (wash 0) [] moves

theorem diary_spec : Diary engine (wash 0) diary.1 diary.2 := by
  have hopened : Diary engine (wash 0) [] opened :=
    Diary.world.aside (.outer (.start rfl (fun _ hr => absurd hr List.not_mem_nil) opened_eq))
  have hfree : ∀ r ∈ opened.runs, r.id.root ≠ 1 := by decide
  have hstarted := hopened.aside (.outer (.start rfl hfree started_eq))
  exact hstarted.moves moves

def isLate (report : Report) : Bool :=
  match report.ending with
  | .failed (.timeout d) => d == .ofMillis 50
  | _ => false

end Laundry

/-- The washing takes too long, so somebody wipes up, once. -/
theorem failures_are_handled_laundry : ∃ r ∈ Laundry.diary.2.runs, ∃ n ∈ r.schedule.graph.nodes,
    ∃ block report, n.handler = some block ∧ (∃ m, ⟨m,.reports report⟩ ∈ Laundry.diary.1) ∧
      report.ending = .failed (.timeout (.ofMillis 50)) ∧ handlings Laundry.diary.1 = 1 ∧
      r.HasHeard n.id report ∧ EndsHandled n block Laundry.diary.1 report := by
  obtain ⟨r,hr,hid,n,hn,hnode,hsome⟩ := World.exists_node Laundry.diary.2 (Laundry.wash 0)
    (fun _ n => n.handler.isSome) (by decide +kernel)
  obtain ⟨block,hh⟩ := Option.isSome_iff_exists.mp hsome
  obtain ⟨m,report,hreport,hfails⟩ := exists_report Laundry.diary.1 Laundry.isLate
    (by decide +kernel)
  have hb : ∀ x ∈ Laundry.diary.1, ∀ message, x.note ≠ .breaksDown message := by
    have hall : (Laundry.diary.1.all fun x => x.note.stage != 3) = true := by decide +kernel
    intro x hx message he
    have hne := List.all_eq_true.mp hall x hx
    rw [he] at hne
    cases hne
  obtain ⟨-,-,hends⟩ := failures_are_handled Laundry.diary_spec hr hid hn hnode hh
  obtain ⟨hheard,hhandled,-⟩ := hends m report hreport
  refine ⟨r,hr,n,hn,block,report,hh,⟨m,hreport⟩,?_,by decide +kernel,hheard,hhandled hb⟩
  unfold Laundry.isLate at hfails
  split at hfails
  · next d he => rw [he,eq_of_beq hfails]
  · cases hfails

namespace Blast

/-- An action that breaks down. -/
abbrev blow : Action where
  name := "blow"
  logged := false
  check _ := .ok ()
  start _ := .ended (.fault (.collapse "boom"))

abbrev engine : Engine := { config := {}, pools := {}, setting := { actions := [blow] } }

abbrev definition : Definition where
  name := "blast"
  nodes := [("rock",{
    kind := .action "blow" .null
    onFailure := some (.steps [("sweep",{ kind := .action "blow" .null })]) })]

abbrev rock : TaskId := ⟨⟨0,[]⟩,"rock"⟩

/-- The task begins, breaks down and is gone; its run takes note of that and ends. -/
abbrev moves : List Move :=
  [.pass rock.run,.step rock,.step rock,.take rock.run,.pass rock.run,.take rock.run,.pass rock.run]

def diary : List Line × World := (engine.started definition).diary engine.setting rock [] moves

theorem diary_spec : Diary engine rock diary.1 diary.2 := (Diary.started rfl).moves moves

/-- Whether a run has ended as failed, with a failed node that has a handler. -/
def hasFailed (r : Run) (n : GraphNode Graph) : Bool :=
  n.handler.isSome && ((r.schedule.record? n.id).any fun record => record.status == .failed) &&
    r.result?.any fun result => result.status == .failed

end Blast

/-- A node that breaks down ends as failed, and its handler is never started. -/
theorem breakdown_is_not_handled : ∃ log w, ∃ r ∈ w.runs, ∃ n ∈ r.schedule.graph.nodes,
    ∃ block record result, Diary Blast.engine Blast.rock log w ∧ r.id = Blast.rock.run ∧
    n.id = Blast.rock.node ∧ n.handler = some block ∧ r.schedule.record? n.id = some record ∧
    record.status = .failed ∧ r.result? = some result ∧ result.status = .failed ∧
    begun log = 1 ∧ handlings log = 0 := by
  obtain ⟨r,hr,hid,n,hn,hnode,hfailed⟩ :=
    World.exists_node Blast.diary.2 Blast.rock Blast.hasFailed (by decide +kernel)
  obtain ⟨hfailed,hres⟩ := Bool.and_eq_true_iff.mp hfailed
  obtain ⟨hsome,hrec⟩ := Bool.and_eq_true_iff.mp hfailed
  obtain ⟨block,hh⟩ := Option.isSome_iff_exists.mp hsome
  obtain ⟨record,hrec,hstatus⟩ := (Option.any_eq_true _ _).mp hrec
  obtain ⟨result,hres,hended⟩ := (Option.any_eq_true _ _).mp hres
  exact ⟨Blast.diary.1,Blast.diary.2,r,hr,n,hn,block,record,result,Blast.diary_spec,hid,hnode,hh,hrec,
    eq_of_beq hstatus,hres,eq_of_beq hended,by decide +kernel,by decide +kernel⟩

end TaskGraph.Engine
