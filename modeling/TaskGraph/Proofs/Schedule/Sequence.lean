import TaskGraph.Proofs.Graph.Row
import TaskGraph.Proofs.Schedule.Scopes
import TaskGraph.Proofs.Schedule.Skipping
import TaskGraph.Proofs.Schedule.Verdict
import TaskGraph.Proofs.Schedule.Walk

/-!
Runs of nodes in a row. Whatever the order of events, such a run comes to what going through the nodes
from left to right comes to: each is taken once the one before it has succeeded, and after the first
that does not succeed each is blocked by the one before it.
-/

namespace TaskGraph

namespace Schedule

open Walk (along)

/-- How a schedule agrees with a walk that has come some way along its nodes: the records tell what has
become of those so far, of the others nothing is told, and the next one may be under way. -/
structure Matches (fate : String → Fate) (first : Scope) (done rest : List String) (h : History)
    (s : Schedule) : Prop where
  row : s.graph.IsRow (done ++ rest)
  table : s.IsTable
  ended : ∀ x ∈ (along fate first done).lots, (s.record? x.1).map Record.gist = some x.2.gist
  waiting : ∀ id ∈ rest, ∃ r, s.record? id = some r ∧ r.gist = { status := r.status } ∧
    (r.status = .pending ∨ id ∈ s.inFlight ∧ r.status = .running)
  scope : s.scope = (along fate first done).scope
  inFlight : s.inFlight = [] ∨ (along fate first done).blocker? = none ∧
    ∃ id more, rest = id::more ∧ s.inFlight = [id]
  dispatched : h.dispatched = (along fate first done).taken ++ s.inFlight

namespace Matches

variable {fate : String → Fate} {first : Scope} {done rest : List String} {h : History}
  {s : Schedule} {n : GraphNode Graph} {id : String}

theorem start {graph : Graph} {ids : List String} (hg : graph.IsRow ids) :
    Matches fate first [] ids [] (Schedule.start graph first) where
  row := hg
  table := .start graph first
  ended _ hx := absurd hx List.not_mem_nil
  waiting id hid := by
    have hmem : id ∈ (Schedule.start graph first).graph.ids := hg.ids_eq.symm ▸ hid
    obtain ⟨r,hr⟩ := (IsTable.start graph first).record?.mp hmem
    obtain ⟨n,-,rfl⟩ := start_record? hr
    exact ⟨_,hr,rfl,.inl rfl⟩
  scope := rfl
  inFlight := .inl rfl
  dispatched := rfl

theorem status_of_lot (hm : Matches fate first done rest h s) {lot : Lot}
    (hx : (id,lot) ∈ (along fate first done).lots) : s.status id = lot.gist.status := by
  obtain ⟨r,hr,he⟩ := Option.map_eq_some_iff.mp (hm.ended _ hx)
  rw [s.status_eq hr,← he]
  rfl

theorem isTerminal (hm : Matches fate first done rest h s) (hid : id ∈ done) :
    (s.status id).isTerminal = true := by
  rw [← Walk.along_ids fate first done] at hid
  obtain ⟨⟨_,lot⟩,hx,rfl⟩ := List.mem_map.mp hid
  rw [hm.status_of_lot hx]
  exact lot.isTerminal

theorem not_isTerminal (hm : Matches fate first done rest h s) (hid : id ∈ rest) :
    (s.status id).isTerminal = false := by
  obtain ⟨r,hr,-,hstatus | ⟨-,hstatus⟩⟩ := hm.waiting id hid <;>
    rw [s.status_eq hr,hstatus] <;> rfl

/-- An open node is not among those that have ended. -/
theorem mem_rest (hm : Matches fate first done rest h s) (hn : n ∈ s.graph.nodes)
    (ho : s.isOpen n.id = true) : n.id ∈ rest := by
  have hmem := hm.row.ids_eq ▸ Graph.mem_ids_of_mem hn
  refine (List.mem_append.mp hmem).resolve_left fun hid => ?_
  have ht := hm.isTerminal hid
  rw [(isOpen_iff.mp ho).1] at ht
  cases ht

/-- A node whose predecessor has ended is the next one. -/
theorem eq_cons (hm : Matches fate first done rest h s) (hn : n ∈ s.graph.nodes)
    (hid : n.id ∈ rest) (ht : ∀ id ∈ n.references, (s.status id).isTerminal = true) :
    ∃ more, rest = n.id::more := by
  obtain ⟨front,more,rfl⟩ := List.append_of_mem hid
  obtain rfl | ⟨front,previous,rfl⟩ := List.eq_nil_or_concat' front
  · exact ⟨more,rfl⟩
  · have href : previous ∈ n.references :=
      (hm.row.mem_references hn).mpr ⟨done ++ front,more,by simp⟩
    have hopen : (s.status previous).isTerminal = false := hm.not_isTerminal (by simp)
    rw [ht previous href] at hopen
    cases hopen

/-- Who keeps the next node from being taken is what it waits for. -/
theorem of_blocker (hm : Matches fate first done rest h s) {previous : String}
    (hb : (along fate first done).blocker? = some previous) :
    done.getLast? = some previous ∧ s.status previous ≠ .success ∧ s.blocks previous = true := by
  obtain ⟨lot,hx,hne,hlast⟩ := Walk.blocker?_mem hb
  rw [Walk.along_ids] at hlast
  refine ⟨hlast,by rwa [hm.status_of_lot hx],?_⟩
  obtain ⟨r,hr,he⟩ := Option.map_eq_some_iff.mp (hm.ended _ hx)
  have hstatus : r.status = lot.gist.status := congrArg Gist.status he
  have hreason : r.skipReason = lot.gist.skipReason := congrArg Gist.skipReason he
  simp only [blocks,hr,Record.isBlocked,hstatus,hreason]
  cases lot with
  | taken f =>
    cases f with
    | success => exact absurd rfl hne
    | failed | cancelled => rfl
  | blocked => rfl

/-- Only the next node may start, and nobody while it is under way. -/
theorem of_ready (hm : Matches fate first done rest h s) (hr : n ∈ s.ready) :
    (∃ more, rest = n.id::more) ∧ s.inFlight = [] ∧ (along fate first done).blocker? = none := by
  obtain ⟨hn,ho,hready⟩ := s.mem_ready.mp hr
  have hsuccess (id : String) (hid : id ∈ n.references) : s.status id = .success :=
    (hm.row.requires hn hid).success hready
  obtain ⟨more,rfl⟩ := hm.eq_cons hn (hm.mem_rest hn ho) fun id hid => by
    rw [hsuccess id hid]
    rfl
  refine ⟨⟨more,rfl⟩,hm.inFlight.resolve_right ?_,?_⟩
  · rintro ⟨-,id,later,he,hflight⟩
    obtain ⟨rfl,-⟩ := List.cons_eq_cons.mp he
    exact (isOpen_iff.mp ho).2 (hflight ▸ List.mem_cons_self)
  · cases hb : (along fate first done).blocker? with
    | none => rfl
    | some previous =>
      obtain ⟨hlast,hne,-⟩ := hm.of_blocker hb
      obtain ⟨front,rfl⟩ := List.getLast?_eq_some_iff.mp hlast
      exact absurd (hsuccess previous ((hm.row.mem_references hn).mpr ⟨front,more,by simp⟩)) hne

/-- Only the next node may be given up, because of the one before it. -/
theorem of_dead (hm : Matches fate first done rest h s) (hn : n ∈ s.graph.nodes)
    {reason : SkipReason} (hd : s.deadReason? n = some reason) : ∃ more previous,
      rest = n.id::more ∧ s.inFlight = [] ∧ (along fate first done).blocker? = some previous ∧
        reason = .blocked [previous] := by
  obtain ⟨ho,d,hdep,hu,rfl⟩ := deadReason?_eq_some.mp hd
  obtain ⟨front,back,he⟩ := List.append_of_mem (hm.row.ids_eq ▸ Graph.mem_ids_of_mem hn)
  have hwaits := hm.row.waits n hn front back he
  rw [hdep] at hwaits
  obtain ⟨previous,hlast,rfl⟩ := Option.map_eq_some_iff.mp hwaits.symm
  obtain ⟨hended,hne⟩ := Resolution.ofStatus_eq_unsatisfied.mp hu
  obtain ⟨more,rfl⟩ := hm.eq_cons hn (hm.mem_rest hn ho) fun id hid => by
    obtain ⟨d,hd,hleaf⟩ := GraphNode.mem_references.mp hid
    cases hdep.symm.trans hd
    rwa [List.mem_singleton.mp hleaf]
  obtain ⟨rfl,rfl⟩ := Graph.IsRow.split_unique hm.row.distinct he
  have hmem := List.mem_of_getLast? hlast
  cases hb : (along fate first done).blocker? with
  | none =>
    have hall := Walk.along_blocker?.mp hb
    refine absurd ?_ hne
    have hx : (previous,.taken (fate previous)) ∈ (along fate first done).lots := by
      rw [Walk.along_success hall]
      exact List.mem_map_of_mem hmem
    rw [hm.status_of_lot hx]
    exact (Fate.gist_status _).trans (hall previous hmem)
  | some blocker =>
    obtain ⟨hlast',-,hblocks⟩ := hm.of_blocker hb
    obtain rfl := Option.some.inj (hlast.symm.trans hlast')
    refine ⟨more,previous,rfl,hm.inFlight.resolve_right fun hflight => ?_,rfl,?_⟩
    · rw [hb] at hflight
      cases hflight.1
    · have hnames : NameSet.ofList (Dependency.node previous).references = [previous] := rfl
      simp [skipReason,hnames,hblocks]

section Steps

variable {t : Schedule} {more : List String} {later : History} {now : Instant}

/-- What happens to the next node leaves the others as they are. -/
theorem others (hm : Matches fate first done (id::more) h s)
    (hk : ∀ other, other ≠ id → t.record? other = s.record? other) :
    (∀ x ∈ (along fate first done).lots, (t.record? x.1).map Record.gist = some x.2.gist) ∧
      ∀ other ∈ more, ∃ r, t.record? other = some r ∧ r.gist = { status := r.status } ∧
        r.status = .pending := by
  obtain ⟨-,hrest,happart⟩ := List.nodup_append.mp hm.row.distinct
  constructor
  · intro x hx
    have hdone : x.1 ∈ done := by
      rw [← Walk.along_ids fate first done]
      exact List.mem_map_of_mem hx
    rw [hk x.1 (happart x.1 hdone id List.mem_cons_self)]
    exact hm.ended x hx
  · intro other hother
    have hne : other ≠ id := fun he => (List.nodup_cons.mp hrest).1 (he ▸ hother)
    obtain ⟨r,hr,hgist,hstatus | ⟨hflight,-⟩⟩ := hm.waiting other (List.mem_cons_of_mem id hother)
    · exact ⟨r,(hk other hne).trans hr,hgist,hstatus⟩
    · obtain hidle | ⟨-,_,_,he,hnext⟩ := hm.inFlight
      · rw [hidle] at hflight
        cases hflight
      · obtain ⟨rfl,-⟩ := List.cons_eq_cons.mp he
        rw [hnext,List.mem_singleton] at hflight
        exact absurd hflight hne

/-- With what becomes of the next node one has come one step further. -/
theorem advance (hm : Matches fate first done (id::more) h s) {lot : Lot}
    (hl : (along fate first (done ++ [id])).lots = (along fate first done).lots ++ [(id,lot)])
    (hg : t.graph = s.graph) (ht : t.IsTable)
    (hk : ∀ other, other ≠ id → t.record? other = s.record? other)
    (hid : (t.record? id).map Record.gist = some lot.gist)
    (hscope : t.scope = (along fate first (done ++ [id])).scope) (hflight : t.inFlight = [])
    (hd : later.dispatched = (along fate first (done ++ [id])).taken) :
    Matches fate first (done ++ [id]) more later t where
  row := by
    rw [hg,List.append_assoc]
    exact hm.row
  table := ht
  ended x hx := by
    rw [hl] at hx
    rcases List.mem_append.mp hx with hx | hx
    · exact (hm.others hk).1 x hx
    · rw [List.mem_singleton.mp hx]
      exact hid
  waiting other hother := by
    obtain ⟨r,hr,hgist,hstatus⟩ := (hm.others hk).2 other hother
    exact ⟨r,hr,hgist,.inl hstatus⟩
  scope := hscope
  inFlight := .inl hflight
  dispatched := by rw [hd,hflight,List.append_nil]

theorem gist_skip {r : Record} (ho : r.status.isTerminal = false)
    (hg : r.gist = { status := r.status }) (reason : SkipReason) :
    (r.skip now reason).1.gist = { status := .skipped, skipReason := some reason } := by
  obtain ⟨-,hresult,hfailure,-⟩ := Gist.mk.injEq .. ▸ hg
  rw [Record.skip_of_open ho,Record.gist,hresult,hfailure]

theorem skip (hm : Matches fate first done rest h s) (hn : n ∈ s.graph.nodes)
    {reason : SkipReason} (hd : s.deadReason? n = some reason) (now : Instant) : ∃ more,
      rest = n.id::more ∧
        Matches fate first (done ++ [n.id]) more h (s.change n.id (·.skip now reason)) := by
  obtain ⟨more,previous,rfl,hidle,hb,rfl⟩ := hm.of_dead hn hd
  have hrecord := record?_change s (Record.skip_respects now (.blocked [previous])) n.id
  have hwalk : along fate first (done ++ [n.id]) = (along fate first done).block n.id previous := by
    rw [Walk.along_concat,Walk.next,hb]
  have hlots : (along fate first (done ++ [n.id])).lots =
      (along fate first done).lots ++ [(n.id,.blocked previous)] := by
    rw [hwalk,Walk.block_lots]
  have hopen : (s.status n.id).isTerminal = false := hm.not_isTerminal List.mem_cons_self
  obtain ⟨r,hr,hgist,-⟩ := hm.waiting n.id List.mem_cons_self
  rw [s.status_eq hr] at hopen
  refine ⟨more,rfl,hm.advance hlots (change_graph s n.id _) (hm.table.change n.id _)
    (fun other hne => ?_) ?_ ?_ ?_ ?_⟩
  · simp only [hrecord,if_neg hne,Option.map_id']
  · rw [hrecord,hr,Option.map_some,Option.map_some,if_pos rfl,gist_skip hopen hgist]
    rfl
  · rw [change_scope,hm.scope,hwalk]
    rfl
  · rw [change_inFlight,hidle]
  · rw [hwalk,Walk.taken_block,hm.dispatched,hidle,List.append_nil]

/-- At most one node starts. -/
theorem ready_cases (hm : Matches fate first done rest h s) : s.ready = [] ∨ ∃ n more,
    s.ready = [n] ∧ rest = n.id::more ∧ s.inFlight = [] ∧
      (along fate first done).blocker? = none := by
  have hd : (s.ready.map GraphNode.id).Nodup :=
    hm.row.sound.nodup.sublist (List.filter_sublist.map GraphNode.id)
  cases hready : s.ready with
  | nil => exact .inl rfl
  | cons n others =>
    obtain ⟨⟨more,hrest⟩,hidle,hb⟩ := hm.of_ready (hready ▸ List.mem_cons_self)
    refine .inr ⟨n,more,?_,hrest,hidle,hb⟩
    refine congrArg (n::·) (List.eq_nil_iff_forall_not_mem.mpr fun m hmem => ?_)
    obtain ⟨⟨_,he⟩,-⟩ := hm.of_ready (hready ▸ List.mem_cons_of_mem n hmem)
    rw [hready,List.map_cons,List.nodup_cons,(List.cons_eq_cons.mp (hrest.symm.trans he)).1] at hd
    exact hd.1 (List.mem_map_of_mem hmem)

theorem dispatch (hm : Matches fate first done rest h s) :
    Matches fate first done rest (h ++ s.ready.map (.dispatch ·.id)) s.dispatch where
  row := hm.row
  table := hm.table
  ended := hm.ended
  waiting id hid := by
    obtain ⟨r,hr,hgist,hstatus⟩ := hm.waiting id hid
    exact ⟨r,hr,hgist,hstatus.imp_right fun hrun => ⟨List.mem_append_left _ hrun.1,hrun.2⟩⟩
  scope := hm.scope
  inFlight := by
    rw [dispatch_inFlight]
    obtain hready | ⟨n,more,hready,hrest,hidle,hb⟩ := hm.ready_cases
    · rw [hready,List.map_nil,List.append_nil]
      exact hm.inFlight
    · rw [hready,hidle]
      exact .inr ⟨hb,n.id,more,hrest,rfl⟩
  dispatched := by
    rw [History.dispatched_dispatches,hm.dispatched,dispatch_inFlight,List.append_assoc]

/-- Who is under way is the next one, and nobody else is. -/
theorem of_inFlight (hm : Matches fate first done rest h s) (ha : id ∈ s.inFlight) :
    (∃ more, rest = id::more) ∧ s.inFlight = [id] ∧ (along fate first done).blocker? = none := by
  obtain hidle | ⟨hb,other,more,hrest,hflight⟩ := hm.inFlight
  · rw [hidle] at ha
    cases ha
  · rw [hflight,List.mem_singleton] at ha
    subst ha
    exact ⟨⟨more,hrest⟩,hflight,hb⟩

theorem started (hm : Matches fate first done rest h s) (now : Instant) (ha : id ∈ s.inFlight)
    (time : Instant) : Matches fate first done rest (h ++ [.event (.started id time)])
      (s.apply now (.started id time)) := by
  obtain ⟨⟨more,rfl⟩,hflight,hb⟩ := hm.of_inFlight ha
  have hrecord := record?_started s now id time
  have hk (other : String) (hne : other ≠ id) :
      (s.apply now (.started id time)).record? other = s.record? other := by
    simp only [hrecord,if_neg hne,Option.map_id']
  have hsame := inFlight_started s now id time
  obtain ⟨hended,hmore⟩ := hm.others hk
  refine ⟨?_,hm.table.apply now _,hended,fun other hother => ?_,?_,?_,?_⟩
  · rw [(apply_frame s now _).1]
    exact hm.row
  · obtain rfl | hother := List.mem_cons.mp hother
    · obtain ⟨r,hr,hgist,hstatus⟩ := hm.waiting other List.mem_cons_self
      refine ⟨(r.start time).1,by rw [hrecord,hr]; exact congrArg some (if_pos rfl),?_⟩
      obtain ⟨-,hresult,hfailure,hreason⟩ := Gist.mk.injEq .. ▸ hgist
      rw [hsame]
      obtain hp | ⟨-,hrun⟩ := hstatus
      · simp [Record.start,hp,Record.gist,hresult,hfailure,hreason,ha]
      · simp [Record.start,hrun,Record.gist,hresult,hfailure,hreason,ha]
    · obtain ⟨r,hr,hgist,hstatus⟩ := hmore other hother
      exact ⟨r,hr,hgist,.inl hstatus⟩
  · rw [← hm.scope]
    exact s.change_scope id _
  · rw [hsame]
    exact hm.inFlight
  · rw [History.dispatched_event,hsame]
    exact hm.dispatched

/-- Who has no targets leaves none out. -/
theorem unselected_ending (f : Fate) : (f.ending []).unselected = [] := by cases f <;> rfl

theorem gist_settle {r : Record} (ho : r.status.isTerminal = false)
    (hg : r.gist = { status := r.status }) {report : Report} {f : Fate}
    (he : report.ending = f.ending []) : (settle now report r).1.gist = f.gist := by
  obtain ⟨-,hresult,hfailure,hreason⟩ := Gist.mk.injEq .. ▸ hg
  cases f <;> simp [settle,he,Fate.ending,Record.succeed,Record.fail,Record.cancel,Record.finish,ho,
    Record.stampFinished,Record.gist,Fate.gist,hresult,hfailure,hreason]

theorem finished (hm : Matches fate first done rest h s) (now : Instant) {report : Report}
    (ha : id ∈ s.inFlight) (he : report.ending = (fate id).ending []) : ∃ more, rest = id::more ∧
      Matches fate first (done ++ [id]) more (h ++ [.event (.finished id report)])
        (s.apply now (.finished id report)) := by
  obtain ⟨⟨more,rfl⟩,hflight,hb⟩ := hm.of_inFlight ha
  have hopen : (s.status id).isTerminal = false := hm.not_isTerminal List.mem_cons_self
  obtain ⟨r,hr,hgist,-⟩ := hm.waiting id List.mem_cons_self
  rw [s.status_eq hr] at hopen
  have hnone : report.ending.unselected = [] := he ▸ unselected_ending (fate id)
  have hreported (other : String) : reported now id report other = fun q =>
      if other = id then (settle now report q).1 else q := by
    funext q
    rw [reported,hnone]
    exact if_neg List.not_mem_nil
  have hwalk : along fate first (done ++ [id]) = (along fate first done).take id (fate id) := by
    rw [Walk.along_concat,Walk.next,hb]
  have hlots : (along fate first (done ++ [id])).lots =
      (along fate first done).lots ++ [(id,.taken (fate id))] := by
    rw [hwalk,Walk.take_lots]
  refine ⟨more,rfl,hm.advance hlots (apply_frame s now _).1 (hm.table.apply now _)
    (fun other hne => ?_) ?_ ?_ ?_ ?_⟩
  · simp only [record?_finished s now hr,hreported,if_neg hne,Option.map_id']
  · rw [record?_finished s now hr,hr,hreported,Option.map_some,Option.map_some,if_pos rfl]
    exact congrArg some (gist_settle hopen hgist he)
  · rw [finished_scope hr now report,hm.scope,hwalk,he,hopen]
    cases fate id <;> rfl
  · rw [inFlight_finished,hflight]
    simp
  · rw [History.dispatched_event,hm.dispatched,hflight,hwalk,Walk.taken_take]

end Steps

theorem resolveDead (hm : Matches fate first done rest h s) (now : Instant) : ∃ gone left,
    rest = gone ++ left ∧ Matches fate first (done ++ gone) left h (s.resolveDead now) := by
  refine resolveDead_induction (P := fun t => ∃ gone left, rest = gone ++ left ∧
    Matches fate first (done ++ gone) left h t) ?_ s ⟨[],rest,rfl,by rwa [List.append_nil]⟩
  rintro t n reason ⟨gone,left,he,ht⟩ hn hd
  obtain ⟨more,rfl,hnext⟩ := ht.skip hn hd now
  rw [List.append_assoc] at hnext
  exact ⟨gone ++ [n.id],more,by rw [he,List.append_assoc]; rfl,hnext⟩

theorem pass (hm : Matches fate first done rest h s) (now : Instant) : ∃ gone left,
    rest = gone ++ left ∧ Matches fate first (done ++ gone) left
      (h ++ (s.pass now).2.map (.dispatch ·.id)) (s.pass now).1 := by
  obtain ⟨gone,left,he,hdead⟩ := hm.resolveDead now
  exact ⟨gone,left,he,hdead.dispatch⟩

end Matches

theorem Reaches.matches {graph : Graph} {ids : List String} {fate : String → Fate} {first : Scope}
    {h : History} {s : Schedule} (hr : Reaches graph first h s) (hg : graph.IsRow ids)
    (hf : h.Follows graph fate) : ∃ done rest, ids = done ++ rest ∧
      Matches fate first done rest h s := by
  induction hr with
  | start => exact ⟨[],ids,rfl,.start hg⟩
  | @pass h s now hr ih =>
    rw [History.Follows,History.events_dispatches] at hf
    obtain ⟨done,rest,rfl,hm⟩ := ih hf
    obtain ⟨gone,left,rfl,hnext⟩ := hm.pass now
    exact ⟨done ++ gone,left,(List.append_assoc done gone left).symm,hnext⟩
  | @event h s e now hr ha ih =>
    rw [History.Follows,History.events_event] at hf
    obtain ⟨done,rest,rfl,hm⟩ := ih fun id report hmem => hf id report (List.mem_append_left _ hmem)
    cases e with
    | started id time => exact ⟨done,rest,rfl,hm.started now ha time⟩
    | finished id report =>
      have hids : id ∈ graph.ids := by
        obtain ⟨⟨more,rfl⟩,-⟩ := hm.of_inFlight ha.1
        rw [hg.ids_eq]
        exact List.mem_append_right _ List.mem_cons_self
      obtain ⟨n,hn,rfl⟩ := Graph.mem_ids.mp hids
      have he := hf n.id report (List.mem_append_right _ List.mem_cons_self) n hn rfl
      rw [hg.targets n hn] at he
      obtain ⟨more,rfl,hnext⟩ := hm.finished now ha.1 he
      exact ⟨_,more,by rw [List.append_assoc]; rfl,hnext⟩

section Complete

variable {fate : String → Fate} {first : Scope} {ids : List String} {h : History} {s : Schedule}

theorem eq_of_keys {α β : Type} {l m : List (α × β)} (hk : l.map (·.1) = m.map (·.1))
    (h : ∀ x ∈ l, ∀ y ∈ m, x.1 = y.1 → x = y) : l = m := by
  induction l generalizing m with
  | nil => exact (List.map_eq_nil_iff.mp hk.symm).symm
  | cons x l ih =>
    cases m with
    | nil => cases hk
    | cons y m =>
      obtain ⟨hfirst,hrest⟩ := List.cons_eq_cons.mp hk
      rw [h x List.mem_cons_self y List.mem_cons_self hfirst,ih hrest fun a ha b hb =>
        h a (List.mem_cons_of_mem x ha) b (List.mem_cons_of_mem y hb)]

/-- At the end the records tell what has become of each node on the walk. -/
theorem Matches.records (hm : Matches fate first ids [] h s) :
    (s.records.map fun r => (r.node,r.gist)) =
      (along fate first ids).lots.map fun x => (x.1,x.2.gist) := by
  have hids : s.graph.ids = ids := hm.row.ids_eq.trans (List.append_nil ids)
  refine eq_of_keys ?_ ?_
  · rw [List.map_map,List.map_map]
    exact hm.table.trans (hids.trans (Walk.along_ids fate first ids).symm)
  · rintro _ hx _ hy hkey
    obtain ⟨r,hr,rfl⟩ := List.mem_map.mp hx
    obtain ⟨x,hx,rfl⟩ := List.mem_map.mp hy
    have hrec := hm.table.record?_of_mem hm.row.sound.nodup hr
    have hgist := hm.ended x hx
    rw [← show r.node = x.1 from hkey,hrec] at hgist
    exact Prod.ext hkey (Option.some.inj hgist)

/-- The last node decides the outcome. -/
theorem Matches.exists_last (hm : Matches fate first ids [] h s) (hne : ids ≠ []) : ∃ last lot r,
    ids.getLast? = some last ∧ s.graph.terminal = [last] ∧ (last,lot) ∈ (along fate first ids).lots ∧
    s.record? last = some r ∧ r.gist = lot.gist ∧
    ((along fate first ids).blocker? = none ↔ lot.gist.status = .success) := by
  obtain ⟨front,last,rfl⟩ := (List.eq_nil_or_concat' ids).resolve_left hne
  have hterminal : s.graph.terminal = [last] := by
    rw [hm.row.terminal,List.append_nil,List.getLast?_concat]
    rfl
  obtain ⟨lot,hlot,hiff⟩ : ∃ lot, (last,lot) ∈ (along fate first (front ++ [last])).lots ∧
      ((along fate first (front ++ [last])).blocker? = none ↔ lot.gist.status = .success) := by
    rw [Walk.along_concat,Walk.next]
    split
    · refine ⟨.taken (fate last),List.mem_append_right _ List.mem_cons_self,?_⟩
      rw [Walk.blocker?_take,Lot.gist,Fate.gist_status]
      split
      · next hs => exact iff_of_true rfl hs
      · next hs => exact iff_of_false (by simp) hs
    · next previous _ =>
      refine ⟨.blocked previous,List.mem_append_right _ List.mem_cons_self,?_⟩
      rw [Walk.blocker?_block]
      exact iff_of_false (by simp) (by simp [Lot.gist])
  obtain ⟨r,hr,hgist⟩ := Option.map_eq_some_iff.mp (hm.ended _ hlot)
  exact ⟨last,lot,r,List.getLast?_concat,hterminal,hlot,hr,hgist,hiff⟩

theorem isAcceptable_of_gist {r : Record} {lot : Lot} (h : r.gist = lot.gist) :
    r.isAcceptable = true ↔ lot.gist.status = .success := by
  have hstatus : r.status = lot.gist.status := congrArg Gist.status h
  have hreason : r.skipReason = lot.gist.skipReason := congrArg Gist.skipReason h
  rw [Record.isAcceptable,hstatus,hreason]
  cases lot with
  | taken f => cases f <;> simp [Lot.gist,Fate.gist]
  | blocked => simp [Lot.gist,SkipReason.isByDesign]

theorem Matches.result_status (hm : Matches fate first ids [] h s) (hne : ids ≠ [])
    (name : String) : (s.result name false).status =
      if (along fate first ids).blocker? = none then .success else .failed := by
  obtain ⟨last,lot,r,-,hterminal,-,hr,hgist,hiff⟩ := hm.exists_last hne
  have hfind : RunResult.find? s.records last = some r := hr
  have hacc : RunResult.isAcceptable s.records last = true ↔
      (along fate first ids).blocker? = none := by
    rw [hiff,← isAcceptable_of_gist hgist,RunResult.isAcceptable,hfind]
    rfl
  simp [result,RunResult.assemble,hterminal,hacc]

theorem Matches.result_output (hm : Matches fate first ids [] h s) (hne : ids ≠ [])
    (hs : ∀ id ∈ ids, (fate id).status = .success) (name : String) : ∃ last v selected,
      ids.getLast? = some last ∧ fate last = .success v selected ∧
        (s.result name false).output = v := by
  obtain ⟨last,lot,r,hlast,hterminal,hlot,hr,hgist,-⟩ := hm.exists_last hne
  rw [Walk.along_success hs] at hlot
  obtain ⟨id,hid,he⟩ := List.mem_map.mp hlot
  cases he
  have hsuccess := hs last hid
  cases hf : fate last with
  | success v selected =>
    refine ⟨last,v,selected,hlast,hf,?_⟩
    rw [hf] at hgist
    have hresult : r.result = some v := congrArg Gist.result hgist
    have hrec : (s.result name false).record? last = some r := hr
    have hterm : (s.result name false).terminal = [last] := hterminal
    simp [RunResult.output,hterm,hrec,hresult]
  | failed | cancelled =>
    rw [hf] at hsuccess
    cases hsuccess

theorem failures_eq (r : RunResult) : r.failures =
    (r.records.map fun q => (q.node,q.gist)).filterMap fun x => x.2.failed?.map fun f => (x.1,f) := by
  rw [RunResult.failures,List.filterMap_map]
  refine List.filterMap_congr fun q _ => ?_
  by_cases hs : q.status = .failed <;> simp [Gist.failed?,Record.gist,hs]

/-- The first node that fails names the failure of the run. -/
theorem Matches.result_failure {front back : List String} {k : String} {f : Failure}
    (hm : Matches fate first (front ++ k::back) [] h s)
    (hs : ∀ id ∈ front, (fate id).status = .success) (hk : fate k = .failed f) (name : String) :
    (s.result name false).failure = .step k f := by
  have hne : (fate k).status ≠ .success := by
    rw [hk]
    simp [Fate.status]
  have hnone : ((front.map fun id => (id,Lot.taken (fate id))).map fun x => (x.1,x.2.gist)).filterMap
      (fun x => x.2.failed?.map fun f => (x.1,f)) = [] := by
    rw [List.map_map,List.filterMap_map,List.filterMap_eq_nil_iff]
    intro id hid
    have hsuccess : (fate id).gist.status = .success := (Fate.gist_status _).trans (hs id hid)
    simp [Lot.gist,Gist.failed?,hsuccess]
  have hfirst : (s.result name false).firstFailure? = some (k,f) := by
    have hrecords : ((s.result name false).records.map fun q => (q.node,q.gist)) = _ := hm.records
    rw [RunResult.firstFailure?,failures_eq,hrecords,Walk.along_stops hs hne,List.map_append,
      List.filterMap_append,hnone,hk]
    rfl
  rw [RunResult.failure,hfirst]

theorem Matches.exists_record (hm : Matches fate first ids [] h s) (name : String) {id : String}
    {lot : Lot} (hx : (id,lot) ∈ (along fate first ids).lots) :
    ∃ r, (s.result name false).record? id = some r ∧ r.gist = lot.gist :=
  Option.map_eq_some_iff.mp (hm.ended _ hx)

theorem Matches.dispatched_eq (hm : Matches fate first ids [] h s) :
    h.dispatched = (along fate first ids).taken := by
  have hidle : s.inFlight = [] := hm.inFlight.resolve_right fun hflight => by
    obtain ⟨-,_,_,he,-⟩ := hflight
    cases he
  rw [hm.dispatched,hidle,List.append_nil]

/-- How a complete run of nodes agrees with a walk along them. -/
structure Walks (fate : String → Fate) (first : Scope) (ids : List String) (h : History)
    (s : Schedule) (result : RunResult) : Prop where
  records : (result.records.map fun r => (r.node,r.gist)) =
    (along fate first ids).lots.map fun x => (x.1,x.2.gist)
  scope : s.scope = (along fate first ids).scope
  taken : h.dispatched = (along fate first ids).taken
  succeeds : (∀ id ∈ ids, (fate id).status = .success) → result.status = .success ∧
    ∃ last v selected, ids.getLast? = some last ∧ fate last = .success v selected ∧ result.output = v
  stops : ∀ front k back, ids = front ++ k::back → (∀ id ∈ front, (fate id).status = .success) →
    (fate k).status ≠ .success → h.dispatched = front ++ [k] ∧
      (∀ id ∈ front, result.statusOf? id = some .success) ∧
      result.statusOf? k = some (fate k).status ∧
      (∀ a b, [a,b] <:+: k::back → result.Skips b (.blocked [a])) ∧
      result.status = .failed ∧ ∀ f, fate k = .failed f → result.failure = .step k f

theorem Matches.walks (hm : Matches fate first ids [] h s) (hne : ids ≠ []) (name : String) :
    Walks fate first ids h s (s.result name false) where
  records := hm.records
  scope := hm.scope
  taken := hm.dispatched_eq
  succeeds hs := ⟨(hm.result_status hne name).trans (if_pos (Walk.along_blocker?.mpr hs)),
    hm.result_output hne hs name⟩
  stops := by
    rintro front k back rfl hs hk
    have hlots : (along fate first (front ++ k::back)).lots = (front.map fun id =>
        (id,.taken (fate id))) ++ (k,.taken (fate k))::Walk.blockedFrom k back :=
      Walk.along_stops hs hk
    have hstatus {id : String} (hx : (id,.taken (fate id)) ∈
        (along fate first (front ++ k::back)).lots) :
        (s.result name false).statusOf? id = some (fate id).status := by
      obtain ⟨r,hr,hgist⟩ := hm.exists_record name hx
      rw [RunResult.statusOf?,hr,← Fate.gist_status]
      exact congrArg (some ·.status) hgist
    refine ⟨hm.dispatched_eq.trans (Walk.taken_stops hs hk),fun id hid => ?_,?_,fun a b hab => ?_,?_,
      fun f hf => hm.result_failure hs hf name⟩
    · rw [hstatus,hs id hid]
      rw [hlots]
      exact List.mem_append_left _ (List.mem_map_of_mem hid)
    · refine hstatus ?_
      rw [hlots]
      exact List.mem_append_right _ List.mem_cons_self
    · have hx : (b,.blocked a) ∈ (along fate first (front ++ k::back)).lots := by
        rw [hlots]
        exact List.mem_append_right _ (List.mem_cons_of_mem _ (Walk.mem_blockedFrom hab))
      obtain ⟨r,hr,hgist⟩ := hm.exists_record name hx
      exact ⟨r,hr,congrArg Gist.status hgist,congrArg Gist.skipReason hgist⟩
    · refine (hm.result_status hne name).trans (if_neg fun hb => hk ?_)
      exact Walk.along_blocker?.mp hb k (List.mem_append_right _ List.mem_cons_self)

end Complete

/-- A pass after which nothing is under way leaves nothing undone. -/
theorem Matches.complete {graph : Graph} {done rest : List String}
    (hm : Matches fate first done rest h s) (hr : Reaches graph first h s) (now : Instant)
    (hi : (s.pass now).1.inFlight = []) :
    Matches fate first (done ++ rest) [] h (s.pass now).1 := by
  obtain ⟨gone,left,rfl,hdead⟩ := hm.resolveDead now
  have hready : (s.resolveDead now).ready = [] := by
    rw [pass_fst,dispatch_inFlight,List.append_eq_nil_iff,List.map_eq_nil_iff] at hi
    exact hi.2
  have hpass := hdead.dispatch
  rw [hready,List.map_nil,List.append_nil] at hpass
  have hgraph : (s.pass now).1.graph = graph := (hr.pass now).graph_eq
  have hended := hr.isTerminal_of_idle (hgraph ▸ hpass.row.sound) now hi
  obtain rfl : left = [] := List.eq_nil_iff_forall_not_mem.mpr fun id hid => by
    have hopen := hpass.not_isTerminal hid
    have hids : id ∈ graph.ids := by
      rw [← hgraph,pass_fst,hpass.row.ids_eq]
      exact List.mem_append_right _ hid
    rw [← pass_fst,hended id hids] at hopen
    cases hopen
  rw [List.append_nil]
  exact hpass

/-- From everywhere on the way the end can be reached. -/
theorem Matches.exists_end {graph : Graph} {done rest : List String}
    (hm : Matches fate first done rest h s) (hr : Reaches graph first h s)
    (hf : h.Follows graph fate) (now : Instant) : ∃ later t, Reaches graph first (h ++ later) t ∧
      (h ++ later).Follows graph fate ∧ (t.pass now).1.inFlight = [] := by
  -- with every report the nodes that are left become fewer
  induction hlen : rest.length using Nat.strong_induction_on generalizing done rest h s with
  | _ length ih =>
  obtain ⟨gone,left,rfl,hpass⟩ := hm.pass now
  obtain hidle | ⟨-,id,more,rfl,hflight⟩ := hpass.inFlight
  · exact ⟨[],s,by rwa [List.append_nil],by rwa [List.append_nil],hidle⟩
  · have ha : id ∈ (s.pass now).1.inFlight := hflight ▸ List.mem_cons_self
    obtain ⟨report,hreport⟩ : ∃ report : Report, report.ending = (fate id).ending [] :=
      ⟨⟨(fate id).ending [],1,now⟩,rfl⟩
    obtain ⟨_,he,hnext⟩ := hpass.finished now ha hreport
    obtain ⟨-,rfl⟩ := List.cons_eq_cons.mp he
    have hawaits : (s.pass now).1.Awaits (.finished id report) := by
      refine ⟨ha,fun n _ _ => ?_⟩
      rw [hreport,Matches.unselected_ending]
      exact List.nil_subset _
    have hgraph : (s.pass now).1.graph = graph := (hr.pass now).graph_eq
    have hfollows : History.Follows graph fate
        (h ++ (s.pass now).2.map (.dispatch ·.id) ++ [.event (.finished id report)]) := by
      intro other reported hmem n hn hid
      rw [History.events_event,History.events_dispatches,List.mem_append,List.mem_singleton] at hmem
      obtain hmem | hmem := hmem
      · exact hf other reported hmem n hn hid
      · obtain ⟨rfl,rfl⟩ := Event.finished.inj hmem
        rw [hpass.row.targets n (hgraph ▸ hn)]
        exact hreport
    obtain ⟨later,t,ht,htf,hidle⟩ := ih more.length (by simp [← hlen]; omega) hnext
      ((hr.pass now).event now hawaits) hfollows rfl
    rw [List.append_assoc,List.append_assoc] at ht htf
    exact ⟨_,t,ht,htf,hidle⟩

/-- Steps in a row that each wait for nothing but the one before, and each of which ends, if it is taken,
as settled in advance. Whatever the order of events, at most one is under way, they are taken in their
order, and each sees the results of all before it; the run cannot get stuck. When nothing is under way
any more it has come to what going through the steps from left to right comes to: it succeeds with the
result of the last step if all of them succeed; otherwise it fails, with the failure of the first step
that does not succeed if that has failed, no step after that is taken, and each is blocked by the one
before it. -/
theorem steps_are_taken_in_turn {cap : Nat} {steps : List NamedNode} {fate : String → Fate}
    {first : Scope} {h : History} {s : Schedule} (hs : Block.IsRow steps)
    (hr : Reaches ((Block.steps steps).toGraph cap) first h s)
    (hf : h.Follows ((Block.steps steps).toGraph cap) fate) :
    (s.inFlight.length ≤ 1 ∧ h.dispatched <+: steps.map (·.1) ∧
      ∀ now, ∀ n ∈ (s.pass now).2, ∃ front back, steps.map (·.1) = front ++ n.id::back ∧
        (s.pass now).1.scope = (along fate first front).scope ∧ ∀ id ∈ front, ∃ v selected,
          fate id = .success v selected ∧ (s.pass now).1.scope.result? id = some v) ∧
    (∀ now, ∃ later t, Reaches ((Block.steps steps).toGraph cap) first (h ++ later) t ∧
      (h ++ later).Follows ((Block.steps steps).toGraph cap) fate ∧
      (t.pass now).1.inFlight = []) ∧
    ∀ now later name, (s.pass now).1.inFlight = [] →
      (s.pass now).1.sweep later = (s.pass now).1 ∧
      Walks fate first (steps.map (·.1)) h (s.pass now).1 ((s.pass now).1.result name false) := by
  have hg := hs.graph cap
  obtain ⟨done,rest,hids,hm⟩ := hr.matches hg hf
  rw [hids]
  refine ⟨⟨?_,?_,fun now n hn => ?_⟩,hm.exists_end hr hf,fun now later name hi => ?_⟩
  · obtain hidle | ⟨-,_,_,-,hflight⟩ := hm.inFlight
    · rw [hidle]
      exact Nat.zero_le 1
    · rw [hflight]
      exact Nat.le_refl 1
  · rw [hm.dispatched]
    obtain hidle | ⟨hb,id,more,rfl,hflight⟩ := hm.inFlight
    · rw [hidle,List.append_nil]
      exact Walk.along_taken_isPrefix.trans (List.prefix_append done rest)
    · rw [hflight,Walk.along_taken hb]
      exact ⟨more,by simp⟩
  · obtain ⟨gone,left,rfl,hdead⟩ := hm.resolveDead now
    obtain ⟨⟨back,rfl⟩,-,hb⟩ := hdead.of_ready hn
    have hscope : (s.pass now).1.scope = (along fate first (done ++ gone)).scope := hdead.scope
    refine ⟨done ++ gone,back,(List.append_assoc ..).symm,hscope,?_⟩
    rw [hscope]
    exact Walk.along_shows (List.nodup_append.mp hdead.row.distinct).1 (Walk.along_blocker?.mp hb)
  · have hend := hm.complete hr now hi
    have hgraph : (s.pass now).1.graph = (Block.steps steps).toGraph cap := (hr.pass now).graph_eq
    have hne : done ++ rest ≠ [] := hids ▸ mt List.map_eq_nil_iff.mp hs.nonempty
    refine ⟨sweep_eq_self hend.table ?_ ?_ later,hend.walks hne name⟩
    · exact hend.row.sound.nodup
    · rw [hgraph]
      exact hr.isTerminal_of_idle hg.sound now hi

namespace Pancakes

abbrev cook : NodeDefinition Block := { kind := .action "cook" .null }

abbrev steps : List NamedNode := [("mix",cook),("fry",cook),("serve",cook)]

theorem isRow : Block.IsRow steps where
  nonempty := List.cons_ne_nil _ _
  distinct := by decide
  undeclared := by simp [steps]
  unbranched := by simp [steps]

abbrev graph : Graph := (Block.steps steps).toGraph standardCap

abbrev time : Instant := .ofMillis 0

/-- They are burnt. -/
def fate (id : String) : Fate :=
  if id = "fry" then .failed (.internal "smoke") else .success .null []

abbrev done : Report := ⟨.success .null [],1,time⟩

abbrev burnt : Report := ⟨.failed (.internal "smoke"),1,time⟩

abbrev mixing : Schedule := ((start graph {}).scan time).dispatch

abbrev frying : Schedule := ((mixing.apply time (.finished "mix" done)).scan time).dispatch

abbrev smoking : Schedule := frying.apply time (.finished "fry" burnt)

abbrev history : History :=
  [.dispatch "mix",.event (.finished "mix" done),.dispatch "fry",.event (.finished "fry" burnt)]

theorem reaches : Reaches graph {} history smoking := by
  have hmixing : Reaches graph {} [.dispatch "mix"] mixing := Reaches.start.scan time (by decide)
  have hmixed : mixing.Awaits (.finished "mix" done) := ⟨by decide,by decide⟩
  have hfrying : Reaches graph {}
      [.dispatch "mix",.event (.finished "mix" done),.dispatch "fry"] frying :=
    (hmixing.event time hmixed).scan time (by decide)
  exact hfrying.event time ⟨by decide,by decide⟩

theorem follows : History.Follows graph fate history := by
  intro id report hmem n hn hid
  rw [(isRow.graph standardCap).targets n hn]
  simp only [History.events,List.filterMap_cons,List.filterMap_nil,List.mem_cons,
    List.not_mem_nil,or_false,Event.finished.injEq] at hmem
  rcases hmem with ⟨rfl,rfl⟩ | ⟨rfl,rfl⟩ <;> rfl

theorem pass_smoking : (smoking.pass time).1 = (smoking.scan time).dispatch := by
  rw [pass_fst,resolveDead_eq_scan (by decide)]

end Pancakes

/-- Nothing is served, because of the frying. -/
theorem steps_are_taken_in_turn_pancakes :
    let result := (Pancakes.smoking.pass Pancakes.time).1.result "pancakes" false
    Pancakes.smoking.inFlight.length ≤ 1 ∧ result.status = .failed ∧
      result.Skips "serve" (.blocked ["fry"]) ∧
      result.failure = .step "fry" (.internal "smoke") := by
  have hi : (Pancakes.smoking.pass Pancakes.time).1.inFlight = [] := by
    rw [Pancakes.pass_smoking]
    decide
  obtain ⟨⟨hone,-⟩,-,hcomplete⟩ :=
    steps_are_taken_in_turn Pancakes.isRow Pancakes.reaches Pancakes.follows
  obtain ⟨-,hwalks⟩ := hcomplete Pancakes.time Pancakes.time "pancakes" hi
  obtain ⟨-,-,-,hskips,hstatus,hfailure⟩ := hwalks.stops ["mix"] "fry" ["serve"] rfl (by decide)
    (by decide)
  exact ⟨hone,hstatus,hskips "fry" "serve" (by decide),hfailure _ rfl⟩

end Schedule

end TaskGraph
