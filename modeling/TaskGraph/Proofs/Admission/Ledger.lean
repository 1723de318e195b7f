import Mathlib.Data.List.Nodup
import TaskGraph.Admission

/-!
The books of an admission. Every act keeps them balanced: what is in use of a tag is what parties hold
of it, slots are free or held, and the queue lists the parties that wait in turn.
-/

namespace TaskGraph.Admission

variable {κ : Type}

namespace Party

/-- Whether one of the tag's outstanding grants is this party's. -/
def holds (p : Party κ) (tag : String) : Bool := p.holdsTags && p.request.tags.contains tag

/-- Its place in the queue. -/
def place? (p : Party κ) : Option (Nat × NameSet) := p.ticket?.map (·,p.request.tags)

/-- A party stands as its request allows: it waits for tags only if it asked for some, and then has
a ticket unless it passes by, and holds a slot only if it asked for one. -/
structure Sensible (p : Party κ) : Prop where
  tags : p.request.tags.Nodup
  waiting : p.holdsTags = false → p.request.tags ≠ [] ∧ p.ticket?.isSome = !p.request.bypass
  slot : p.holdsSlot = true → p.request.slot = true

theorem holdsSlot_of_waiting {p : Party κ} (h : p.holdsTags = false) : p.holdsSlot = false := by
  cases hs : p.stage <;> simp_all [holdsTags,holdsSlot]

theorem holds_toNat {p : Party κ} (h : p.request.tags.Nodup) (tag : String) :
    (p.holds tag).toNat = if p.holdsTags then p.request.tags.count tag else 0 := by
  cases hw : p.holdsTags with
  | false => simp [holds,hw]
  | true =>
    by_cases hm : tag ∈ p.request.tags
    · simp [holds,hw,hm,List.count_eq_one_of_mem h hm]
    · simp [holds,hw,hm,List.count_eq_zero_of_not_mem hm]

theorem holdsSlot_of_slot {p : Party κ} (h : p.stage = .slot) : p.holdsSlot = false := by
  rw [holdsSlot,h]
  rfl

theorem holdsTags_of_slot {p : Party κ} (h : p.stage = .slot) : p.holdsTags = true := by
  rw [holdsTags,h]

theorem holdsTags_of_granted {p : Party κ} {slot : Bool} (h : p.stage = .granted slot) :
    p.holdsTags = true := by
  rw [holdsTags,h]

theorem holdsSlot_of_granted {p : Party κ} {slot : Bool} (h : p.stage = .granted slot) :
    p.holdsSlot = slot := by
  rw [holdsSlot,h]
  cases slot <;> rfl

theorem ticket?_of_holdsTags {p : Party κ} (h : p.holdsTags = true) : p.ticket? = none := by
  cases hs : p.stage <;> simp_all [holdsTags,ticket?]

@[simp] theorem wake_id (p : Party κ) : p.wake.id = p.id := by unfold wake; split <;> rfl

@[simp] theorem wake_request (p : Party κ) : p.wake.request = p.request := by unfold wake; split <;> rfl

@[simp] theorem wake_holdsTags (p : Party κ) : p.wake.holdsTags = p.holdsTags := by
  cases hs : p.stage <;> simp [wake,holdsTags,hs]

@[simp] theorem wake_holdsSlot (p : Party κ) : p.wake.holdsSlot = p.holdsSlot := by
  cases hs : p.stage <;> simp [wake,holdsSlot,hs]

@[simp] theorem wake_ticket? (p : Party κ) : p.wake.ticket? = p.ticket? := by
  cases hs : p.stage <;> simp [wake,ticket?,hs]

theorem wake_slot (p : Party κ) : p.wake.stage = .slot ↔ p.stage = .slot := by
  cases hs : p.stage <;> simp [wake,hs]

@[simp] theorem wake_holds (p : Party κ) (tag : String) : p.wake.holds tag = p.holds tag := by
  simp [holds]

@[simp] theorem wake_place? (p : Party κ) : p.wake.place? = p.place? := by
  simp [place?]

theorem Sensible.exists_ticket {p : Party κ} (h : p.Sensible) (hw : p.holdsTags = false)
    (hb : p.request.bypass = false) : ∃ k, p.ticket? = some k := by
  have := (h.waiting hw).2
  rw [hb] at this
  exact Option.isSome_iff_exists.mp this

theorem Sensible.wake {p : Party κ} (h : p.Sensible) : p.wake.Sensible where
  tags := by simpa using h.tags
  waiting := by simpa using h.waiting
  slot := by simpa using h.slot

end Party

/-- Parties around one of them, of which none has its id. -/
theorem split_parties {parties : List (Party κ)} (hids : (parties.map Party.id).Nodup)
    {p : Party κ} (hp : p ∈ parties) :
    ∃ l r, parties = l ++ p::r ∧ ∀ q ∈ l ++ r, q.id ≠ p.id := by
  obtain ⟨l,r,rfl⟩ := List.append_of_mem hp
  refine ⟨l,r,rfl,fun q hq he => ?_⟩
  rw [List.map_append,List.map_cons,List.nodup_middle] at hids
  refine (List.nodup_cons.mp hids).1 ?_
  rw [← he,← List.map_append]
  exact List.mem_map_of_mem hq

/-- The books of an admission while tags are in hand and slots loose: they count as taken, and no
party has them. -/
structure Ledger (a : Admission κ) (hand : NameSet) (loose : Nat) : Prop where
  ids : (a.parties.map Party.id).Nodup
  sensible : ∀ p ∈ a.parties, p.Sensible
  used : ∀ tag, a.used tag = a.parties.countP (·.holds tag)+hand.count tag
  fits : ∀ tag, a.used tag ≤ a.capacity tag
  slots : a.free+a.parties.countP Party.holdsSlot+loose = a.slots
  queue : a.queue = a.parties.filterMap Party.place?
  tickets : a.queue.Pairwise (·.1 < ·.1)
  next : ∀ q ∈ a.queue, q.1 < a.nextTicket
  waiters : a.slotQueue.Nodup
  slotQueue : ∀ id ∈ a.slotQueue, ∃ p ∈ a.parties,
    p.id = id ∧ p.stage = .slot ∧ p.request.slot = true

/-- Nothing is in hand, nothing loose. -/
abbrev Balanced (a : Admission κ) : Prop := Ledger a [] 0

theorem start_balanced (pools : Pools) (slots : Nat) :
    (start pools slots : Admission κ).Balanced where
  ids := .nil
  sensible := by simp [start]
  used := fun tag => by simp [start,used,Counts.get]
  fits := fun tag => by simp [start,used,Counts.get]
  slots := by simp [start]
  queue := rfl
  tickets := .nil
  next := by simp [start]
  waiters := .nil
  slotQueue := by simp [start]

theorem ids_wakeAll (a : Admission κ) : a.wakeAll.parties.map Party.id = a.parties.map Party.id :=
  (List.map_map ..).trans (List.map_congr_left fun p _ => p.wake_id)

theorem Ledger.wakeAll {a : Admission κ} {hand : NameSet} {loose : Nat} (h : Ledger a hand loose) :
    Ledger a.wakeAll hand loose where
  ids := a.ids_wakeAll.symm ▸ h.ids
  sensible := by
    intro q hq
    obtain ⟨p,hp,rfl⟩ := List.mem_map.mp hq
    exact (h.sensible p hp).wake
  used := by
    intro tag
    have : (fun p : Party κ => p.holds tag) ∘ Party.wake = fun p => p.holds tag :=
      funext fun p => p.wake_holds tag
    change a.used tag = (a.parties.map Party.wake).countP _+_
    rw [List.countP_map,this]
    exact h.used tag
  fits := h.fits
  slots := by
    have : Party.holdsSlot ∘ Party.wake = (Party.holdsSlot : Party κ → Bool) :=
      funext Party.wake_holdsSlot
    change a.free+(a.parties.map Party.wake).countP _+loose = a.slots
    rw [List.countP_map,this]
    exact h.slots
  queue := by
    have : Party.place? ∘ Party.wake = (Party.place? : Party κ → _) := funext Party.wake_place?
    change a.queue = (a.parties.map Party.wake).filterMap _
    rw [List.filterMap_map,this]
    exact h.queue
  tickets := h.tickets
  next := h.next
  waiters := h.waiters
  slotQueue := by
    intro id hid
    obtain ⟨p,hp,he,hs,hr⟩ := h.slotQueue id hid
    exact ⟨p.wake,List.mem_map_of_mem hp,by rw [p.wake_id,he],p.wake_slot.mpr hs,
      by rw [p.wake_request,hr]⟩

theorem filter_split {l r : List (Nat × NameSet)} {e : Nat × NameSet}
    (h : (l ++ e::r).Pairwise (·.1 < ·.1)) : (l ++ e::r).filter (fun q => q.1 != e.1) = l ++ r := by
  obtain ⟨-,hright,hcross⟩ := List.pairwise_append.mp h
  have hbefore : ∀ q ∈ l, (q.1 != e.1) = true := by
    intro q hq
    have := hcross q hq e List.mem_cons_self
    simp only [bne_iff_ne]
    omega
  have hafter : ∀ q ∈ r, (q.1 != e.1) = true := by
    intro q hq
    have := (List.pairwise_cons.mp hright).1 q hq
    simp only [bne_iff_ne]
    omega
  rw [List.filter_append,List.filter_eq_self.mpr hbefore,List.filter_cons_of_neg (by simp),
    List.filter_eq_self.mpr hafter]

/-- Without one entry the queue lists the others. -/
theorem Ledger.without_entry {a : Admission κ} {hand : NameSet} {loose : Nat} {p : Party κ}
    (h : Ledger a hand loose) {l r : List (Party κ)}
    (hsplit : a.parties = l ++ p::r) {k : Nat} (hk : p.ticket? = some k) :
    a.queue.filter (fun q => q.1 != k) = (l ++ r).filterMap Party.place? := by
  have hentry : p.place? = some (k,p.request.tags) := by simp [Party.place?,hk]
  have hsorted := h.tickets
  rw [h.queue,hsplit,List.filterMap_append,List.filterMap_cons_some hentry] at hsorted ⊢
  rw [filter_split hsorted,List.filterMap_append]

/-- Fewer wait for a slot. -/
theorem Ledger.shorten {a : Admission κ} {hand : NameSet} {loose : Nat} (h : Ledger a hand loose)
    {waiters : List κ} (hsub : waiters.Sublist a.slotQueue) :
    Ledger { a with slotQueue := waiters } hand loose :=
  { h with
    waiters := h.waiters.sublist hsub
    slotQueue := fun id hid => h.slotQueue id (hsub.subset hid) }

theorem Ledger.returnTags {a : Admission κ} {hand : NameSet} {loose : Nat}
    (h : Ledger a hand loose) : Ledger (a.returnTags hand) [] loose := by
  unfold Admission.returnTags
  split
  · next he => rwa [List.isEmpty_iff.mp he] at h
  · have hback : Ledger { a with inUse := a.inUse.remove hand } [] loose := by
      have hget (tag : String) : Counts.get tag (a.inUse.remove hand) = a.used tag-hand.count tag :=
        Counts.get_remove hand a.inUse tag
      refine { h with used := fun tag => ?_, fits := fun tag => ?_ }
      · change Counts.get tag (a.inUse.remove hand) = a.parties.countP (·.holds tag)+0
        rw [hget,h.used]
        omega
      · have := h.fits tag
        change Counts.get tag (a.inUse.remove hand) ≤ a.capacity tag
        rw [hget]
        omega
    exact hback.wakeAll

/-- Somebody new that holds nothing yet. -/
theorem Ledger.enter {a : Admission κ} {hand : NameSet} {loose : Nat} {p : Party κ}
    (h : Ledger a hand loose) (hid : ∀ q ∈ a.parties, q.id ≠ p.id) (hp : p.Sensible)
    (hholds : ∀ tag, p.holds tag = false) (hslot : p.holdsSlot = false) (next : Nat)
    (hnext : a.nextTicket ≤ next) (hentry : ∀ e ∈ p.place?, a.nextTicket ≤ e.1 ∧ e.1 < next) :
    Ledger ({ a with queue := a.queue ++ p.place?.toList, nextTicket := next }.enter p)
      hand loose where
  ids := by
    change ((a.parties ++ [p]).map Party.id).Nodup
    rw [List.map_append]
    refine List.nodup_append.mpr ⟨h.ids,List.nodup_singleton _,?_⟩
    rintro _ hmem _ hmem' rfl
    obtain ⟨q,hq,he⟩ := List.mem_map.mp hmem
    exact hid q hq (he.trans (List.mem_singleton.mp hmem'))
  sensible := by
    intro q hq
    rcases List.mem_append.mp hq with hq | hq
    · exact h.sensible q hq
    · rwa [List.mem_singleton.mp hq]
  used := by
    intro tag
    change a.used tag = (a.parties ++ [p]).countP _+_
    simp [h.used,hholds]
  fits := h.fits
  slots := by
    change a.free+(a.parties ++ [p]).countP _+loose = a.slots
    simp [← h.slots,hslot]
  queue := by
    change a.queue ++ _ = (a.parties ++ [p]).filterMap _
    rw [List.filterMap_append,← h.queue]
    cases he : p.place? <;> simp [he]
  tickets := by
    refine List.pairwise_append.mpr ⟨h.tickets,?_,fun q hq e he => ?_⟩
    · cases p.place? <;> simp
    · exact Nat.lt_of_lt_of_le (h.next q hq) (hentry e (by simpa using he)).1
  next := by
    intro q hq
    rcases List.mem_append.mp hq with hq | hq
    · exact Nat.lt_of_lt_of_le (h.next q hq) hnext
    · exact (hentry q (by simpa using hq)).2
  waiters := h.waiters
  slotQueue := by
    intro id hid
    obtain ⟨q,hq,hrest⟩ := h.slotQueue id hid
    exact ⟨q,List.mem_append_left _ hq,hrest⟩

variable [DecidableEq κ]

theorem mem_of_party? {a : Admission κ} {id : κ} {p : Party κ} (h : a.party? id = some p) :
    p ∈ a.parties ∧ p.id = id :=
  ⟨List.mem_of_find?_eq_some h,by simpa using List.find?_some h⟩

theorem ne_of_party?_eq_none {a : Admission κ} {id : κ} (h : a.party? id = none) :
    ∀ p ∈ a.parties, p.id ≠ id := by
  intro p hp
  simpa using List.find?_eq_none.mp h p hp

theorem party?_of_mem {a : Admission κ} (hids : (a.parties.map Party.id).Nodup) {p : Party κ}
    (hp : p ∈ a.parties) : a.party? p.id = some p := by
  obtain ⟨l,r,hsplit,hne⟩ := split_parties hids hp
  have hl : l.find? (fun q => q.id == p.id) = none := by
    refine List.find?_eq_none.mpr fun q hq => ?_
    simpa using hne q (List.mem_append_left r hq)
  simp [party?,hsplit,hl]

theorem eq_of_id {a : Admission κ} (hids : (a.parties.map Party.id).Nodup) {p q : Party κ}
    (hp : p ∈ a.parties) (hq : q ∈ a.parties) (he : p.id = q.id) : p = q :=
  Option.some.inj (by rw [← party?_of_mem hids hp,← party?_of_mem hids hq,he])

theorem ids_setStage (a : Admission κ) (id : κ) (stage : Stage) :
    (a.setStage id stage).parties.map Party.id = a.parties.map Party.id := by
  refine (List.map_map ..).trans (List.map_congr_left fun p _ => ?_)
  dsimp only [Function.comp]
  split <;> rfl

theorem setStage_split {a : Admission κ} {l r : List (Party κ)} {p : Party κ}
    (h : a.parties = l ++ p::r) (hne : ∀ q ∈ l ++ r, q.id ≠ p.id) (stage : Stage) :
    (a.setStage p.id stage).parties = l ++ { p with stage }::r := by
  have hkeep (part : List (Party κ)) (hpart : ∀ q ∈ part, q.id ≠ p.id) :
      part.map (fun q => if q.id = p.id then { q with stage } else q) = part := by
    rw [List.map_congr_left fun q hq => if_neg (hpart q hq),List.map_id']
  simp only [setStage,h,List.map_append,List.map_cons,if_true]
  rw [hkeep l fun q hq => hne q (List.mem_append_left r hq),
    hkeep r fun q hq => hne q (List.mem_append_right l hq)]

theorem countP_setStage {a : Admission κ} (hids : (a.parties.map Party.id).Nodup) {p : Party κ}
    (hp : p ∈ a.parties) (stage : Stage) (f : Party κ → Bool) :
    (a.setStage p.id stage).parties.countP f+(f p).toNat =
      a.parties.countP f+(f { p with stage }).toNat := by
  obtain ⟨l,r,hsplit,hne⟩ := split_parties hids hp
  rw [setStage_split hsplit hne,hsplit]
  cases hf : f p <;> cases hf' : f { p with stage } <;>
    simp [List.countP_append,hf,hf'] <;> omega

theorem dismiss_split {l r : List (Party κ)} {p : Party κ} (hne : ∀ q ∈ l ++ r, q.id ≠ p.id) :
    (l ++ p::r).filter (fun q => q.id != p.id) = l ++ r := by
  have hkeep : (l ++ r).filter (fun q => q.id != p.id) = l ++ r :=
    List.filter_eq_self.mpr fun q hq => by simpa using hne q hq
  simpa [List.filter_append] using hkeep

namespace Ledger

variable {a : Admission κ} {hand hand' : NameSet} {loose loose' : Nat} {p : Party κ}

/-- A ticket has one holder. -/
theorem eq_of_ticket (h : Ledger a hand loose) {q : Party κ} (hp : p ∈ a.parties)
    (hq : q ∈ a.parties) {k : Nat} (hk : p.ticket? = some k) (hk' : q.ticket? = some k) : q = p := by
  obtain ⟨l,r,hsplit,-⟩ := split_parties h.ids hp
  by_contra hne
  have hother : q ∈ l ++ r := by
    rw [hsplit] at hq
    simpa [hne] using hq
  have hentry : (k,q.request.tags) ∈ a.queue.filter fun e => e.1 != k := by
    rw [h.without_entry hsplit hk]
    exact List.mem_filterMap.mpr ⟨q,hother,by simp [Party.place?,hk']⟩
  simpa using (List.mem_filter.mp hentry).2

/-- Who waits for a slot is the only party of its id, and waits. -/
theorem slotQueue_of_mem (h : Ledger a hand loose) (hp : p ∈ a.parties) (hq : p.id ∈ a.slotQueue) :
    p.stage = .slot := by
  obtain ⟨q,hq,he,hs,-⟩ := h.slotQueue p.id hq
  rwa [eq_of_id h.ids hq hp he] at hs

theorem notMem_slotQueue (h : Ledger a hand loose) (hp : p ∈ a.parties) (hs : p.stage ≠ .slot) :
    p.id ∉ a.slotQueue :=
  fun hmem => hs (h.slotQueue_of_mem hp hmem)

/-- One party changes its stage, and perhaps loses its place in the queue: what it gives up is in
hand or loose, what it gets was. -/
theorem restage (h : Ledger a hand loose) (hp : p ∈ a.parties) {queue : List (Nat × NameSet)}
    {stage : Stage} (hsensible : Party.Sensible { p with stage })
    (hhand : ∀ tag, (Party.holds { p with stage } tag).toNat+hand'.count tag =
      (p.holds tag).toNat+hand.count tag)
    (hloose : (Party.holdsSlot { p with stage }).toNat+loose' = p.holdsSlot.toNat+loose)
    (hsub : queue.Sublist a.queue)
    (hqueue : queue = (a.setStage p.id stage).parties.filterMap Party.place?)
    (hslot : p.id ∈ a.slotQueue → stage = .slot) :
    Ledger ({ a with queue }.setStage p.id stage) hand' loose' := by
  obtain ⟨l,r,hsplit,hne⟩ := split_parties h.ids hp
  have hset := setStage_split hsplit hne stage
  have hparties : ({ a with queue }.setStage p.id stage).parties = l ++ { p with stage }::r := hset
  refine ⟨?_,?_,?_,h.fits,?_,?_,h.tickets.sublist hsub,fun q hq => h.next q (hsub.subset hq),
    h.waiters,?_⟩
  · exact (ids_setStage a p.id stage).symm ▸ h.ids
  · intro q hq
    rw [hparties,List.mem_append,List.mem_cons] at hq
    rcases hq with hq | rfl | hq
    · exact h.sensible q (by simp [hsplit,hq])
    · exact hsensible
    · exact h.sensible q (by simp [hsplit,hq])
  · intro tag
    have hused := h.used tag
    have := countP_setStage h.ids hp stage fun p => p.holds tag
    have := hhand tag
    change a.used tag = (a.setStage p.id stage).parties.countP _+_
    omega
  · have hslots := h.slots
    have := countP_setStage h.ids hp stage Party.holdsSlot
    change a.free+(a.setStage p.id stage).parties.countP _+loose' = a.slots
    omega
  · exact hqueue
  · intro id hid
    obtain ⟨q,hq,he,hs,hr⟩ := h.slotQueue id hid
    rw [hsplit,List.mem_append,List.mem_cons] at hq
    rcases hq with hq | rfl | hq
    · exact ⟨q,by simp [hparties,hq],he,hs,hr⟩
    · exact ⟨{ q with stage },by simp [hparties],he,hslot (he ▸ hid),hr⟩
    · exact ⟨q,by simp [hparties,hq],he,hs,hr⟩

/-- One party changes its stage, and waits for tags or has them as before. -/
theorem setStage (h : Ledger a hand loose) (hp : p ∈ a.parties) {stage : Stage}
    (htags : Party.holdsTags { p with stage } = p.holdsTags)
    (hticket : Party.ticket? { p with stage } = p.ticket?)
    (hslot : Party.holdsSlot { p with stage } = true → p.request.slot = true)
    (hloose : (Party.holdsSlot { p with stage }).toNat+loose' = p.holdsSlot.toNat+loose)
    (hqueue : p.id ∈ a.slotQueue → stage = .slot) :
    Ledger (a.setStage p.id stage) hand loose' := by
  have hp' := h.sensible p hp
  refine h.restage hp ⟨hp'.tags,?_,hslot⟩ ?_ hloose (List.Sublist.refl a.queue) ?_ hqueue
  · rw [htags,hticket]
    exact hp'.waiting
  · simp [Party.holds,htags]
  · obtain ⟨l,r,hsplit,hne⟩ := split_parties h.ids hp
    have hentry : Party.place? { p with stage } = p.place? := by simp [Party.place?,hticket]
    rw [setStage_split hsplit hne,h.queue,hsplit]
    simp only [List.filterMap_append,List.filterMap_cons,hentry]

/-- One party that has its tags changes its stage and keeps them. -/
theorem moveOn (h : Ledger a hand loose) (hp : p ∈ a.parties) {stage : Stage}
    (hholds : p.holdsTags = true) (hkeeps : Party.holdsTags { p with stage } = true)
    (hslot : Party.holdsSlot { p with stage } = true → p.request.slot = true)
    (hloose : (Party.holdsSlot { p with stage }).toNat+loose' = p.holdsSlot.toNat+loose)
    (hqueue : p.id ∈ a.slotQueue → stage = .slot) :
    Ledger (a.setStage p.id stage) hand loose' := by
  refine h.setStage hp (hkeeps.trans hholds.symm) ?_ hslot hloose hqueue
  rw [Party.ticket?_of_holdsTags hholds]
  exact Party.ticket?_of_holdsTags hkeeps

theorem passSlot (h : Ledger a hand (loose+1)) : Ledger a.passSlot hand loose := by
  unfold Admission.passSlot
  split
  · next hq =>
    have hslots := h.slots
    refine { h with slots := ?_ }
    change a.free+1+a.parties.countP Party.holdsSlot+loose = a.slots
    omega
  · next id rest hq =>
    obtain ⟨p,hp,rfl,hs,hr⟩ := h.slotQueue id (by simp [hq])
    have hnodup := h.waiters
    rw [hq] at hnodup
    have hrest : Ledger { a with slotQueue := rest } hand (loose+1) :=
      h.shorten (hq ▸ List.sublist_cons_self p.id rest)
    refine hrest.moveOn hp (Party.holdsTags_of_slot hs) rfl (fun _ => hr) ?_ fun hmem => ?_
    · rw [Party.holdsSlot_of_slot hs,Party.holdsSlot_of_granted rfl]
      simp [Nat.add_comm]
    · exact absurd hmem (List.nodup_cons.mp hnodup).1

/-- A party that just got its tags. -/
theorem takeSlot (h : Ledger a hand loose) (hp : p ∈ a.parties) (hs : p.stage = .slot)
    (hq : p.id ∉ a.slotQueue) : Ledger (a.takeSlot p.id p.request) hand loose := by
  have hholds := Party.holdsTags_of_slot hs
  obtain ⟨-,he⟩ | ⟨hr,hfree,he⟩ | ⟨hr,-,he⟩ := a.takeSlot_cases p.id p.request <;> rw [he]
  · refine h.moveOn hp hholds rfl ?_ ?_ fun hmem => absurd hmem hq
    · simp [Party.holdsSlot_of_granted]
    · rw [Party.holdsSlot_of_slot hs,Party.holdsSlot_of_granted rfl]
  · have htaken : Ledger { a with free := a.free-1 } hand (loose+1) := by
      have hslots := h.slots
      refine { h with slots := ?_ }
      change a.free-1+a.parties.countP Party.holdsSlot+(loose+1) = a.slots
      omega
    refine htaken.moveOn hp hholds rfl (fun _ => hr) ?_ fun hmem => absurd hmem hq
    rw [Party.holdsSlot_of_slot hs,Party.holdsSlot_of_granted rfl]
    simp [Nat.add_comm]
  · have hlined : Ledger { a with slotQueue := a.slotQueue ++ [p.id] } hand loose := by
      refine { h with waiters := ?_, slotQueue := fun id hid => ?_ }
      · refine List.nodup_append.mpr ⟨h.waiters,List.nodup_singleton p.id,?_⟩
        rintro id hid _ hmem rfl
        exact hq (List.mem_singleton.mp hmem ▸ hid)
      · rcases List.mem_append.mp hid with hid | hid
        · exact h.slotQueue id hid
        · exact ⟨p,hp,(List.mem_singleton.mp hid).symm,hs,hr⟩
    refine hlined.moveOn hp hholds rfl (fun _ => hr) ?_ fun _ => rfl
    rw [Party.holdsSlot_of_slot hs,Party.holdsSlot_of_slot rfl]

/-- A party is gone from the parties and the queues: what it held is in hand and loose. -/
theorem dismiss (h : Ledger a [] 0) (hp : p ∈ a.parties) {queue : List (Nat × NameSet)}
    (hqueue : queue = (a.parties.filter fun q => q.id != p.id).filterMap Party.place?)
    {waiters : List κ} (hsub : waiters.Sublist a.slotQueue) (hwaiters : p.id ∉ waiters) :
    Ledger { a with
      parties := a.parties.filter fun q => q.id != p.id, queue, slotQueue := waiters }
      (if p.holdsTags then p.request.tags else []) p.holdsSlot.toNat := by
  obtain ⟨l,r,hsplit,hne⟩ := split_parties h.ids hp
  have hkept : a.parties.filter (fun q => q.id != p.id) = l ++ r := by
    rw [hsplit,dismiss_split hne]
  have hsubset : (l ++ r).Sublist a.parties := hkept ▸ List.filter_sublist
  have hcount (f : Party κ → Bool) : a.parties.countP f = (l ++ r).countP f+(f p).toNat := by
    cases hf : f p <;> simp [hsplit,hf]
    omega
  have hsubqueue : queue.Sublist a.queue := by
    rw [hqueue,h.queue]
    exact List.filter_sublist.filterMap _
  rw [hkept] at hqueue ⊢
  refine ⟨h.ids.sublist (hsubset.map _),fun q hq => h.sensible q (hsubset.subset hq),?_,h.fits,?_,
    hqueue,h.tickets.sublist hsubqueue,fun q hq => h.next q (hsubqueue.subset hq),
    h.waiters.sublist hsub,?_⟩
  · intro tag
    have hused := h.used tag
    rw [hcount,p.holds_toNat (h.sensible p hp).tags,List.count_nil] at hused
    change a.used tag = _
    rw [hused]
    split <;> simp
  · have hslots := h.slots
    rw [hcount] at hslots
    exact (Nat.add_assoc _ _ _).trans hslots
  · intro id hid
    obtain ⟨q,hq,he,hrest⟩ := h.slotQueue id (hsub.subset hid)
    refine ⟨q,?_,he,hrest⟩
    have hother : q.id ≠ p.id := by
      rintro hsame
      exact hwaiters (hsame ▸ he ▸ hid)
    rw [← hkept]
    exact List.mem_filter.mpr ⟨hq,by simpa using hother⟩

omit [DecidableEq κ] in
/-- Tags for which there is room are taken, and are in hand. -/
theorem take (h : Balanced a) {tags : NameSet} (hnodup : tags.Nodup)
    (hroom : a.hasRoom tags = true) : Ledger { a with inUse := a.inUse.add tags } tags 0 := by
  have hget (tag : String) : Counts.get tag (a.inUse.add tags) = a.used tag+tags.count tag :=
    Counts.get_add tags a.inUse tag
  refine { h with used := fun tag => ?_, fits := fun tag => ?_ }
  · change Counts.get tag (a.inUse.add tags) = a.parties.countP (·.holds tag)+tags.count tag
    rw [hget,h.used]
    simp
  · change Counts.get tag (a.inUse.add tags) ≤ a.capacity tag
    rw [hget]
    have hfits := h.fits tag
    by_cases hm : tag ∈ tags
    · have hless : a.used tag < a.capacity tag := by simpa using List.all_eq_true.mp hroom tag hm
      rw [List.count_eq_one_of_mem hnodup hm]
      omega
    · rwa [List.count_eq_zero_of_not_mem hm]

theorem grant (h : Balanced a) (hp : p ∈ a.parties) {ticket : Option Nat} {woken : Bool}
    (hs : p.stage = .tags ticket woken) (hroom : a.hasRoom p.request.tags = true) :
    Balanced (a.grant p ticket) := by
  have hnodup := (h.sensible p hp).tags
  have htake := h.take hnodup hroom
  obtain ⟨l,r,hsplit,hne⟩ := split_parties h.ids hp
  have hset := setStage_split hsplit hne .slot
  have houtside := h.notMem_slotQueue hp (by simp [hs])
  -- The tags in hand become the party's when it is served, and its entry goes.
  have hserved {queue : List (Nat × NameSet)} (hsub : queue.Sublist a.queue)
      (hqueue : queue = (l ++ r).filterMap Party.place?) :
      Balanced ({ a with inUse := a.inUse.add p.request.tags, queue }.setStage p.id .slot) := by
    refine htake.restage hp ⟨hnodup,by simp [Party.holdsTags],?_⟩ (fun tag => ?_) ?_ hsub ?_
      fun _ => rfl
    · simp [Party.holdsSlot_of_slot]
    · rw [Party.holds_toNat (p := { p with stage := .slot }) hnodup,p.holds_toNat hnodup]
      simp [Party.holdsTags,hs]
    · rw [Party.holdsSlot_of_slot rfl,Party.holdsSlot_of_waiting (by simp [Party.holdsTags,hs])]
    · have : (a.setStage p.id .slot).parties.filterMap Party.place? =
          (l ++ r).filterMap Party.place? := by
        rw [hset,List.filterMap_append,List.filterMap_cons_none rfl,List.filterMap_append]
      exact hqueue.trans this.symm
  have hmem : { p with stage := Stage.slot } ∈ (a.setStage p.id .slot).parties := by simp [hset]
  cases ticket with
  | none =>
    have hentry : p.place? = none := by simp [Party.place?,Party.ticket?,hs]
    have hqueue : a.queue = (l ++ r).filterMap Party.place? := by
      rw [h.queue,hsplit]
      simp [hentry]
    exact (hserved (List.Sublist.refl _) hqueue).takeSlot (p := { p with stage := .slot }) hmem rfl
      houtside
  | some k =>
    have hqueue := h.without_entry hsplit (k := k) (by simp [Party.ticket?,hs])
    exact (hserved List.filter_sublist hqueue).wakeAll.takeSlot (p := { p with stage := .slot })
      (List.mem_map_of_mem hmem) rfl houtside

theorem ask (h : Balanced a) (id : κ) {request : Request} (hnodup : request.tags.Nodup) :
    Balanced (a.ask id request) := by
  obtain ⟨-,he⟩ | ⟨hnone,hcases⟩ := a.ask_cases id request
  · rwa [he]
  have hfresh := ne_of_party?_eq_none hnone
  obtain ⟨htags,he⟩ | ⟨htags,hb,he⟩ | ⟨htags,hb,he⟩ := hcases <;> rw [he]
  · have henter := h.enter (p := ⟨id,request,.slot⟩) hfresh
      ⟨hnodup,by simp [Party.holdsTags],by simp [Party.holdsSlot_of_slot]⟩
      (by simp [Party.holds,htags]) (Party.holdsSlot_of_slot rfl) a.nextTicket (Nat.le_refl _)
      (by simp [Party.place?,Party.ticket?])
    have hempty : a.queue ++ (Party.place? ⟨id,request,.slot⟩).toList = a.queue := by
      simp [Party.place?,Party.ticket?]
    rw [hempty] at henter
    refine henter.takeSlot (p := ⟨id,request,.slot⟩) (by simp [Admission.enter]) rfl fun hmem => ?_
    obtain ⟨q,hq,hid,-⟩ := h.slotQueue id hmem
    exact hfresh q hq hid
  · have henter := h.enter (p := ⟨id,request,.tags none true⟩) hfresh
      ⟨hnodup,fun _ => ⟨htags,by simp [Party.ticket?,hb]⟩,by simp [Party.holdsSlot]⟩
      (by simp [Party.holds,Party.holdsTags]) (Party.holdsSlot_of_waiting rfl) a.nextTicket
      (Nat.le_refl _)
      (by simp [Party.place?,Party.ticket?])
    simpa [Party.place?,Party.ticket?] using henter
  · have henter := h.enter (p := ⟨id,request,.tags (some a.nextTicket) true⟩) hfresh
      ⟨hnodup,fun _ => ⟨htags,by simp [Party.ticket?,hb]⟩,by simp [Party.holdsSlot]⟩
      (by simp [Party.holds,Party.holdsTags]) (Party.holdsSlot_of_waiting rfl) (a.nextTicket+1)
      (Nat.le_succ _)
      (by simp [Party.place?,Party.ticket?])
    simpa [Party.place?,Party.ticket?] using henter

theorem look (h : Balanced a) (id : κ) : Balanced (a.look id) := by
  obtain ⟨-,he⟩ | ⟨p,hfound,ticket,hs,⟨hg,he⟩ | ⟨-,he⟩⟩ := a.look_cases id <;> rw [he]
  · exact h
  · have hroom : a.hasRoom p.request.tags = true := by
      simp only [canGrant,hs,Bool.and_eq_true] at hg
      exact hg.2
    exact h.grant (mem_of_party? hfound).1 hs hroom
  · obtain ⟨hp,rfl⟩ := mem_of_party? hfound
    have houtside := h.notMem_slotQueue hp (by simp [hs])
    refine h.setStage hp ?_ ?_ ?_ ?_ fun hmem => absurd hmem houtside
    · simp [Party.holdsTags,hs]
    · simp [Party.ticket?,hs]
    · simp [Party.holdsSlot]
    · rw [Party.holdsSlot_of_waiting rfl,Party.holdsSlot_of_waiting (by simp [Party.holdsTags,hs])]

theorem queue_of_dismiss (h : Balanced a) (hp : p ∈ a.parties) (hentry : p.place? = none) :
    a.queue = (a.parties.filter fun q => q.id != p.id).filterMap Party.place? := by
  obtain ⟨l,r,hsplit,hne⟩ := split_parties h.ids hp
  rw [h.queue,hsplit,dismiss_split hne]
  simp [hentry]

theorem dismiss_granted (h : Balanced a) (hp : p ∈ a.parties) {slot : Bool}
    (hs : p.stage = .granted slot) :
    Ledger { a with parties := a.parties.filter fun q => q.id != p.id } p.request.tags
      slot.toNat := by
  have hqueue := h.queue_of_dismiss hp (by simp [Party.place?,Party.ticket?,hs])
  have := h.dismiss hp hqueue (List.Sublist.refl _) (h.notMem_slotQueue hp (by simp [hs]))
  rwa [if_pos (Party.holdsTags_of_granted hs),Party.holdsSlot_of_granted hs] at this

theorem leave (h : Balanced a) (id : κ) : Balanced (a.leave id) := by
  obtain ⟨-,he⟩ | ⟨p,hfound,b,rfl,hcases⟩ := a.leave_cases id
  · rwa [he]
  obtain ⟨hp,rfl⟩ := mem_of_party? hfound
  have houtside (hs : p.stage ≠ .slot) := h.notMem_slotQueue hp hs
  obtain ⟨k,woken,hs,he⟩ | ⟨woken,hs,he⟩ | ⟨hs,he⟩ | ⟨hs,he⟩ | ⟨hs,he⟩ := hcases <;> rw [he]
  · have hwaits : p.holdsTags = false := by simp [Party.holdsTags,hs]
    obtain ⟨l,r,hsplit,hne⟩ := split_parties h.ids hp
    have hrest := h.without_entry hsplit (k := k) (by simp [Party.ticket?,hs])
    rw [← dismiss_split hne,← hsplit] at hrest
    have := h.dismiss hp hrest (List.Sublist.refl _) (houtside (by simp [hs]))
    rw [if_neg (by simp [hwaits]),Party.holdsSlot_of_waiting hwaits] at this
    exact this.wakeAll
  · have hwaits : p.holdsTags = false := by simp [Party.holdsTags,hs]
    have hqueue := h.queue_of_dismiss hp (by simp [Party.place?,Party.ticket?,hs])
    have := h.dismiss hp hqueue (List.Sublist.refl _) (houtside (by simp [hs]))
    rwa [if_neg (by simp [hwaits]),Party.holdsSlot_of_waiting hwaits] at this
  · have hqueue := h.queue_of_dismiss hp (by simp [Party.place?,Party.ticket?,hs])
    have hout : p.id ∉ a.slotQueue.filter (· != p.id) := by simp
    have := h.dismiss hp hqueue List.filter_sublist hout
    rw [if_pos (Party.holdsTags_of_slot hs),Party.holdsSlot_of_slot hs] at this
    exact this.returnTags
  · exact (h.dismiss_granted hp hs).returnTags.passSlot
  · exact (h.dismiss_granted hp hs).returnTags

theorem giveSlot (h : Balanced a) (hp : p ∈ a.parties) (hs : p.stage = .granted true) :
    Ledger (a.setStage p.id (.granted false)) [] 1 := by
  have houtside := h.notMem_slotQueue hp (by simp [hs])
  refine h.moveOn hp (Party.holdsTags_of_granted hs) rfl ?_ ?_ fun hmem => absurd hmem houtside
  · simp [Party.holdsSlot_of_granted]
  · rw [Party.holdsSlot_of_granted hs,Party.holdsSlot_of_granted rfl]
    rfl

theorem releaseSlot (h : Balanced a) (id : κ) : Balanced (a.releaseSlot id) := by
  obtain ⟨-,he⟩ | ⟨p,hfound,hs,he⟩ := a.releaseSlot_cases id <;> rw [he]
  · exact h
  · obtain ⟨hp,rfl⟩ := mem_of_party? hfound
    exact (h.giveSlot hp hs).passSlot

end Ledger

end TaskGraph.Admission
