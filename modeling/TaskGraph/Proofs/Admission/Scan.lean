import TaskGraph.Proofs.Admission.Settling

/-!
What settling gives. As long as all who wait have a turn, a grant depends only on the entries before
it in the queue, so that every order of looks serves the entries that one scan of the queue serves.
-/

namespace TaskGraph.Admission

variable {κ : Type}

/-- How many entries before a ticket have a tag. -/
def ahead (a : Admission κ) (ticket : Nat) (tag : String) : Nat :=
  a.queue.countP fun e => decide (e.1 < ticket) && e.2.contains tag

/-- `b` comes from `a` by grants in turn: an entry is served only after the entries before it that
share a tag with it, and when the pools have room for it and all of those. -/
structure Fills (a b : Admission κ) : Prop where
  balanced : b.Balanced
  pools : b.pools = a.pools
  parties : ∀ p ∈ b.parties, p.holdsTags = false → ∃ q ∈ a.parties, q.Same p
  queue : b.queue.Sublist a.queue
  used : ∀ tag, b.used tag+b.queue.countP (·.2.contains tag) =
    a.used tag+a.queue.countP (·.2.contains tag)
  first : ∀ e ∈ a.queue, e ∉ b.queue → ∀ q ∈ a.queue, q.1 < e.1 → q.2.any e.2.contains = true →
    q ∉ b.queue
  room : ∀ e ∈ a.queue, e ∉ b.queue → ∀ tag ∈ e.2, a.used tag+a.ahead e.1 tag < a.capacity tag

/-- All who wait for tags have a turn. -/
def InTurn (a : Admission κ) : Prop :=
  ∀ p ∈ a.parties, p.holdsTags = false → p.request.bypass = false

/-- How many entries from a ticket on have a tag. -/
def behind (a : Admission κ) (ticket : Nat) (tag : String) : Nat :=
  a.queue.countP fun e => !decide (e.1 < ticket) && e.2.contains tag

theorem ahead_add_behind (a : Admission κ) (ticket : Nat) (tag : String) :
    a.ahead ticket tag+a.behind ticket tag = a.queue.countP (·.2.contains tag) := by
  rw [List.countP_eq_countP_filter_add a.queue _ fun e => decide (e.1 < ticket),List.countP_filter,
    List.countP_filter]
  simp only [ahead,behind,Bool.and_comm]

theorem countP_le_of_mem {α : Type} {f g : α → Bool} {xs ys : List α} (h : xs.Nodup)
    (hmem : ∀ x ∈ xs, f x = true → x ∈ ys ∧ g x = true) : xs.countP f ≤ ys.countP g := by
  rw [List.countP_eq_length_filter,List.countP_eq_length_filter]
  refine ((h.filter f).subperm fun x hx => ?_).length_le
  obtain ⟨hx,hf⟩ := List.mem_filter.mp hx
  exact List.mem_filter.mpr (hmem x hx hf)

theorem Ledger.queue_nodup {a : Admission κ} {hand : NameSet} {loose : Nat}
    (h : Ledger a hand loose) : a.queue.Nodup :=
  h.tickets.imp fun hlt he => by simp [he] at hlt

theorem eq_of_ticket_entry {queue : List (Nat × NameSet)} (h : queue.Pairwise (·.1 < ·.1))
    {e e' : Nat × NameSet} (he : e ∈ queue) (he' : e' ∈ queue) (hk : e.1 = e'.1) : e = e' := by
  have hnodup : (queue.map (·.1)).Nodup :=
    List.pairwise_map.mpr (h.imp fun hlt => Nat.ne_of_lt hlt)
  exact List.inj_on_of_nodup_map hnodup he he' hk

theorem countP_without {queue : List (Nat × NameSet)} (h : queue.Pairwise (·.1 < ·.1))
    {e : Nat × NameSet} (he : e ∈ queue) (f : Nat × NameSet → Bool) :
    (queue.filter fun q => q.1 != e.1).countP f+(f e).toNat = queue.countP f := by
  obtain ⟨l,r,rfl⟩ := List.append_of_mem he
  rw [filter_split h]
  cases hf : f e <;> simp [hf]
  omega

namespace Fills

variable {a b c : Admission κ}

theorem refl (h : a.Balanced) : Fills a a where
  balanced := h
  pools := rfl
  parties := fun p hp _ => ⟨p,hp,.refl p⟩
  queue := List.Sublist.refl _
  used := fun _ => rfl
  first := fun _ he hn => absurd he hn
  room := fun _ he hn => absurd he hn

/-- Nobody is granted anything. -/
theorem quiet (h : Fills a b) (hc : c.Balanced) (hq : Quiet b c) : Fills a c where
  balanced := hc
  pools := hq.pools.trans h.pools
  parties := by
    intro p hp hw
    obtain ⟨q,hq',hqp,-⟩ := hq.parties p hp
    obtain ⟨r,hr,hrq⟩ := h.parties q hq' (hqp.holdsTags ▸ hw)
    exact ⟨r,hr,hrq.trans hqp⟩
  queue := hq.queue ▸ h.queue
  used := by
    intro tag
    rw [hq.queue,← h.used tag]
    exact congrArg (fun counts => Counts.get tag counts+_) hq.inUse
  first := by
    rw [hq.queue]
    exact h.first
  room := by
    rw [hq.queue]
    exact h.room

/-- A party that waits has its entry in the queue. -/
theorem exists_entry (h : Fills a b) (ha : a.InTurn) {p : Party κ} (hp : p ∈ b.parties)
    (hw : p.holdsTags = false) : ∃ k, p.ticket? = some k ∧ (k,p.request.tags) ∈ b.queue := by
  obtain ⟨q,hq,hsame⟩ := h.parties p hp hw
  have hturn : p.request.bypass = false := by
    rw [hsame.request]
    exact ha q hq (hsame.holdsTags ▸ hw)
  obtain ⟨k,hk⟩ := (h.balanced.sensible p hp).exists_ticket hw hturn
  refine ⟨k,hk,?_⟩
  rw [h.balanced.queue]
  exact List.mem_filterMap.mpr ⟨p,hp,by simp [Party.place?,hk]⟩

/-- Before an entry for which its turn has come nobody waits for one of its tags. -/
theorem ahead_add_le (h : Fills a b) {e : Nat × NameSet}
    (hfirst : ∀ q ∈ a.queue, q.1 < e.1 → q.2.any e.2.contains = true → q ∉ b.queue) {tag : String}
    (ht : tag ∈ e.2) :
    a.ahead e.1 tag+b.queue.countP (·.2.contains tag) ≤ a.queue.countP (·.2.contains tag) := by
  have hlate : b.queue.countP (·.2.contains tag) ≤ a.behind e.1 tag := by
    refine countP_le_of_mem h.balanced.queue_nodup fun q hq hhas => ?_
    have hq' := h.queue.subset hq
    refine ⟨hq',?_⟩
    by_cases hlt : q.1 < e.1
    · have hshare : q.2.any e.2.contains = true :=
        List.any_eq_true.mpr ⟨tag,by simpa using hhas,by simpa using ht⟩
      exact absurd hq (hfirst q hq' hlt hshare)
    · simpa [hlt] using hhas
  have := a.ahead_add_behind e.1 tag
  omega

/-- The entries behind one that waits, of those with one of its tags, wait too. -/
theorem le_ahead_add (h : Fills a b) (ha : a.Balanced) {e : Nat × NameSet} (he : e ∈ b.queue)
    {tag : String} (ht : tag ∈ e.2) :
    a.queue.countP (·.2.contains tag) ≤ a.ahead e.1 tag+b.queue.countP (·.2.contains tag) := by
  have he' := h.queue.subset he
  have hlate : a.behind e.1 tag ≤ b.queue.countP (·.2.contains tag) := by
    refine countP_le_of_mem ha.queue_nodup fun q hq hbehind => ?_
    obtain ⟨hge,hhas⟩ : ¬q.1 < e.1 ∧ q.2.contains tag = true := by simpa using hbehind
    refine ⟨?_,hhas⟩
    by_contra hserved
    rcases Nat.lt_or_eq_of_le (Nat.not_lt.mp hge) with hlt | heq
    · have hshare : e.2.any q.2.contains = true := List.any_eq_true.mpr ⟨tag,ht,hhas⟩
      exact h.first q hq hserved e he' hlt hshare he
    · exact hserved (eq_of_ticket_entry ha.tickets he' hq heq ▸ he)
  have := a.ahead_add_behind e.1 tag
  omega

/-- If one order of grants serves an entry, no other ends while it waits. -/
theorem served_of_stuck (ha : a.Balanced) (hb : Fills a b) (hc : Fills a c)
    (hstuck : ∀ p ∈ c.parties, c.canGrant p = false) {e : Nat × NameSet} (he : e ∈ a.queue)
    (hserved : e ∉ b.queue) : e ∉ c.queue := by
  -- The entries before it that share a tag are served in both, by induction on the ticket.
  induction hk : e.1 using Nat.strongRecOn generalizing e with
  | _ k ih =>
    intro hwaits
    have hearlier : ∀ q ∈ a.queue, q.1 < e.1 → q.2.any e.2.contains = true → q ∉ c.queue :=
      fun q hq hlt hshare => ih q.1 (hk ▸ hlt) hq (hb.first e he hserved q hq hlt hshare) rfl
    rw [hc.balanced.queue] at hwaits
    obtain ⟨p,hp,hentry⟩ := List.mem_filterMap.mp hwaits
    obtain ⟨t,ht,rfl⟩ : ∃ t, p.ticket? = some t ∧ (t,p.request.tags) = e := by
      simpa [Party.place?] using hentry
    have hwaits := hc.balanced.queue ▸ hwaits
    have hg : c.canGrant p = true := by
      refine canGrant_eq_true.mpr ⟨?_,fun k' hk' => ?_,?_⟩
      · by_contra hholds
        rw [Party.ticket?_of_holdsTags (by simpa using hholds)] at ht
        cases ht
      · obtain rfl : t = k' := by simpa [ht] using hk'
        simp only [isBehind,List.any_eq_false,Bool.and_eq_true,decide_eq_true_eq,not_and]
        exact fun q hq hlt hshare => hearlier q (hc.queue.subset hq) hlt hshare hq
      · refine List.all_eq_true.mpr fun tag htag => decide_eq_true ?_
        have hroom := hb.room _ he hserved tag htag
        have := hc.le_ahead_add ha hwaits htag
        have := hc.used tag
        rw [capacity,hc.pools]
        change _ < a.pools.capacity tag at hroom
        omega
    simp [hstuck p hp] at hg

end Fills

variable [DecidableEq κ]

namespace Fills

variable {a b c : Admission κ}

theorem grant (h : Fills a b) {p : Party κ} (hp : p ∈ b.parties) {k : Nat}
    {woken : Bool} (hs : p.stage = .tags (some k) woken) (hg : b.canGrant p = true) :
    Fills a (b.grant p (some k)) := by
  obtain ⟨hw,hfirst,hroom⟩ := canGrant_eq_true.mp hg
  have hk : p.ticket? = some k := by simp [Party.ticket?,hs]
  let e := (k,p.request.tags)
  have he : e ∈ b.queue := by
    rw [h.balanced.queue]
    exact List.mem_filterMap.mpr ⟨p,hp,by simp [Party.place?,hk,e]⟩
  have hqueue : (b.grant p (some k)).queue = b.queue.filter fun q => q.1 != k := grant_queue b p k
  have hsub : (b.grant p (some k)).queue.Sublist b.queue := hqueue ▸ List.filter_sublist
  -- What is served now is served after all before it that share a tag with it.
  have hturn : ∀ q ∈ a.queue, q.1 < k → q.2.any e.2.contains = true → q ∉ b.queue := by
    intro q _ hlt hshare hq
    have := hfirst k hk
    simp only [isBehind,List.any_eq_false] at this
    exact this q hq (by simp [hlt,hshare,e])
  have hserved : ∀ q ∈ a.queue, q ∉ (b.grant p (some k)).queue → q ∉ b.queue ∨ q = e := by
    intro q _ hgone
    by_cases hq : q ∈ b.queue
    · refine .inr (eq_of_ticket_entry h.balanced.tickets hq he ?_)
      by_contra hne
      exact hgone (hqueue ▸ List.mem_filter.mpr ⟨hq,by simpa using hne⟩)
    · exact .inl hq
  refine ⟨h.balanced.grant hp hs hroom,(grant_pools b p _).trans h.pools,?_,hsub.trans h.queue,
    ?_,?_,?_⟩
  · intro q hq hwaits
    obtain ⟨-,-,hholds⟩ | ⟨r,hr,hrq⟩ :=
      mem_grant _ (fun r hr he => eq_of_id h.balanced.ids hr hp he) hq
    · simp [hwaits] at hholds
    · obtain ⟨o,ho,hor⟩ := h.parties r hr (hrq.holdsTags ▸ hwaits)
      exact ⟨o,ho,hor.trans hrq⟩
  · intro tag
    have hcount := countP_without h.balanced.tickets he (·.2.contains tag)
    have hone : p.request.tags.count tag = (p.request.tags.contains tag).toNat := by
      rw [(h.balanced.sensible p hp).tags.count]
      by_cases ht : tag ∈ p.request.tags <;> simp [ht]
    rw [hqueue,grant_used,← h.used tag,← hcount,hone]
    dsimp only [e]
    omega
  · intro q hq hgone o ho hlt hshare
    obtain hold | rfl := hserved q hq hgone
    · exact fun hmem => h.first q hq hold o ho hlt hshare (hsub.subset hmem)
    · exact fun hmem => hturn o ho hlt hshare (hsub.subset hmem)
  · intro q hq hgone tag ht
    obtain hold | rfl := hserved q hq hgone
    · exact h.room q hq hold tag ht
    · have hless : b.used tag < b.capacity tag := by simpa using List.all_eq_true.mp hroom tag ht
      have := h.ahead_add_le hturn ht
      have := h.used tag
      rw [capacity,h.pools] at hless
      change _ < a.pools.capacity tag
      omega

theorem look (h : Fills a b) (ha : a.InTurn) (id : κ) : Fills a (b.look id) := by
  have hbalanced := h.balanced.look id
  obtain ⟨-,he⟩ | ⟨p,hfound,ticket,hs,hcases⟩ := b.look_cases id
  · rwa [he]
  obtain ⟨hp,rfl⟩ := mem_of_party? hfound
  obtain ⟨hg,he⟩ | ⟨hg,he⟩ := hcases <;> rw [he] at hbalanced ⊢
  · obtain ⟨k,hk,-⟩ := h.exists_entry ha hp (by simp [Party.holdsTags,hs])
    obtain rfl : ticket = some k := by simpa [Party.ticket?,hs] using hk
    exact h.grant hp hs hg
  · exact h.quiet hbalanced (quiet_look h.balanced.ids hp hs hg)

theorem rechecks (h : Fills a b) (ha : a.InTurn) {ids : List κ} (hr : Rechecks b ids c) :
    Fills a c := by
  induction hr with
  | nil b => exact h
  | cons _ _ ih => exact ih (h.look ha _)

/-- Who waits, by what is left of the queue. -/
theorem waits_iff (h : Fills a b) (hb : a.Balanced) (ha : a.InTurn) (id : κ) :
    b.waitsForTags id = true ↔ ∃ p ∈ a.parties, p.id = id ∧ ∃ e ∈ b.queue, p.place? = some e := by
  constructor
  · intro hw
    obtain ⟨p,hfound,hwaits⟩ : ∃ p, b.party? id = some p ∧ p.holdsTags = false := by
      simpa [waitsForTags,Option.any_eq_true] using hw
    obtain ⟨hp,rfl⟩ := mem_of_party? hfound
    obtain ⟨q,hq,hsame⟩ := h.parties p hp hwaits
    obtain ⟨k,hk,hentry⟩ := h.exists_entry ha hp hwaits
    refine ⟨q,hq,hsame.id.symm,(k,p.request.tags),hentry,?_⟩
    rw [Party.place?,← hsame.ticket?,hk,← hsame.request]
    rfl
  · rintro ⟨p,hp,rfl,e,he,hentry⟩
    obtain ⟨k,hk,rfl⟩ : ∃ k, p.ticket? = some k ∧ (k,p.request.tags) = e := by
      simpa [Party.place?] using hentry
    rw [h.balanced.queue] at he
    obtain ⟨q,hq,hqe⟩ := List.mem_filterMap.mp he
    have hqk : q.ticket? = some k := by
      obtain ⟨k',hk',heq⟩ : ∃ k', q.ticket? = some k' ∧ (k',q.request.tags) = (k,p.request.tags) := by
        simpa [Party.place?] using hqe
      rw [hk',(Prod.mk.inj heq).1]
    have hw : q.holdsTags = false := by
      by_contra hholds
      rw [Party.ticket?_of_holdsTags (by simpa using hholds)] at hqk
      cases hqk
    obtain ⟨r,hr,hsame⟩ := h.parties q hq hw
    obtain rfl := hb.eq_of_ticket hp hr hk (hsame.ticket? ▸ hqk)
    simp [waitsForTags,← hsame.id,party?_of_mem h.balanced.ids hq,hw]

end Fills

/-- The party with a ticket gets its tags if it can have them. -/
def serve (a : Admission κ) (ticket : Nat) : Admission κ :=
  match a.parties.find? fun p => p.ticket? == some ticket with
  | some p => if a.canGrant p then a.grant p (some ticket) else a
  | none => a

/-- One scan of the queue, in the order of the tickets. -/
def scan (a : Admission κ) : Admission κ := a.queue.foldl (fun b e => b.serve e.1) a

namespace Fills

variable {a b : Admission κ}

/-- Whom the scan has passed cannot be granted: what is granted later takes room and no turn. -/
theorem serve (h : Fills a b) (ha : a.InTurn) {passed : List Nat} {k : Nat}
    (hlater : ∀ k' ∈ passed, k' < k)
    (hpassed : ∀ p ∈ b.parties, ∀ k' ∈ passed, p.ticket? = some k' → b.canGrant p = false) :
    Fills a (b.serve k) ∧ ∀ p ∈ (b.serve k).parties, ∀ k' ∈ k::passed, p.ticket? = some k' →
      (b.serve k).canGrant p = false := by
  unfold Admission.serve
  split
  · next p hfound =>
    have hp := List.mem_of_find?_eq_some hfound
    have hk : p.ticket? = some k := by simpa using List.find?_some hfound
    split
    · next hg =>
      obtain ⟨woken,hs⟩ : ∃ woken, p.stage = .tags (some k) woken := by
        cases hs : p.stage <;> simp_all [Party.ticket?]
      have hgrant := h.grant hp hs hg
      refine ⟨hgrant,fun q hq k' hk' hqk => ?_⟩
      by_contra hcan
      have hcan : (b.grant p (some k)).canGrant q = true := by simpa using hcan
      have hw := (canGrant_eq_true.mp hcan).1
      have hother : k' ≠ k := by
        rintro rfl
        obtain ⟨t,ht,hentry⟩ := hgrant.exists_entry ha hq hw
        obtain rfl : k' = t := by simpa [hqk] using ht
        rw [grant_queue] at hentry
        simpa using (List.mem_filter.mp hentry).2
      have hbefore : k' ∈ passed := by simpa [hother] using hk'
      obtain ⟨-,-,hholds⟩ | ⟨r,hr,hsame⟩ :=
        mem_grant _ (fun r hr he => eq_of_id h.balanced.ids hr hp he) hq
      · simp [hw] at hholds
      have hcan' : b.canGrant r = true := by
        refine canGrant_mono hsame (grant_pools b p _) (fun tag => ?_) (fun t ht e he hlt => ?_) hcan
        · exact Nat.le.intro (grant_used b p _ tag).symm
        · obtain rfl : k' = t := by simpa [hqk] using ht
          have := hlater k' hbefore
          rw [grant_queue]
          exact List.mem_filter.mpr ⟨he,by simpa using (by omega : e.1 ≠ k)⟩
      simp [hpassed r hr k' hbefore (hsame.ticket? ▸ hqk)] at hcan'
    · next hg =>
      refine ⟨h,fun q hq k' hk' hqk => ?_⟩
      rcases List.mem_cons.mp hk' with rfl | hk'
      · rw [h.balanced.eq_of_ticket hp hq hk hqk]
        simpa using hg
      · exact hpassed q hq k' hk' hqk
  · next hnone =>
    refine ⟨h,fun q hq k' hk' hqk => ?_⟩
    rcases List.mem_cons.mp hk' with rfl | hk'
    · have := List.find?_eq_none.mp hnone q hq
      simp [hqk] at this
    · exact hpassed q hq k' hk' hqk

theorem foldl_serve (ha : a.InTurn) {rest : List (Nat × NameSet)} {passed : List Nat}
    (h : Fills a b) (hsorted : rest.Pairwise (·.1 < ·.1))
    (hlater : ∀ k' ∈ passed, ∀ e ∈ rest, k' < e.1)
    (hpassed : ∀ p ∈ b.parties, ∀ k' ∈ passed, p.ticket? = some k' → b.canGrant p = false) :
    Fills a (rest.foldl (fun b e => b.serve e.1) b) ∧
      ∀ p ∈ (rest.foldl (fun b e => b.serve e.1) b).parties, ∀ k',
        k' ∈ passed ∨ (∃ e ∈ rest, e.1 = k') → p.ticket? = some k' →
          (rest.foldl (fun b e => b.serve e.1) b).canGrant p = false := by
  induction rest generalizing b passed with
  | nil => exact ⟨h,fun p hp k' hk' => hpassed p hp k' (by simpa using hk')⟩
  | cons e rest ih =>
    obtain ⟨hfirst,hsorted⟩ := List.pairwise_cons.mp hsorted
    obtain ⟨hserve,hpassed⟩ := h.serve ha (fun k' hk' => hlater k' hk' e List.mem_cons_self) hpassed
    have hlater' : ∀ k' ∈ e.1::passed, ∀ q ∈ rest, k' < q.1 := by
      intro k' hk' q hq
      rcases List.mem_cons.mp hk' with rfl | hk'
      · exact hfirst q hq
      · exact hlater k' hk' q (List.mem_cons_of_mem e hq)
    obtain ⟨hfills,hrest⟩ := ih hserve hsorted hlater' hpassed
    refine ⟨hfills,fun p hp k' hk' => hrest p hp k' ?_⟩
    obtain hk' | ⟨q,hq,rfl⟩ := hk'
    · exact .inl (List.mem_cons_of_mem e.1 hk')
    · rcases List.mem_cons.mp hq with rfl | hq
      · exact .inl List.mem_cons_self
      · exact .inr ⟨q,hq,rfl⟩

end Fills

theorem Ledger.scan {a : Admission κ} (h : a.Balanced) (ha : a.InTurn) :
    Fills a a.scan ∧ ∀ p ∈ a.scan.parties, a.scan.canGrant p = false := by
  have hnone : ∀ k ∈ ([] : List Nat), ∀ e ∈ a.queue, k < e.1 := by simp
  obtain ⟨hfills,hpassed⟩ := (Fills.refl h).foldl_serve ha h.tickets hnone (by simp)
  refine ⟨hfills,fun p hp => ?_⟩
  by_contra hcan
  have hw := (canGrant_eq_true.mp (by simpa using hcan : a.scan.canGrant p = true)).1
  obtain ⟨k,hk,hentry⟩ := hfills.exists_entry ha hp hw
  exact hcan (hpassed p hp k (.inr ⟨_,hfills.queue.subset hentry,rfl⟩) hk)

/-- Turns and wake-ups, at every time. Somebody who waits in turn is not given its tags by any act
while a party that asked before it waits for one of them. Whoever is not woken could not be granted,
and the looks of those who are come to an end, whatever their order; then nobody who waits could be
granted. If all who wait have a turn, then those who still wait at that end are those whom one scan of
the queue, in the order of the tickets, leaves waiting. -/
theorem turns_settle {pools : Pools} {slots : Nat} {a : Admission κ}
    (h : Later (start pools slots) a) :
    (∀ q p, [q,p].Sublist a.parties → q.isQueued = true → p.isQueued = true →
      (∃ tag ∈ q.request.tags, tag ∈ p.request.tags) → ∀ x : Act κ,
        (a.act x).party? p.id = none ∨ (a.act x).waitsForTags p.id = true) ∧
    (∀ p ∈ a.parties, p.isWoken = false → a.canGrant p = false) ∧
    (∀ ids b, Rechecks a ids b → ids.length < (a.parties.length+1)*(a.parties.length+1) ∧
      (b.IsSettled → ∀ p ∈ b.parties, b.canGrant p = false)) ∧
    (∃ ids, Rechecks a ids a.settle ∧ a.settle.IsSettled) ∧
    (a.InTurn → ∀ ids b, Rechecks a ids b → b.IsSettled →
      ∀ id, b.waitsForTags id = a.scan.waitsForTags id) := by
  have hb := h.balanced (start_balanced pools slots)
  have hresting {b : Admission κ} (hl : Later (start pools slots) b) :
      ∀ p ∈ b.parties, p.isWoken = false → b.canGrant p = false := by
    intro p hp hw
    by_contra hcan
    have := hl.alert (start_balanced pools slots) (start_alert pools slots) p hp (by simpa using hcan)
    simp [hw] at this
  refine ⟨?_,hresting h,fun ids b hr => ⟨?_,fun hsettled p hp => ?_⟩,?_,?_⟩
  · rintro q p hsub hq hp ⟨tag,htq,htp⟩ x
    exact hb.waits_of_before hsub hq hp htq htp x
  · have := hr.wakeups_le hb
    have := a.wakeups_lt
    omega
  · exact hresting (h.trans hr.later) p hp (hsettled p hp)
  · obtain ⟨⟨ids,hids⟩,hsettled⟩ := hb.settleWithin a.wakeups_lt
    exact ⟨ids,hids,hsettled⟩
  · intro ha ids b hr hsettled id
    have hfills := (Fills.refl hb).rechecks ha hr
    have hstuck p (hp : p ∈ b.parties) := hresting (h.trans hr.later) p hp (hsettled p hp)
    obtain ⟨hscan,hstuck'⟩ := hb.scan ha
    have hqueue (e : Nat × NameSet) : e ∈ b.queue ↔ e ∈ a.scan.queue := by
      constructor
      · intro he
        by_contra hn
        exact Fills.served_of_stuck hb hscan hfills hstuck (hfills.queue.subset he) hn he
      · intro he
        by_contra hn
        exact Fills.served_of_stuck hb hfills hscan hstuck' (hscan.queue.subset he) hn he
    rw [Bool.eq_iff_iff,hfills.waits_iff hb ha,hscan.waits_iff hb ha]
    simp only [hqueue]

namespace Handover

/-- While one holds both tags three queue up, for one tag, for both, and for the other; it leaves. -/
def acts : List (Act Nat) :=
  [.ask 0 { tags := ["cache","db"] }, .look 0, .ask 1 { tags := ["db"] }, .look 1,
    .ask 2 { tags := ["cache","db"] }, .look 2, .ask 3 { tags := ["cache"] }, .look 3, .leave 0]

def admission : Admission Nat := acts.foldl act (start {} 1)

theorem later : Later (start {} 1) admission := Later.refl.foldl (by decide)

end Handover

/-- Whoever looks first, the first in the queue is served; the last, for which there is room, stays
behind the second. -/
theorem turns_settle_handover :
    Handover.admission.parties.map Party.isWoken = [true,true,true] ∧
    (∀ x, (Handover.admission.act x).party? 3 = none ∨
      (Handover.admission.act x).waitsForTags 3 = true) ∧
    ∀ ids b, Rechecks Handover.admission ids b → b.IsSettled →
      b.waitsForTags 1 = false ∧ b.waitsForTags 2 = true ∧ b.waitsForTags 3 = true := by
  obtain ⟨hbefore,-,-,-,hscan⟩ := turns_settle Handover.later
  refine ⟨by decide,?_,fun ids b hr hsettled => ?_⟩
  · exact hbefore ⟨2,{ tags := ["cache","db"] },.tags (some 2) true⟩
      ⟨3,{ tags := ["cache"] },.tags (some 3) true⟩ (by decide) rfl rfl ⟨"cache",by decide,by decide⟩
  · have hsame := hscan (by unfold InTurn; decide) ids b hr hsettled
    rw [hsame,hsame,hsame]
    decide

end TaskGraph.Admission
