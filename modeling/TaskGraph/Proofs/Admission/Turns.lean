import TaskGraph.Proofs.Admission.Balance

/-!
Turns. A party gets its tags by its own look only, and not while somebody before it waits for one of
them. No wake-up is lost: who waits and is not woken could not have its tags.
-/

namespace TaskGraph.Admission

variable {κ : Type}

/-- A party stands as another does, as far as tags go. -/
structure Party.Same (q p : Party κ) : Prop where
  id : p.id = q.id
  request : p.request = q.request
  holdsTags : p.holdsTags = q.holdsTags
  ticket? : p.ticket? = q.ticket?

namespace Party

theorem Same.refl (p : Party κ) : p.Same p := ⟨rfl,rfl,rfl,rfl⟩

theorem Same.trans {r q p : Party κ} (h : r.Same q) (h' : q.Same p) : r.Same p :=
  ⟨h'.id.trans h.id,h'.request.trans h.request,h'.holdsTags.trans h.holdsTags,
    h'.ticket?.trans h.ticket?⟩

theorem same_wake (p : Party κ) : p.Same p.wake :=
  ⟨p.wake_id,p.wake_request,p.wake_holdsTags,p.wake_ticket?⟩

theorem isWoken_of_holdsTags {p : Party κ} (h : p.holdsTags = true) : p.isWoken = false := by
  cases hs : p.stage <;> simp_all [holdsTags,isWoken]

theorem wake_isWoken (p : Party κ) : p.wake.isWoken = !p.holdsTags := by
  cases hs : p.stage <;> simp [wake,isWoken,holdsTags,hs]

theorem same_of_holdsTags {p : Party κ} {stage : Stage} (h : p.holdsTags = true)
    (hs : holdsTags { p with stage } = true) : p.Same { p with stage } :=
  ⟨rfl,rfl,hs.trans h.symm,(ticket?_of_holdsTags hs).trans (ticket?_of_holdsTags h).symm⟩

end Party

theorem canGrant_eq_true {a : Admission κ} {p : Party κ} : a.canGrant p = true ↔
    p.holdsTags = false ∧ (∀ k, p.ticket? = some k → a.isBehind k p.request.tags = false) ∧
      a.hasRoom p.request.tags = true := by
  cases hs : p.stage with
  | tags ticket woken => cases ticket <;> simp [canGrant,Party.holdsTags,Party.ticket?,hs]
  | slot => simp [canGrant,Party.holdsTags,hs]
  | granted slot => simp [canGrant,Party.holdsTags,hs]

/-- With fewer before it and less in use a party can still have its tags. -/
theorem canGrant_mono {a b : Admission κ} {q p : Party κ} (hsame : q.Same p)
    (hpools : b.pools = a.pools) (hused : ∀ tag, a.used tag ≤ b.used tag)
    (hqueue : ∀ k, p.ticket? = some k → ∀ e ∈ a.queue, e.1 < k → e ∈ b.queue)
    (hg : b.canGrant p = true) : a.canGrant q = true := by
  obtain ⟨hw,hfirst,hroom⟩ := canGrant_eq_true.mp hg
  refine canGrant_eq_true.mpr ⟨hsame.holdsTags ▸ hw,fun k hk => ?_,?_⟩
  · rw [← hsame.ticket?] at hk
    have hnot := hfirst k hk
    simp only [isBehind,List.any_eq_false,Bool.and_eq_true,decide_eq_true_eq,not_and] at hnot ⊢
    rw [hsame.request] at hnot
    exact fun e he hlt => hnot e (hqueue k hk e he hlt) hlt
  · simp only [hasRoom,List.all_eq_true,decide_eq_true_eq] at hroom ⊢
    intro tag ht
    have := hroom tag (hsame.request ▸ ht)
    rw [capacity,hpools] at this
    exact Nat.lt_of_le_of_lt (hused tag) this

/-- A party that stood as it does now; one that was woken and could have its tags still is. -/
def Inherits (a : Admission κ) (p : Party κ) : Prop :=
  ∃ q ∈ a.parties, q.Same p ∧ (q.isWoken = true → a.canGrant q = true → p.isWoken = true)

theorem inherits_self {a : Admission κ} {p : Party κ} (hp : p ∈ a.parties) : a.Inherits p :=
  ⟨p,hp,.refl p,fun hw _ => hw⟩

/-- Nothing that has to do with tags. -/
structure Quiet (a b : Admission κ) : Prop where
  pools : b.pools = a.pools
  inUse : b.inUse = a.inUse
  queue : b.queue = a.queue
  parties : ∀ p ∈ b.parties, a.Inherits p

theorem Quiet.canGrant_eq {a b : Admission κ} (h : Quiet a b) {q p : Party κ} (hsame : q.Same p) :
    b.canGrant p = a.canGrant q := by
  have hsame' : p.Same q :=
    ⟨hsame.id.symm,hsame.request.symm,hsame.holdsTags.symm,hsame.ticket?.symm⟩
  have hused (tag : String) : b.used tag = a.used tag := by rw [used,h.inUse,used]
  refine Bool.eq_iff_iff.mpr ⟨canGrant_mono hsame h.pools (fun tag => ?_) ?_,
    canGrant_mono hsame' h.pools.symm (fun tag => ?_) ?_⟩
  · exact Nat.le_of_eq (hused tag).symm
  · exact fun _ _ e he _ => h.queue ▸ he
  · exact Nat.le_of_eq (hused tag)
  · exact fun _ _ e he _ => h.queue ▸ he

theorem Quiet.trans {a b c : Admission κ} (hb : Quiet a b) (hc : Quiet b c) : Quiet a c where
  pools := hc.pools.trans hb.pools
  inUse := hc.inUse.trans hb.inUse
  queue := hc.queue.trans hb.queue
  parties := by
    intro p hp
    obtain ⟨q,hq,hqp,hwoken⟩ := hc.parties p hp
    obtain ⟨r,hr,hrq,hwoken'⟩ := hb.parties q hq
    refine ⟨r,hr,hrq.trans hqp,fun hw hg => hwoken (hwoken' hw hg) ?_⟩
    rwa [hb.canGrant_eq hrq]

theorem quiet_of_parties {a b : Admission κ} (hpools : b.pools = a.pools)
    (hused : b.inUse = a.inUse) (hqueue : b.queue = a.queue) (hparties : b.parties = a.parties) :
    Quiet a b :=
  ⟨hpools,hused,hqueue,fun _ hp => inherits_self (hparties ▸ hp)⟩

/-- Whoever waits for tags it could have is woken. -/
def Alert (a : Admission κ) : Prop := ∀ p ∈ a.parties, a.canGrant p = true → p.isWoken = true

theorem start_alert (pools : Pools) (slots : Nat) : (start pools slots : Admission κ).Alert := by
  intro p hp
  cases hp

theorem alert_wakeAll (a : Admission κ) : a.wakeAll.Alert := by
  intro p hp hg
  obtain ⟨q,hq,rfl⟩ := List.mem_map.mp hp
  rw [q.wake_isWoken,← q.wake_holdsTags,(canGrant_eq_true.mp hg).1]
  rfl

namespace Alert

variable {a b : Admission κ}

theorem quiet (h : a.Alert) (hq : Quiet a b) : b.Alert := by
  intro p hp hg
  obtain ⟨q,hq',hsame,hwoken⟩ := hq.parties p hp
  rw [hq.canGrant_eq hsame] at hg
  exact hwoken (h q hq' hg) hg

theorem returnTags (h : a.Alert) (tags : NameSet) : (a.returnTags tags).Alert := by
  unfold Admission.returnTags
  split
  · exact h
  · exact alert_wakeAll _

/-- More wait, more is in use, and nobody but parties that are woken are new. -/
theorem mono (h : a.Alert) (hpools : b.pools = a.pools) (hused : ∀ tag, a.used tag ≤ b.used tag)
    (hqueue : ∀ e ∈ a.queue, e ∈ b.queue)
    (hparties : ∀ p ∈ b.parties, p ∈ a.parties ∨ p.holdsTags = true ∨ p.isWoken = true) :
    b.Alert := by
  intro p hp hg
  obtain hp | hholds | hw := hparties p hp
  · exact h p hp (canGrant_mono (.refl p) hpools hused (fun _ _ e he _ => hqueue e he) hg)
  · rw [(canGrant_eq_true.mp hg).1] at hholds
    cases hholds
  · exact hw

end Alert

variable [DecidableEq κ]

/-- A party that has its tags changes its stage and keeps them. -/
theorem quiet_setStage {a : Admission κ} {id : κ} {stage : Stage}
    (hid : ∀ p ∈ a.parties, p.id = id → p.holdsTags = true)
    (hstage : ∀ p : Party κ, Party.holdsTags { p with stage } = true) :
    Quiet a (a.setStage id stage) where
  pools := rfl
  inUse := rfl
  queue := rfl
  parties := by
    intro p hp
    obtain ⟨q,hq,rfl⟩ := List.mem_map.mp hp
    split
    · next he =>
      have htags := hid q hq he
      refine ⟨q,hq,Party.same_of_holdsTags htags (hstage q),fun hw _ => ?_⟩
      rw [Party.isWoken_of_holdsTags htags] at hw
      cases hw
    · exact inherits_self hq

theorem quiet_takeSlot {a : Admission κ} {id : κ} (request : Request)
    (hid : ∀ p ∈ a.parties, p.id = id → p.holdsTags = true) : Quiet a (a.takeSlot id request) := by
  obtain ⟨free,slotQueue,stage,hstage,he⟩ := a.takeSlot_eq id request
  have h : Quiet a { a with free, slotQueue } := quiet_of_parties rfl rfl rfl rfl
  exact he ▸ h.trans (quiet_setStage hid hstage)

theorem Ledger.quiet_passSlot {a : Admission κ} {hand : NameSet} {loose : Nat}
    (h : Ledger a hand loose) : Quiet a a.passSlot := by
  unfold Admission.passSlot
  split
  · exact quiet_of_parties rfl rfl rfl rfl
  · next id rest hq =>
    have hid (p : Party κ) (hp : p ∈ a.parties) (he : p.id = id) : p.holdsTags = true := by
      have := h.slotQueue_of_mem hp (by simp [hq,he])
      simp [Party.holdsTags,this]
    have hrest : Quiet a { a with slotQueue := rest } := quiet_of_parties rfl rfl rfl rfl
    exact hrest.trans (quiet_setStage hid fun _ => rfl)

theorem mem_setStage_slot {a : Admission κ} {id : κ} {p : Party κ}
    (hp : p ∈ (a.setStage id .slot).parties) :
    (p.id = id ∧ p.holdsTags = true) ∨ p.id ≠ id ∧ p ∈ a.parties := by
  obtain ⟨q,hq,rfl⟩ := List.mem_map.mp hp
  split
  · next he => exact .inl ⟨he,rfl⟩
  · next hne => exact .inr ⟨hne,hq⟩

theorem holdsTags_of_setStage {a : Admission κ} {id : κ} {p : Party κ}
    (hp : p ∈ (a.setStage id .slot).parties) (he : p.id = id) : p.holdsTags = true := by
  obtain ⟨-,hholds⟩ | ⟨hne,-⟩ := mem_setStage_slot hp
  · exact hholds
  · exact absurd he hne

theorem frame_takeSlot (a : Admission κ) (id : κ) (request : Request) :
    (a.takeSlot id request).queue = a.queue ∧ (a.takeSlot id request).inUse = a.inUse ∧
      (a.takeSlot id request).pools = a.pools := by
  obtain ⟨_,_,_,-,he⟩ := a.takeSlot_eq id request
  rw [he]
  exact ⟨rfl,rfl,rfl⟩

theorem grant_queue (a : Admission κ) (p : Party κ) (k : Nat) :
    (a.grant p (some k)).queue = a.queue.filter fun q => q.1 != k :=
  (frame_takeSlot _ _ _).1

theorem grant_used (a : Admission κ) (p : Party κ) (ticket : Option Nat) (tag : String) :
    (a.grant p ticket).used tag = a.used tag+p.request.tags.count tag := by
  have hinUse : (a.grant p ticket).inUse = a.inUse.add p.request.tags := by
    unfold grant
    rw [(frame_takeSlot _ _ _).2.1]
    cases ticket <;> rfl
  rw [used,hinUse]
  exact Counts.get_add p.request.tags a.inUse tag

theorem grant_pools (a : Admission κ) (p : Party κ) (ticket : Option Nat) :
    (a.grant p ticket).pools = a.pools := by
  unfold grant
  rw [(frame_takeSlot _ _ _).2.2]
  cases ticket <;> rfl

/-- Who a party was before a grant: it got its tags, or it stood as it does now. -/
theorem mem_grant {a : Admission κ} {g : Party κ} (ticket : Option Nat) {p : Party κ}
    (hg : ∀ q ∈ a.parties, q.id = g.id → q = g) (hp : p ∈ (a.grant g ticket).parties) :
    (p.id = g.id ∧ p.request = g.request ∧ p.holdsTags = true) ∨ ∃ q ∈ a.parties, q.Same p := by
  have hset (q : Party κ) (hq : q ∈ (a.setStage g.id .slot).parties) :
      (q.id = g.id ∧ q.request = g.request ∧ q.holdsTags = true) ∨ q.id ≠ g.id ∧ q ∈ a.parties := by
    obtain ⟨r,hr,rfl⟩ := List.mem_map.mp hq
    split
    · next he => exact .inl ⟨he,by rw [hg r hr he],rfl⟩
    · next hne => exact .inr ⟨hne,hr⟩
  have hserved (b : Admission κ)
      (hb : ∀ q ∈ b.parties, ∃ r ∈ (a.setStage g.id .slot).parties, r.Same q)
      (hp : p ∈ (b.takeSlot g.id g.request).parties) :
      (p.id = g.id ∧ p.request = g.request ∧ p.holdsTags = true) ∨ ∃ q ∈ a.parties, q.Same p := by
    have hholds (q : Party κ) (hq : q ∈ b.parties) (he : q.id = g.id) : q.holdsTags = true := by
      obtain ⟨r,hr,hsame⟩ := hb q hq
      obtain ⟨-,-,hholds⟩ | ⟨hne,-⟩ := hset r hr
      · rwa [hsame.holdsTags]
      · exact absurd (hsame.id ▸ he) hne
    obtain ⟨q,hq,hqp,-⟩ := (quiet_takeSlot g.request hholds).parties p hp
    obtain ⟨r,hr,hrq⟩ := hb q hq
    have hsame := hrq.trans hqp
    obtain ⟨hid,hrequest,hholds⟩ | ⟨-,hmem⟩ := hset r hr
    · exact .inl ⟨hsame.id.trans hid,hsame.request.trans hrequest,hsame.holdsTags.trans hholds⟩
    · exact .inr ⟨r,hmem,hsame⟩
  let taken : Admission κ := { a with inUse := a.inUse.add g.request.tags }
  cases ticket with
  | none => exact hserved (taken.setStage g.id .slot) (fun q hq => ⟨q,hq,.refl q⟩) hp
  | some k =>
    refine hserved ((taken.removeTicket k).setStage g.id .slot).wakeAll (fun q hq => ?_) hp
    obtain ⟨r,hr,rfl⟩ := List.mem_map.mp hq
    exact ⟨r,hr,r.same_wake⟩

omit [DecidableEq κ] in
theorem mem_returnTags {a : Admission κ} {tags : NameSet} {p : Party κ}
    (hp : p ∈ (a.returnTags tags).parties) : ∃ q ∈ a.parties, q.Same p := by
  unfold returnTags at hp
  split at hp
  · exact ⟨p,hp,.refl p⟩
  · obtain ⟨q,hq,rfl⟩ := List.mem_map.mp hp
    exact ⟨q,hq,q.same_wake⟩

/-- Who has not left stands as before. -/
theorem Ledger.mem_leave {a : Admission κ} (h : a.Balanced) (id : κ) {p : Party κ}
    (hp : p ∈ (a.leave id).parties) : p.id ≠ id ∧ ∃ q ∈ a.parties, q.Same p := by
  obtain ⟨hnone,he⟩ | ⟨g,hfound,b,rfl,hcases⟩ := a.leave_cases id
  · rw [he] at hp
    exact ⟨ne_of_party?_eq_none hnone p hp,p,hp,.refl p⟩
  obtain ⟨hg,rfl⟩ := mem_of_party? hfound
  have hother {q r : Party κ} (hq : q ∈ a.parties.filter fun q => q.id != g.id) (hr : q.Same r) :
      r.id ≠ g.id ∧ ∃ q ∈ a.parties, q.Same r := by
    obtain ⟨hmem,hne⟩ := List.mem_filter.mp hq
    exact ⟨hr.id ▸ by simpa using hne,q,hmem,hr⟩
  have hkept (b : Admission κ) (hb : b.parties = a.parties.filter fun q => q.id != g.id)
      {q r : Party κ} (hq : q ∈ (b.returnTags g.request.tags).parties) (hr : q.Same r) :
      r.id ≠ g.id ∧ ∃ q ∈ a.parties, q.Same r := by
    obtain ⟨o,ho,hsame⟩ := mem_returnTags hq
    exact hother (hb ▸ ho) (hsame.trans hr)
  obtain ⟨k,woken,-,he⟩ | ⟨woken,-,he⟩ | ⟨-,he⟩ | ⟨hs,he⟩ | ⟨-,he⟩ := hcases <;> rw [he] at hp
  · obtain ⟨q,hq,rfl⟩ := List.mem_map.mp hp
    exact hother hq q.same_wake
  · exact hother hp (.refl p)
  · exact hkept _ rfl hp (.refl p)
  · obtain ⟨q,hq,hsame,-⟩ := (h.dismiss_granted hg hs).returnTags.quiet_passSlot.parties p hp
    exact hkept _ rfl hq hsame
  · exact hkept _ rfl hp (.refl p)

theorem Ledger.quiet_releaseSlot {a : Admission κ} (h : a.Balanced) (id : κ) :
    Quiet a (a.releaseSlot id) := by
  obtain ⟨-,he⟩ | ⟨p,hfound,hs,he⟩ := a.releaseSlot_cases id <;> rw [he]
  · exact quiet_of_parties rfl rfl rfl rfl
  · obtain ⟨hp,rfl⟩ := mem_of_party? hfound
    have hid (q : Party κ) (hq : q ∈ a.parties) (he : q.id = p.id) : q.holdsTags = true := by
      rw [eq_of_id h.ids hq hp he]
      simp [Party.holdsTags,hs]
    have hback : Quiet a (a.setStage p.id (.granted false)) := quiet_setStage hid fun _ => rfl
    exact hback.trans (h.giveSlot hp hs).quiet_passSlot

/-- A look in vain. -/
theorem quiet_look {a : Admission κ} {p : Party κ} {ticket : Option Nat} {woken : Bool}
    (hids : (a.parties.map Party.id).Nodup) (hp : p ∈ a.parties) (hs : p.stage = .tags ticket woken)
    (hg : a.canGrant p = false) : Quiet a (a.setStage p.id (.tags ticket false)) where
  pools := rfl
  inUse := rfl
  queue := rfl
  parties := by
    intro q hq
    obtain ⟨r,hr,rfl⟩ := List.mem_map.mp hq
    split
    · next he =>
      obtain rfl := eq_of_id hids hr hp he
      refine ⟨r,hr,⟨rfl,rfl,?_,?_⟩,fun _ hg' => ?_⟩
      · simp [Party.holdsTags,hs]
      · simp [Party.ticket?,hs]
      · rw [hg] at hg'
        cases hg'
    · exact inherits_self hr

/-- Who a party was before an act: it stood as it does now, or it is new, or it looked and could have
the tags it has now. -/
theorem Ledger.origin {a : Admission κ} (h : a.Balanced) (x : Act κ) {p : Party κ}
    (hp : p ∈ (a.act x).parties) :
    (∃ q ∈ a.parties, q.Same p) ∨ (a.party? p.id = none ∧ x = .ask p.id p.request) ∨
      (x = .look p.id ∧ p.holdsTags = true ∧
        ∃ q ∈ a.parties, q.id = p.id ∧ q.request = p.request ∧ a.canGrant q = true) := by
  cases x with
  | ask id request =>
    change p ∈ (a.ask id request).parties at hp
    obtain ⟨-,he⟩ | ⟨hnone,hcases⟩ := a.ask_cases id request
    · rw [he] at hp
      exact .inl ⟨p,hp,.refl p⟩
    have henter (b : Admission κ) (stage : Stage) (hb : b.parties = a.parties) {q : Party κ}
        (hq : q ∈ (b.enter ⟨id,request,stage⟩).parties) (hsame : q.Same p) :
        (∃ q ∈ a.parties, q.Same p) ∨
          a.party? p.id = none ∧ Act.ask id request = .ask p.id p.request := by
      rcases List.mem_append.mp hq with hq | hq
      · exact .inl ⟨q,hb ▸ hq,hsame⟩
      · rw [List.mem_singleton.mp hq] at hsame
        rw [hsame.id,hsame.request]
        exact .inr ⟨hnone,rfl⟩
    obtain ⟨-,he⟩ | ⟨-,-,he⟩ | ⟨-,-,he⟩ := hcases <;> rw [he] at hp
    · have hholds (q : Party κ) (hq : q ∈ (a.enter ⟨id,request,.slot⟩).parties) (he : q.id = id) :
          q.holdsTags = true := by
        rcases List.mem_append.mp hq with hq | hq
        · exact absurd he (ne_of_party?_eq_none hnone q hq)
        · rw [List.mem_singleton.mp hq]
          rfl
      obtain ⟨q,hq,hsame,-⟩ := (quiet_takeSlot request hholds).parties p hp
      exact (henter a .slot rfl hq hsame).imp_right .inl
    · exact (henter a _ rfl hp (.refl p)).imp_right .inl
    · exact (henter _ _ rfl hp (.refl p)).imp_right .inl
  | look id =>
    change p ∈ (a.look id).parties at hp
    obtain ⟨-,he⟩ | ⟨g,hfound,ticket,hs,⟨hcan,he⟩ | ⟨hcan,he⟩⟩ := a.look_cases id <;> rw [he] at hp
    · exact .inl ⟨p,hp,.refl p⟩
    · obtain ⟨hg,rfl⟩ := mem_of_party? hfound
      obtain ⟨hid,hrequest,hholds⟩ | hold :=
        mem_grant ticket (fun q hq he => eq_of_id h.ids hq hg he) hp
      · rw [hid]
        exact .inr (.inr ⟨rfl,hholds,g,hg,rfl,hrequest.symm,hcan⟩)
      · exact .inl hold
    · obtain ⟨hg,rfl⟩ := mem_of_party? hfound
      obtain ⟨q,hq,hsame,-⟩ := (quiet_look h.ids hg hs hcan).parties p hp
      exact .inl ⟨q,hq,hsame⟩
  | leave id => exact .inl (h.mem_leave id hp).2
  | releaseSlot id =>
    obtain ⟨q,hq,hsame,-⟩ := (h.quiet_releaseSlot id).parties p hp
    exact .inl ⟨q,hq,hsame⟩

omit [DecidableEq κ] in
/-- Of two parties that wait in turn the one that asked first has the lower ticket. -/
theorem Ledger.isBehind_of_sublist {a : Admission κ} (h : a.Balanced) {q p : Party κ}
    (hsub : [q,p].Sublist a.parties) (hq : q.isQueued = true) (hp : p.isQueued = true) {tag : String}
    (htq : tag ∈ q.request.tags) (htp : tag ∈ p.request.tags) :
    ∃ k, p.ticket? = some k ∧ a.isBehind k p.request.tags = true := by
  have hticket {r : Party κ} (hr : r ∈ [q,p]) (hqueued : r.isQueued = true) :
      ∃ k, r.ticket? = some k := by
    simp only [Party.isQueued,Bool.and_eq_true,Bool.not_eq_true'] at hqueued
    exact (h.sensible r (hsub.subset hr)).exists_ticket hqueued.1 hqueued.2
  obtain ⟨j,hj⟩ := hticket List.mem_cons_self hq
  obtain ⟨k,hk⟩ := hticket (List.mem_cons_of_mem q List.mem_cons_self) hp
  have hentries : [(j,q.request.tags),(k,p.request.tags)].Sublist a.queue := by
    rw [h.queue]
    simpa [Party.place?,hj,hk] using hsub.filterMap Party.place?
  have hlt : j < k := by simpa using h.tickets.sublist hentries
  refine ⟨k,hk,List.any_eq_true.mpr ⟨_,hentries.subset List.mem_cons_self,?_⟩⟩
  have hshare : q.request.tags.any p.request.tags.contains = true :=
    List.any_eq_true.mpr ⟨tag,htq,by simpa using htp⟩
  simp [hlt,hshare]

/-- A party is not given its tags while one before it waits for one of them. -/
theorem Ledger.waits_of_before {a : Admission κ} (h : a.Balanced) {q p : Party κ}
    (hsub : [q,p].Sublist a.parties) (hq : q.isQueued = true) (hp : p.isQueued = true) {tag : String}
    (htq : tag ∈ q.request.tags) (htp : tag ∈ p.request.tags) (x : Act κ) :
    (a.act x).party? p.id = none ∨ (a.act x).waitsForTags p.id = true := by
  have hmem : p ∈ a.parties := hsub.subset (List.mem_cons_of_mem q List.mem_cons_self)
  have hw : p.holdsTags = false := by
    simp only [Party.isQueued,Bool.and_eq_true,Bool.not_eq_true'] at hp
    exact hp.1
  obtain ⟨k,hk,hbehind⟩ := h.isBehind_of_sublist hsub hq hp htq htp
  cases hfound : (a.act x).party? p.id with
  | none => exact .inl rfl
  | some r =>
    obtain ⟨hr,hid⟩ := mem_of_party? hfound
    refine .inr ?_
    obtain ⟨o,ho,hsame⟩ | ⟨hnone,-⟩ | ⟨-,-,o,ho,hoid,-,hg⟩ := h.origin x hr
    · have hop : o = p := eq_of_id h.ids ho hmem (hsame.id.symm.trans hid)
      simp [waitsForTags,hfound,hsame.holdsTags,hop,hw]
    · exact absurd hid.symm (ne_of_party?_eq_none hnone p hmem)
    · obtain rfl := eq_of_id h.ids ho hmem (hoid.trans hid)
      have := (canGrant_eq_true.mp hg).2.1 k hk
      simp [hbehind] at this

namespace Alert

variable {a : Admission κ}

theorem ask (h : a.Alert) (id : κ) (request : Request) :
    (a.ask id request).Alert := by
  have henter (c : Admission κ) (hpools : c.pools = a.pools) (hinUse : c.inUse = a.inUse)
      (hqueue : ∀ e ∈ a.queue, e ∈ c.queue) (hparties : c.parties = a.parties) (p : Party κ)
      (hnew : p.holdsTags = true ∨ p.isWoken = true) : (c.enter p).Alert := by
    refine h.mono hpools (fun tag => ?_) hqueue fun q hq => ?_
    · exact Nat.le_of_eq (congrArg (Counts.get tag) hinUse.symm)
    · rcases List.mem_append.mp hq with hq | hq
      · exact .inl (hparties ▸ hq)
      · exact .inr (List.mem_singleton.mp hq ▸ hnew)
  obtain ⟨-,he⟩ | ⟨hnone,⟨-,he⟩ | ⟨-,-,he⟩ | ⟨-,-,he⟩⟩ := a.ask_cases id request <;> rw [he]
  · exact h
  · refine (henter a rfl rfl (fun _ he => he) rfl _ (.inl rfl)).quiet (quiet_takeSlot request ?_)
    intro q hq he
    rcases List.mem_append.mp hq with hq | hq
    · exact absurd he (ne_of_party?_eq_none hnone q hq)
    · rw [List.mem_singleton.mp hq]
      rfl
  · exact henter a rfl rfl (fun _ he => he) rfl ⟨id,request,.tags none true⟩ (.inr rfl)
  · let queue := a.queue ++ [(a.nextTicket,request.tags)]
    exact henter { a with queue, nextTicket := a.nextTicket+1 } rfl rfl
      (fun _ he => List.mem_append_left _ he) rfl ⟨id,request,.tags (some a.nextTicket) true⟩
      (.inr rfl)

theorem grant (h : a.Alert) (p : Party κ) (ticket : Option Nat) : (a.grant p ticket).Alert := by
  let taken : Admission κ := { a with inUse := a.inUse.add p.request.tags }
  cases ticket with
  | none =>
    have htaken : (taken.setStage p.id .slot).Alert := by
      refine h.mono rfl (fun tag => ?_) (fun _ he => he) fun q hq => ?_
      · exact Nat.le.intro (Counts.get_add p.request.tags a.inUse tag).symm
      · obtain ⟨hid,hholds⟩ | hold := mem_setStage_slot hq
        · exact .inr (.inl hholds)
        · exact .inl hold.2
    exact htaken.quiet (quiet_takeSlot p.request fun q hq he => holdsTags_of_setStage hq he)
  | some k =>
    refine (alert_wakeAll ((taken.removeTicket k).setStage p.id .slot)).quiet
      (quiet_takeSlot p.request fun q hq he => ?_)
    obtain ⟨r,hr,rfl⟩ := List.mem_map.mp hq
    rw [r.wake_holdsTags]
    exact holdsTags_of_setStage hr (r.wake_id ▸ he)

theorem look (h : a.Alert) (hb : a.Balanced) (id : κ) : (a.look id).Alert := by
  obtain ⟨-,he⟩ | ⟨p,hfound,ticket,hs,⟨-,he⟩ | ⟨hg,he⟩⟩ := a.look_cases id <;> rw [he]
  · exact h
  · exact h.grant p ticket
  · obtain ⟨hp,rfl⟩ := mem_of_party? hfound
    exact h.quiet (quiet_look hb.ids hp hs hg)

theorem leave (h : a.Alert) (hb : a.Balanced) (id : κ) : (a.leave id).Alert := by
  obtain ⟨-,he⟩ | ⟨p,hfound,b,rfl,hcases⟩ := a.leave_cases id
  · rwa [he]
  obtain ⟨hp,rfl⟩ := mem_of_party? hfound
  have hkept (waiters : List κ) : Alert { a with
      parties := a.parties.filter fun q => q.id != p.id, slotQueue := waiters } :=
    h.quiet ⟨rfl,rfl,rfl,fun q hq => inherits_self (List.mem_of_mem_filter hq)⟩
  obtain ⟨k,woken,-,he⟩ | ⟨woken,-,he⟩ | ⟨-,he⟩ | ⟨hs,he⟩ | ⟨-,he⟩ := hcases <;> rw [he]
  · exact alert_wakeAll _
  · exact hkept a.slotQueue
  · exact (hkept (a.slotQueue.filter (· != p.id))).returnTags p.request.tags
  · exact ((hkept a.slotQueue).returnTags p.request.tags).quiet
      (hb.dismiss_granted hp hs).returnTags.quiet_passSlot
  · exact (hkept a.slotQueue).returnTags p.request.tags

theorem act (h : a.Alert) (hb : a.Balanced) (x : Act κ) : (a.act x).Alert := by
  cases x with
  | ask id request => exact h.ask id request
  | look id => exact h.look hb id
  | leave id => exact h.leave hb id
  | releaseSlot id => exact h.quiet (hb.quiet_releaseSlot id)

end Alert

theorem Later.alert {a b : Admission κ} (h : Later a b) (hb : a.Balanced) (ha : a.Alert) :
    b.Alert := by
  induction h with
  | refl => exact ha
  | act hl x _ ih => exact ih.act (hl.balanced hb) x

end TaskGraph.Admission
