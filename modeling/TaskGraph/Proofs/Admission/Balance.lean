import TaskGraph.Proofs.Admission.Ledger

/-!
The acts of parties, in any order, and what is true of the books of an admission after them.
-/

namespace TaskGraph.Admission

variable {κ : Type} [DecidableEq κ]

/-- What a party can do: ask, look whether it can have its tags, leave, before it has all it asked for
or after, and give its slot back. -/
inductive Act (κ : Type) where
  | ask (id : κ) (request : Request)
  | look (id : κ)
  | leave (id : κ)
  | releaseSlot (id : κ)

/-- Tags are asked for as a set. -/
def Act.IsProper : Act κ → Prop
  | .ask _ request => request.tags.Nodup
  | _ => True

instance : (x : Act κ) → Decidable x.IsProper
  | .ask _ request => inferInstanceAs (Decidable request.tags.Nodup)
  | .look _ | .leave _ | .releaseSlot _ => .isTrue trivial

def act (a : Admission κ) : Act κ → Admission κ
  | .ask id request => a.ask id request
  | .look id => a.look id
  | .leave id => a.leave id
  | .releaseSlot id => a.releaseSlot id

/-- What an admission can come to be. -/
inductive Later (a : Admission κ) : Admission κ → Prop where
  | refl : Later a a
  | act {b : Admission κ} : Later a b → (x : Act κ) → x.IsProper → Later a (b.act x)

theorem Later.trans {a b c : Admission κ} (hb : Later a b) (hc : Later b c) : Later a c := by
  induction hc with
  | refl => exact hb
  | act _ x hx ih => exact ih.act x hx

theorem Later.foldl {a b : Admission κ} (h : Later a b) {acts : List (Act κ)}
    (hacts : ∀ x ∈ acts, x.IsProper) : Later a (acts.foldl Admission.act b) := by
  induction acts generalizing b with
  | nil => exact h
  | cons x rest ih =>
    exact ih (h.act x (hacts x List.mem_cons_self)) fun y hy => hacts y (List.mem_cons_of_mem x hy)

theorem Ledger.act {a : Admission κ} (h : a.Balanced) {x : Act κ} (hx : x.IsProper) :
    (a.act x).Balanced := by
  cases x with
  | ask id request => exact h.ask id hx
  | look id => exact h.look id
  | leave id => exact h.leave id
  | releaseSlot id => exact h.releaseSlot id

theorem Later.balanced {a b : Admission κ} (h : Later a b) (ha : a.Balanced) : b.Balanced := by
  induction h with
  | refl => exact ha
  | act _ x hx ih => exact ih.act hx

/-- The pools and the number of slots, which nothing changes. -/
def premises (a : Admission κ) : Pools × Nat := (a.pools,a.slots)

omit [DecidableEq κ] in
theorem premises_returnTags (a : Admission κ) (tags : NameSet) :
    (a.returnTags tags).premises = a.premises := by
  unfold returnTags
  split <;> rfl

theorem premises_passSlot (a : Admission κ) : a.passSlot.premises = a.premises := by
  unfold passSlot
  split <;> rfl

theorem premises_takeSlot (a : Admission κ) (id : κ) (request : Request) :
    (a.takeSlot id request).premises = a.premises := by
  obtain ⟨_,_,_,-,he⟩ := a.takeSlot_eq id request
  rw [he]
  rfl

theorem premises_act (a : Admission κ) (x : Act κ) : (a.act x).premises = a.premises := by
  cases x with
  | ask id request =>
    change (a.ask id request).premises = _
    obtain ⟨-,he⟩ | ⟨-,⟨-,he⟩ | ⟨-,-,he⟩ | ⟨-,-,he⟩⟩ := a.ask_cases id request <;> rw [he]
    · exact premises_takeSlot _ _ _
    · rfl
    · rfl
  | look id =>
    change (a.look id).premises = _
    obtain ⟨-,he⟩ | ⟨p,-,ticket,-,⟨-,he⟩ | ⟨-,he⟩⟩ := a.look_cases id <;> rw [he]
    · unfold grant
      rw [premises_takeSlot]
      cases ticket <;> rfl
    · rfl
  | leave id =>
    change (a.leave id).premises = _
    obtain ⟨-,he⟩ | ⟨p,-,b,rfl,⟨k,woken,-,he⟩ | ⟨woken,-,he⟩ | ⟨-,he⟩ | ⟨-,he⟩ | ⟨-,he⟩⟩ :=
      a.leave_cases id <;> rw [he]
    · rfl
    · rfl
    · exact premises_returnTags _ _
    · rw [premises_passSlot,premises_returnTags]
      rfl
    · exact premises_returnTags _ _
  | releaseSlot id =>
    change (a.releaseSlot id).premises = _
    obtain ⟨-,he⟩ | ⟨p,-,-,he⟩ := a.releaseSlot_cases id <;> rw [he]
    rw [premises_passSlot]
    rfl

theorem Later.premises_eq {a b : Admission κ} (h : Later a b) : b.premises = a.premises := by
  induction h with
  | refl => rfl
  | act _ x _ ih => rw [premises_act,ih]

theorem used_passSlot (a : Admission κ) (tag : String) : a.passSlot.used tag = a.used tag := by
  unfold passSlot
  split <;> rfl

omit [DecidableEq κ] in
theorem used_returnTags (a : Admission κ) (tags : NameSet) (tag : String) :
    (a.returnTags tags).used tag = a.used tag-tags.count tag := by
  unfold returnTags
  split
  · next h => simp [List.isEmpty_iff.mp h]
  · exact Counts.get_remove tags a.inUse tag

/-- Who leaves gives back what it holds. -/
theorem Ledger.used_leave {a : Admission κ} (h : a.Balanced) {p : Party κ} (hp : p ∈ a.parties)
    (tag : String) : (a.leave p.id).used tag+(p.holds tag).toNat = a.used tag := by
  have hheld : (p.holds tag).toNat ≤ a.used tag := by
    rw [h.used]
    cases hh : p.holds tag with
    | false => simp
    | true =>
      have : 0 < a.parties.countP (·.holds tag) := List.countP_pos_iff.mpr ⟨p,hp,hh⟩
      rw [Bool.toNat_true]
      omega
  have hcount := p.holds_toNat (h.sensible p hp).tags tag
  have hleave : (a.leave p.id).used tag = a.used tag-(p.holds tag).toNat := by
    rw [hcount]
    obtain ⟨hnone,-⟩ | ⟨q,hfound,b,rfl,hcases⟩ := a.leave_cases p.id
    · exact absurd rfl (ne_of_party?_eq_none hnone p hp)
    obtain rfl := Option.some.inj ((party?_of_mem h.ids hp).symm.trans hfound)
    obtain ⟨k,woken,hs,he⟩ | ⟨woken,hs,he⟩ | ⟨hs,he⟩ | ⟨hs,he⟩ | ⟨hs,he⟩ := hcases <;>
      simp only [he,hs,Party.holdsTags]
    · rfl
    · rfl
    · exact used_returnTags _ _ tag
    · exact (used_passSlot _ tag).trans (used_returnTags _ _ tag)
    · exact used_returnTags _ _ tag
  omega

/-- Whether it waits for its tags in turn. -/
def Party.isQueued (p : Party κ) : Bool := !p.holdsTags && !p.request.bypass

omit [DecidableEq κ] in
/-- The queue has an entry for each party that waits in turn, and no other. -/
theorem entries_of_sensible {parties : List (Party κ)} (h : ∀ p ∈ parties, p.Sensible) :
    (parties.filter Party.isQueued).map (fun p => (p.ticket?,p.request.tags)) =
      (parties.filterMap Party.place?).map fun q => (some q.1,q.2) := by
  induction parties with
  | nil => rfl
  | cons p rest ih =>
    have hrest := ih fun q hq => h q (List.mem_cons_of_mem p hq)
    have hp := h p List.mem_cons_self
    cases hw : p.holdsTags with
    | true =>
      have hentry : p.place? = none := by
        cases hs : p.stage <;> simp_all [Party.place?,Party.ticket?,Party.holdsTags]
      rw [List.filter_cons_of_neg (by simp [Party.isQueued,hw]),List.filterMap_cons_none hentry,hrest]
    | false =>
      have hticket := (hp.waiting hw).2
      cases hk : p.ticket? with
      | none =>
        have hb : p.request.bypass = true := by simpa [hk] using hticket
        have hentry : p.place? = none := by simp [Party.place?,hk]
        rw [List.filter_cons_of_neg (by simp [Party.isQueued,hb]),List.filterMap_cons_none hentry,
          hrest]
      | some k =>
        have hb : p.request.bypass = false := by simpa [hk] using hticket
        have hentry : p.place? = some (k,p.request.tags) := by simp [Party.place?,hk]
        rw [List.filter_cons_of_pos (by simp [Party.isQueued,hw,hb]),
          List.filterMap_cons_some hentry,List.map_cons,List.map_cons,hrest,hk]

/-- Whatever the parties did, and in whatever order: what is in use of a tag is the number of parties
that hold it, within the pool's size; a party holds all its tags or none; every slot is held or free;
the queue has one ticket, all of them different and given out before, for each party that waits in
turn; who leaves gives back exactly what it holds; and when all have left, nothing is taken. -/
theorem books_balance {pools : Pools} {slots : Nat} {a : Admission κ}
    (h : Later (start pools slots) a) :
    (∀ tag, a.used tag = a.parties.countP (·.holds tag) ∧ a.used tag ≤ pools.capacity tag) ∧
    (∀ p ∈ a.parties, (∀ tag ∈ p.request.tags, p.holds tag = true) ∨ ∀ tag, p.holds tag = false) ∧
    a.parties.countP Party.holdsSlot+a.free = slots ∧
    ((a.parties.filter Party.isQueued).map (fun p => (p.ticket?,p.request.tags)) =
        a.queue.map fun q => (some q.1,q.2)) ∧
    (a.queue.map (·.1)).Nodup ∧ (∀ q ∈ a.queue, q.1 < a.nextTicket) ∧
    (∀ p ∈ a.parties, ∀ tag, (a.leave p.id).used tag+(p.holds tag).toNat = a.used tag) ∧
    (a.parties = [] → (∀ tag, a.used tag = 0) ∧ a.queue = [] ∧ a.free = slots) := by
  have hb := h.balanced (start_balanced pools slots)
  have hpremises := h.premises_eq
  have hpools : a.pools = pools := congrArg Prod.fst hpremises
  have hslots : a.slots = slots := congrArg Prod.snd hpremises
  have hused (tag : String) : a.used tag = a.parties.countP (·.holds tag) := by simp [hb.used tag]
  have hfree : a.parties.countP Party.holdsSlot+a.free = slots := by
    have := hb.slots
    omega
  refine ⟨fun tag => ⟨hused tag,?_⟩,fun p _ => ?_,hfree,?_,?_,hb.next,
    fun p hp tag => hb.used_leave hp tag,fun hnone => ⟨fun tag => ?_,?_,?_⟩⟩
  · have := hb.fits tag
    rwa [capacity,hpools] at this
  · cases hw : p.holdsTags with
    | true => exact .inl fun tag ht => by simp [Party.holds,hw,ht]
    | false => exact .inr fun tag => by simp [Party.holds,hw]
  · rw [entries_of_sensible hb.sensible,hb.queue]
  · exact List.pairwise_map.mpr (hb.tickets.imp fun hlt => Nat.ne_of_lt hlt)
  · rw [hused,hnone]
    rfl
  · rw [hb.queue,hnone]
    rfl
  · rw [hnone] at hfree
    simpa using hfree

namespace Crowd

/-- One has a tag and the only slot, the next waits for that tag and another, the last passes by with
the other tag and waits for the slot. -/
def acts : List (Act Nat) :=
  [.ask 0 { tags := ["db"], slot := true }, .look 0, .ask 1 { tags := ["cache","db"] }, .look 1,
    .ask 2 { tags := ["cache"], slot := true, bypass := true }, .look 2]

def admission : Admission Nat := acts.foldl act (start {} 1)

theorem later : Later (start {} 1) admission := Later.refl.foldl (by decide)

end Crowd

/-- When the first of the crowd leaves, its tag is free and its slot goes to the last. -/
theorem books_balance_crowd :
    Crowd.admission.used "db" = 1 ∧ Crowd.admission.queue = [(1,["cache","db"])] ∧
    Crowd.admission.parties.countP Party.holdsSlot+Crowd.admission.free = 1 ∧
    ∀ tag, (Crowd.admission.leave 0).used tag+(if tag = "db" then 1 else 0) =
      Crowd.admission.used tag := by
  obtain ⟨hused,-,hslots,-,-,-,hleave,-⟩ := books_balance Crowd.later
  refine ⟨(hused "db").1.trans (by decide),by decide,hslots,fun tag => ?_⟩
  have := hleave ⟨0,{ tags := ["db"], slot := true },.granted true⟩ (by decide) tag
  rw [← this]
  by_cases h : tag = "db" <;> simp [Party.holds,Party.holdsTags,h]

end TaskGraph.Admission
