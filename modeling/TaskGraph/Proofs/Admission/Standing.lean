import TaskGraph.Proofs.Admission.Turns

/-!
What the acts of others do to a party: it is there only if it was, with the same request, and once it
has all it asked for it stays as it is until it acts itself.
-/

namespace TaskGraph.Admission

variable {κ : Type} {a b c : Admission κ} {p : Party κ}

/-- A party was there with the same request, and stood as it does if it had all it asked for. -/
def Was (a : Admission κ) (p : Party κ) : Prop :=
  ∃ q ∈ a.parties, q.id = p.id ∧ q.request = p.request ∧ (q.isGranted = true → p = q)

theorem was_self (hp : p ∈ a.parties) : a.Was p := ⟨p,hp,rfl,rfl,fun _ => rfl⟩

theorem Was.trans (h : b.Was p) (hb : ∀ q ∈ b.parties, q.id = p.id → a.Was q) : a.Was p := by
  obtain ⟨q,hq,hid,hrequest,hsame⟩ := h
  obtain ⟨r,hr,hrid,hrrequest,hrsame⟩ := hb q hq hid
  refine ⟨r,hr,hrid.trans hid,hrrequest.trans hrequest,fun hg => ?_⟩
  obtain rfl := hrsame hg
  exact hsame hg

theorem was_wakeAll (hp : p ∈ a.wakeAll.parties) : a.Was p := by
  obtain ⟨q,hq,rfl⟩ := List.mem_map.mp hp
  refine ⟨q,hq,q.wake_id.symm,q.wake_request.symm,fun hg => ?_⟩
  cases hs : q.stage <;> simp_all [Party.wake,Party.isGranted]

theorem was_returnTags {tags : NameSet} (hp : p ∈ (a.returnTags tags).parties) : a.Was p := by
  unfold returnTags at hp
  split at hp
  · exact was_self hp
  · exact (was_wakeAll hp).trans fun q hq _ => was_self hq

variable [DecidableEq κ]

/-- A party that does not have all it asked for changes its stage. -/
theorem was_setStage {id : κ} {stage : Stage}
    (hid : ∀ q ∈ a.parties, q.id = id → q.isGranted = false)
    (hp : p ∈ (a.setStage id stage).parties) : a.Was p := by
  obtain ⟨q,hq,rfl⟩ := List.mem_map.mp hp
  split
  · next he =>
    refine ⟨q,hq,rfl,rfl,fun hg => ?_⟩
    rw [hid q hq he] at hg
    cases hg
  · exact was_self hq

theorem was_takeSlot {id : κ} {request : Request}
    (hid : ∀ q ∈ a.parties, q.id = id → q.isGranted = false)
    (hp : p ∈ (a.takeSlot id request).parties) : a.Was p := by
  obtain ⟨free,slotQueue,stage,-,he⟩ := a.takeSlot_eq id request
  rw [he] at hp
  exact was_setStage (a := { a with free, slotQueue }) hid hp

theorem was_grant {g : Party κ} {ticket : Option Nat}
    (hid : ∀ q ∈ a.parties, q.id = g.id → q.isGranted = false)
    (hp : p ∈ (a.grant g ticket).parties) : a.Was p := by
  have hset (q : Party κ) (hq : q ∈ (a.setStage g.id .slot).parties) (he : q.id = g.id) :
      q.isGranted = false := by
    obtain ⟨r,-,rfl⟩ := List.mem_map.mp hq
    split at he
    · next hr => rw [if_pos hr]; rfl
    · next hr => exact absurd he hr
  let taken : Admission κ := { a with inUse := a.inUse.add g.request.tags }
  cases ticket with
  | none =>
    have hserved := was_takeSlot (a := taken.setStage g.id .slot) hset hp
    exact hserved.trans fun q hq _ => was_setStage (a := a) hid hq
  | some k =>
    have hwoken (q : Party κ) (hq : q ∈ ((taken.removeTicket k).setStage g.id .slot).wakeAll.parties)
        (he : q.id = g.id) : q.isGranted = false := by
      obtain ⟨r,hr,rfl⟩ := List.mem_map.mp hq
      have := hset r hr (r.wake_id ▸ he)
      cases hs : r.stage <;> simp_all [Party.wake,Party.isGranted]
    have hserved := was_takeSlot hwoken hp
    exact (hserved.trans fun q hq _ => was_wakeAll hq).trans fun q hq _ => was_setStage (a := a) hid hq

/-- A new party apart. -/
theorem was_ask {id : κ} {request : Request} (hp : p ∈ (a.ask id request).parties) :
    a.Was p ∨ p.id = id ∧ p.request = request := by
  obtain ⟨-,he⟩ | ⟨hnone,hcases⟩ := a.ask_cases id request
  · exact .inl (was_self (he ▸ hp))
  have hfresh := ne_of_party?_eq_none hnone
  have henter (b : Admission κ) (stage : Stage) (hb : b.parties = a.parties) {q : Party κ}
      (hq : q ∈ (b.enter ⟨id,request,stage⟩).parties) :
      a.Was q ∨ q.id = id ∧ q.request = request := by
    rcases List.mem_append.mp hq with hq | hq
    · exact .inl (was_self (hb ▸ hq))
    · rw [List.mem_singleton.mp hq]
      exact .inr ⟨rfl,rfl⟩
  obtain ⟨-,he⟩ | ⟨-,-,he⟩ | ⟨-,-,he⟩ := hcases <;> rw [he] at hp
  · have hid (q : Party κ) (hq : q ∈ (a.enter ⟨id,request,.slot⟩).parties) (he : q.id = id) :
        q.isGranted = false := by
      rcases List.mem_append.mp hq with hq | hq
      · exact absurd he (hfresh q hq)
      · rw [List.mem_singleton.mp hq]
        rfl
    have htaken := was_takeSlot hid hp
    by_cases hpid : p.id = id
    · obtain ⟨q,hq,hqid,hrequest,-⟩ := htaken
      obtain ⟨r,hr,hrid,-⟩ | ⟨-,hnewrequest⟩ := henter a .slot rfl hq
      · exact absurd (hrid.trans (hqid.trans hpid)) (hfresh r hr)
      · exact .inr ⟨hpid,hrequest ▸ hnewrequest⟩
    · refine .inl (htaken.trans fun q hq hqid => (henter a .slot rfl hq).resolve_right fun hnew => ?_)
      exact hpid (hqid ▸ hnew.1)
  · exact henter a _ rfl hp
  · exact henter _ _ rfl hp

namespace Ledger

theorem was_passSlot {hand : NameSet} {loose : Nat} (h : Ledger a hand loose)
    (hp : p ∈ a.passSlot.parties) : a.Was p := by
  unfold Admission.passSlot at hp
  split at hp
  · exact was_self hp
  · next id rest hq =>
    have hid (q : Party κ) (hmem : q ∈ a.parties) (he : q.id = id) : q.isGranted = false := by
      have := h.slotQueue_of_mem hmem (by simp [hq,he])
      simp [Party.isGranted,this]
    exact was_setStage (a := { a with slotQueue := rest }) hid hp

theorem was_leave (h : a.Balanced) {id : κ} (hp : p ∈ (a.leave id).parties) : a.Was p := by
  obtain ⟨-,he⟩ | ⟨g,hfound,b,rfl,hcases⟩ := a.leave_cases id
  · exact was_self (he ▸ hp)
  obtain ⟨hg,rfl⟩ := mem_of_party? hfound
  have hkept (waiters : List κ) (q : Party κ) (hq : q ∈ ({ a with
      parties := a.parties.filter fun q => q.id != g.id
      slotQueue := waiters }.returnTags g.request.tags).parties) : a.Was q :=
    (was_returnTags hq).trans fun r hr _ => was_self (List.mem_of_mem_filter hr)
  obtain ⟨k,woken,-,he⟩ | ⟨woken,-,he⟩ | ⟨-,he⟩ | ⟨hs,he⟩ | ⟨-,he⟩ := hcases <;> rw [he] at hp
  · exact (was_wakeAll hp).trans fun q hq _ => was_self (List.mem_of_mem_filter hq)
  · exact was_self (List.mem_of_mem_filter hp)
  · exact hkept (a.slotQueue.filter (· != g.id)) p hp
  · have hpassed := (h.dismiss_granted hg hs).returnTags.was_passSlot hp
    exact hpassed.trans fun q hq _ => hkept a.slotQueue q hq
  · exact hkept a.slotQueue p hp

theorem was_look (h : a.Balanced) {id : κ} (hp : p ∈ (a.look id).parties) : a.Was p := by
  obtain ⟨-,he⟩ | ⟨g,hfound,ticket,hs,hcases⟩ := a.look_cases id
  · exact was_self (he ▸ hp)
  obtain ⟨hg,rfl⟩ := mem_of_party? hfound
  have hid (q : Party κ) (hq : q ∈ a.parties) (he : q.id = g.id) : q.isGranted = false := by
    rw [eq_of_id h.ids hq hg he,Party.isGranted,hs]
  obtain ⟨-,he⟩ | ⟨-,he⟩ := hcases <;> rw [he] at hp
  · exact was_grant hid hp
  · exact was_setStage hid hp

/-- Whoever gives its slot back keeps all the rest. -/
theorem was_releaseSlot (h : a.Balanced) {id : κ} (hp : p ∈ (a.releaseSlot id).parties) :
    (p.id ≠ id → a.Was p) ∧ (p.id = id → p.holdsSlot = false ∧
      ∃ q ∈ a.parties, q.id = p.id ∧ q.request = p.request ∧
        (q.isGranted = true → p.isGranted = true)) := by
  obtain ⟨hnone,he⟩ | ⟨g,hfound,hs,he⟩ := a.releaseSlot_cases id <;> rw [he] at hp
  · refine ⟨fun _ => was_self hp,fun hpid => ⟨?_,p,hp,rfl,rfl,fun hg => hg⟩⟩
    exact hnone p (hpid ▸ party?_of_mem h.ids hp)
  · obtain ⟨hg,rfl⟩ := mem_of_party? hfound
    have hpassed := (h.giveSlot hg hs).was_passSlot hp
    constructor
    · intro hne
      refine hpassed.trans fun q hq hqid => ?_
      obtain ⟨r,hr,rfl⟩ := List.mem_map.mp hq
      split at hqid
      · next he => exact absurd (hqid.symm.trans he) hne
      · next he =>
        rw [if_neg he]
        exact was_self hr
    · intro hpid
      obtain ⟨q,hq,hqid,hrequest,hsame⟩ := hpassed
      obtain ⟨r,hr,rfl⟩ := List.mem_map.mp hq
      have he : r.id = g.id := by
        split at hqid <;> exact hqid.trans hpid
      rw [if_pos he] at hqid hrequest hsame
      obtain rfl := hsame rfl
      exact ⟨rfl,r,hr,rfl,rfl,fun _ => rfl⟩

end Ledger

end TaskGraph.Admission
