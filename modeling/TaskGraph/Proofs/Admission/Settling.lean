import Mathlib.Data.List.Perm.Subperm
import TaskGraph.Proofs.Admission.Turns

/-!
Settling. Woken parties look one after the other, in any order, until nobody is woken. That takes a
bounded number of looks and then nobody waits in vain; and if all who wait have a turn, the order of
their looks does not matter, they get what one scan of the queue gives.
-/

namespace TaskGraph.Admission

variable {κ : Type}

/-- Nobody has a wake-up to follow. -/
def IsSettled (a : Admission κ) : Prop := ∀ p ∈ a.parties, p.isWoken = false

def waiting (a : Admission κ) : Nat := a.parties.countP fun p => !p.holdsTags

/-- More than the looks that can follow: a grant wakes everybody at most. -/
def wakeups (a : Admission κ) : Nat :=
  a.waiting*(a.parties.length+1)+a.parties.countP Party.isWoken

theorem wakeups_lt (a : Admission κ) :
    a.wakeups < (a.parties.length+1)*(a.parties.length+1) := by
  have hwaiting : a.waiting ≤ a.parties.length := List.countP_le_length
  have hwoken : a.parties.countP Party.isWoken ≤ a.parties.length := List.countP_le_length
  have := Nat.mul_le_mul_right (a.parties.length+1) hwaiting
  unfold wakeups
  rw [Nat.succ_mul a.parties.length]
  omega

theorem waiting_wakeAll (a : Admission κ) : a.wakeAll.waiting = a.waiting := by
  have : (fun p : Party κ => !p.holdsTags) ∘ Party.wake = fun p => !p.holdsTags :=
    funext fun p => congrArg not p.wake_holdsTags
  change (a.parties.map Party.wake).countP _ = _
  rw [List.countP_map,this]
  rfl

variable [DecidableEq κ]

theorem length_setStage (a : Admission κ) (id : κ) (stage : Stage) :
    (a.setStage id stage).parties.length = a.parties.length := List.length_map _

/-- A party that has its tags takes a slot, or waits for it: no others wait for tags. -/
theorem waiting_takeSlot {a : Admission κ} {p : Party κ} (hids : (a.parties.map Party.id).Nodup)
    (hp : p ∈ a.parties) (hholds : p.holdsTags = true) (request : Request) :
    (a.takeSlot p.id request).waiting = a.waiting ∧
      (a.takeSlot p.id request).parties.length = a.parties.length := by
  obtain ⟨free,slotQueue,stage,hstage,he⟩ := a.takeSlot_eq p.id request
  have hwaiting := countP_setStage hids hp stage fun p => !p.holdsTags
  rw [hstage,hholds] at hwaiting
  rw [he]
  exact ⟨hwaiting,length_setStage a p.id stage⟩

theorem Ledger.waiting_grant {a : Admission κ} (h : a.Balanced) {p : Party κ} (hp : p ∈ a.parties)
    (hw : p.holdsTags = false) (ticket : Option Nat) : (a.grant p ticket).waiting+1 = a.waiting ∧
      (a.grant p ticket).parties.length = a.parties.length := by
  let taken : Admission κ := { a with inUse := a.inUse.add p.request.tags }
  let served : Party κ := { p with stage := .slot }
  have hserved : served ∈ (taken.setStage p.id .slot).parties :=
    List.mem_map.mpr ⟨p,hp,if_pos rfl⟩
  have hids : ((taken.setStage p.id .slot).parties.map Party.id).Nodup :=
    (ids_setStage taken p.id .slot).symm ▸ h.ids
  have hcount : (taken.setStage p.id .slot).waiting+1 = a.waiting := by
    have := countP_setStage h.ids hp .slot fun p => !p.holdsTags
    rw [hw] at this
    exact this
  cases ticket with
  | none =>
    obtain ⟨hwaiting,hlength⟩ := waiting_takeSlot hids hserved rfl p.request
    refine ⟨?_,hlength.trans (length_setStage taken p.id .slot)⟩
    rw [← hcount,← hwaiting]
    rfl
  | some k =>
    let woken := ((taken.removeTicket k).setStage p.id .slot).wakeAll
    have hmem : served ∈ woken.parties := List.mem_map_of_mem hserved
    obtain ⟨hwaiting,hlength⟩ := waiting_takeSlot (a := woken)
      ((ids_wakeAll _).symm ▸ hids) hmem rfl p.request
    have hwoken : woken.waiting = (taken.setStage p.id .slot).waiting := waiting_wakeAll _
    refine ⟨?_,hlength.trans ((List.length_map _).trans (length_setStage taken p.id .slot))⟩
    rw [← hcount,← hwoken,← hwaiting]
    rfl

/-- Each look of a woken party brings the end nearer. -/
theorem Ledger.wakeups_look {a : Admission κ} (h : a.Balanced) {id : κ} (hid : a.isWoken id = true) :
    (a.look id).wakeups < a.wakeups ∧ (a.look id).parties.length = a.parties.length := by
  obtain ⟨hidle,-⟩ | ⟨p,hfound,ticket,hs,hcases⟩ := a.look_cases id
  · simp [hid] at hidle
  obtain ⟨hp,rfl⟩ := mem_of_party? hfound
  have hw : p.holdsTags = false := by simp [Party.holdsTags,hs]
  have hwoken : p.isWoken = true := by simp [Party.isWoken,hs]
  obtain ⟨-,he⟩ | ⟨-,he⟩ := hcases <;> rw [he]
  · obtain ⟨hwaiting,hlength⟩ := h.waiting_grant hp hw ticket
    have hmost : (a.grant p ticket).parties.countP Party.isWoken ≤ a.parties.length :=
      hlength ▸ List.countP_le_length
    refine ⟨?_,hlength⟩
    unfold wakeups
    rw [hlength,← hwaiting,Nat.succ_mul]
    omega
  · have hwaiting := countP_setStage h.ids hp (.tags ticket false) fun p => !p.holdsTags
    have hless := countP_setStage h.ids hp (.tags ticket false) Party.isWoken
    rw [hw] at hwaiting
    rw [hwoken] at hless
    have hsame : (a.setStage p.id (.tags ticket false)).waiting = a.waiting :=
      Nat.succ.inj hwaiting
    refine ⟨?_,length_setStage _ _ _⟩
    unfold wakeups
    rw [hsame,length_setStage]
    simp only [Bool.toNat_true,Party.isWoken,Bool.toNat_false] at hless
    omega

/-- Woken parties look, one after the other. -/
inductive Rechecks : Admission κ → List κ → Admission κ → Prop where
  | nil (a : Admission κ) : Rechecks a [] a
  | cons {a b : Admission κ} {id : κ} {ids : List κ} : a.isWoken id = true →
      Rechecks (a.look id) ids b → Rechecks a (id::ids) b

namespace Rechecks

theorem later {a b : Admission κ} {ids : List κ} (h : Rechecks a ids b) : Later a b := by
  induction h with
  | nil a => exact .refl
  | @cons a b id ids _ _ ih => exact (Later.refl.act (.look id) trivial).trans ih

theorem wakeups_le {a b : Admission κ} {ids : List κ} (h : Rechecks a ids b) (ha : a.Balanced) :
    ids.length+b.wakeups ≤ a.wakeups := by
  induction h with
  | nil a => simp
  | @cons a b id ids hid _ ih =>
    have hless := (ha.wakeups_look hid).1
    have := ih (ha.look id)
    rw [List.length_cons]
    omega

end Rechecks

/-- Enough looks settle an admission. -/
theorem Ledger.settleWithin {a : Admission κ} (h : a.Balanced) {n : Nat} (hn : a.wakeups < n) :
    (∃ ids, Rechecks a ids (a.settleWithin n)) ∧ (a.settleWithin n).IsSettled := by
  induction n generalizing a with
  | zero => omega
  | succ n ih =>
    unfold Admission.settleWithin
    split
    · next p hfound =>
      have hp := List.mem_of_find?_eq_some hfound
      have hid : a.isWoken p.id = true := by
        simpa [isWoken,party?_of_mem h.ids hp] using List.find?_some hfound
      have hless := (h.wakeups_look hid).1
      obtain ⟨⟨ids,hids⟩,hsettled⟩ := ih (h.look p.id) (by omega)
      exact ⟨⟨p.id::ids,.cons hid hids⟩,hsettled⟩
    · next hnone => exact ⟨⟨[],.nil a⟩,fun p hp => by simpa using List.find?_eq_none.mp hnone p hp⟩

end TaskGraph.Admission
