import TaskGraph.Proofs.Admission.Slots

/-!
Whose act it is, and what the others have of it. Who holds nothing and stands in no line gets nothing
from what others do; if that is so of all, an admission is idle.
-/

namespace TaskGraph.Admission

variable {κ : Type} {a b : Admission κ} {p : Party κ}

def Act.actor : Act κ → κ
  | .ask id _ | .look id | .leave id | .releaseSlot id => id

/-- A party that holds nothing and is in no line. -/
structure Party.IsBare (p : Party κ) : Prop where
  tags : ∀ tag, p.holds tag = false
  ticket : p.ticket? = none
  slot : p.holdsSlot = false
  line : p.stage ≠ .slot

/-- Nothing is held, and nobody is queued. -/
structure IsIdle (a : Admission κ) : Prop where
  tags : ∀ tag, a.used tag = 0
  queue : a.queue = []
  slots : a.free = a.slots
  line : a.slotQueue = []

theorem Ledger.isIdle (h : a.Balanced) (hb : ∀ p ∈ a.parties, p.IsBare) : a.IsIdle where
  tags tag := by
    rw [h.used,List.countP_eq_zero.mpr fun p hp => by simp [(hb p hp).tags tag]]
    rfl
  queue := by
    rw [h.queue,List.filterMap_eq_nil_iff]
    intro p hp
    rw [Party.place?,(hb p hp).ticket]
    rfl
  slots := by
    have hslots := h.slots
    rwa [List.countP_eq_zero.mpr fun p hp => by simp [(hb p hp).slot]] at hslots
  line := by
    refine List.eq_nil_iff_forall_not_mem.mpr fun id hid => ?_
    obtain ⟨p,hp,-,hs,-⟩ := h.slotQueue id hid
    exact (hb p hp).line hs

theorem IsIdle.isBare {lent : κ → Prop} (hi : a.IsIdle) (h : a.Balanced) (ho : a.Orderly lent)
    (hp : p ∈ a.parties) : p.IsBare where
  tags tag := by
    have hused := h.used tag
    rw [hi.tags tag,List.count_nil,Nat.add_zero] at hused
    simpa using List.countP_eq_zero.mp hused.symm p hp
  ticket := by
    have hqueue := h.queue
    rw [hi.queue,eq_comm,List.filterMap_eq_nil_iff] at hqueue
    have hplace := hqueue p hp
    rwa [Party.place?,Option.map_eq_none_iff] at hplace
  slot := by
    have hslots := h.slots
    rw [hi.slots] at hslots
    have hnone : a.parties.countP Party.holdsSlot = 0 := by omega
    simpa using List.countP_eq_zero.mp hnone p hp
  line hs := by
    have hin := (ho p hp).lined hs
    rw [hi.line] at hin
    cases hin

variable [DecidableEq κ]

theorem Later.orderly (h : Later a b) (hb : a.Balanced) (ho : a.Orderly fun _ => True) :
    b.Orderly fun _ => True := by
  induction h with
  | refl => exact ho
  | act hl x _ ih =>
    intro p hp
    exact ((hl.balanced hb).orderly_act ih x p hp).mono (fun hin => hin) fun _ => trivial

/-- What others do changes neither what a party asked for nor what it has if it has all of that. -/
theorem Ledger.was_act (h : a.Balanced) {x : Act κ} (hp : p ∈ (a.act x).parties)
    (hx : p.id ≠ x.actor) : a.Was p := by
  cases x with
  | ask id request => exact (was_ask hp).resolve_right fun hnew => hx hnew.1
  | look id => exact h.was_look hp
  | leave id => exact h.was_leave hp
  | releaseSlot id => exact (h.was_releaseSlot hp).1 hx

theorem Ledger.isBare_act (h : a.Balanced) {x : Act κ} (hp : p ∈ (a.act x).parties)
    (hx : p.id ≠ x.actor) (hb : ∀ q ∈ a.parties, q.id = p.id → q.IsBare) : p.IsBare := by
  obtain ⟨q,hq,hid,-,hgranted⟩ := h.was_act hp hx
  have hbare := hb q hq hid
  cases hg : q.isGranted with
  | true => exact hgranted hg ▸ hbare
  | false =>
    have hwaits : q.holdsTags = false := by
      have hline := hbare.line
      cases hs : q.stage <;> simp_all [Party.isGranted,Party.holdsTags]
    have hsame : q.Same p := by
      obtain ⟨r,hr,hsame⟩ | ⟨-,rfl⟩ | ⟨rfl,-⟩ := h.origin x hp
      · rwa [eq_of_id h.ids hq hr (hid.trans hsame.id)]
      · exact absurd rfl hx
      · exact absurd rfl hx
    have hwaits' : p.holdsTags = false := hsame.holdsTags.trans hwaits
    refine ⟨fun tag => ?_,hsame.ticket?.trans hbare.ticket,Party.holdsSlot_of_waiting hwaits',?_⟩
    · rw [Party.holds,hwaits',Bool.false_and]
    · intro hs
      rw [Party.holdsTags_of_slot hs] at hwaits'
      cases hwaits'

/-- Parties for which nobody acts stay bare. -/
theorem Ledger.isBare_foldl (h : a.Balanced) {acts : List (Act κ)} (hproper : ∀ x ∈ acts, x.IsProper)
    (others : κ → Prop) (hacts : ∀ x ∈ acts, ¬ others x.actor)
    (hb : ∀ p ∈ a.parties, others p.id → p.IsBare) :
    ∀ p ∈ (acts.foldl Admission.act a).parties, others p.id → p.IsBare := by
  induction acts generalizing a with
  | nil => exact hb
  | cons x rest ih =>
    refine ih (h.act (hproper x List.mem_cons_self))
      (fun y hy => hproper y (List.mem_cons_of_mem x hy))
      (fun y hy => hacts y (List.mem_cons_of_mem x hy)) fun p hp hother => ?_
    have hx : p.id ≠ x.actor := fun he => hacts x List.mem_cons_self (he ▸ hother)
    exact h.isBare_act hp hx fun q hq hid => hb q hq (hid.symm ▸ hother)

end TaskGraph.Admission
