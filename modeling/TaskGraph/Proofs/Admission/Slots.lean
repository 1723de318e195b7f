import TaskGraph.Proofs.Admission.Standing

/-!
Where parties stand for the slots. Who waits for a slot is in line for it, and whoever has all it asked
for has the slot it asked for, as long as it does not give it back.
-/

namespace TaskGraph.Admission

variable {κ : Type} {a : Admission κ} {p : Party κ} {line rest : List κ} {lent lent' : κ → Prop}

/-- Whether a party stands where it should, of which some have given their slots back. -/
structure Party.InPlace (line : List κ) (lent : κ → Prop) (p : Party κ) : Prop where
  lined : p.stage = .slot → p.id ∈ line
  served : ∀ slot, p.stage = .granted slot → slot = p.request.slot ∨ lent p.id

namespace Party.InPlace

theorem mono (h : p.InPlace line lent) (hline : p.id ∈ line → p.id ∈ rest)
    (hlent : lent p.id → lent' p.id) : p.InPlace rest lent' where
  lined hs := hline (h.lined hs)
  served slot hs := (h.served slot hs).imp_right hlent

theorem of_waiting (hw : p.holdsTags = false) : p.InPlace line lent where
  lined hs := by simp [holdsTags,hs] at hw
  served slot hs := by simp [holdsTags,hs] at hw

theorem wake (h : p.InPlace line lent) : p.wake.InPlace line lent := by
  cases hw : p.holdsTags with
  | false => exact of_waiting (by simpa using hw)
  | true =>
    have hsame : p.wake = p := by
      cases hs : p.stage <;> simp_all [Party.wake,holdsTags]
    rwa [hsame]

end Party.InPlace

/-- All parties stand where they should. -/
def Orderly (lent : κ → Prop) (a : Admission κ) : Prop := ∀ p ∈ a.parties, p.InPlace a.slotQueue lent

theorem Orderly.wakeAll (h : a.Orderly lent) : a.wakeAll.Orderly lent := by
  intro p hp
  obtain ⟨q,hq,rfl⟩ := List.mem_map.mp hp
  exact (h q hq).wake

theorem Orderly.returnTags (h : a.Orderly lent) (tags : NameSet) :
    (a.returnTags tags).Orderly lent := by
  unfold Admission.returnTags
  split
  · exact h
  · exact Orderly.wakeAll (a := { a with inUse := a.inUse.remove tags }) h

variable [DecidableEq κ]

/-- One party changes its stage. -/
theorem orderly_setStage {id : κ} {stage : Stage}
    (hother : ∀ q ∈ a.parties, q.id ≠ id → q.InPlace a.slotQueue lent)
    (hself : ∀ q ∈ a.parties, q.id = id → Party.InPlace a.slotQueue lent { q with stage }) :
    (a.setStage id stage).Orderly lent := by
  intro p hp
  obtain ⟨q,hq,rfl⟩ := List.mem_map.mp hp
  split
  · next he => exact hself q hq he
  · next hne => exact hother q hq hne

/-- Who just got its tags takes its slot or joins the line. -/
theorem orderly_takeSlot {id : κ} {request : Request}
    (hother : ∀ q ∈ a.parties, q.id ≠ id → q.InPlace a.slotQueue lent)
    (hself : ∀ q ∈ a.parties, q.id = id → q.request = request) :
    (a.takeSlot id request).Orderly lent := by
  have hserved {slot : Bool} (hslot : slot = request.slot) (q : Party κ) (hq : q ∈ a.parties)
      (he : q.id = id) : Party.InPlace a.slotQueue lent { q with stage := .granted slot } := by
    refine ⟨nofun,fun other hs => .inl ?_⟩
    cases hs
    rw [hself q hq he,hslot]
  obtain ⟨hslot,he⟩ | ⟨hslot,-,he⟩ | ⟨-,-,he⟩ := a.takeSlot_cases id request <;> rw [he]
  · exact orderly_setStage hother (hserved hslot.symm)
  · exact orderly_setStage (a := { a with free := a.free-1 }) hother (hserved hslot.symm)
  · refine orderly_setStage (a := { a with slotQueue := a.slotQueue ++ [id] }) ?_ ?_
    · exact fun q hq hne => (hother q hq hne).mono (List.mem_append_left [id]) fun hl => hl
    · exact fun q hq he => ⟨fun _ => by simp [he],nofun⟩

theorem Ledger.orderly_passSlot {hand : NameSet} {loose : Nat} (h : Ledger a hand loose)
    (ho : a.Orderly lent) : a.passSlot.Orderly lent := by
  unfold Admission.passSlot
  split
  · exact ho
  next first rest hq =>
  refine orderly_setStage (a := { a with slotQueue := rest }) (fun q hmem hne => ?_)
    fun q hmem he => ?_
  · refine (ho q hmem).mono (fun hin => ?_) fun hl => hl
    rw [hq,List.mem_cons] at hin
    exact hin.resolve_left hne
  · obtain ⟨p,hp,hid,-,hslot⟩ := h.slotQueue first (by simp [hq])
    refine ⟨nofun,fun slot hs => .inl ?_⟩
    cases hs
    rw [eq_of_id h.ids hmem hp (he.trans hid.symm),hslot]

theorem Orderly.ask (h : a.Orderly lent) (id : κ) (request : Request) :
    (a.ask id request).Orderly lent := by
  have henter (b : Admission κ) (hparties : b.parties = a.parties) (hline : b.slotQueue = a.slotQueue)
      (ticket : Option Nat) : (b.enter ⟨id,request,.tags ticket true⟩).Orderly lent := by
    intro p hp
    rcases List.mem_append.mp hp with hp | hp
    · exact hline ▸ h p (hparties ▸ hp)
    · rw [List.mem_singleton.mp hp]
      exact .of_waiting rfl
  obtain ⟨-,he⟩ | ⟨hnone,⟨-,he⟩ | ⟨-,-,he⟩ | ⟨-,-,he⟩⟩ := a.ask_cases id request <;> rw [he]
  · exact h
  · refine orderly_takeSlot (fun q hq hne => ?_) fun q hq he => ?_
    · rcases List.mem_append.mp hq with hq | hq
      · exact h q hq
      · exact absurd (congrArg Party.id (List.mem_singleton.mp hq)) hne
    · rcases List.mem_append.mp hq with hq | hq
      · exact absurd he (ne_of_party?_eq_none hnone q hq)
      · rw [List.mem_singleton.mp hq]
  · exact henter a rfl rfl none
  · exact henter { a with
      queue := a.queue ++ [(a.nextTicket,request.tags)], nextTicket := a.nextTicket+1 } rfl rfl
      (some a.nextTicket)

theorem Orderly.grant (h : a.Orderly lent) {g : Party κ} (ticket : Option Nat)
    (hg : ∀ q ∈ a.parties, q.id = g.id → q.request = g.request) : (a.grant g ticket).Orderly lent := by
  let taken : Admission κ := { a with inUse := a.inUse.add g.request.tags }
  have hset (q : Party κ) (hq : q ∈ (a.setStage g.id .slot).parties) :
      (q.id ≠ g.id → q.InPlace a.slotQueue lent) ∧ (q.id = g.id → q.request = g.request) := by
    obtain ⟨r,hr,rfl⟩ := List.mem_map.mp hq
    split
    · next he => exact ⟨fun hne => absurd he hne,fun _ => hg r hr he⟩
    · next hne => exact ⟨fun _ => h r hr,fun he => absurd he hne⟩
  cases ticket with
  | none =>
    exact orderly_takeSlot (a := taken.setStage g.id .slot) (fun q hq => (hset q hq).1)
      fun q hq => (hset q hq).2
  | some k =>
    refine orderly_takeSlot (a := ((taken.removeTicket k).setStage g.id .slot).wakeAll)
      (fun q hq => ?_) fun q hq => ?_
    · obtain ⟨r,hr,rfl⟩ := List.mem_map.mp hq
      rw [r.wake_id]
      exact fun hne => ((hset r hr).1 hne).wake
    · obtain ⟨r,hr,rfl⟩ := List.mem_map.mp hq
      rw [r.wake_id,r.wake_request]
      exact (hset r hr).2

namespace Ledger

theorem orderly_look (h : a.Balanced) (ho : a.Orderly lent) (id : κ) :
    (a.look id).Orderly lent := by
  obtain ⟨-,he⟩ | ⟨g,hfound,ticket,-,⟨-,he⟩ | ⟨-,he⟩⟩ := a.look_cases id <;> rw [he]
  · exact ho
  · obtain ⟨hg,rfl⟩ := mem_of_party? hfound
    exact ho.grant ticket fun q hq he => by rw [eq_of_id h.ids hq hg he]
  · exact orderly_setStage (fun q hq _ => ho q hq) fun q _ _ => .of_waiting rfl

theorem orderly_leave (h : a.Balanced) (ho : a.Orderly lent) (id : κ) :
    (a.leave id).Orderly lent := by
  obtain ⟨-,he⟩ | ⟨g,hfound,b,rfl,hcases⟩ := a.leave_cases id
  · rwa [he]
  obtain ⟨hg,rfl⟩ := mem_of_party? hfound
  have hgone : Orderly lent { a with parties := a.parties.filter fun q => q.id != g.id } :=
    fun q hq => ho q (List.mem_of_mem_filter hq)
  obtain ⟨k,woken,-,he⟩ | ⟨woken,-,he⟩ | ⟨-,he⟩ | ⟨hs,he⟩ | ⟨-,he⟩ := hcases <;> rw [he]
  · exact Orderly.wakeAll hgone
  · exact hgone
  · refine Orderly.returnTags (fun q hq => ?_) g.request.tags
    obtain ⟨hmem,hne⟩ := List.mem_filter.mp hq
    exact (ho q hmem).mono (fun hin => List.mem_filter.mpr ⟨hin,hne⟩) fun hl => hl
  · exact (h.dismiss_granted hg hs).returnTags.orderly_passSlot (hgone.returnTags _)
  · exact hgone.returnTags _

theorem orderly_releaseSlot (h : a.Balanced) (ho : a.Orderly lent) (id : κ) :
    (a.releaseSlot id).Orderly fun other => lent other ∨ other = id := by
  have hmore : a.Orderly fun other => lent other ∨ other = id :=
    fun q hq => (ho q hq).mono (fun hin => hin) .inl
  obtain ⟨-,he⟩ | ⟨g,hfound,hs,he⟩ := a.releaseSlot_cases id <;> rw [he]
  · exact hmore
  · obtain ⟨hg,rfl⟩ := mem_of_party? hfound
    refine (h.giveSlot hg hs).orderly_passSlot (orderly_setStage (fun q hq _ => hmore q hq) ?_)
    exact fun q _ he => ⟨nofun,fun _ _ => .inr (.inr he)⟩

/-- Only who gives its slot back is without. -/
theorem orderly_act (h : a.Balanced) (ho : a.Orderly lent) (x : Act κ) :
    (a.act x).Orderly fun id => lent id ∨ x = .releaseSlot id := by
  have hmono {b : Admission κ} (hb : b.Orderly lent) :
      b.Orderly fun id => lent id ∨ x = .releaseSlot id :=
    fun q hq => (hb q hq).mono (fun hin => hin) .inl
  cases x with
  | ask id request => exact hmono (ho.ask id request)
  | look id => exact hmono (h.orderly_look ho id)
  | leave id => exact hmono (h.orderly_leave ho id)
  | releaseSlot id =>
    intro q hq
    refine (h.orderly_releaseSlot ho id q hq).mono (fun hin => hin) fun hl => ?_
    exact hl.imp_right fun he => by rw [he]

end Ledger

end TaskGraph.Admission
