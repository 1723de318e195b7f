import TaskGraph.Proofs.Admission.Bystanders

/-!
What lasts. Parties are there until they leave, and who has all it asked for has it until then, but for
its slot if it gives that back.
-/

namespace TaskGraph.Admission

variable {κ : Type} {a : Admission κ} {p : Party κ} {id : κ}

theorem ids_returnTags (a : Admission κ) (tags : NameSet) :
    (a.returnTags tags).parties.map Party.id = a.parties.map Party.id := by
  unfold returnTags
  split
  · rfl
  · exact ids_wakeAll { a with inUse := a.inUse.remove tags }

variable [DecidableEq κ]

theorem ids_passSlot (a : Admission κ) : a.passSlot.parties.map Party.id = a.parties.map Party.id := by
  unfold passSlot
  split
  · rfl
  · next rest _ => exact ids_setStage { a with slotQueue := rest } _ _

theorem ids_takeSlot (a : Admission κ) (id : κ) (request : Request) :
    (a.takeSlot id request).parties.map Party.id = a.parties.map Party.id := by
  obtain ⟨free,slotQueue,stage,-,he⟩ := a.takeSlot_eq id request
  rw [he]
  exact ids_setStage { a with free, slotQueue } id stage

theorem ids_grant (a : Admission κ) (p : Party κ) (ticket : Option Nat) :
    (a.grant p ticket).parties.map Party.id = a.parties.map Party.id := by
  let taken : Admission κ := { a with inUse := a.inUse.add p.request.tags }
  unfold grant
  rw [ids_takeSlot]
  cases ticket with
  | none => exact ids_setStage taken p.id .slot
  | some k => exact (ids_wakeAll _).trans (ids_setStage (taken.removeTicket k) p.id .slot)

/-- Who does not leave stays. -/
theorem ids_act {x : Act κ} (hid : id ∈ a.parties.map Party.id) (hx : x ≠ .leave id) :
    id ∈ (a.act x).parties.map Party.id := by
  have henter (b : Admission κ) (hb : b.parties = a.parties) (q : Party κ) :
      id ∈ (b.enter q).parties.map Party.id := by
    rw [enter,List.map_append,hb]
    exact List.mem_append_left _ hid
  cases x with
  | ask other request =>
    change id ∈ (a.ask other request).parties.map Party.id
    obtain ⟨-,he⟩ | ⟨-,⟨-,he⟩ | ⟨-,-,he⟩ | ⟨-,-,he⟩⟩ := a.ask_cases other request <;> rw [he]
    · exact hid
    · rw [ids_takeSlot]
      exact henter a rfl _
    · exact henter a rfl _
    · exact henter _ rfl _
  | look other =>
    change id ∈ (a.look other).parties.map Party.id
    obtain ⟨-,he⟩ | ⟨p,-,ticket,-,⟨-,he⟩ | ⟨-,he⟩⟩ := a.look_cases other <;> rw [he]
    · exact hid
    · rwa [ids_grant]
    · rwa [ids_setStage]
  | leave other =>
    have hne : id ≠ other := fun he => hx (by rw [he])
    have hkept : id ∈ (a.parties.filter fun q => q.id != other).map Party.id := by
      obtain ⟨q,hq,rfl⟩ := List.mem_map.mp hid
      exact List.mem_map_of_mem (List.mem_filter.mpr ⟨hq,by simpa using hne⟩)
    change id ∈ (a.leave other).parties.map Party.id
    obtain ⟨-,he⟩ | ⟨p,-,b,rfl,⟨k,woken,-,he⟩ | ⟨woken,-,he⟩ | ⟨-,he⟩ | ⟨-,he⟩ | ⟨-,he⟩⟩ :=
      a.leave_cases other <;> rw [he]
    · exact hid
    · rw [ids_wakeAll]
      exact hkept
    · exact hkept
    · rw [ids_returnTags]
      exact hkept
    · rw [ids_passSlot,ids_returnTags]
      exact hkept
    · rw [ids_returnTags]
      exact hkept
  | releaseSlot other =>
    change id ∈ (a.releaseSlot other).parties.map Party.id
    obtain ⟨-,he⟩ | ⟨p,-,-,he⟩ := a.releaseSlot_cases other <;> rw [he]
    · exact hid
    · rwa [ids_passSlot,ids_setStage]

namespace Ledger

theorem isGranted_iff (h : a.Balanced) :
    a.isGranted id = true ↔ ∃ p ∈ a.parties, p.id = id ∧ p.isGranted = true := by
  constructor
  · intro hg
    rw [isGranted] at hg
    cases hf : a.party? id with
    | none =>
      rw [hf] at hg
      cases hg
    | some p =>
      rw [hf] at hg
      obtain ⟨hp,hid⟩ := mem_of_party? hf
      exact ⟨p,hp,hid,hg⟩
  · rintro ⟨p,hp,rfl,hg⟩
    rw [isGranted,party?_of_mem h.ids hp]
    exact hg

theorem isGranted_act (h : a.Balanced) {x : Act κ} (hg : a.isGranted id = true)
    (hx : id ≠ x.actor) (hproper : x.IsProper) : (a.act x).isGranted id = true := by
  obtain ⟨p,hp,rfl,hgp⟩ := h.isGranted_iff.mp hg
  have hleave : x ≠ .leave p.id := fun he => hx (by rw [he]; rfl)
  obtain ⟨q,hq,hid⟩ := List.mem_map.mp (ids_act (List.mem_map_of_mem hp) hleave)
  obtain ⟨r,hr,hrid,-,hsame⟩ := h.was_act hq (hid ▸ hx)
  obtain rfl := eq_of_id h.ids hr hp (hrid.trans hid)
  exact (h.act hproper).isGranted_iff.mpr ⟨q,hq,hid,hsame hgp ▸ hgp⟩

theorem isGranted_foldl (h : a.Balanced) {acts : List (Act κ)} (hproper : ∀ x ∈ acts, x.IsProper)
    (hacts : ∀ x ∈ acts, id ≠ x.actor) (hg : a.isGranted id = true) :
    (acts.foldl Admission.act a).isGranted id = true := by
  induction acts generalizing a with
  | nil => exact hg
  | cons x rest ih =>
    have hx := hproper x List.mem_cons_self
    exact ih (h.act hx) (fun y hy => hproper y (List.mem_cons_of_mem x hy))
      (fun y hy => hacts y (List.mem_cons_of_mem x hy))
      (h.isGranted_act hg (hacts x List.mem_cons_self) hx)

theorem isGranted_releaseSlot (h : a.Balanced) (hg : a.isGranted id = true) :
    (a.releaseSlot id).isGranted id = true := by
  obtain ⟨p,hp,rfl,hgp⟩ := h.isGranted_iff.mp hg
  obtain ⟨q,hq,hid⟩ := List.mem_map.mp
    (ids_act (x := .releaseSlot p.id) (List.mem_map_of_mem hp) nofun)
  obtain ⟨-,r,hr,hrid,-,hgranted⟩ := (h.was_releaseSlot hq).2 hid
  obtain rfl := eq_of_id h.ids hr hp (hrid.trans hid)
  exact (h.releaseSlot r.id).isGranted_iff.mpr ⟨q,hq,hid,hgranted hgp⟩

theorem orderly_leaves {lent : κ → Prop} (h : a.Balanced) (ho : a.Orderly lent) (ids : List κ) :
    (ids.foldl Admission.leave a).Orderly lent := by
  induction ids generalizing a with
  | nil => exact ho
  | cons id rest ih => exact ih (h.leave id) (h.orderly_leave ho id)

theorem orderly_foldl {lent : κ → Prop} (h : a.Balanced) (ho : a.Orderly lent)
    {acts : List (Act κ)} (hproper : ∀ x ∈ acts, x.IsProper) :
    (acts.foldl Admission.act a).Orderly fun id => lent id ∨ .releaseSlot id ∈ acts := by
  induction acts generalizing a lent with
  | nil => exact fun p hp => (ho p hp).mono (fun hin => hin) .inl
  | cons x rest ih =>
    have hrest := ih (h.act (hproper x List.mem_cons_self)) (h.orderly_act ho x)
      fun y hy => hproper y (List.mem_cons_of_mem x hy)
    refine fun p hp => (hrest p hp).mono (fun hin => hin) ?_
    rintro ((hl | rfl) | hmem)
    · exact .inl hl
    · exact .inr List.mem_cons_self
    · exact .inr (List.mem_cons_of_mem x hmem)

end Ledger

end TaskGraph.Admission
