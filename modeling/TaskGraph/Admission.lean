import TaskGraph.Data.Double
import TaskGraph.Data.NameSet
import TaskGraph.Text.Quoted

/-!
Admission of parties to shared resources. A party asks for tags, which it gets all at once or not at
all, and then perhaps for one of a number of slots. Parties with a ticket get their tags in turn,
as far as their tags meet; the others pass them by.
-/

namespace TaskGraph

/-- How many parties may hold a tag at once. -/
structure Pools where
  /-- The size of pools that are not listed. -/
  standard : Nat := 1
  sizes : List (String × Nat) := []
  deriving DecidableEq, Repr

namespace Pools

/-- A pool without room, by its tag. -/
structure Fault where
  tag : String
  deriving DecidableEq, Repr

def Fault.text (f : Fault) : String :=
  s!"Resource pool '{f.tag}' must have a capacity of at least 1"

def capacity (pools : Pools) (tag : String) : Nat :=
  ((pools.sizes.find? fun p => p.1 == tag).map (·.2)).getD pools.standard

/-- Pools of given sizes; of two sizes for one tag the later counts. -/
def make (standard : Nat) (sizes : List (String × Nat)) : Except Fault Pools :=
  if standard = 0 then .error ⟨"<default>"⟩
  else match sizes.find? fun p => p.2 == 0 with
    | some p => .error ⟨p.1⟩
    | none => .ok ⟨standard,sizes.reverse⟩

theorem capacity_pos {standard : Nat} {sizes : List (String × Nat)} {pools : Pools}
    (h : make standard sizes = .ok pools) (tag : String) : 0 < pools.capacity tag := by
  unfold make at h
  split at h
  · cases h
  next hs =>
  split at h
  · cases h
  next hnone =>
  cases h
  unfold capacity
  cases hf : sizes.reverse.find? fun p => p.1 == tag with
  | none => exact Nat.pos_of_ne_zero hs
  | some p =>
    have hmem := List.mem_reverse.mp (List.mem_of_find?_eq_some hf)
    have := List.find?_eq_none.mp hnone p hmem
    exact Nat.pos_of_ne_zero (by simpa using this)

end Pools

/-- How often each name counts; a name that is absent counts zero times. -/
abbrev Counts := List (String × Nat)

namespace Counts

def get (name : String) : Counts → Nat
  | [] => 0
  | (k,n)::rest => if name = k then n else get name rest

def change (f : Nat → Nat) (name : String) : Counts → Counts
  | [] => [(name,f 0)]
  | (k,n)::rest => if name = k then (k,f n)::rest else (k,n)::change f name rest

def add (names : NameSet) (counts : Counts) : Counts :=
  names.foldl (fun counts name => change (·+1) name counts) counts

def remove (names : NameSet) (counts : Counts) : Counts :=
  names.foldl (fun counts name => change (·-1) name counts) counts

theorem get_change (f : Nat → Nat) (name other : String) (counts : Counts) :
    get other (change f name counts) =
      if other = name then f (get name counts) else get other counts := by
  induction counts with
  | nil => by_cases h : other = name <;> simp [change,get,h]
  | cons p rest ih =>
    obtain ⟨k,n⟩ := p
    simp only [change,get]
    split
    · next e => subst e; by_cases h : other = name <;> simp [get,h]
    · next e =>
      simp only [get,ih]
      by_cases h : other = k
      · subst h; simp [Ne.symm e]
      · simp [h]

theorem get_add (names : NameSet) (counts : Counts) (other : String) :
    get other (add names counts) = get other counts+names.count other := by
  induction names generalizing counts with
  | nil => rfl
  | cons name rest ih =>
    change get other (add rest (change (·+1) name counts)) = _
    rw [ih,get_change,List.count_cons]
    by_cases h : other = name
    · simp [h]; omega
    · simp [h,Ne.symm h]

theorem get_remove (names : NameSet) (counts : Counts) (other : String) :
    get other (remove names counts) = get other counts-names.count other := by
  induction names generalizing counts with
  | nil => rfl
  | cons name rest ih =>
    change get other (remove rest (change (·-1) name counts)) = _
    rw [ih,get_change,List.count_cons]
    by_cases h : other = name
    · simp [h]; omega
    · simp [h,Ne.symm h]

end Counts

namespace Admission

structure Request where
  tags : NameSet := []
  slot : Bool := false
  /-- Takes its tags as soon as there is room, without a turn. -/
  bypass : Bool := false
  deriving DecidableEq, Inhabited, Repr

/-- Where a party stands: it waits for its tags, with a ticket if it has a turn, and looks again when
it is woken; or it has its tags and waits for a slot; or it has all it asked for. -/
inductive Stage where
  | tags (ticket : Option Nat) (woken : Bool)
  | slot
  | granted (slot : Bool)
  deriving DecidableEq, Repr

structure Party (κ : Type) where
  id : κ
  request : Request
  stage : Stage
  deriving DecidableEq, Repr

namespace Party

def isGranted (p : Party κ) : Bool :=
  match p.stage with
  | .granted _ => true
  | _ => false

def holdsSlot (p : Party κ) : Bool := p.stage == .granted true

/-- Whether it has its tags. -/
def holdsTags (p : Party κ) : Bool :=
  match p.stage with
  | .tags _ _ => false
  | _ => true

def isWoken (p : Party κ) : Bool :=
  match p.stage with
  | .tags _ woken => woken
  | _ => false

def ticket? (p : Party κ) : Option Nat :=
  match p.stage with
  | .tags ticket _ => ticket
  | _ => none

/-- A party that waits for its tags looks at them again. -/
def wake (p : Party κ) : Party κ :=
  match p.stage with
  | .tags ticket _ => { p with stage := .tags ticket true }
  | _ => p

def text (p : Party κ) : String :=
  let tags := if p.request.tags.isEmpty then "None"
    else "Some(\x7b" ++ ", ".intercalate (p.request.tags.map Text.quoted) ++ "\x7d)"
  let slot := if p.holdsSlot then "true" else "false"
  "ScopedPermit \x7b tags: " ++ tags ++ ", slot: " ++ slot ++ " \x7d"

end Party

end Admission

structure Admission (κ : Type) where
  pools : Pools
  /-- How many slots there are. -/
  slots : Nat
  free : Nat
  inUse : Counts := []
  /-- The tickets of those who wait for tags in turn, with what they wait for. -/
  queue : List (Nat × NameSet) := []
  nextTicket : Nat := 0
  /-- Those who wait for a slot, in order. -/
  slotQueue : List κ := []
  /-- Everybody who has asked and not left, in the order of their asking. -/
  parties : List (Admission.Party κ) := []
  deriving Repr

namespace Admission

variable {κ : Type} [DecidableEq κ]

def start (pools : Pools) (slots : Nat) : Admission κ where
  pools
  slots
  free := slots

def used (a : Admission κ) (tag : String) : Nat := a.inUse.get tag

def capacity (a : Admission κ) (tag : String) : Nat := a.pools.capacity tag

def party? (a : Admission κ) (id : κ) : Option (Party κ) := a.parties.find? fun p => p.id == id

def setStage (a : Admission κ) (id : κ) (stage : Stage) : Admission κ :=
  { a with parties := a.parties.map fun p => if p.id = id then { p with stage } else p }

/-- All who wait for tags look again. -/
def wakeAll (a : Admission κ) : Admission κ := { a with parties := a.parties.map Party.wake }

/-- Whether there is room for tags in all their pools. -/
def hasRoom (a : Admission κ) (tags : NameSet) : Bool := tags.all fun t => a.used t < a.capacity t

/-- Whether an earlier ticket waits for one of the tags. -/
def isBehind (a : Admission κ) (ticket : Nat) (tags : NameSet) : Bool :=
  a.queue.any fun q => q.1 < ticket && q.2.any tags.contains

/-- Whether a party that waits for tags could have them now. -/
def canGrant (a : Admission κ) (p : Party κ) : Bool :=
  match p.stage with
  | .tags ticket _ =>
    !((ticket.map fun k => a.isBehind k p.request.tags).getD false) && a.hasRoom p.request.tags
  | _ => false

/-- A party that has its tags takes a slot if it needs one, or waits for it. -/
def takeSlot (a : Admission κ) (id : κ) (request : Request) : Admission κ :=
  if !request.slot then a.setStage id (.granted false)
  else if 0 < a.free then { a with free := a.free-1 }.setStage id (.granted true)
  else { a with slotQueue := a.slotQueue ++ [id] }.setStage id .slot

/-- A slot that is given back goes to the first who waits for one. -/
def passSlot (a : Admission κ) : Admission κ :=
  match a.slotQueue with
  | [] => { a with free := a.free+1 }
  | id::rest => { a with slotQueue := rest }.setStage id (.granted true)

/-- Takes the tags of a request back. -/
def returnTags (a : Admission κ) (tags : NameSet) : Admission κ :=
  if tags.isEmpty then a else { a with inUse := a.inUse.remove tags }.wakeAll

def removeTicket (a : Admission κ) (ticket : Nat) : Admission κ :=
  { a with queue := a.queue.filter fun q => q.1 != ticket }

def enter (a : Admission κ) (p : Party κ) : Admission κ := { a with parties := a.parties ++ [p] }

/-- A new party. With tags it gets a ticket, unless it passes by, and has yet to look. -/
def ask (a : Admission κ) (id : κ) (request : Request) : Admission κ :=
  if (a.party? id).isSome then a
  else if request.tags.isEmpty then (a.enter ⟨id,request,.slot⟩).takeSlot id request
  else if request.bypass then a.enter ⟨id,request,.tags none true⟩
  else
    { a with queue := a.queue ++ [(a.nextTicket,request.tags)], nextTicket := a.nextTicket+1 }.enter
      ⟨id,request,.tags (some a.nextTicket) true⟩

/-- Gives a party its tags. A ticket that is served may let others through. -/
def grant (a : Admission κ) (p : Party κ) (ticket : Option Nat) : Admission κ :=
  let a := { a with inUse := a.inUse.add p.request.tags }
  let a := match ticket with
    | some k => ((a.removeTicket k).setStage p.id .slot).wakeAll
    | none => a.setStage p.id .slot
  a.takeSlot p.id p.request

/-- A woken party looks: it gets its tags, or goes on waiting. -/
def look (a : Admission κ) (id : κ) : Admission κ :=
  match a.party? id with
  | none => a
  | some p =>
    match p.stage with
    | .tags ticket true =>
      if a.canGrant p then a.grant p ticket else a.setStage id (.tags ticket false)
    | _ => a

/-- A party leaves, with all that it holds or waits for. -/
def leave (a : Admission κ) (id : κ) : Admission κ :=
  match a.party? id with
  | none => a
  | some p =>
    let b := { a with parties := a.parties.filter fun q => q.id != id }
    match p.stage with
    | .tags (some k) _ => (b.removeTicket k).wakeAll
    | .tags none _ => b
    | .slot => { b with slotQueue := b.slotQueue.filter (· != id) }.returnTags p.request.tags
    | .granted true => (b.returnTags p.request.tags).passSlot
    | .granted false => b.returnTags p.request.tags

/-- A party gives its slot back and keeps its tags. -/
def releaseSlot (a : Admission κ) (id : κ) : Admission κ :=
  match a.party? id with
  | some p => if p.stage = .granted true then (a.setStage id (.granted false)).passSlot else a
  | none => a

def settleWithin : Nat → Admission κ → Admission κ
  | 0, a => a
  | n+1, a =>
    match a.parties.find? Party.isWoken with
    | some p => settleWithin n (a.look p.id)
    | none => a

/-- Lets everybody who is woken look, until nobody is. Each grant wakes the others at most once. -/
def settle (a : Admission κ) : Admission κ :=
  a.settleWithin ((a.parties.length+1)*(a.parties.length+1))

def isGranted (a : Admission κ) (id : κ) : Bool := ((a.party? id).map Party.isGranted).getD false

def isWoken (a : Admission κ) (id : κ) : Bool := ((a.party? id).map Party.isWoken).getD false

def waitsForTags (a : Admission κ) (id : κ) : Bool := (a.party? id).any fun p => !p.holdsTags

/-- How many wait for tags in turn. -/
def queued (a : Admission κ) : Nat := a.queue.length

def active (a : Admission κ) : Nat := a.slots-a.free

/-- The share of slots that are taken, in percent. -/
def utilization (a : Admission κ) : Double :=
  if a.slots = 0 then .zero
  else ((Double.ofNat a.active).div (.ofNat a.slots)).mul (.ofNat 100)

section Cases

variable (a : Admission κ) (id : κ) (request : Request)

/-- A party that has its tags gets no slot if it asked for none, else a free one, else it joins the
line. -/
theorem takeSlot_cases :
    request.slot = false ∧ a.takeSlot id request = a.setStage id (.granted false) ∨
    request.slot = true ∧ 0 < a.free ∧
      a.takeSlot id request = { a with free := a.free-1 }.setStage id (.granted true) ∨
    request.slot = true ∧ a.free = 0 ∧
      a.takeSlot id request = { a with slotQueue := a.slotQueue ++ [id] }.setStage id .slot := by
  unfold takeSlot
  split
  · next h => exact .inl ⟨by simpa using h,rfl⟩
  next h =>
  have hslot : request.slot = true := by simpa using h
  split
  · next hfree => exact .inr (.inl ⟨hslot,hfree,rfl⟩)
  · next hfree => exact .inr (.inr ⟨hslot,Nat.eq_zero_of_not_pos hfree,rfl⟩)

/-- However that ends, it keeps its tags, and nothing else changes that has to do with tags. -/
theorem takeSlot_eq : ∃ free slotQueue stage,
    (∀ p : Party κ, Party.holdsTags { p with stage } = true) ∧
      a.takeSlot id request = { a with free, slotQueue }.setStage id stage := by
  obtain ⟨-,h⟩ | ⟨-,-,h⟩ | ⟨-,-,h⟩ := a.takeSlot_cases id request
  · exact ⟨_,_,_,fun _ => rfl,h⟩
  · exact ⟨_,_,_,fun _ => rfl,h⟩
  · exact ⟨_,_,_,fun _ => rfl,h⟩

/-- Nobody asks twice. Somebody new who asks for no tags takes its slot; with tags it waits, with a
ticket unless it passes by. -/
theorem ask_cases :
    (a.party? id).isSome = true ∧ a.ask id request = a ∨
    a.party? id = none ∧
      (request.tags = [] ∧ a.ask id request = (a.enter ⟨id,request,.slot⟩).takeSlot id request ∨
      request.tags ≠ [] ∧ request.bypass = true ∧
        a.ask id request = a.enter ⟨id,request,.tags none true⟩ ∨
      request.tags ≠ [] ∧ request.bypass = false ∧ a.ask id request = { a with
        queue := a.queue ++ [(a.nextTicket,request.tags)], nextTicket := a.nextTicket+1 }.enter
          ⟨id,request,.tags (some a.nextTicket) true⟩) := by
  unfold ask
  split
  · next h => exact .inl ⟨h,rfl⟩
  next hnew =>
  refine .inr ⟨Option.not_isSome_iff_eq_none.mp hnew,?_⟩
  split
  · next h => exact .inl ⟨List.isEmpty_iff.mp h,rfl⟩
  next h =>
  have htags : request.tags ≠ [] := by simpa using h
  split
  · next hb => exact .inr (.inl ⟨htags,hb,rfl⟩)
  · next hb => exact .inr (.inr ⟨htags,by simpa using hb,rfl⟩)

/-- Only who is woken looks: it gets its tags if it can have them, or goes on waiting. -/
theorem look_cases :
    a.isWoken id = false ∧ a.look id = a ∨
    ∃ p, a.party? id = some p ∧ ∃ ticket, p.stage = .tags ticket true ∧
      (a.canGrant p = true ∧ a.look id = a.grant p ticket ∨
      a.canGrant p = false ∧ a.look id = a.setStage id (.tags ticket false)) := by
  unfold look
  split
  · next hnone => exact .inl ⟨by simp [isWoken,hnone],rfl⟩
  next p hfound =>
  split
  · next ticket hs =>
    refine .inr ⟨p,hfound,ticket,hs,?_⟩
    split
    · next hg => exact .inl ⟨hg,rfl⟩
    · next hg => exact .inr ⟨by simpa using hg,rfl⟩
  · next hs =>
    refine .inl ⟨?_,rfl⟩
    cases hstage : p.stage with
    | tags ticket woken =>
      cases woken with
      | true => exact absurd hstage (hs ticket)
      | false => simp [isWoken,hfound,Party.isWoken,hstage]
    | slot | granted => simp [isWoken,hfound,Party.isWoken,hstage]

/-- Who leaves is no longer there: it loses its ticket or its place in the line, and gives back its
tags and its slot. -/
theorem leave_cases :
    a.party? id = none ∧ a.leave id = a ∨
    ∃ p, a.party? id = some p ∧
      ∃ b : Admission κ, b = { a with parties := a.parties.filter fun q => q.id != id } ∧
      ((∃ k woken, p.stage = .tags (some k) woken ∧ a.leave id = (b.removeTicket k).wakeAll) ∨
      (∃ woken, p.stage = .tags none woken ∧ a.leave id = b) ∨
      p.stage = .slot ∧ a.leave id =
        { b with slotQueue := b.slotQueue.filter (· != id) }.returnTags p.request.tags ∨
      p.stage = .granted true ∧ a.leave id = (b.returnTags p.request.tags).passSlot ∨
      p.stage = .granted false ∧ a.leave id = b.returnTags p.request.tags) := by
  unfold leave
  split
  · next hnone => exact .inl ⟨hnone,rfl⟩
  next p hfound =>
  refine .inr ⟨p,hfound,_,rfl,?_⟩
  dsimp only
  split
  · next k woken hs => exact .inl ⟨k,woken,hs,rfl⟩
  · next woken hs => exact .inr (.inl ⟨woken,hs,rfl⟩)
  · next hs => exact .inr (.inr (.inl ⟨hs,rfl⟩))
  · next hs => exact .inr (.inr (.inr (.inl ⟨hs,rfl⟩)))
  · next hs => exact .inr (.inr (.inr (.inr ⟨hs,rfl⟩)))

/-- Only who holds a slot gives one back. -/
theorem releaseSlot_cases :
    (∀ p, a.party? id = some p → p.holdsSlot = false) ∧ a.releaseSlot id = a ∨
    ∃ p, a.party? id = some p ∧ p.stage = .granted true ∧
      a.releaseSlot id = (a.setStage id (.granted false)).passSlot := by
  unfold releaseSlot
  split
  · next p hfound =>
    split
    · next hs => exact .inr ⟨p,hfound,hs,rfl⟩
    · next hs =>
      refine .inl ⟨fun q hq => ?_,rfl⟩
      obtain rfl := Option.some.inj (hfound.symm.trans hq)
      simpa [Party.holdsSlot] using hs
  · next hnone => exact .inl ⟨fun q hq => by simp [hnone] at hq,rfl⟩

end Cases

end Admission

end TaskGraph
