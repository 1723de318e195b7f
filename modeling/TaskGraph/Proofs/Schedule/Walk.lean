import Mathlib.Data.List.Induction
import TaskGraph.Proofs.Graph.Evaluation

/-!
Going through nodes from left to right, when it is told in advance how each of them ends: a node is
taken as long as all before it have succeeded, and is blocked by the one before it afterwards.
-/

namespace TaskGraph

/-- What a record tells of how its node has ended. -/
structure Gist where
  status : Status := .pending
  result : Option Value := none
  failure : Option Failure := none
  skipReason : Option SkipReason := none

def Record.gist (r : Record) : Gist := ⟨r.status,r.result,r.failure,r.skipReason⟩

/-- The failure of a node that has failed. -/
def Gist.failed? (g : Gist) : Option Failure := if g.status = .failed then g.failure else none

def Fate.gist : Fate → Gist
  | .success v _ => { status := .success, result := some v }
  | .failed f => { status := .failed, failure := some f }
  | .cancelled => { status := .cancelled, failure := some .cancelled }

theorem Fate.gist_status (f : Fate) : f.gist.status = f.status := by cases f <;> rfl

/-- What becomes of a node in a row: it is taken, or the one before it blocks it. -/
inductive Lot where
  | taken (fate : Fate)
  | blocked (previous : String)

def Lot.gist : Lot → Gist
  | .taken fate => fate.gist
  | .blocked previous => { status := .skipped, skipReason := some (.blocked [previous]) }

def Lot.isTaken : Lot → Bool
  | .taken _ => true
  | .blocked _ => false

theorem Lot.isTerminal (lot : Lot) : lot.gist.status.isTerminal = true := by
  cases lot with
  | taken fate => cases fate <;> rfl
  | blocked => rfl

/-- How far one has come who goes through nodes from left to right: what the next one sees, and what
has become of those so far. -/
structure Walk where
  scope : Scope
  lots : List (String × Lot) := []

namespace Walk

/-- The node that keeps the next one from being taken: the last one so far, if it has not succeeded. -/
def blocker? (w : Walk) : Option String :=
  (w.lots.getLast?.filter fun x => x.2.gist.status != .success).map (·.1)

def take (w : Walk) (id : String) (fate : Fate) : Walk where
  scope := match fate with
    | .success v _ => w.scope.recordResult id v
    | _ => w.scope
  lots := w.lots ++ [(id,.taken fate)]

def block (w : Walk) (id previous : String) : Walk :=
  { w with lots := w.lots ++ [(id,.blocked previous)] }

def next (fate : String → Fate) (w : Walk) (id : String) : Walk :=
  match w.blocker? with
  | none => w.take id (fate id)
  | some previous => w.block id previous

/-- Goes through nodes from left to right. -/
def along (fate : String → Fate) (scope : Scope) (ids : List String) : Walk :=
  ids.foldl (next fate) { scope }

/-- The nodes that were taken. -/
def taken (w : Walk) : List String := (w.lots.filter fun x => x.2.isTaken).map (·.1)

/-- The lots of nodes after one that has not succeeded. -/
def blockedFrom : String → List String → List (String × Lot)
  | _, [] => []
  | previous, id::rest => (id,.blocked previous)::blockedFrom id rest

variable {fate : String → Fate} {scope : Scope} {w : Walk} {ids : List String} {id previous : String}

theorem along_concat :
    along fate scope (ids ++ [id]) = (along fate scope ids).next fate id := by
  rw [along,List.foldl_append]
  rfl

theorem take_lots (w : Walk) (id : String) (f : Fate) :
    (w.take id f).lots = w.lots ++ [(id,.taken f)] := rfl

theorem block_lots (w : Walk) (id previous : String) :
    (w.block id previous).lots = w.lots ++ [(id,.blocked previous)] := rfl

theorem blocker?_take (w : Walk) (id : String) (f : Fate) :
    (w.take id f).blocker? = if f.status = .success then none else some id := by
  rw [blocker?,take_lots,List.getLast?_concat]
  cases f <;> rfl

theorem blocker?_block (w : Walk) (id previous : String) :
    (w.block id previous).blocker? = some id := by
  rw [blocker?,block_lots,List.getLast?_concat]
  rfl

theorem taken_take (w : Walk) (id : String) (f : Fate) : (w.take id f).taken = w.taken ++ [id] := by
  rw [taken,take_lots,List.filter_append,List.map_append]
  rfl

theorem taken_block (w : Walk) (id previous : String) : (w.block id previous).taken = w.taken := by
  rw [taken,block_lots,List.filter_append,List.map_append]
  exact List.append_nil _

theorem along_ids (fate : String → Fate) (scope : Scope) (ids : List String) :
    (along fate scope ids).lots.map (·.1) = ids := by
  induction ids using List.reverseRecOn with
  | nil => rfl
  | append_singleton ids id ih =>
    rw [along_concat,next]
    split
    · rw [take_lots,List.map_append,ih]
      rfl
    · rw [block_lots,List.map_append,ih]
      rfl

/-- Nobody is blocked as long as all have succeeded. -/
theorem along_blocker? : (along fate scope ids).blocker? = none ↔
    ∀ id ∈ ids, (fate id).status = .success := by
  induction ids using List.reverseRecOn with
  | nil => exact iff_of_true rfl fun _ hid => absurd hid List.not_mem_nil
  | append_singleton ids id ih =>
    rw [along_concat,next]
    split
    · next hnone =>
      rw [blocker?_take]
      simp only [List.mem_append,List.mem_singleton]
      constructor
      · intro h other hother
        obtain hother | rfl := hother
        · exact ih.mp hnone other hother
        · by_contra hne
          rw [if_neg hne] at h
          cases h
      · intro h
        exact if_pos (h id (.inr rfl))
    · next previous hsome =>
      rw [blocker?_block]
      refine iff_of_false (by simp) fun h => ?_
      rw [ih.mpr fun other hother => h other (List.mem_append_left _ hother)] at hsome
      cases hsome

theorem blocker?_mem (h : w.blocker? = some previous) :
    ∃ lot, (previous,lot) ∈ w.lots ∧ lot.gist.status ≠ .success ∧
      (w.lots.map (·.1)).getLast? = some previous := by
  obtain ⟨⟨_,lot⟩,hx,rfl⟩ := Option.map_eq_some_iff.mp h
  obtain ⟨hlast,hne⟩ := Option.filter_eq_some_iff.mp hx
  refine ⟨lot,List.mem_of_getLast? hlast,by simpa using hne,?_⟩
  rw [List.getLast?_map,hlast]
  rfl

/-- Where all have succeeded, all were taken. -/
theorem along_success (h : ∀ id ∈ ids, (fate id).status = .success) :
    (along fate scope ids).lots = ids.map fun id => (id,.taken (fate id)) := by
  induction ids using List.reverseRecOn with
  | nil => rfl
  | append_singleton ids id ih =>
    have hfront := fun other hother => h other (List.mem_append_left _ hother)
    rw [along_concat,next,along_blocker?.mpr hfront,List.map_append,← ih hfront]
    rfl

/-- Who comes next sees the results of all that have succeeded. -/
theorem along_shows (hd : ids.Nodup) (h : ∀ id ∈ ids, (fate id).status = .success) :
    ∀ id ∈ ids, ∃ v selected, fate id = .success v selected ∧
      (along fate scope ids).scope.result? id = some v := by
  induction ids using List.reverseRecOn with
  | nil => exact fun _ hid => absurd hid List.not_mem_nil
  | append_singleton ids last ih =>
    have hfront := fun other hother => h other (List.mem_append_left _ hother)
    obtain ⟨hdfront,-,happart⟩ := List.nodup_append.mp hd
    have hlast := h last (List.mem_append_right _ List.mem_cons_self)
    rw [along_concat,next,along_blocker?.mpr hfront]
    cases hf : fate last with
    | success v selected =>
      intro id hid
      rcases List.mem_append.mp hid with hid | hid
      · obtain ⟨u,chosen,hu,hresult⟩ := ih hdfront hfront id hid
        have hne : id ≠ last := happart id hid last List.mem_cons_self
        exact ⟨u,chosen,hu,(Fields.get?_insert_of_ne hne v _).trans hresult⟩
      · rw [List.mem_singleton.mp hid]
        exact ⟨v,selected,hf,Fields.get?_insert_self last v _⟩
    | failed | cancelled =>
      rw [hf] at hlast
      cases hlast

theorem map_taken (fate : String → Fate) (ids : List String) :
    ((ids.map fun id => (id,Lot.taken (fate id))).filter fun x => x.2.isTaken).map (·.1) = ids := by
  induction ids with
  | nil => rfl
  | cons id ids ih => exact congrArg (id::·) ih

theorem along_taken (h : (along fate scope ids).blocker? = none) :
    (along fate scope ids).taken = ids := by
  rw [taken,along_success (along_blocker?.mp h),map_taken]

/-- Nobody is left out among those that are taken. -/
theorem along_taken_isPrefix : (along fate scope ids).taken <+: ids := by
  induction ids using List.reverseRecOn with
  | nil => exact List.prefix_refl []
  | append_singleton ids id ih =>
    rw [along_concat,next]
    split
    · next hnone =>
      have htaken : ((along fate scope ids).take id (fate id)).taken = ids ++ [id] := by
        rw [taken_take,along_taken hnone]
      exact htaken ▸ List.prefix_refl _
    · rw [taken_block]
      exact ih.trans (List.prefix_append ids [id])

theorem foldl_blocked (h : w.blocker? = some previous) (rest : List String) :
    rest.foldl (next fate) w = { w with lots := w.lots ++ blockedFrom previous rest } := by
  induction rest generalizing w previous with
  | nil =>
    rw [blockedFrom,List.append_nil]
    rfl
  | cons id rest ih =>
    have hnext : w.next fate id = w.block id previous := by rw [next,h]
    rw [List.foldl_cons,hnext,ih (blocker?_block w id previous),block,blockedFrom,List.append_assoc]
    rfl

/-- After the first that does not succeed nobody is taken. -/
theorem along_stops {front back : List String} {k : String}
    (hs : ∀ id ∈ front, (fate id).status = .success) (hk : (fate k).status ≠ .success) :
    (along fate scope (front ++ k::back)).lots =
      (front.map fun id => (id,.taken (fate id))) ++ (k,.taken (fate k))::blockedFrom k back := by
  have hnext : (along fate scope front).next fate k = (along fate scope front).take k (fate k) := by
    rw [next,along_blocker?.mpr hs]
  have hblocks : ((along fate scope front).take k (fate k)).blocker? = some k := by
    rw [blocker?_take,if_neg hk]
  have hfold : along fate scope (front ++ k::back) =
      back.foldl (next fate) ((along fate scope front).next fate k) := by
    rw [along,List.foldl_append]
    rfl
  rw [hfold,hnext,foldl_blocked hblocks,take_lots,along_success hs,List.append_assoc]
  rfl

theorem mem_blockedFrom {a b : String} {rest : List String} (h : [a,b] <:+: previous::rest) :
    (b,.blocked a) ∈ blockedFrom previous rest := by
  induction rest generalizing previous with
  | nil =>
    have hle := h.length_le
    simp at hle
  | cons id rest ih =>
    rw [blockedFrom]
    obtain hfirst | hrest := List.infix_cons_iff.mp h
    · obtain ⟨rfl,hsecond⟩ := List.cons_prefix_cons.mp hfirst
      obtain ⟨rfl,-⟩ := List.cons_prefix_cons.mp hsecond
      exact List.mem_cons_self
    · exact List.mem_cons_of_mem _ (ih hrest)

theorem blockedFrom_filter (previous : String) (rest : List String) :
    (blockedFrom previous rest).filter (fun x => x.2.isTaken) = [] := by
  induction rest generalizing previous with
  | nil => rfl
  | cons id rest ih => exact ih id

theorem taken_stops {front back : List String} {k : String}
    (hs : ∀ id ∈ front, (fate id).status = .success) (hk : (fate k).status ≠ .success) :
    (along fate scope (front ++ k::back)).taken = front ++ [k] := by
  rw [taken,along_stops hs hk,List.filter_append,List.map_append,map_taken,
    List.filter_cons_of_pos rfl,blockedFrom_filter]
  rfl

end Walk

end TaskGraph
