import Mathlib.Data.List.Nodup
import Mathlib.Logic.Relation
import TaskGraph.Proofs.Graph.Acyclic

/-!
The order of names along links without cycles: a name is put in front only once all that refer to it
have been put there, so every name stands before those that refer to it.
-/

namespace TaskGraph.Links

variable {links : Links}

/-- A name refers to another. -/
def Calls (links : Links) (a b : String) : Prop := a ∈ links.previous b

/-- Each name in a list stands before all names that refer to it. -/
def Ranked (links : Links) : List String → Prop
  | [] => True
  | name::rest => (∀ other ∈ links.previous name, other ∈ rest) ∧ links.Ranked rest

/-- How far the ordering has come, in the middle of a path of names whose turn has begun. -/
structure Placing (links : Links) (path : List String) (state : List String × List String) :
    Prop where
  seen : ∀ x, x ∈ state.1 ↔ x ∈ path ∨ x ∈ state.2
  apart : ∀ x ∈ path, x ∉ state.2
  names : ∀ x ∈ state.2, x ∈ links.names
  nodup : state.2.Nodup
  ranked : links.Ranked state.2

/-- A name has been put among those already ordered. -/
structure Places (links : Links) (path : List String) (name : String)
    (before after : List String × List String) : Prop where
  placing : links.Placing path after
  kept : before.2 ⊆ after.2
  placed : name ∈ after.2

theorem mem_names_of_mem_previous {a b : String} (h : a ∈ links.previous b) : a ∈ links.names := by
  obtain ⟨l,hl,rfl⟩ := List.mem_map.mp h
  exact List.mem_map_of_mem (List.mem_of_mem_filter hl)

/-- The turn of a name that may have been ordered already. -/
def lay (links : Links) (n : Nat) (state : List String × List String) (name : String) :
    List String × List String :=
  if state.1.contains name then state else place links n name state

theorem place_succ (n : Nat) (name : String) (state : List String × List String) :
    place links (n+1) name state =
      let inner := (links.previous name).foldl (lay links n) (name::state.1,state.2)
      (inner.1,name::inner.2) := rfl

theorem foldl_places {path : List String} (f : List String × List String → String →
      List String × List String) (names : List String) (start : List String × List String)
    (hs : links.Placing path start)
    (hf : ∀ state, links.Placing path state → ∀ name ∈ names,
      links.Places path name state (f state name)) :
    links.Placing path (names.foldl f start) ∧ start.2 ⊆ (names.foldl f start).2 ∧
      ∀ name ∈ names, name ∈ (names.foldl f start).2 := by
  induction names generalizing start with
  | nil => exact ⟨hs,fun _ hx => hx,fun _ hx => absurd hx List.not_mem_nil⟩
  | cons name rest ih =>
    have hone := hf start hs name List.mem_cons_self
    obtain ⟨hend,hkept,hall⟩ := ih (f start name) hone.placing fun state h x hx =>
      hf state h x (List.mem_cons_of_mem name hx)
    refine ⟨hend,fun x hx => hkept (hone.kept hx),fun x hx => ?_⟩
    rcases List.mem_cons.mp hx with rfl | hx
    · exact hkept hone.placed
    · exact hall x hx

section Acyclic

variable (hc : ∀ name, ¬ Relation.TransGen links.Calls name name)

include hc

/-- The induction is on how much longer the path can get. A name that has been seen is on the path or
ordered, and one on the path cannot refer to the name whose turn it is, to which it leads. -/
theorem place_places (n : Nat) (name : String) (path : List String)
    (state : List String × List String) (hs : links.Placing path state) (hname : name ∈ links.names)
    (hnew : name ∉ state.1) (hpath : Walk.OnPath links { path })
    (hleads : ∀ x ∈ path, Relation.TransGen links.Calls name x)
    (hn : links.length ≤ path.length+n) :
    links.Places path name state (place links n name state) := by
  have hfree : name ∉ path ∧ name ∉ state.2 := by
    rwa [hs.seen,not_or] at hnew
  have hlonger : Walk.OnPath links { path := name::path } := hpath.cons hname hfree.1 rfl
  induction n generalizing name path state with
  | zero =>
    have hle := hlonger.length_le
    simp only [List.length_cons] at hle
    omega
  | succ n ih =>
    have hentered : links.Placing (name::path) (name::state.1,state.2) := by
      refine ⟨fun x => ?_,?_,hs.names,hs.nodup,hs.ranked⟩
      · simp [hs.seen,or_assoc]
      · intro x hx
        rcases List.mem_cons.mp hx with rfl | hx
        · exact hfree.2
        · exact hs.apart x hx
    have hlay (inner : List String × List String) (hi : links.Placing (name::path) inner)
        (other : String) (ho : other ∈ links.previous name) :
        links.Places (name::path) other inner (lay links n inner other) := by
      have hreach (x : String) (hx : x ∈ name::path) : Relation.TransGen links.Calls other x := by
        rcases List.mem_cons.mp hx with rfl | hx
        · exact .single ho
        · exact .head ho (hleads x hx)
      have hoff : other ∉ name::path := fun hx => hc other (hreach other hx)
      unfold lay
      split
      · next hseen =>
        have hmem := (hi.seen other).mp (by simpa using hseen)
        exact ⟨hi,fun _ hx => hx,hmem.resolve_left hoff⟩
      · next hseen =>
        have hnew : other ∉ inner.1 := by simpa using hseen
        have hout : other ∉ name::path ∧ other ∉ inner.2 := by
          rwa [hi.seen,not_or] at hnew
        have ho' := mem_names_of_mem_previous ho
        refine ih other (name::path) inner hi ho' hnew hlonger hreach ?_ hout
          (hlonger.cons ho' hoff rfl)
        rw [List.length_cons]
        omega
    obtain ⟨hend,hkept,hall⟩ := foldl_places (lay links n) (links.previous name) _ hentered hlay
    rw [place_succ]
    refine ⟨⟨fun x => ?_,fun x hx => ?_,fun x hx => ?_,?_,hall,hend.ranked⟩,?_,List.mem_cons_self⟩
    · rw [hend.seen,List.mem_cons,List.mem_cons,or_assoc,or_left_comm]
    · rw [List.mem_cons,not_or]
      refine ⟨?_,hend.apart x (List.mem_cons_of_mem name hx)⟩
      rintro rfl
      exact hfree.1 hx
    · rcases List.mem_cons.mp hx with rfl | hx
      · exact hname
      · exact hend.names x hx
    · exact List.nodup_cons.mpr ⟨hend.apart name List.mem_cons_self,hend.nodup⟩
    · exact fun x hx => List.mem_cons_of_mem name (hkept hx)

theorem order_ranked : links.Ranked links.order ∧ links.order.Nodup ∧
    ∀ name, name ∈ links.order ↔ name ∈ links.names := by
  have hlay (state : List String × List String) (hs : links.Placing [] state) (name : String)
      (hname : name ∈ links.names) :
      links.Places [] name state (lay links links.length state name) := by
    unfold lay
    split
    · next hseen =>
      have hmem := (hs.seen name).mp (by simpa using hseen)
      exact ⟨hs,fun _ hx => hx,hmem.resolve_left List.not_mem_nil⟩
    · next hseen =>
      exact place_places hc links.length name [] state hs hname (by simpa using hseen)
        ⟨List.nodup_nil,fun _ hx => absurd hx List.not_mem_nil⟩
        (fun _ hx => absurd hx List.not_mem_nil) (Nat.le_add_left _ _)
  have hstart : links.Placing [] ([],[]) := ⟨by simp,by simp,by simp,List.nodup_nil,trivial⟩
  obtain ⟨hend,-,hall⟩ := foldl_places (lay links links.length) links.names _ hstart hlay
  exact ⟨hend.ranked,hend.nodup,fun name => ⟨hend.names name,hall name⟩⟩

end Acyclic

theorem Ranked.mem {ordered : List String} (h : links.Ranked ordered) {a b : String}
    (hb : b ∈ ordered) (hab : links.Calls a b) : a ∈ ordered := by
  induction ordered with
  | nil => cases hb
  | cons name rest ih =>
    rcases List.mem_cons.mp hb with rfl | hb
    · exact List.mem_cons_of_mem _ (h.1 a hab)
    · exact List.mem_cons_of_mem _ (ih h.2 hb)

theorem Ranked.idxOf_lt {ordered : List String} (h : links.Ranked ordered) (hd : ordered.Nodup)
    {a b : String} (hb : b ∈ ordered) (hab : links.Calls a b) :
    ordered.idxOf b < ordered.idxOf a := by
  induction ordered with
  | nil => cases hb
  | cons name rest ih =>
    obtain ⟨hname,hrest⟩ := List.nodup_cons.mp hd
    have hnotHead {x : String} (hx : x ∈ rest) : (name::rest).idxOf x = rest.idxOf x+1 :=
      List.idxOf_cons_ne rest fun he => hname (he ▸ hx)
    rcases List.mem_cons.mp hb with rfl | hb
    · rw [List.idxOf_cons_self,hnotHead (h.1 a hab)]
      exact Nat.zero_lt_succ _
    · rw [hnotHead hb,hnotHead (h.2.mem hb hab)]
      exact Nat.succ_lt_succ (ih h.2 hrest hb)

end TaskGraph.Links
