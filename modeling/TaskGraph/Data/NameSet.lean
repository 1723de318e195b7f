/-!
Sets of names as lists in strictly increasing order.
-/

namespace TaskGraph

abbrev NameSet := List String

namespace NameSet

def insert (name : String) : NameSet → NameSet
  | [] => [name]
  | x::xs => if name < x then name::x::xs else if name = x then x::xs else x::insert name xs

def ofList (names : List String) : NameSet := names.foldl (fun set name => insert name set) []

def union (a b : NameSet) : NameSet := b.foldl (fun set name => insert name set) a

theorem mem_insert {name x : String} {set : NameSet} :
    x ∈ insert name set ↔ x = name ∨ x ∈ set := by
  induction set with
  | nil => simp [insert]
  | cons y ys ih =>
    simp only [insert]
    split
    · simp
    · split
      · next h => subst h; simp
      · simp only [List.mem_cons,ih]
        constructor
        · rintro (h | h | h) <;> simp [h]
        · rintro (h | h | h) <;> simp [h]

theorem mem_foldl_insert {x : String} (names : List String) (set : NameSet) :
    x ∈ names.foldl (fun set name => insert name set) set ↔ x ∈ set ∨ x ∈ names := by
  induction names generalizing set with
  | nil => simp
  | cons y ys ih =>
    simp only [List.foldl_cons,ih,mem_insert,List.mem_cons]
    constructor
    · rintro ((h | h) | h) <;> simp [h]
    · rintro (h | h | h) <;> simp [h]

theorem mem_ofList {x : String} {names : List String} : x ∈ ofList names ↔ x ∈ names := by
  simp [ofList,mem_foldl_insert]

theorem mem_union {x : String} {a b : NameSet} : x ∈ union a b ↔ x ∈ a ∨ x ∈ b := by
  simp [union,mem_foldl_insert]

theorem insert_ordered {name : String} {set : NameSet} (h : set.Pairwise (· < ·)) :
    (insert name set).Pairwise (· < ·) := by
  induction set with
  | nil => simp [insert]
  | cons x xs ih =>
    obtain ⟨hx,hxs⟩ := List.pairwise_cons.mp h
    unfold insert
    split
    · next hlt =>
      refine List.pairwise_cons.mpr ⟨fun y hy => ?_,h⟩
      rcases List.mem_cons.mp hy with rfl | hy
      · exact hlt
      · exact String.lt_trans hlt (hx y hy)
    split
    · exact h
    · next hlt hne =>
      refine List.pairwise_cons.mpr ⟨fun y hy => ?_,ih hxs⟩
      rcases mem_insert.mp hy with rfl | hy
      · exact Decidable.byContradiction fun hn =>
          hne (String.le_antisymm (String.not_lt.mp hn) (String.not_lt.mp hlt))
      · exact hx y hy

theorem ofList_ordered (names : List String) : (ofList names).Pairwise (· < ·) := by
  have hfold (set : NameSet) (h : set.Pairwise (· < ·)) :
      (names.foldl (fun set name => insert name set) set).Pairwise (· < ·) := by
    induction names generalizing set with
    | nil => exact h
    | cons name rest ih => exact ih (insert name set) (insert_ordered h)
  exact hfold [] .nil

theorem ofList_nodup (names : List String) : (ofList names).Nodup := by
  refine (ofList_ordered names).imp fun hlt => ?_
  rintro rfl
  exact String.lt_irrefl _ hlt

end NameSet

end TaskGraph
