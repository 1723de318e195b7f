import Mathlib.Data.List.Perm.Subperm
import TaskGraph.Graph.Links

/-!
Links in which no walk meets a cycle are well-founded: a walk without cycles leaves each name only
after all the names that it refers to.
-/

namespace TaskGraph.Links

variable (links : Links)

theorem mem_names_of_mem_next {a b : String} (h : b ∈ links.next a) : b ∈ links.names := by
  simpa using (List.mem_filter.mp h).2

/-- Each name in a list stands before all the names that it refers to. -/
def Settled : List String → Prop
  | [] => True
  | name::rest => (∀ other ∈ links.next name, other ∈ rest) ∧ Settled rest

/-- What a walk keeps as it goes on, as long as it meets no cycle. -/
structure Walk.Extends (before after : Walk) : Prop where
  path : after.path = before.path
  clean : after.cycles = [] → before.cycles = []
  left : ∀ name ∈ before.done, name ∈ after.done
  settled : after.cycles = [] → links.Settled before.done → links.Settled after.done

theorem Walk.Extends.refl (walk : Walk) : Walk.Extends links walk walk :=
  ⟨rfl,id,fun _ h => h,fun _ h => h⟩

variable {links}

theorem Walk.Extends.trans {a b c : Walk} (hab : Walk.Extends links a b)
    (hbc : Walk.Extends links b c) : Walk.Extends links a c where
  path := hbc.path.trans hab.path
  clean h := hab.clean (hbc.clean h)
  left name h := hbc.left name (hab.left name h)
  settled h hs := hbc.settled h (hab.settled (hbc.clean h) hs)

theorem Walk.meet_cycles_ne_nil (walk : Walk) (name : String) : (walk.meet name).cycles ≠ [] := by
  unfold Walk.meet Walk.addCycle
  split
  · next h =>
    intro hc
    simp [hc] at h
  · simp

theorem Walk.meet_extends (walk : Walk) (name : String) :
    Walk.Extends links walk (walk.meet name) where
  path := by unfold Walk.meet Walk.addCycle; split <;> rfl
  clean h := absurd h (walk.meet_cycles_ne_nil name)
  left other h := by
    have hd : (walk.meet name).done = walk.done := by
      unfold Walk.meet Walk.addCycle; split <;> rfl
    rwa [hd]
  settled h _ := absurd h (walk.meet_cycles_ne_nil name)

def look (links : Links) (n : Nat) (walk : Walk) (other : String) : Walk :=
  if walk.path.contains other then walk.meet other
  else if walk.done.contains other then walk
  else visit links n other walk

theorem visit_succ (n : Nat) (name : String) (walk : Walk) :
    visit links (n+1) name walk =
      let inner := (links.next name).foldl (look links n) { walk with path := name::walk.path }
      { inner with path := inner.path.tail, done := name::inner.done } := rfl

/-- Between two stages of a walk a name is left, unless a cycle is met. -/
def Walk.Leaves (links : Links) (name : String) (before after : Walk) : Prop :=
  Walk.Extends links before after ∧ (after.cycles = [] → name ∈ after.done)

/-- Names that are left one after another, from the same path, are all left in the end. -/
theorem foldl_leaves (f : Walk → String → Walk) (names : List String) (start : Walk)
    (hf : ∀ walk : Walk, walk.path = start.path → ∀ name ∈ names, walk.Leaves links name (f walk name)) :
    Walk.Extends links start (names.foldl f start) ∧
    ((names.foldl f start).cycles = [] → ∀ name ∈ names, name ∈ (names.foldl f start).done) := by
  induction names generalizing start with
  | nil => exact ⟨.refl links start,fun _ name h => absurd h List.not_mem_nil⟩
  | cons name rest ih =>
    have hone := hf start rfl name List.mem_cons_self
    have hrest := ih (f start name) fun walk hw x hx =>
      hf walk (hw.trans hone.1.path) x (List.mem_cons_of_mem name hx)
    rw [List.foldl_cons]
    refine ⟨hone.1.trans hrest.1,fun hc x hx => ?_⟩
    rcases List.mem_cons.mp hx with rfl | hx
    · exact hrest.1.left x (hone.2 (hrest.1.clean hc))
    · exact hrest.2 hc x hx

/-- The path of a walk consists of different names. -/
structure Walk.OnPath (links : Links) (walk : Walk) : Prop where
  nodup : walk.path.Nodup
  names : ∀ name ∈ walk.path, name ∈ links.names

theorem Walk.OnPath.cons {walk after : Walk} (h : walk.OnPath links) {name : String}
    (hn : name ∈ links.names) (hp : name ∉ walk.path) (ha : after.path = name::walk.path) :
    after.OnPath links where
  nodup := by
    rw [ha]
    exact List.nodup_cons.mpr ⟨hp,h.nodup⟩
  names x hx := by
    rw [ha] at hx
    rcases List.mem_cons.mp hx with rfl | hx
    · exact hn
    · exact h.names x hx

theorem Walk.OnPath.length_le {walk : Walk} (h : walk.OnPath links) :
    walk.path.length ≤ links.length := by
  have hl := (h.nodup.subperm h.names).length_le
  rwa [Links.names,List.length_map] at hl

/-- The induction is on how much longer the path can get. -/
theorem visit_leaves (n : Nat) (name : String) (walk : Walk) (hw : walk.OnPath links)
    (hn : name ∈ links.names) (hp : name ∉ walk.path) (hl : links.length ≤ walk.path.length+n) :
    walk.Leaves links name (visit links n name walk) := by
  induction n generalizing name walk with
  | zero =>
    have hlonger : Walk.OnPath links { path := name::walk.path } := hw.cons hn hp rfl
    have hle := hlonger.length_le
    rw [List.length_cons] at hle
    omega
  | succ n ih =>
    have hlook (inner : Walk) (hs : inner.path = name::walk.path) (other : String)
        (ho : other ∈ links.next name) : inner.Leaves links other (look links n inner other) := by
      unfold look
      split
      · exact ⟨inner.meet_extends other,fun h => absurd h (inner.meet_cycles_ne_nil other)⟩
      next hpath =>
      split
      · next hdone => exact ⟨.refl links inner,fun _ => by simpa using hdone⟩
      · refine ih other inner (hw.cons hn hp hs) (links.mem_names_of_mem_next ho) ?_ ?_
        · simpa using hpath
        · rw [hs,List.length_cons]
          omega
    obtain ⟨hext,hall⟩ := foldl_leaves (look links n) (links.next name)
      { walk with path := name::walk.path } hlook
    rw [visit_succ]
    refine ⟨⟨?_,hext.clean,?_,?_⟩,fun _ => List.mem_cons_self⟩
    · simp [hext.path]
    · exact fun x hx => List.mem_cons_of_mem name (hext.left x hx)
    · exact fun hc hs => ⟨hall hc,hext.settled hc hs⟩

theorem Settled.acc {done : List String} (h : links.Settled done) :
    ∀ name ∈ done, Acc (fun a b => a ∈ links.next b) name := by
  induction done with
  | nil => simp
  | cons name rest ih =>
    have hrest := ih h.2
    intro x hx
    rcases List.mem_cons.mp hx with rfl | hx
    · exact ⟨x,fun y hy => hrest y (h.1 y hy)⟩
    · exact hrest x hx

/-- Where no cycle is found there is none: going from name to name comes to an end. -/
theorem wellFounded_of_cycles_eq_nil (h : links.cycles = []) :
    WellFounded fun a b => a ∈ links.next b := by
  have hvisit (walk : Walk) (hw : walk.path = []) (name : String) (hn : name ∈ links.names) :
      walk.Leaves links name
        (if walk.done.contains name then walk else visit links links.length name walk) := by
    split
    · next hd => exact ⟨.refl links walk,fun _ => by simpa using hd⟩
    · refine visit_leaves links.length name walk ⟨?_,?_⟩ hn ?_ ?_ <;> simp [hw]
  obtain ⟨hext,hall⟩ := foldl_leaves _ links.names {} hvisit
  have hs := hext.settled h trivial
  refine ⟨fun name => ⟨name,fun other ho => ?_⟩⟩
  exact hs.acc other (hall h other (links.mem_names_of_mem_next ho))

end TaskGraph.Links
