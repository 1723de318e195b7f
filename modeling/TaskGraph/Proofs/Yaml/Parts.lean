import TaskGraph.Proofs.Time.Duration
import TaskGraph.Proofs.Yaml.Written

/-!
Records some of whose parts are missing, as they are read part by part; and what a reader makes of a
plain tree that stands where it reads.
-/

namespace TaskGraph.Yaml

variable {α β γ : Type}

theorem mapM_map_eq_map {δ : Type} {f : β → Option γ} {g : δ → β} {k : δ → γ} {l : List δ}
    (h : ∀ x ∈ l, f (g x) = some (k x)) : (l.map g).mapM f = some (l.map k) := by
  induction l with
  | nil => rfl
  | cons x rest ih =>
    rw [List.map_cons,List.mapM_cons,h x List.mem_cons_self,
      ih fun y hy => h y (List.mem_cons_of_mem x hy)]
    rfl

/-- What was written item by item is read item by item. -/
theorem mapM_map_of_forall {f : β → Option γ} {g : γ → β} {l : List γ}
    (h : ∀ x ∈ l, f (g x) = some x) : (l.map g).mapM f = some l := by
  have hid := mapM_map_eq_map (k := id) h
  rwa [List.map_id] at hid

theorem mem_of_mapM {f : α → Option β} {l : List α} {l' : List β} (h : l.mapM f = some l') {y : β}
    (hy : y ∈ l') : ∃ x ∈ l, f x = some y := by
  induction l generalizing l' with
  | nil =>
    cases h
    cases hy
  | cons x rest ih =>
    rw [List.mapM_cons] at h
    obtain ⟨z,hz,h⟩ := Option.bind_eq_some_iff.mp h
    obtain ⟨zs,hzs,h⟩ := Option.bind_eq_some_iff.mp h
    cases h
    rcases List.mem_cons.mp hy with rfl | hy
    · exact ⟨x,List.mem_cons_self,hz⟩
    · obtain ⟨x',hx',he⟩ := ih hzs hy
      exact ⟨x',List.mem_cons_of_mem x hx',he⟩

namespace Entries

/-- The parts that are there. -/
def ofOptions (parts : List (String × Option α)) : Entries α :=
  parts.filterMap fun p => p.2.map (p.1,·)

theorem ofOptions_append (a b : List (String × Option α)) :
    ofOptions (a ++ b) = ofOptions a ++ ofOptions b := List.filterMap_append

/-- A part that is left out where it would be empty. -/
theorem ofOptions_unless (isEmpty : Bool) (name : String) (v : α) :
    (if isEmpty = true then [] else [(name,v)]) =
      ofOptions [(name,if isEmpty then none else some v)] := by
  cases isEmpty <;> rfl

theorem filter_ofOptions (keep : String → Bool) (parts : List (String × Option α)) :
    (ofOptions parts).filter (fun e => keep e.1) = ofOptions (parts.filter fun p => keep p.1) := by
  induction parts with
  | nil => rfl
  | cons p rest ih =>
    obtain ⟨name,x⟩ := p
    unfold ofOptions at ih ⊢
    cases x <;> cases h : keep name <;> simp [h,ih]

theorem mem_ofOptions {parts : List (String × Option α)} {name : String} {v : α}
    (h : (name,some v) ∈ parts) : (name,v) ∈ ofOptions parts :=
  List.mem_filterMap.mpr ⟨_,h,rfl⟩

/-- A part is found if no other part has one of the names that are looked for. -/
theorem part?_ofOptions {names : List String} {parts : List (String × Option α)} {name : String}
    {x : Option α} (h : parts.filter (fun p => names.contains p.1) = [(name,x)]) :
    (ofOptions parts).part? names = some x := by
  unfold part?
  rw [filter_ofOptions names.contains,h]
  cases x <;> rfl

theorem part?_map (f : α → β) (names : List String) (entries : Entries α) :
    part? names (entries.map fun e => (e.1,f e.2)) = (entries.part? names).map (Option.map f) := by
  have hfilter : (entries.map fun e => (e.1,f e.2)).filter (fun e => names.contains e.1) =
      (entries.filter fun e => names.contains e.1).map fun e => (e.1,f e.2) := by
    rw [List.filter_map]
    rfl
  unfold part?
  rw [hfilter]
  cases entries.filter fun e => names.contains e.1 with
  | nil => rfl
  | cons e rest => cases rest <;> rfl

section Found

variable {names : List String} {entries : Entries α}

theorem required?_of_part {v : α} (h : entries.part? names = some (some v)) {read : α → Option β}
    {b : β} (hb : read v = some b) : entries.required? names read = some b := by
  unfold required?
  rw [h]
  exact hb

theorem defaulted?_of_part {v : α} (h : entries.part? names = some (some v)) {read : α → Option β}
    {b : β} (hb : read v = some b) (standard : β) :
    entries.defaulted? names standard read = some b := by
  unfold defaulted?
  rw [h]
  exact hb

theorem defaulted?_of_missing (h : entries.part? names = some none) (standard : β)
    (read : α → Option β) : entries.defaulted? names standard read = some standard := by
  unfold defaulted?
  rw [h]
  rfl

theorem optional?_of_part {write : β → α} {x : Option β}
    (h : entries.part? names = some (x.map write)) {read : α → Option (Option β)}
    (hread : ∀ b ∈ x, read (write b) = some (some b)) : entries.optional? names read = some x := by
  cases x with
  | none => exact defaulted?_of_missing h none read
  | some b => exact defaulted?_of_part h (hread b rfl) none

theorem defaulted?_eq_some {standard b : β} {read : α → Option β}
    (h : entries.defaulted? names standard read = some b) : b = standard ∨ ∃ x, read x = some b := by
  obtain ⟨part,-,h⟩ := Option.bind_eq_some_iff.mp h
  cases part with
  | none => exact .inl (Option.some.inj h).symm
  | some x => exact .inr ⟨x,h⟩

theorem required?_eq_some {b : β} {read : α → Option β}
    (h : entries.required? names read = some b) : ∃ x, read x = some b := by
  obtain ⟨part,-,h⟩ := Option.bind_eq_some_iff.mp h
  cases part with
  | none => cases h
  | some x => exact ⟨x,h⟩

/-- A part that may stand for nothing, in one of the ways in which readers tell that it does. -/
theorem exists_of_optional? {b : β} {isNothing? : α → Option Bool} {read : α → Option β}
    (h : entries.optional? names (fun x => do
      if ← isNothing? x then some none else (read x).map some) = some (some b)) :
    ∃ x, read x = some b := by
  obtain hnone | ⟨x,hx⟩ := defaulted?_eq_some h
  · cases hnone
  obtain ⟨nothing,-,hx⟩ := Option.bind_eq_some_iff.mp hx
  cases nothing with
  | true => cases hx
  | false =>
    obtain ⟨c,hc,he⟩ := Option.map_eq_some_iff.mp hx
    exact ⟨x,Option.some.inj he ▸ hc⟩

end Found

end Entries

namespace Tree

/-- Texts, lists and maps, which stand for something wherever they stand. -/
def isSomething : Tree → Bool
  | .string _ | .list _ | .map _ => true
  | _ => false

theorem asOption?_of_isSomething {t : Tree} (h : t.isSomething = true) (read : Tree → Option β) :
    asOption? read t = (read t).map some := by
  cases t with
  | string | list | map => rfl
  | null | bool | int | float => cases h

/-- A test of keys keeps the fields whose names pass it. -/
theorem filter_fields (keep : Tree × Tree → Bool) (kept : String → Bool)
    (h : ∀ name t, keep (.string name,t) = kept name) (fields : Entries Tree) :
    (fields.map fun f => (string f.1,f.2)).filter keep =
      (fields.filter fun f => kept f.1).map fun f => (string f.1,f.2) := by
  rw [List.filter_map]
  exact congrArg _ (List.filter_congr fun f _ => h f.1 f.2)

/-- The fields whose names pass a test, by their names. -/
theorem filterMap_fields (pick : Tree × Tree → Option (String × Tree)) (kept : String → Bool)
    (h : ∀ name t, pick (.string name,t) = if kept name = true then some (name,t) else none)
    (fields : Entries Tree) : (fields.map fun f => (string f.1,f.2)).filterMap pick =
      fields.filter fun f => kept f.1 := by
  have hpick : (pick ∘ fun f : String × Tree => (string f.1,f.2)) =
      Option.guard fun f => kept f.1 := by
    funext f
    exact h f.1 f.2
  rw [List.filterMap_map,hpick,List.filterMap_eq_filter]

theorem optional?_asOption {names : List String} {entries : Entries Tree} {x : Option β}
    {write : β → Tree} (h : entries.part? names = some (x.map write)) {read : Tree → Option β}
    (hread : ∀ b ∈ x, (write b).isSomething = true ∧ read (write b) = some b) :
    entries.optional? names (asOption? read) = some x :=
  Entries.optional?_of_part h fun b hb => by
    rw [asOption?_of_isSomething (hread b hb).1,(hread b hb).2]
    rfl

theorem exists_of_optional? {names : List String} {entries : Entries Tree} {b : β}
    {read : Tree → Option β} (h : entries.optional? names (asOption? read) = some (some b)) :
    ∃ t, read t = some b := by
  obtain hnone | ⟨t,ht⟩ := Entries.defaulted?_eq_some h
  · cases hnone
  unfold asOption? at ht
  split at ht
  · cases ht
  · obtain ⟨c,hc,he⟩ := Option.map_eq_some_iff.mp ht
    exact ⟨t,Option.some.inj he ▸ hc⟩

theorem asNat?_le {most n : Nat} {t : Tree} (h : asNat? most t = some n) : n ≤ most := by
  unfold asNat? at h
  split at h
  · split at h
    · next hle => exact Option.some.inj h ▸ hle
    · cases h
  · cases h

theorem asNat?_ofNat {most n : Nat} (h : n ≤ most) : asNat? most (.int n) = some n :=
  if_pos h

end Tree

namespace Node

theorem asNat?_le {most n : Nat} {node : Node} (h : asNat? most node = some n) : n ≤ most := by
  obtain ⟨text,-,h⟩ := Option.bind_eq_some_iff.mp h
  split at h
  · cases h
  obtain ⟨atom,-,h⟩ := Option.bind_eq_some_iff.mp h
  split at h
  · split at h
    · next hle => exact Option.some.inj h ▸ hle
    · cases h
  · cases h

theorem asNat?_ofInt {most n : Nat} (h : n ≤ most) (hn : n < Nat.pow 2 64) :
    asNat? most (ofInt n) = some n := by
  have htext : (toString (n : Int)).toList = Text.digits n := Text.toList_toString_int n
  have hsign : (toString (n : Int)).startsWith "-" = false := by
    rw [String.startsWith_string_eq_false_iff,htext]
    intro hstart
    have hdigit := Text.isDigit_of_mem_digits (hstart.subset List.mem_cons_self)
    cases hdigit
  have hatom : (ofInt n).atomOf? "int" = some (.int n) := by
    rw [← ofPlain_digits htext hn]
    rfl
  unfold asNat?
  rw [show (ofInt n).asText? = some (toString (n : Int)) from rfl,Option.bind_eq_bind,
    Option.bind_some,hsign,hatom]
  exact if_pos h

end Node

/-- What a reader reads of a plain tree that stands where it reads is what the tree says, as far as
its reals pass a test. -/
structure Reader.IsFaithful (r : Reader α) (embed : Tree → α) (real : Double → Prop) : Prop where
  text (s : String) : r.text? (embed (.string s)) = some s
  nat {most n : Nat} (h : n ≤ most) (hn : n < Nat.pow 2 64) : r.nat? most (embed (.int n)) = some n
  nat_le {most n : Nat} {x : α} (h : r.nat? most x = some n) : n ≤ most
  double {d : Double} (h : real d) : r.double? (embed (.float d)) = some d
  isSomething {t : Tree} (h : t.isSomething = true) : r.isNothing? (embed t) = some false
  items (ts : List Tree) : r.items? (embed (.list ts)) = some (ts.map embed)
  record (names : List String) (fields : Entries Tree) :
    r.record? names (embed (Tree.ofFields fields)) = some (fields.map fun f => (f.1,embed f.2))
  tree (t : Tree) : r.tree? (embed t) = some t

namespace Reader

theorem trees_isFaithful : trees.IsFaithful id fun _ => True where
  text _ := rfl
  nat h _ := Tree.asNat?_ofNat h
  nat_le := Tree.asNat?_le
  double _ := rfl
  isSomething {t} h := by
    cases t with
    | string | list | map => rfl
    | null | bool | int | float => cases h
  items ts := by
    rw [List.map_id]
    exact (congrArg (List.mapM some) (List.map_id ts).symm).trans
      (mapM_map_of_forall fun _ _ => rfl)
  record names fields := by
    refine (Tree.record?_ofFields names fields).trans ?_
    simp
  tree _ := rfl

theorem nodes_isFaithful :
    nodes.IsFaithful Node.ofTree fun d => Node.asDouble? (Node.ofDouble d) = some d where
  text _ := rfl
  nat := Node.asNat?_ofInt
  nat_le := Node.asNat?_le
  double h := h
  isSomething {t} h := by
    cases t with
    | string | list | map => rfl
    | null | bool | int | float => cases h
  items ts := congrArg some (Node.ofTreeItems_eq ts)
  record _ fields := Node.entries?_ofFields fields
  tree := Node.tree?_ofTree

variable {r : Reader α} {embed : Tree → α} {real : Double → Prop}

namespace IsFaithful

theorem option (hr : r.IsFaithful embed real) {t : Tree} (ht : t.isSomething = true)
    {read : α → Option β} {b : β} (h : read (embed t) = some b) :
    r.option? read (embed t) = some (some b) := by
  unfold option?
  rw [hr.isSomething ht,Option.bind_eq_bind,Option.bind_some,if_neg Bool.false_ne_true,h]
  rfl

theorem texts (hr : r.IsFaithful embed real) (names : List String) :
    r.texts? (embed (Tree.ofStrings names)) = some names := by
  have hitems := hr.items (names.map .string)
  unfold texts? list?
  rw [show embed (Tree.ofStrings names) = embed (.list (names.map .string)) from rfl,hitems,
    List.map_map]
  exact mapM_map_of_forall fun name _ => hr.text name

section Parts

variable {names : List String} {parts : List (String × Option Tree)} {name : String}

/-- What stands for a part of a record some of whose parts are missing. -/
theorem part (embed : Tree → α) {x : Option Tree}
    (h : parts.filter (fun p => names.contains p.1) = [(name,x)]) :
    Entries.part? names ((Entries.ofOptions parts).map fun e => (e.1,embed e.2)) =
      some (x.map embed) := by
  rw [Entries.part?_map,Entries.part?_ofOptions h]
  rfl

theorem optional (hr : r.IsFaithful embed real) {x : Option β} {write : β → Tree}
    (h : parts.filter (fun p => names.contains p.1) = [(name,x.map write)]) {read : α → Option β}
    (hread : ∀ b ∈ x, (write b).isSomething = true ∧ read (embed (write b)) = some b) :
    Entries.optional? names (r.option? read)
      ((Entries.ofOptions parts).map fun e => (e.1,embed e.2)) = some x := by
  have hpart := part embed h
  rw [Option.map_map] at hpart
  exact Entries.optional?_of_part hpart fun b hb => hr.option (hread b hb).1 (hread b hb).2

end Parts

end IsFaithful

end Reader

end TaskGraph.Yaml
