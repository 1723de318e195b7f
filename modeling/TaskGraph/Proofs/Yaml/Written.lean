import TaskGraph.Proofs.Data.Ordered
import TaskGraph.Proofs.Text.Digits
import TaskGraph.Yaml.Reader

/-!
Trees that were written, as they are read again: as plain trees, and straight from the nodes of a
document. Reals are the exception: their texts are taken as they come.
-/

namespace TaskGraph

/-- The numbers that a document gives as values: integers, and reals that are finite. -/
def Value.isFinite : Value → Prop
  | .int _ => True
  | .float d => d.isFinite = true
  | _ => False

namespace Yaml

namespace Tree

theorem height_le_heightItems {t : Tree} {items : List Tree} (h : t ∈ items) :
    t.height ≤ heightItems items := by
  induction items with
  | nil => cases h
  | cons u rest ih =>
    rw [heightItems]
    rcases List.mem_cons.mp h with rfl | h
    · exact Nat.le_max_left ..
    · exact Nat.le_trans (ih h) (Nat.le_max_right ..)

theorem height_le_heightEntries {e : Tree × Tree} {entries : List (Tree × Tree)} (h : e ∈ entries) :
    e.2.height ≤ heightEntries entries := by
  induction entries with
  | nil => cases h
  | cons f rest ih =>
    rw [heightEntries]
    rcases List.mem_cons.mp h with rfl | h
    · exact Nat.le_trans (Nat.le_max_right ..) (Nat.le_max_left ..)
    · exact Nat.le_trans (ih h) (Nat.le_max_right ..)

theorem height_lt_of_item {t : Tree} {items : List Tree} (h : t ∈ items) :
    t.height < (list items).height := Nat.lt_succ_of_le (height_le_heightItems h)

theorem height_lt_of_field {f : String × Tree} {fields : List (String × Tree)} (h : f ∈ fields) :
    f.2.height < (ofFields fields).height :=
  Nat.lt_succ_of_le (height_le_heightEntries (List.mem_map_of_mem (f := fun f => (string f.1,f.2)) h))

theorem height_ofField (name : String) (t : Tree) : (ofFields [(name,t)]).height = t.height+1 := by
  simp [ofFields,height,heightEntries]

theorem mapM_asString? (names : List String) : (names.map string).mapM asString? = some names := by
  induction names with
  | nil => rfl
  | cons name rest ih => simp [List.mapM_cons,asString?,ih]

theorem keyed?_fields (names : List String) (fields : List (String × Tree)) :
    keyed? names (fields.map fun f => (string f.1,f.2)) = some fields := by
  induction fields with
  | nil => rfl
  | cons f rest ih =>
    unfold keyed? at ih ⊢
    rw [List.map_cons,List.mapM_cons,ih]
    rfl

theorem record?_ofFields (names : List String) (fields : List (String × Tree)) :
    (ofFields fields).record? names = some fields := keyed?_fields names fields

theorem ofValueFields_eq (fields : Fields) :
    map (ofValueFields fields) = ofFields (fields.map fun p => (p.1,ofValue p.2)) := by
  have hfields : ofValueFields fields = fields.map fun p => (string p.1,ofValue p.2) := by
    induction fields with
    | nil => rfl
    | cons p rest ih => rw [ofValueFields,ih,List.map_cons]
  rw [hfields,ofFields,List.map_map]
  rfl

section Values

/-- A value is read from its tree if its objects are in order and its reals are finite. -/
theorem value?_ofValue {v : Value} (h : v.Tidy Value.isFinite) : (ofValue v).value? = some v := by
  induction h with
  | null | bool | int | string => rfl
  | @float d h =>
    have hd : d.isFinite = true := h
    simp [ofValue,value?,hd]
  | @array items _ ih =>
    have hitems (l : List Value) (hl : l ⊆ items) : valueItems? (ofValues l) = some l := by
      induction l with
      | nil => rfl
      | cons v rest ihl =>
        have hrest := ihl fun w hw => hl (List.mem_cons_of_mem v hw)
        rw [ofValues,valueItems?,ih v (hl List.mem_cons_self),hrest]
    rw [ofValue,value?,hitems items (List.Subset.refl items)]
    rfl
  | @object fields ho _ ih =>
    have hfields (l : Fields) (hl : l ⊆ fields) : valueFields? (ofValueFields l) = some l := by
      induction l with
      | nil => rfl
      | cons p rest ihl =>
        have hrest := ihl fun q hq => hl (List.mem_cons_of_mem p hq)
        simp only [ofValueFields,valueFields?,ih p (hl List.mem_cons_self),hrest]
    rw [ofValue,value?,hfields fields (List.Subset.refl fields)]
    simp [Value.ofPairs,Fields.ofList_of_ordered ho]

mutual

/-- Whatever is read as a value has its objects in order and finite reals. -/
theorem value?_tidy : (t : Tree) → {v : Value} → t.value? = some v → v.Tidy Value.isFinite
  | .null, _, h => by
    cases h
    exact .null
  | .bool b, _, h => by
    cases h
    exact .bool b
  | .int n, _, h => by
    cases h
    exact .int trivial
  | .float d, _, h => by
    rw [value?] at h
    split at h
    · next hd =>
      cases h
      exact .float hd
    · cases h
      exact .null
  | .string s, _, h => by
    cases h
    exact .string s
  | .list items, _, h => by
    obtain ⟨vs,hvs,rfl⟩ := Option.map_eq_some_iff.mp h
    exact .array (valueItems?_tidy items hvs)
  | .map entries, _, h => by
    obtain ⟨fields,hfields,rfl⟩ := Option.map_eq_some_iff.mp h
    exact .ofPairs (valueFields?_tidy entries hfields)

theorem valueItems?_tidy : (items : List Tree) → {vs : List Value} → valueItems? items = some vs →
    ∀ v ∈ vs, v.Tidy Value.isFinite
  | [], _, h, v, hv => by
    cases h
    cases hv
  | t::ts, _, h, v, hv => by
    rw [valueItems?] at h
    split at h
    · next w ws hw hws =>
      cases h
      rcases List.mem_cons.mp hv with rfl | hv
      · exact value?_tidy t hw
      · exact valueItems?_tidy ts hws v hv
    · cases h

theorem valueFields?_tidy : (entries : List (Tree × Tree)) → {fields : List (String × Value)} →
    valueFields? entries = some fields → ∀ p ∈ fields, p.2.Tidy Value.isFinite
  | [], _, h, p, hp => by
    cases h
    cases hp
  | (k,t)::rest, _, h, p, hp => by
    unfold valueFields? at h
    split at h
    · next hw hws =>
      cases h
      rcases List.mem_cons.mp hp with rfl | hp
      · exact value?_tidy t hw
      · exact valueFields?_tidy rest hws p hp
    · cases h

end

end Values

end Tree

namespace Node

mutual

/-- The tree of the node for a tree. -/
theorem tree?_ofTree : (t : Tree) → (ofTree t).tree? = some t
  | .null | .bool _ | .int _ | .float _ | .string _ => rfl
  | .list items => by
    rw [ofTree,tree?,treeItems?_ofTree items]
    rfl
  | .map entries => by
    rw [ofTree,tree?,treeEntries?_ofTree entries]
    rfl

theorem treeItems?_ofTree : (items : List Tree) → treeItems? (ofTreeItems items) = some items
  | [] => rfl
  | t::ts => by rw [ofTreeItems,treeItems?,tree?_ofTree t,treeItems?_ofTree ts]

theorem treeEntries?_ofTree : (entries : List (Tree × Tree)) →
    treeEntries? (ofTreeEntries entries) = some entries
  | [] => rfl
  | (k,v)::rest => by
    rw [ofTreeEntries,treeEntries?,tree?_ofTree k,tree?_ofTree v,treeEntries?_ofTree rest]

end

theorem ofTreeItems_eq (items : List Tree) : ofTreeItems items = items.map ofTree := by
  induction items with
  | nil => rfl
  | cons t rest ih => rw [ofTreeItems,ih,List.map_cons]

/-- The parts of the node for a record. -/
theorem entries?_ofFields (fields : List (String × Tree)) :
    (ofTree (Tree.ofFields fields)).entries? = some (fields.map fun f => (f.1,ofTree f.2)) := by
  have hentries : (ofTreeEntries (fields.map fun f => (Tree.string f.1,f.2))).mapM
      (fun e => e.1.asText?.map fun k => (k,e.2)) = some (fields.map fun f => (f.1,ofTree f.2)) := by
    induction fields with
    | nil => rfl
    | cons f rest ih =>
      rw [List.map_cons,ofTreeEntries,List.mapM_cons,ih]
      rfl
  exact hentries

mutual

theorem value?_tidy : (node : Node) → {v : Value} → node.value? = some v → v.Tidy Value.isFinite
  | .scalar s, _, h => by
    obtain ⟨t,-,ht⟩ := Option.bind_eq_some_iff.mp h
    exact Tree.value?_tidy t ht
  | .sequence tagged items, _, h => by
    rw [value?] at h
    split at h
    · cases h
    · obtain ⟨vs,hvs,rfl⟩ := Option.map_eq_some_iff.mp h
      exact .array (valueItems?_tidy items hvs)
  | .mapping tagged entries, _, h => by
    rw [value?] at h
    split at h
    · cases h
    · obtain ⟨fields,hfields,rfl⟩ := Option.map_eq_some_iff.mp h
      exact .ofPairs (valueFields?_tidy entries hfields)
  | .nothing, _, h => by
    cases h
    exact .null

theorem valueItems?_tidy : (items : List Node) → {vs : List Value} → valueItems? items = some vs →
    ∀ v ∈ vs, v.Tidy Value.isFinite
  | [], _, h, v, hv => by
    cases h
    cases hv
  | x::xs, _, h, v, hv => by
    rw [valueItems?] at h
    split at h
    · next hw hws =>
      cases h
      rcases List.mem_cons.mp hv with rfl | hv
      · exact value?_tidy x hw
      · exact valueItems?_tidy xs hws v hv
    · cases h

theorem valueFields?_tidy : (entries : List (Node × Node)) → {fields : List (String × Value)} →
    valueFields? entries = some fields → ∀ p ∈ fields, p.2.Tidy Value.isFinite
  | [], _, h, p, hp => by
    cases h
    cases hp
  | (k,x)::rest, _, h, p, hp => by
    rw [valueFields?] at h
    split at h
    · next hw hws =>
      cases h
      rcases List.mem_cons.mp hp with rfl | hp
      · exact value?_tidy x hw
      · exact valueFields?_tidy rest hws p hp
    · cases h

end

/-- A value is read straight from the node for its tree. -/
theorem value?_ofValue {v : Value} (h : v.Tidy Value.isFinite) :
    (ofTree (Tree.ofValue v)).value? = some v := by
  induction h with
  | null | bool | int | string => rfl
  | @float d h =>
    have hd : d.isFinite = true := h
    show (ofDouble d).value? = some (.float d)
    unfold ofDouble
    simp [value?,Scalar.tree?,Scalar.isTagged,Scalar.isApplicationTag,Tree.value?,hd]
  | @array items _ ih =>
    have hitems (l : List Value) (hl : l ⊆ items) :
        valueItems? (ofTreeItems (Tree.ofValues l)) = some l := by
      induction l with
      | nil => rfl
      | cons v rest ihl =>
        have hrest := ihl fun w hw => hl (List.mem_cons_of_mem v hw)
        rw [Tree.ofValues,ofTreeItems,valueItems?,ih v (hl List.mem_cons_self),hrest]
    rw [Tree.ofValue,ofTree,value?,hitems items (List.Subset.refl items)]
    rfl
  | @object fields ho _ ih =>
    have hfields (l : Fields) (hl : l ⊆ fields) :
        valueFields? (ofTreeEntries (Tree.ofValueFields l)) = some l := by
      induction l with
      | nil => rfl
      | cons p rest ihl =>
        have hrest := ihl fun q hq => hl (List.mem_cons_of_mem p hq)
        have hkey : (ofTree (Tree.string p.1)).asText? = some p.1 := rfl
        simp only [Tree.ofValueFields,ofTreeEntries,valueFields?,hkey,ih p (hl List.mem_cons_self),
          hrest]
    rw [Tree.ofValue,ofTree,value?,hfields fields (List.Subset.refl fields)]
    simp [Value.ofPairs,Fields.ofList_of_ordered ho]

end Node

section Whole

variable {n : Nat}

/-- The first digit is no sign, and no other letter follows a leading zero. -/
theorem digits_start (n : Nat) : ∃ c cs, Text.digits n = c::cs ∧ c ≠ '+' ∧ c ≠ '-' ∧
    (c = '0' → cs = []) := by
  obtain ⟨c,cs,hc⟩ := List.exists_cons_of_ne_nil (Text.digits_ne_nil n)
  have hdigit : c.isDigit = true := Text.isDigit_of_mem_digits (hc ▸ List.mem_cons_self)
  refine ⟨c,cs,hc,?_,?_,?_⟩
  · rintro rfl
    cases hdigit
  · rintro rfl
    cases hdigit
  · rintro rfl
    exact Text.digits_of_head_zero hc

theorem natIn_digits (n : Nat) : Atom.natIn 10 (Text.digits n) = some n := by
  have hdigit {c : Char} (hc : c.isDigit = true) : Atom.digitIn 10 c = some (c.toNat-48) := by
    have hrange := Text.toNat_of_isDigit hc
    have hlt : c.toNat-48 < 10 := by omega
    unfold Atom.digitIn
    simp [hrange,hlt]
  have hfold (cs : List Char) (hcs : ∀ c ∈ cs, c.isDigit = true) (start : Nat) :
      cs.foldlM (fun n c => (Atom.digitIn 10 c).map (n*10+·)) start =
        some (Text.digitsValueFrom start cs) := by
    induction cs generalizing start with
    | nil => rfl
    | cons c rest ih =>
      rw [List.foldlM_cons,hdigit (hcs c List.mem_cons_self)]
      exact ih (fun d hd => hcs d (List.mem_cons_of_mem c hd)) _
  unfold Atom.natIn
  rw [if_neg (by simpa using Text.digits_ne_nil n),hfold _ (fun c => Text.isDigit_of_mem_digits),
    Text.digitsValueFrom_digits]

theorem isZeroPadded_digits (n : Nat) : Atom.isZeroPadded (Text.digits n) = false := by
  obtain ⟨c,cs,hc,hplus,hminus,hzero⟩ := digits_start n
  rw [hc]
  unfold Atom.isZeroPadded
  split
  · next he => exact absurd (List.cons.inj he).1 hminus
  · next he => exact absurd (List.cons.inj he).1 hplus
  · dsimp only
    split
    · next he => cases hzero (List.cons.inj he).1 ▸ (List.cons.inj he).2
    · rfl

theorem magnitude_digits (n : Nat) : Atom.magnitude (Text.digits n) = some n := by
  obtain ⟨c,cs,hc,-,-,hzero⟩ := digits_start n
  have hpadded := isZeroPadded_digits n
  have hnat := natIn_digits n
  rw [hc] at hnat hpadded ⊢
  unfold Atom.magnitude
  split
  · next he => cases hzero (List.cons.inj he).1 ▸ (List.cons.inj he).2
  · next he => cases hzero (List.cons.inj he).1 ▸ (List.cons.inj he).2
  · next he => cases hzero (List.cons.inj he).1 ▸ (List.cons.inj he).2
  · rw [hpadded]
    exact hnat

theorem wholeNumber_digits (n : Nat) : Atom.wholeNumber (Text.digits n) = some (n : Int) := by
  obtain ⟨c,cs,hc,hplus,hminus,-⟩ := digits_start n
  have hmagnitude := magnitude_digits n
  rw [hc] at hmagnitude ⊢
  unfold Atom.wholeNumber
  split
  · next he => exact absurd (List.cons.inj he).1 hplus
  · next he => exact absurd (List.cons.inj he).1 hminus
  · rw [hmagnitude]
    rfl

theorem ofWhole_ofNat (h : n < Nat.pow 2 64) : Atom.ofWhole n = some (.int n) := by
  have hlow : -((Nat.pow 2 63 : Nat) : Int) ≤ n :=
    Int.le_trans (Int.neg_nonpos_of_nonneg (Int.natCast_nonneg _)) (Int.natCast_nonneg n)
  have hhigh : (n : Int) < ((Nat.pow 2 64 : Nat) : Int) := Int.ofNat_lt.mpr h
  unfold Atom.ofWhole
  rw [if_pos ⟨hlow,hhigh⟩]

/-- Digits stand for their number, as far as it fits 64 bits. -/
theorem ofPlain_digits {s : String} (hs : s.toList = Text.digits n) (h : n < Nat.pow 2 64) :
    Atom.ofPlain s = .int n := by
  have hne (w : String) (hw : w.toList.all Char.isDigit = false) : s ≠ w := by
    rintro rfl
    have hall : (Text.digits n).all Char.isDigit = true :=
      List.all_eq_true.mpr fun c => Text.isDigit_of_mem_digits
    rw [hs,hall] at hw
    cases hw
  have hempty : s.isEmpty = false := by
    rw [String.isEmpty_eq_false_iff]
    rintro rfl
    exact Text.digits_ne_nil n hs.symm
  have hnull : Atom.isNullWord s = false := by
    simp [Atom.isNullWord,hne "null" rfl,hne "Null" rfl,hne "NULL" rfl,hne "~" rfl]
  have htruth : Atom.truth? s = none := by
    simp [Atom.truth?,hne "true" rfl,hne "True" rfl,hne "TRUE" rfl,hne "false" rfl,
      hne "False" rfl,hne "FALSE" rfl]
  unfold Atom.ofPlain
  rw [hempty,hnull,htruth,hs,wholeNumber_digits]
  rw [if_neg (by simp),Option.bind_some,ofWhole_ofNat h]

end Whole

end Yaml

end TaskGraph
