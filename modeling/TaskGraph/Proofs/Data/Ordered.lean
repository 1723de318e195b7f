import TaskGraph.Data.Value

/-!
Fields in the order of their names, and values all of whose objects are so. Equal values of this kind
have equal texts, and putting their fields in order changes nothing.
-/

namespace TaskGraph

namespace Fields

/-- The names stand in strictly increasing order. -/
def Ordered (fields : Fields) : Prop := (fields.map (·.1)).Pairwise (· < ·)

theorem mem_of_get? {name : String} {v : Value} {fields : Fields}
    (h : get? name fields = some v) : (name,v) ∈ fields := by
  induction fields with
  | nil => cases h
  | cons p rest ih =>
    rw [get?] at h
    split at h
    · next he =>
      obtain rfl := Option.some.inj h
      exact he ▸ List.mem_cons_self
    · exact List.mem_cons_of_mem p (ih h)

theorem mem_insert {name : String} {v : Value} {fields : Fields} {p : String × Value}
    (h : p ∈ insert name v fields) : p = (name,v) ∨ p ∈ fields := by
  induction fields with
  | nil => simpa [insert] using h
  | cons q rest ih =>
    simp only [insert] at h
    split at h
    · simpa using h
    split at h
    · rcases List.mem_cons.mp h with h | h
      · exact .inl h
      · exact .inr (List.mem_cons_of_mem q h)
    · rcases List.mem_cons.mp h with h | h
      · exact .inr (by simp [h])
      · exact (ih h).imp_right (List.mem_cons_of_mem q)

theorem insert_ordered {name : String} {v : Value} {fields : Fields} (h : Ordered fields) :
    Ordered (insert name v fields) := by
  induction fields with
  | nil => simp [insert,Ordered]
  | cons q rest ih =>
    obtain ⟨hq,hrest⟩ := List.pairwise_cons.mp h
    simp only [insert]
    split
    · next hlt =>
      refine List.pairwise_cons.mpr ⟨fun y hy => ?_,h⟩
      rcases List.mem_cons.mp hy with rfl | hy
      · exact hlt
      · exact String.lt_trans hlt (hq y hy)
    split
    · next he => exact he ▸ h
    · next hlt hne =>
      refine List.pairwise_cons.mpr ⟨fun y hy => ?_,ih hrest⟩
      obtain ⟨p,hp,rfl⟩ := List.mem_map.mp hy
      rcases mem_insert hp with rfl | hp
      · exact Decidable.byContradiction fun hn =>
          hne (String.le_antisymm (String.not_lt.mp hn) (String.not_lt.mp hlt))
      · exact hq p.1 (List.mem_map_of_mem hp)

theorem ofList_ordered (pairs : List (String × Value)) : Ordered (ofList pairs) := by
  have hfold (fields : Fields) (h : Ordered fields) :
      Ordered (pairs.foldl (fun fields p => insert p.1 p.2 fields) fields) := by
    induction pairs generalizing fields with
    | nil => exact h
    | cons p rest ih => exact ih _ (insert_ordered h)
  exact hfold [] .nil

theorem mem_ofList {pairs : List (String × Value)} {p : String × Value} (h : p ∈ ofList pairs) :
    p ∈ pairs := by
  have hfold (l : List (String × Value)) (fields : Fields)
      (hp : p ∈ l.foldl (fun fields p => insert p.1 p.2 fields) fields) : p ∈ fields ∨ p ∈ l := by
    induction l generalizing fields with
    | nil => exact .inl hp
    | cons q rest ih =>
      rcases ih _ hp with hp | hp
      · rcases mem_insert hp with rfl | hp
        · exact .inr List.mem_cons_self
        · exact .inl hp
      · exact .inr (List.mem_cons_of_mem q hp)
  exact (hfold pairs [] h).resolve_left List.not_mem_nil

/-- What comes after all names goes to the end. -/
theorem insert_of_last {name : String} {v : Value} {fields : Fields}
    (h : ∀ p ∈ fields, p.1 < name) : insert name v fields = fields ++ [(name,v)] := by
  induction fields with
  | nil => rfl
  | cons q rest ih =>
    have hq := h q List.mem_cons_self
    have hlt : ¬name < q.1 := fun hn => String.lt_irrefl _ (String.lt_trans hn hq)
    have hne : name ≠ q.1 := fun he => String.lt_irrefl _ (he ▸ hq)
    have hrest := ih fun p hp => h p (List.mem_cons_of_mem q hp)
    simp [insert,hlt,hne,hrest]

/-- Fields in order are in order already. -/
theorem ofList_of_ordered {fields : Fields} (h : Ordered fields) : ofList fields = fields := by
  have hfold (l kept : Fields) (h : Ordered (kept ++ l)) :
      l.foldl (fun fields p => insert p.1 p.2 fields) kept = kept ++ l := by
    induction l generalizing kept with
    | nil => simp
    | cons p rest ih =>
      have hp : ∀ q ∈ kept, q.1 < p.1 := by
        intro q hq
        unfold Ordered at h
        rw [List.map_append] at h
        exact (List.pairwise_append.mp h).2.2 q.1 (List.mem_map_of_mem hq) p.1 (by simp)
      rw [List.foldl_cons,insert_of_last hp,ih _ (by simpa using h)]
      simp
  exact hfold fields [] h

/-- Of two fields with one name the later counts. -/
theorem get?_ofList (name : String) (pairs : List (String × Value)) :
    get? name (ofList pairs) = pairs.reverse.lookup name := by
  have hfold (fields : Fields) : get? name (pairs.foldl (fun fields p => insert p.1 p.2 fields)
      fields) = (pairs.reverse.lookup name).or (get? name fields) := by
    induction pairs generalizing fields with
    | nil => rfl
    | cons p rest ih =>
      obtain ⟨key,v⟩ := p
      have hp : get? name (insert key v fields) =
          (List.lookup name [(key,v)]).or (get? name fields) := by
        by_cases he : name = key
        · simp [he]
        · have hb : (name == key) = false := by simpa using he
          simp [get?_insert_of_ne he,List.lookup_cons,hb]
      rw [List.foldl_cons,ih,hp,List.reverse_cons,List.lookup_append,Option.or_assoc]
  have h := hfold []
  rwa [show get? name [] = none from rfl,Option.or_none] at h

end Fields

namespace Value

/-- The objects that lie in a value have their names in order, and its numbers pass a test. -/
inductive Tidy (number : Value → Prop) : Value → Prop
  | null : Tidy number .null
  | bool (b : Bool) : Tidy number (.bool b)
  | int {n : Int} (h : number (.int n)) : Tidy number (.int n)
  | float {d : Double} (h : number (.float d)) : Tidy number (.float d)
  | string (s : String) : Tidy number (.string s)
  | array {items : List Value} (h : ∀ v ∈ items, Tidy number v) : Tidy number (.array items)
  | object {fields : Fields} (ho : Fields.Ordered fields) (h : ∀ p ∈ fields, Tidy number p.2) :
    Tidy number (.object fields)

theorem Tidy.ofPairs {number : Value → Prop} {pairs : List (String × Value)}
    (h : ∀ p ∈ pairs, Tidy number p.2) : Tidy number (ofPairs pairs) :=
  .object (Fields.ofList_ordered pairs) fun p hp => h p (Fields.mem_ofList hp)

theorem Tidy.ofStrings (number : Value → Prop) (names : List String) :
    Tidy number (ofStrings names) := by
  refine .array fun v hv => ?_
  obtain ⟨name,-,rfl⟩ := List.mem_map.mp hv
  exact .string name

theorem height_le_heightItems {v : Value} {items : List Value} (h : v ∈ items) :
    v.height ≤ heightItems items := by
  induction items with
  | nil => cases h
  | cons w rest ih =>
    rw [heightItems]
    rcases List.mem_cons.mp h with rfl | h
    · exact Nat.le_max_left ..
    · exact Nat.le_trans (ih h) (Nat.le_max_right ..)

theorem height_le_heightFields {p : String × Value} {fields : Fields} (h : p ∈ fields) :
    p.2.height ≤ heightFields fields := by
  induction fields with
  | nil => cases h
  | cons q rest ih =>
    rw [heightFields]
    rcases List.mem_cons.mp h with rfl | h
    · exact Nat.le_max_left ..
    · exact Nat.le_trans (ih h) (Nat.le_max_right ..)

end Value

end TaskGraph
