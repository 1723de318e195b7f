import Mathlib.Data.List.Forall2
import Mathlib.Data.List.Nodup
import Mathlib.Data.List.Perm.Subperm
import TaskGraph.Proofs.Data.Ordered
import TaskGraph.Proofs.Template.Naming

/-!
The shape of a rendered value. Rendering goes into lists and objects part by part and leaves alone all
that has no marks. Only of an object some entries can go: those whose rendered names come again.
-/

namespace TaskGraph

namespace Fields

theorem names_nodup {fields : Fields} (h : Ordered fields) : (fields.map (·.1)).Nodup := by
  refine List.Pairwise.imp (fun {name other} hlt => ?_) h
  rintro rfl
  exact String.lt_irrefl name hlt

theorem get?_of_mem {name : String} {v : Value} {fields : Fields} (ho : Ordered fields)
    (h : (name,v) ∈ fields) : get? name fields = some v := by
  induction fields with
  | nil => cases h
  | cons p rest ih =>
    obtain ⟨hp,hrest⟩ := List.pairwise_cons.mp ho
    rcases List.mem_cons.mp h with rfl | h
    · simp [get?]
    · have hlt : p.1 < name := hp name (List.mem_map_of_mem (f := (·.1)) h)
      have hne : name ≠ p.1 := fun he => String.lt_irrefl _ (he ▸ hlt)
      rw [get?,if_neg hne,ih hrest h]

/-- In order, fields are known by what they give for each name. -/
theorem ext_get? {fields others : Fields} (h : Ordered fields) (ho : Ordered others)
    (hget : ∀ name, get? name fields = get? name others) : fields = others := by
  have hmem (p : String × Value) : p ∈ fields ↔ p ∈ others :=
    ⟨fun hp => mem_of_get? (hget p.1 ▸ get?_of_mem h hp),
      fun hp => mem_of_get? (hget p.1 ▸ get?_of_mem ho hp)⟩
  have hnodup := (names_nodup h).of_map
  have hperm := (List.perm_ext_iff_of_nodup hnodup ((names_nodup ho).of_map _)).mpr hmem
  -- What has the same members in the same order is the same.
  refine List.Perm.eq_of_pairwise ?_ (List.pairwise_map.mp h) (List.pairwise_map.mp ho) hperm
  exact fun p q _ _ hpq hqp => absurd (String.lt_trans hpq hqp) (String.lt_irrefl _)

/-- What becomes of entries that are put into an object one by one: of those with one name the last is
kept, so that all are there if no name comes twice, and not all if one does. -/
structure Collects (entries : List (String × Value)) (fields : Fields) : Prop where
  ordered : Ordered fields
  last : ∀ name, get? name fields = entries.reverse.lookup name
  names : ∀ name, name ∈ fields.map (·.1) ↔ name ∈ entries.map (·.1)
  whole : (entries.map (·.1)).Nodup → fields.Perm entries
  lossy : ¬(entries.map (·.1)).Nodup → fields.length < entries.length

section Collecting

variable (entries : List (String × Value))

theorem mem_names_ofList (name : String) :
    name ∈ (ofList entries).map (·.1) ↔ name ∈ entries.map (·.1) := by
  constructor
  · intro h
    obtain ⟨p,hp,rfl⟩ := List.mem_map.mp h
    exact List.mem_map_of_mem (mem_ofList hp)
  · intro h
    obtain ⟨p,hp,rfl⟩ := List.mem_map.mp h
    have hsome : (entries.reverse.lookup p.1).isSome = true :=
      List.lookup_isSome_iff.mpr ⟨p,List.mem_reverse.mpr hp,beq_self_eq_true p.1⟩
    rw [← get?_ofList] at hsome
    obtain ⟨v,hv⟩ := Option.isSome_iff_exists.mp hsome
    exact List.mem_map_of_mem (f := (·.1)) (mem_of_get? hv)

theorem ofList_perm (h : (entries.map (·.1)).Nodup) : (ofList entries).Perm entries := by
  have hfields := (names_nodup (ofList_ordered entries)).of_map
  refine (List.perm_ext_iff_of_nodup hfields (h.of_map _)).mpr fun p => ⟨mem_ofList,fun hp => ?_⟩
  obtain ⟨q,hq,he⟩ := List.mem_map.mp
    ((mem_names_ofList entries p.1).mpr (List.mem_map_of_mem (f := (·.1)) hp))
  rwa [← List.inj_on_of_nodup_map h (mem_ofList hq) hp he]

theorem length_ofList_lt (h : ¬(entries.map (·.1)).Nodup) :
    (ofList entries).length < entries.length := by
  have hfields := names_nodup (ofList_ordered entries)
  have hsub : ((ofList entries).map (·.1)).Subperm (entries.map (·.1)) :=
    hfields.subperm fun name => (mem_names_ofList entries name).mp
  refine Nat.lt_of_not_le fun hle => h ?_
  have hperm := hsub.perm_of_length_le (by simpa using hle)
  exact hperm.nodup hfields

theorem collects_ofList : Collects entries (ofList entries) where
  ordered := ofList_ordered entries
  last name := get?_ofList name entries
  names := mem_names_ofList entries
  whole := ofList_perm entries
  lossy := length_ofList_lt entries

theorem collects_iff {fields : Fields} : Collects entries fields ↔ fields = ofList entries := by
  constructor
  · intro h
    refine ext_get? h.ordered (ofList_ordered entries) fun name => ?_
    rw [h.last,get?_ofList]
  · rintro rfl
    exact collects_ofList entries

end Collecting

end Fields

/-- Induction over a value and all that lies in it. -/
theorem Value.induction_parts {motive : Value → Prop} (null : motive .null)
    (bool : ∀ b, motive (.bool b)) (int : ∀ n, motive (.int n)) (float : ∀ d, motive (.float d))
    (string : ∀ s, motive (.string s))
    (array : ∀ items, (∀ v ∈ items, motive v) → motive (.array items))
    (object : ∀ fields, (∀ p ∈ fields, motive p.2) → motive (.object fields)) (v : Value) :
    motive v := by
  induction hs : sizeOf v using Nat.strongRecOn generalizing v with
  | ind size ih =>
    cases v with
    | null => exact null
    | bool b => exact bool b
    | int n => exact int n
    | float d => exact float d
    | string s => exact string s
    | array items =>
      refine array items fun v hv => ih _ ?_ v rfl
      have hlt := List.sizeOf_lt_of_mem hv
      rw [← hs,Value.array.sizeOf_spec]
      omega
    | object fields =>
      refine object fields fun p hp => ih _ ?_ p.2 rfl
      have hlt := List.sizeOf_lt_of_mem hp
      rw [Prod.mk.sizeOf_spec] at hlt
      rw [← hs,Value.object.sizeOf_spec]
      omega

namespace Template

section Shapes

variable (world : Surroundings) (scope : Value)

/-- A text without marks stays as it is, another one becomes what it is rendered to. -/
inductive RendersText : String → String → Prop
  | plain {s : String} (h : hasMarks s = false) : RendersText s s
  | marked {s t : String} (h : hasMarks s = true) (ht : renderText world s scope = .ok t) :
    RendersText s t

/-- What a value becomes, part by part. -/
inductive Renders : Value → Value → Prop
  | null : Renders .null .null
  | bool (b : Bool) : Renders (.bool b) (.bool b)
  | int (n : Int) : Renders (.int n) (.int n)
  | float (d : Double) : Renders (.float d) (.float d)
  | string {s t : String} (h : RendersText world scope s t) : Renders (.string s) (.string t)
  | array {items rendered : List Value} (h : List.Forall₂ Renders items rendered) :
    Renders (.array items) (.array rendered)
  | object {fields entries : List (String × Value)} {rendered : Fields}
    (hnames : List.Forall₂ (RendersText world scope) (fields.map (·.1)) (entries.map (·.1)))
    (hvalues : List.Forall₂ Renders (fields.map (·.2)) (entries.map (·.2)))
    (h : Fields.Collects entries rendered) : Renders (.object fields) (.object rendered)

end Shapes

section Parts

variable {world : Surroundings} {scope : Value}

theorem renderString_eq_ok {s t : String} :
    renderString world scope s = .ok t ↔ RendersText world scope s t := by
  rw [renderString]
  constructor
  · intro h
    split at h
    · next hm => exact .marked hm h
    · next hm =>
      obtain rfl := Except.ok.inj h
      exact .plain (Bool.eq_false_iff.mpr hm)
  · rintro (⟨hm⟩ | ⟨hm,ht⟩)
    · rw [if_neg (by simp [hm])]
    · rw [if_pos hm,ht]

theorem bind_eq_ok {α β : Type} {x : Except Fault α} {f : α → Except Fault β} {b : β} :
    (x >>= f) = .ok b ↔ ∃ a, x = .ok a ∧ f a = .ok b := by
  cases x <;> simp [bind,Except.bind]

theorem renderItems_eq_ok {items rendered : List Value}
    (hparts : ∀ v ∈ items, ∀ w, renderValue world scope v = .ok w ↔ Renders world scope v w) :
    renderItems world scope items = .ok rendered ↔
      List.Forall₂ (Renders world scope) items rendered := by
  induction items generalizing rendered with
  | nil => simp [renderItems,eq_comm]
  | cons v vs ih =>
    have hrest := fun ws => @ih ws fun u hu => hparts u (List.mem_cons_of_mem v hu)
    rw [renderItems,List.forall₂_cons_left_iff]
    simp only [bind_eq_ok,hparts v List.mem_cons_self,hrest,Except.ok.injEq,exists_and_left,
      eq_comm (a := rendered)]

theorem renderFields_eq_ok {fields entries : List (String × Value)}
    (hparts : ∀ p ∈ fields, ∀ w, renderValue world scope p.2 = .ok w ↔ Renders world scope p.2 w) :
    renderFields world scope fields = .ok entries ↔
      List.Forall₂ (RendersText world scope) (fields.map (·.1)) (entries.map (·.1)) ∧
      List.Forall₂ (Renders world scope) (fields.map (·.2)) (entries.map (·.2)) := by
  induction fields generalizing entries with
  | nil => simp [renderFields,eq_comm]
  | cons p rest ih =>
    have hrest := fun more => @ih more fun q hq => hparts q (List.mem_cons_of_mem p hq)
    rw [renderFields]
    simp only [bind_eq_ok,renderString_eq_ok,hparts p List.mem_cons_self,hrest,Except.ok.injEq,
      List.map_cons]
    constructor
    · rintro ⟨name,hname,w,hw,more,⟨hnames,hvalues⟩,rfl⟩
      exact ⟨.cons hname hnames,.cons hw hvalues⟩
    · rintro ⟨hnames,hvalues⟩
      cases entries with
      | nil => cases hnames
      | cons q more =>
        obtain ⟨hname,hnames⟩ := List.forall₂_cons.mp hnames
        obtain ⟨hw,hvalues⟩ := List.forall₂_cons.mp hvalues
        exact ⟨q.1,hname,q.2,hw,more,⟨hnames,hvalues⟩,rfl⟩

/-- Rendering gives what a value becomes part by part, and fails if there is nothing that it becomes. A
list keeps its length and its order, what is no text or has no marks stays, and an object loses entries
just when two of its names are rendered alike. -/
theorem rendered_values_keep_their_shape (world : Surroundings) (scope v w : Value) :
    renderValue world scope v = .ok w ↔ Renders world scope v w := by
  induction v using Value.induction_parts generalizing w with
  | null | bool | int | float =>
    simp only [renderValue,Except.ok.injEq]
    constructor
    · rintro rfl
      constructor
    · rintro ⟨⟩
      rfl
  | string s =>
    simp only [renderValue,bind_eq_ok,renderString_eq_ok,Except.ok.injEq]
    constructor
    · rintro ⟨t,h,rfl⟩
      exact .string h
    · intro h
      cases h with
      | string h => exact ⟨_,h,rfl⟩
  | array items ih =>
    simp only [renderValue,bind_eq_ok,renderItems_eq_ok ih,Except.ok.injEq]
    constructor
    · rintro ⟨rendered,h,rfl⟩
      exact .array h
    · intro h
      cases h with
      | array h => exact ⟨_,h,rfl⟩
  | object fields ih =>
    simp only [renderValue,bind_eq_ok,renderFields_eq_ok ih,Except.ok.injEq,Value.ofPairs]
    constructor
    · rintro ⟨entries,⟨hnames,hvalues⟩,rfl⟩
      exact .object hnames hvalues (Fields.collects_ofList entries)
    · intro h
      cases h with
      | object hnames hvalues h =>
        exact ⟨_,⟨hnames,hvalues⟩,by rw [(Fields.collects_iff _).mp h]⟩

theorem texts_of_plain {names others : List String} (hplain : ∀ name ∈ names, hasMarks name = false)
    (h : List.Forall₂ (RendersText world scope) names others) : others = names := by
  induction h with
  | nil => rfl
  | cons hname _ ih =>
    obtain ⟨hp,hrest⟩ := List.forall_mem_cons.mp hplain
    rw [ih hrest]
    cases hname with
    | plain => rfl
    | marked hm => simp [hm] at hp

/-- An object loses nothing by names without marks. -/
theorem Renders.of_plain_names {fields : Fields} {w : Value} (ho : Fields.Ordered fields)
    (hplain : ∀ name ∈ fields.map (·.1), hasMarks name = false)
    (h : Renders world scope (.object fields) w) :
    ∃ rendered, w = .object rendered ∧ rendered.map (·.1) = fields.map (·.1) ∧
      List.Forall₂ (Renders world scope) (fields.map (·.2)) (rendered.map (·.2)) := by
  cases h with
  | @object _ entries rendered hnames hvalues h =>
    have hsame := texts_of_plain hplain hnames
    have hordered : Fields.Ordered entries := by
      unfold Fields.Ordered at ho ⊢
      rwa [hsame]
    obtain rfl := (Fields.collects_iff entries).mp h
    rw [Fields.ofList_of_ordered hordered]
    exact ⟨entries,rfl,hsame,hvalues⟩

end Parts

/-- Parameters of which the second is rendered to the name of the first. -/
def clash : Fields := [("1",.string "one"),(jsonTag "x",.string "two")]

theorem clashing_names_lose_an_entry :
    let scope : Value := .object [("x",.int 1)]
    let rendered : Fields := [("1",.string "two")]
    Fields.Ordered clash ∧ renderValue {} scope (.object clash) = .ok (.object rendered) ∧
      rendered.length < clash.length := by
  intro scope rendered
  have hone : renderString {} scope "1" = .ok "1" := rfl
  have hx : renderString {} scope (jsonTag "x") = .ok "1" :=
    renderString_jsonTag (by decide) {} (v := .int 1) rfl
  have hentries : renderFields {} scope clash =
      .ok [("1",.string "one"),("1",.string "two")] := by
    simp only [clash,renderFields,hone,hx,renderValue]
    rfl
  refine ⟨List.pairwise_pair.mpr (by decide),?_,by decide⟩
  rw [renderValue,hentries]
  rfl

end Template

end TaskGraph
