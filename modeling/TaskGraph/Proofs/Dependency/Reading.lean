import Mathlib.Data.List.Nodup
import TaskGraph.Proofs.Definition.Written

/-!
Which trees are read as dependencies, and as which. A name, a list and a record with one operator are
read as they are meant; beyond that, parts of a record may be null, an operator may be given by its
place, and a record may be given as a list of its parts if one of them is null.
-/

namespace TaskGraph

open Yaml

section Lists

variable {α β : Type}

theorem mapM_eq_some_iff_forall₂ {f : α → Option β} {l : List α} {l' : List β} :
    l.mapM f = some l' ↔ List.Forall₂ (fun x y => f x = some y) l l' := by
  induction l generalizing l' with
  | nil => simp [eq_comm]
  | cons x rest ih =>
    rw [List.mapM_cons]
    constructor
    · intro h
      obtain ⟨y,hy,h⟩ := Option.bind_eq_some_iff.mp h
      obtain ⟨ys,hys,h⟩ := Option.bind_eq_some_iff.mp h
      cases h
      exact .cons hy (ih.mp hys)
    · rintro (_ | ⟨hy,hys⟩)
      rw [hy,ih.mpr hys]
      rfl

/-- Members that are related stay so where the relation implies another. -/
theorem forall₂_imp_of_mem {R S : α → β → Prop} {l : List α} {l' : List β}
    (h : List.Forall₂ R l l') (hi : ∀ x ∈ l, ∀ y, R x y → S x y) : List.Forall₂ S l l' := by
  induction h with
  | nil => exact .nil
  | cons hx _ ih =>
    exact .cons (hi _ List.mem_cons_self _ hx) (ih fun x hm => hi x (List.mem_cons_of_mem _ hm))

theorem exists_of_mem_forall₂ {R : α → β → Prop} {l : List α} {l' : List β} {x : α}
    (h : List.Forall₂ R l l') (hx : x ∈ l) : ∃ y ∈ l', R x y := by
  induction h with
  | nil => cases hx
  | cons hy _ ih =>
    rcases List.mem_cons.mp hx with rfl | hx
    · exact ⟨_,List.mem_cons_self,hy⟩
    · obtain ⟨y,hm,hy⟩ := ih hx
      exact ⟨y,List.mem_cons_of_mem _ hm,hy⟩

end Lists

namespace Yaml.Entries

variable {entries : Entries Tree} {name : String} {v : Tree}

/-- A part is looked up if and only if it does not stand twice. -/
theorem part?_isSome_iff : (entries.part? [name]).isSome = true ↔
    (entries.map (·.1)).count name ≤ 1 := by
  have hcount : (entries.map (·.1)).count name =
      (entries.filter fun e => [name].contains e.1).length := by
    rw [List.count_eq_countP,List.countP_map,List.countP_eq_length_filter]
    congr 2
    funext e
    by_cases h : e.1 = name <;> simp [h]
  rw [hcount,part?]
  generalize (entries.filter fun e => [name].contains e.1) = found
  rcases found with _ | ⟨e,_ | ⟨f,rest⟩⟩ <;> simp

theorem part?_of_mem (hd : (entries.map (·.1)).Nodup) (h : (name,v) ∈ entries) :
    entries.part? [name] = some (some v) := by
  have hfilter : (entries.filter fun e => [name].contains e.1) = [(name,v)] := by
    induction entries with
    | nil => cases h
    | cons e rest ih =>
      obtain ⟨hnew,hrest⟩ := List.nodup_cons.mp hd
      rcases List.mem_cons.mp h with h | h
      · subst h
        have hnone : (rest.filter fun e => [name].contains e.1) = [] := by
          refine List.filter_eq_nil_iff.mpr fun e he hc => hnew ?_
          have hname : e.1 = name := by simpa using hc
          exact hname ▸ List.mem_map_of_mem (f := (·.1)) he
        rw [List.filter_cons,if_pos (by simp),hnone]
      · have hne : e.1 ≠ name := by
          rintro rfl
          exact hnew (List.mem_map_of_mem (f := (·.1)) h)
        rw [List.filter_cons,if_neg (by simpa using hne),ih hrest h]
  rw [part?,hfilter]

theorem part?_of_notMem (h : name ∉ entries.map (·.1)) : entries.part? [name] = some none := by
  have hfilter : (entries.filter fun e => [name].contains e.1) = [] := by
    refine List.filter_eq_nil_iff.mpr fun e he hc => h ?_
    have hname : e.1 = name := by simpa using hc
    exact hname ▸ List.mem_map_of_mem (f := (·.1)) he
  rw [part?,hfilter]

section Optional

variable {β : Type} {read : Tree → Option β}

theorem optional?_of_notMem {α : Type} {read : Tree → Option (Option α)}
    (h : name ∉ entries.map (·.1)) : entries.optional? [name] read = some none := by
  rw [optional?,defaulted?,part?_of_notMem h]
  rfl

variable (hd : (entries.map (·.1)).Nodup)

include hd

theorem optional?_of_mem {α : Type} {read : Tree → Option (Option α)} (h : (name,v) ∈ entries) :
    entries.optional? [name] read = read v := by
  rw [optional?,defaulted?,part?_of_mem hd h]
  rfl

/-- A part that may be left out counts as left out where it is null. -/
theorem optional?_eq_none_iff : entries.optional? [name] (Tree.asOption? read) = some none ↔
    ∀ v, (name,v) ∈ entries → v = .null := by
  constructor
  · intro h v hv
    rw [optional?_of_mem hd hv] at h
    unfold Tree.asOption? at h
    split at h
    · rfl
    · simp at h
  · intro hnull
    by_cases h : name ∈ entries.map (·.1)
    · obtain ⟨e,he,hname⟩ := List.mem_map.mp h
      have hv : (name,e.2) ∈ entries := hname ▸ he
      rw [optional?_of_mem hd hv,hnull _ hv]
      rfl
    · exact optional?_of_notMem h

theorem optional?_eq_some_iff {x : β} :
    entries.optional? [name] (Tree.asOption? read) = some (some x) ↔
      ∃ v, (name,v) ∈ entries ∧ v ≠ .null ∧ read v = some x := by
  have hoption (v : Tree) : Tree.asOption? read v = some (some x) ↔ v ≠ .null ∧ read v = some x := by
    cases v <;> simp [Tree.asOption?]
  constructor
  · intro h
    by_cases hm : name ∈ entries.map (·.1)
    · obtain ⟨e,he,hname⟩ := List.mem_map.mp hm
      have hv : (name,e.2) ∈ entries := hname ▸ he
      rw [optional?_of_mem hd hv] at h
      exact ⟨e.2,hv,(hoption _).mp h⟩
    · rw [optional?_of_notMem hm] at h
      cases h
  · rintro ⟨v,hv,hx⟩
    rw [optional?_of_mem hd hv]
    exact (hoption v).mpr hx

end Optional

end Yaml.Entries

namespace Dependency

/-- What is written for dependencies: a name, a list that means all of its members, or a record with
one operator. -/
inductive Denotes : Tree → Dependency → Prop
  | node {id : String} : Denotes (.string id) (.node id)
  | list {items : List Tree} {terms : List Dependency} : List.Forall₂ Denotes items terms →
    Denotes (.list items) (.all terms)
  | all {items : List Tree} {terms : List Dependency} : List.Forall₂ Denotes items terms →
    Denotes (Tree.ofFields [("and",.list items)]) (.all terms)
  | any {items : List Tree} {terms : List Dependency} : List.Forall₂ Denotes items terms →
    Denotes (Tree.ofFields [("or",.list items)]) (.any terms)
  | negation {tree : Tree} {term : Dependency} : Denotes tree term →
    Denotes (Tree.ofFields [("not",tree)]) (.negation term)

/-- A tree without nulls in which all keys are names. -/
inductive Strict : Tree → Prop
  | bool {b : Bool} : Strict (.bool b)
  | int {n : Int} : Strict (.int n)
  | float {x : Double} : Strict (.float x)
  | string {text : String} : Strict (.string text)
  | list {items : List Tree} : (∀ t ∈ items, Strict t) → Strict (.list items)
  | map {fields : List (Tree × Tree)} : (∀ f ∈ fields, ∃ name, f.1 = .string name) →
    (∀ f ∈ fields, Strict f.2) → Strict (.map fields)

/-- A key is the name of an operator or its place among the operators. -/
inductive Key : Tree → String → Prop
  | name {name : String} : Key (.string name) name
  | place {n : Nat} {name : String} : partNames[n]? = some name → Key (.int n) name

/-- The parts of a record of operators. A list gives them in order; it is no record if it may be a
conjunction, in which nothing is null. -/
inductive HasParts : Tree → Entries Tree → Prop
  | map {fields : List (Tree × Tree)} {entries : Entries Tree} :
    List.Forall₂ (fun f e => Key f.1 e.1 ∧ f.2 = e.2) fields entries → HasParts (.map fields) entries
  | list {items : List Tree} : items.length ≤ partNames.length → .null ∈ items →
    HasParts (.list items) (partNames.zip items)

/-- One part of a record counts. No operator stands twice, and all other parts are null. -/
structure Alone (entries : Entries Tree) (name : String) (operand : Tree) : Prop where
  known : ∀ e ∈ entries, e.1 ∈ partNames
  distinct : (entries.map (·.1)).Nodup
  mem : (name,operand) ∈ entries
  counts : operand ≠ .null
  others : ∀ e ∈ entries, e.1 ≠ name → e.2 = .null

/-- What the parts of a record mean: one of them counts, and its operand is taken for something. -/
inductive OfParts (R : Tree → Dependency → Prop) : Dependency → Entries Tree → Prop
  | all {entries : Entries Tree} {items : List Tree} {terms : List Dependency} :
    Alone entries "and" (.list items) → List.Forall₂ R items terms → OfParts R (.all terms) entries
  | any {entries : Entries Tree} {items : List Tree} {terms : List Dependency} :
    Alone entries "or" (.list items) → List.Forall₂ R items terms → OfParts R (.any terms) entries
  | negation {entries : Entries Tree} {operand : Tree} {term : Dependency} :
    Alone entries "not" operand → R operand term → OfParts R (.negation term) entries

/-- What is read as a dependency. -/
inductive Reads : Tree → Dependency → Prop
  | node {id : String} : Reads (.string id) (.node id)
  | list {items : List Tree} {terms : List Dependency} : List.Forall₂ Reads items terms →
    Reads (.list items) (.all terms)
  | record {tree : Tree} {entries : Entries Tree} {d : Dependency} : HasParts tree entries →
    OfParts Reads d entries → Reads tree d

section Records

variable {read : Tree → Option Dependency} {entries : Entries Tree} {d : Dependency}

theorem OfParts.known {R : Tree → Dependency → Prop} (h : OfParts R d entries) :
    ∀ e ∈ entries, e.1 ∈ partNames := by
  cases h with
  | all ha | any ha | negation ha => exact ha.known

theorem Alone.optional?_other {name : String} {operand : Tree} (h : Alone entries name operand)
    {β : Type} (read : Tree → Option β) (other : String) (hne : other ≠ name) :
    entries.optional? [other] (Tree.asOption? read) = some none :=
  (Entries.optional?_eq_none_iff h.distinct).mpr fun _ hv => h.others _ hv hne

theorem alone_of_null {name a b : String} {operand : Tree}
    (hk : ∀ e ∈ entries, e.1 ∈ partNames) (hd : (entries.map (·.1)).Nodup)
    (hm : (name,operand) ∈ entries) (hc : operand ≠ .null)
    (hnames : ∀ other ∈ partNames, other = name ∨ other = a ∨ other = b)
    (ha : ∀ v, (a,v) ∈ entries → v = .null) (hb : ∀ v, (b,v) ∈ entries → v = .null) :
    Alone entries name operand := by
  refine ⟨hk,hd,hm,hc,fun e he hne => ?_⟩
  obtain h | h | h := hnames e.1 (hk e he)
  · exact absurd h hne
  · exact ha e.2 (h ▸ he)
  · exact hb e.2 (h ▸ he)

theorem asList?_eq_some {v : Tree} {terms : List Dependency} :
    v.asList? read = some terms ↔ ∃ items, v = .list items ∧ items.mapM read = some terms := by
  cases v <;> simp [Tree.asList?]

/-- A part that could be looked for is there once at most. -/
theorem count_le_one_of_optional {α : Type} {name : String} {part : Tree → Option (Option α)}
    {x : Option α} (h : entries.optional? [name] part = some x) :
    (entries.map (·.1)).count name ≤ 1 := by
  rw [← Entries.part?_isSome_iff]
  obtain ⟨found,hfound,-⟩ := Option.bind_eq_some_iff.mp h
  exact Option.isSome_of_eq_some hfound

theorem nodup_of_counts (hk : ∀ e ∈ entries, e.1 ∈ partNames)
    (h : ∀ name ∈ partNames, (entries.map (·.1)).count name ≤ 1) : (entries.map (·.1)).Nodup := by
  refine List.nodup_iff_count_le_one.mpr fun name => ?_
  by_cases hname : name ∈ entries.map (·.1)
  · obtain ⟨e,he,rfl⟩ := List.mem_map.mp hname
    exact h e.1 (hk e he)
  · rw [List.count_eq_zero_of_not_mem hname]
    exact Nat.zero_le 1

/-- A record is read as what its parts say. -/
theorem ofRecord?_eq_some_iff {tree : Tree} : ofRecord? read tree = some d ↔
    ∃ entries, tree.record? partNames = some entries ∧
      OfParts (fun t d => read t = some d) d entries := by
  constructor
  · intro h
    obtain ⟨entries,hentries,h⟩ := Option.bind_eq_some_iff.mp h
    refine ⟨entries,hentries,?_⟩
    split at h
    · cases h
    next hany =>
    have hk : ∀ e ∈ entries, e.1 ∈ partNames := by simpa using hany
    obtain ⟨conj,hconj,h⟩ := Option.bind_eq_some_iff.mp h
    obtain ⟨disj,hdisj,h⟩ := Option.bind_eq_some_iff.mp h
    obtain ⟨neg,hneg,h⟩ := Option.bind_eq_some_iff.mp h
    have hd : (entries.map (·.1)).Nodup := by
      refine nodup_of_counts hk fun name hname => ?_
      simp only [partNames,List.mem_cons,List.not_mem_nil,or_false] at hname
      obtain rfl | rfl | rfl := hname
      · exact count_le_one_of_optional hconj
      · exact count_le_one_of_optional hdisj
      · exact count_le_one_of_optional hneg
    have hnull {name : String} {β : Type} {read : Tree → Option β}
        (h : entries.optional? [name] (Tree.asOption? read) = some none) :=
      (Entries.optional?_eq_none_iff hd).mp h
    split at h
    · cases h
      obtain ⟨v,hv,hc,hread⟩ := (Entries.optional?_eq_some_iff hd).mp hconj
      obtain ⟨items,rfl,hitems⟩ := asList?_eq_some.mp hread
      exact .all (alone_of_null hk hd hv hc (by decide) (hnull hdisj) (hnull hneg))
        (mapM_eq_some_iff_forall₂.mp hitems)
    · cases h
      obtain ⟨v,hv,hc,hread⟩ := (Entries.optional?_eq_some_iff hd).mp hdisj
      obtain ⟨items,rfl,hitems⟩ := asList?_eq_some.mp hread
      exact .any (alone_of_null hk hd hv hc (by decide) (hnull hconj) (hnull hneg))
        (mapM_eq_some_iff_forall₂.mp hitems)
    · cases h
      obtain ⟨v,hv,hc,hread⟩ := (Entries.optional?_eq_some_iff hd).mp hneg
      exact .negation (alone_of_null hk hd hv hc (by decide) (hnull hconj) (hnull hdisj)) hread
    · cases h
  · rintro ⟨entries,hentries,hmeant⟩
    have hany {name : String} {operand : Tree} (h : Alone entries name operand) :
        (entries.any fun e => !partNames.contains e.1) = false := by
      simpa using h.known
    unfold ofRecord?
    rw [hentries]
    cases hmeant with
    | all ha hitems =>
      have hand := (Entries.optional?_eq_some_iff ha.distinct).mpr
        ⟨_,ha.mem,ha.counts,asList?_eq_some.mpr ⟨_,rfl,mapM_eq_some_iff_forall₂.mpr hitems⟩⟩
      have hor := ha.optional?_other (Tree.asList? read) "or" (by decide)
      have hnot := ha.optional?_other read "not" (by decide)
      simp only [Option.bind_eq_bind,Option.bind_some,hany ha,Bool.false_eq_true,if_false,hand,hor,hnot]
    | any ha hitems =>
      have hor := (Entries.optional?_eq_some_iff ha.distinct).mpr
        ⟨_,ha.mem,ha.counts,asList?_eq_some.mpr ⟨_,rfl,mapM_eq_some_iff_forall₂.mpr hitems⟩⟩
      have hand := ha.optional?_other (Tree.asList? read) "and" (by decide)
      have hnot := ha.optional?_other read "not" (by decide)
      simp only [Option.bind_eq_bind,Option.bind_some,hany ha,Bool.false_eq_true,if_false,hand,hor,hnot]
    | negation ha hread =>
      have hnot := (Entries.optional?_eq_some_iff ha.distinct).mpr ⟨_,ha.mem,ha.counts,hread⟩
      have hand := ha.optional?_other (Tree.asList? read) "and" (by decide)
      have hor := ha.optional?_other (Tree.asList? read) "or" (by decide)
      simp only [Option.bind_eq_bind,Option.bind_some,hany ha,Bool.false_eq_true,if_false,hand,hor,hnot]

end Records

section Parts

variable {t tree : Tree} {entries : Entries Tree} {name : String}

/-- No number is written like an operator. -/
theorem toString_notMem_partNames (n : Nat) : toString n ∉ partNames := by
  intro h
  have hdigit (c : Char) (hc : c ∈ (toString n).toList) : c.isDigit = true :=
    Text.isDigit_of_mem_digits (Text.toList_toString n ▸ hc)
  have hnames : (partNames.all fun name => name.toList.any fun c => !c.isDigit) = true := by
    decide +kernel
  obtain ⟨c,hc,hno⟩ := List.any_eq_true.mp (List.all_eq_true.mp hnames _ h)
  rw [hdigit c hc] at hno
  cases hno

theorem keyName?_eq_some_iff (hname : name ∈ partNames) :
    t.keyName? partNames = some name ↔ Key t name := by
  constructor
  · intro h
    unfold Tree.keyName? at h
    split at h
    · cases h
      exact .name
    · next n =>
      cases hn : partNames[n]? with
      | some found =>
        rw [List.getD_eq_getElem?_getD,hn] at h
        cases h
        exact .place hn
      | none =>
        rw [List.getD_eq_getElem?_getD,hn] at h
        cases h
        exact absurd hname (toString_notMem_partNames n)
    · cases h
  · rintro (_ | ⟨hn⟩)
    · rfl
    · show some (partNames.getD _ _) = _
      rw [List.getD_eq_getElem?_getD,hn]
      rfl

theorem keyed?_eq_some_iff {fields : List (Tree × Tree)} (hk : ∀ e ∈ entries, e.1 ∈ partNames) :
    Tree.keyed? partNames fields = some entries ↔
      List.Forall₂ (fun f e => Key f.1 e.1 ∧ f.2 = e.2) fields entries := by
  have hone (f : Tree × Tree) (e : String × Tree) (he : e.1 ∈ partNames) :
      (f.1.keyName? partNames).map (fun k => (k,f.2)) = some e ↔ Key f.1 e.1 ∧ f.2 = e.2 := by
    rw [← keyName?_eq_some_iff he,Option.map_eq_some_iff]
    constructor
    · rintro ⟨k,hk,rfl⟩
      exact ⟨hk,rfl⟩
    · rintro ⟨hk,hv⟩
      exact ⟨e.1,hk,Prod.ext rfl hv⟩
  rw [Tree.keyed?,mapM_eq_some_iff_forall₂]
  constructor
  · exact fun h => (forall₂_imp_of_mem h.flip
      fun e he f hf => (hone f e (hk e he)).mp hf).flip
  · exact fun h => (forall₂_imp_of_mem h.flip
      fun e he f hf => (hone f e (hk e he)).mpr hf).flip

theorem HasParts.height_lt (h : HasParts tree entries) {e : String × Tree} (he : e ∈ entries) :
    e.2.height < tree.height := by
  cases h with
  | map h =>
    obtain ⟨f,hm,-,hf⟩ := exists_of_mem_forall₂ h.flip he
    exact hf ▸ Nat.lt_succ_of_le (Tree.height_le_heightEntries hm)
  | list => exact Tree.height_lt_of_item (List.of_mem_zip he).2

end Parts

section Whole

variable {n : Nat} {tree : Tree} {entries : Entries Tree} {items : List Tree} {d : Dependency}
  {R S : Tree → Dependency → Prop}

theorem forall₂_iff_of_below {terms : List Dependency}
    (h : ∀ t, t.height < (Tree.list items).height → ∀ d, R t d ↔ S t d) :
    List.Forall₂ R items terms ↔ List.Forall₂ S items terms :=
  ⟨fun hr => forall₂_imp_of_mem hr fun t ht d => (h t (Tree.height_lt_of_item ht) d).mp,
    fun hs => forall₂_imp_of_mem hs fun t ht d => (h t (Tree.height_lt_of_item ht) d).mpr⟩

/-- What a record means is settled by what is meant by the trees inside it. -/
theorem HasParts.ofParts_iff (hp : HasParts tree entries)
    (h : ∀ t, t.height < tree.height → ∀ d, R t d ↔ S t d) : OfParts R d entries ↔ OfParts S d entries := by
  have hitems {name : String} {items : List Tree} (ha : Alone entries name (.list items))
      (terms : List Dependency) : List.Forall₂ R items terms ↔ List.Forall₂ S items terms :=
    forall₂_iff_of_below fun t ht => h t (Nat.lt_trans ht (hp.height_lt ha.mem))
  constructor
  · rintro (⟨ha,hr⟩ | ⟨ha,hr⟩ | ⟨ha,hr⟩)
    · exact .all ha ((hitems ha _).mp hr)
    · exact .any ha ((hitems ha _).mp hr)
    · exact .negation ha ((h _ (hp.height_lt ha.mem) _).mp hr)
  · rintro (⟨ha,hs⟩ | ⟨ha,hs⟩ | ⟨ha,hs⟩)
    · exact .all ha ((hitems ha _).mpr hs)
    · exact .any ha ((hitems ha _).mpr hs)
    · exact .negation ha ((h _ (hp.height_lt ha.mem) _).mpr hs)

/-- A list without nulls that means something as a record has a single item, a list. -/
theorem OfParts.item_of_noNull (h : OfParts R d (partNames.zip items)) (hnull : .null ∉ items) :
    ∃ inner terms, items = [.list inner] ∧ d = .all terms ∧ List.Forall₂ R inner terms := by
  have hsingle {name : String} {operand : Tree} (ha : Alone (partNames.zip items) name operand) :
      ∃ item, items = [item] ∧ name = "and" ∧ operand = item := by
    match items with
    | [] => cases ha.mem
    | [item] =>
      have hm := ha.mem
      simp only [partNames,List.zip_cons_cons,List.zip_nil_right,List.mem_singleton,Prod.mk.injEq] at hm
      exact ⟨item,rfl,hm⟩
    | first::second::rest =>
      -- Of two parts one is not the part that counts.
      refine absurd ?_ hnull
      by_cases hname : name = "and"
      · have hsecond := ha.others ("or",second) (by simp [partNames]) (by simp [hname])
        exact hsecond ▸ by simp
      · have hfirst := ha.others ("and",first) (by simp [partNames]) (Ne.symm hname)
        exact hfirst ▸ by simp
  cases h with
  | all ha hr =>
    obtain ⟨_,rfl,-,rfl⟩ := hsingle ha
    exact ⟨_,_,rfl,rfl,hr⟩
  | any ha =>
    obtain ⟨_,-,hname,-⟩ := hsingle ha
    exact absurd hname (by decide)
  | negation ha =>
    obtain ⟨_,-,hname,-⟩ := hsingle ha
    exact absurd hname (by decide)

theorem Reads.ne_null (h : Reads tree d) : tree ≠ .null := by
  rintro rfl
  obtain _ | _ | ⟨⟨⟩,_⟩ := h

/-- The reader and the relation agree on trees that are not too high for the reader. -/
theorem ofTreeWithin?_eq_some_iff (n : Nat) : ∀ tree, tree.height < n → ∀ d,
    ofTreeWithin? n tree = some d ↔ Reads tree d := by
  induction n with
  | zero => exact fun _ h => absurd h (Nat.not_lt_zero _)
  | succ n ih =>
    intro tree hn d
    have hbelow (t : Tree) (ht : t.height < tree.height) :=
      ih t (Nat.lt_of_lt_of_le ht (Nat.le_of_lt_succ hn))
    cases tree with
    | null | bool | int | float =>
      refine iff_of_false (by simp [ofTreeWithin?]) ?_
      rintro (_ | _ | ⟨⟨⟩,_⟩)
    | string id =>
      constructor
      · rintro ⟨⟩
        exact .node
      · rintro (_ | _ | ⟨⟨⟩,_⟩)
        rfl
    | map fields =>
      rw [ofTreeWithin?,ofRecord?_eq_some_iff]
      constructor
      · rintro ⟨entries,hentries,hs⟩
        have hp := HasParts.map ((keyed?_eq_some_iff hs.known).mp hentries)
        exact .record hp ((hp.ofParts_iff hbelow).mp hs)
      · rintro (_ | _ | ⟨hp,hs⟩)
        have hs' := (hp.ofParts_iff hbelow).mpr hs
        obtain ⟨hf⟩ := hp
        exact ⟨_,(keyed?_eq_some_iff hs.known).mpr hf,hs'⟩
    | list items =>
      have hlist (terms : List Dependency) :
          items.mapM (ofTreeWithin? n) = some terms ↔ List.Forall₂ Reads items terms := by
        rw [mapM_eq_some_iff_forall₂]
        exact forall₂_iff_of_below hbelow
      rw [ofTreeWithin?]
      constructor
      · intro h
        split at h
        · next terms hterms =>
          cases h
          exact .list ((hlist terms).mp hterms)
        next hnone =>
        obtain ⟨entries,hentries,hs⟩ := ofRecord?_eq_some_iff.mp h
        rw [Tree.record?] at hentries
        split at hentries
        · next hlen =>
          cases hentries
          by_cases hnull : .null ∈ items
          · have hp := HasParts.list hlen hnull
            exact .record hp ((hp.ofParts_iff hbelow).mp hs)
          -- A single list is a conjunction of its own, and so is the list around it.
          · obtain ⟨inner,terms,rfl,rfl,hinner⟩ := hs.item_of_noNull hnull
            have hlow : (Tree.list inner).height < (Tree.list [.list inner]).height :=
              Tree.height_lt_of_item List.mem_cons_self
            have hreads : Reads (.list inner) (.all terms) :=
              .list ((forall₂_iff_of_below fun t ht =>
                hbelow t (Nat.lt_trans ht hlow)).mp hinner)
            rw [(hlist [.all terms]).mpr (.cons hreads .nil)] at hnone
            cases hnone
        · cases hentries
      · rintro (_ | hr | ⟨hp,hs⟩)
        · rw [(hlist _).mpr hr]
        · have hs' := (hp.ofParts_iff hbelow).mpr hs
          obtain _ | ⟨hlen,hnull⟩ := hp
          have hnone : items.mapM (ofTreeWithin? n) = none := by
            cases hterms : items.mapM (ofTreeWithin? n) with
            | none => rfl
            | some terms =>
              obtain ⟨_,-,hread⟩ := exists_of_mem_forall₂ ((hlist terms).mp hterms) hnull
              exact absurd rfl hread.ne_null
          rw [hnone]
          exact ofRecord?_eq_some_iff.mpr ⟨_,if_pos hlen,hs'⟩

theorem ofTree?_eq_some_iff : ofTree? tree = some d ↔ Reads tree d :=
  ofTreeWithin?_eq_some_iff _ tree (Nat.lt_succ_self _) d

end Whole

section Meaning

variable {tree operand : Tree} {entries : Entries Tree} {name : String} {d : Dependency}

theorem Strict.ne_null (h : Strict tree) : tree ≠ .null := by
  rintro rfl
  cases h

theorem alone_single (hname : name ∈ partNames) (h : operand ≠ .null) :
    Alone [(name,operand)] name operand where
  known := by simpa using hname
  distinct := List.nodup_singleton name
  mem := List.mem_singleton_self _
  counts := h
  others := by
    rintro e he hne
    exact absurd (congrArg Prod.fst (List.mem_singleton.mp he)) hne

/-- Where no part is null there is no other. -/
theorem Alone.eq_singleton (h : Alone entries name operand) (hn : ∀ e ∈ entries, e.2 ≠ .null) :
    entries = [(name,operand)] := by
  have hname : ∀ e ∈ entries, e.1 = name := fun e he =>
    Classical.byContradiction fun hne => hn e he (h.others e he hne)
  match entries with
  | [] => cases h.mem
  | [e] => rw [List.mem_singleton.mp h.mem]
  | e::f::rest =>
    have hsame : e.1 = f.1 := (hname e (by simp)).trans (hname f (by simp)).symm
    exact absurd (by simp [hsame]) (List.nodup_cons.mp h.distinct).1

theorem hasParts_ofField (name : String) (operand : Tree) :
    HasParts (Tree.ofFields [(name,operand)]) [(name,operand)] := .map (.cons ⟨.name,rfl⟩ .nil)

/-- A strict record in which one part counts is written as that part alone. -/
theorem HasParts.eq_ofField (hp : HasParts tree entries) (hs : Strict tree)
    (ha : Alone entries name operand) :
    tree = Tree.ofFields [(name,operand)] ∧ Strict operand := by
  cases hs with
  | bool | int | float | string => cases hp
  | list hitems =>
    obtain _ | ⟨-,hnull⟩ := hp
    exact absurd rfl (hitems _ hnull).ne_null
  | map hkeys hvalues =>
    obtain ⟨hfields⟩ := hp
    obtain rfl : entries = [(name,operand)] := ha.eq_singleton fun e he => by
      obtain ⟨f,hf,-,hv⟩ := exists_of_mem_forall₂ hfields.flip he
      exact hv ▸ (hvalues f hf).ne_null
    obtain _ | @⟨⟨key,value⟩,_,_,_,⟨hkey,hv⟩,_ | _⟩ := hfields
    obtain rfl : value = operand := hv
    obtain ⟨text,htext⟩ : ∃ text, key = .string text := hkeys _ List.mem_cons_self
    obtain rfl : text = name := by
      obtain ⟨⟩ | _ := htext ▸ hkey
      rfl
    exact ⟨by rw [htext]; rfl,hvalues (key,value) List.mem_cons_self⟩

/-- Whatever is written as meant is read as something, whatever is inside it. -/
theorem Denotes.reads (h : Denotes tree d) : Reads tree d := by
  -- The tree gets lower with every step into the parts of the dependency.
  have hbelow (n : Nat) : ∀ tree, tree.height < n → ∀ d, Denotes tree d → Reads tree d := by
    induction n with
    | zero => exact fun _ h => absurd h (Nat.not_lt_zero _)
    | succ n ih =>
      have hitems {items : List Tree} {terms : List Dependency} (hlt : Tree.heightItems items < n)
          (h : List.Forall₂ Denotes items terms) : List.Forall₂ Reads items terms :=
        forall₂_imp_of_mem h fun t ht =>
          ih t (Nat.lt_of_le_of_lt (Tree.height_le_heightItems ht) hlt)
      rintro tree hn d (_ | h | h | h | h)
      · exact .node
      · exact .list (hitems (Nat.lt_of_succ_lt_succ hn) h)
      · rw [Tree.height_ofField] at hn
        exact .record (hasParts_ofField ..) (.all (alone_single (by decide) (by simp))
          (hitems (Nat.lt_of_succ_lt (Nat.lt_of_succ_lt_succ hn)) h))
      · rw [Tree.height_ofField] at hn
        exact .record (hasParts_ofField ..) (.any (alone_single (by decide) (by simp))
          (hitems (Nat.lt_of_succ_lt (Nat.lt_of_succ_lt_succ hn)) h))
      · rw [Tree.height_ofField] at hn
        have hreads := ih _ (Nat.lt_of_succ_lt_succ hn) _ h
        exact .record (hasParts_ofField ..)
          (.negation (alone_single (by decide) hreads.ne_null) hreads)
  exact hbelow _ tree (Nat.lt_succ_self _) d h

/-- A strict tree is read only as what it is written for. -/
theorem Reads.denotes (h : Reads tree d) (hs : Strict tree) : Denotes tree d := by
  have hbelow (n : Nat) : ∀ tree, tree.height < n → Strict tree → ∀ d, Reads tree d →
      Denotes tree d := by
    induction n with
    | zero => exact fun _ h => absurd h (Nat.not_lt_zero _)
    | succ n ih =>
      have hitems {items : List Tree} {terms : List Dependency} (hlt : Tree.heightItems items < n)
          (hs : Strict (.list items)) (h : List.Forall₂ Reads items terms) :
          List.Forall₂ Denotes items terms := by
        obtain _ | _ | _ | _ | hs := hs
        exact forall₂_imp_of_mem h fun t ht =>
          ih t (Nat.lt_of_le_of_lt (Tree.height_le_heightItems ht) hlt) (hs t ht)
      rintro tree hn hs d (_ | h | ⟨hp,(⟨ha,h⟩ | ⟨ha,h⟩ | ⟨ha,h⟩)⟩)
      · exact .node
      · exact .list (hitems (Nat.lt_of_succ_lt_succ hn) hs h)
      all_goals
        obtain ⟨rfl,hoperand⟩ := hp.eq_ofField hs ha
        rw [Tree.height_ofField] at hn
      · exact .all (hitems (Nat.lt_of_succ_lt (Nat.lt_of_succ_lt_succ hn)) hoperand h)
      · exact .any (hitems (Nat.lt_of_succ_lt (Nat.lt_of_succ_lt_succ hn)) hoperand h)
      · exact .negation (ih _ (Nat.lt_of_succ_lt_succ hn) hoperand _ h)
  exact hbelow _ tree (Nat.lt_succ_self _) hs d h

mutual

/-- What is written for a dependency is meant as it. -/
theorem denotes_toTree : (d : Dependency) → Denotes d.toTree d
  | .node id => by
    unfold toTree
    exact .node
  | .all terms => by
    unfold toTree
    exact .all (denotes_toTrees terms)
  | .any terms => by
    unfold toTree
    exact .any (denotes_toTrees terms)
  | .negation term => by
    unfold toTree
    exact .negation (denotes_toTree term)

theorem denotes_toTrees : (ds : List Dependency) → List.Forall₂ Denotes (toTrees ds) ds
  | [] => by
    unfold toTrees
    exact .nil
  | d::ds => by
    unfold toTrees
    exact .cons (denotes_toTree d) (denotes_toTrees ds)

end

/-- A dependency is read from exactly the trees that `Reads` describes, and from each as one
dependency. What is written for a dependency is read as it, the form that it is itself written in as
well as any other; a tree without nulls and with names as keys is read as nothing else. -/
theorem trees_are_read_as_meant (tree : Tree) :
    (∀ d, ofTree? tree = some d ↔ Reads tree d) ∧
      (∀ d, Denotes tree d → ofTree? tree = some d) ∧
      (Strict tree → ∀ d, ofTree? tree = some d ↔ Denotes tree d) ∧
      ∀ d : Dependency, Denotes d.toTree d ∧ ofTree? d.toTree = some d := by
  have hreads {t : Tree} {d : Dependency} (h : Denotes t d) : ofTree? t = some d :=
    ofTree?_eq_some_iff.mpr h.reads
  refine ⟨fun d => ofTree?_eq_some_iff,fun d => hreads,fun hs d => ⟨fun h => ?_,hreads⟩,fun d => ?_⟩
  · exact (ofTree?_eq_some_iff.mp h).denotes hs
  · exact ⟨denotes_toTree d,hreads (denotes_toTree d)⟩

end Meaning

namespace Picnic

/-- `or: [sun, {not: [rain]}]` -/
def tree : Tree :=
  Tree.ofFields [("or",.list [.string "sun",Tree.ofFields [("not",.list [.string "rain"])]])]

def dependency : Dependency := .any [.node "sun",.negation (.all [.node "rain"])]

theorem denotes : Denotes tree dependency :=
  .any (.cons .node (.cons (.negation (.list (.cons .node .nil))) .nil))

/-- `{and: [sun], or: null}` -/
def loose : Tree := Tree.ofFields [("and",.list [.string "sun"]),("or",.null)]

end Picnic

theorem trees_are_read_as_meant_picnic :
    Denotes Picnic.tree Picnic.dependency ∧ ofTree? Picnic.tree = some Picnic.dependency :=
  ⟨Picnic.denotes,(trees_are_read_as_meant Picnic.tree).2.1 _ Picnic.denotes⟩

/-- A record of two parts is read if one of them is null. -/
theorem loose_is_read :
    ofTree? Picnic.loose = some (.all [.node "sun"]) ∧ ¬∃ d, Denotes Picnic.loose d := by
  refine ⟨rfl,?_⟩
  rintro ⟨d,h⟩
  generalize htree : Picnic.loose = tree at h
  cases h <;> simp [Picnic.loose,Tree.ofFields] at htree

end Dependency

end TaskGraph
