import Mathlib.Data.Finset.Card
import Mathlib.Logic.Relation
import TaskGraph.Proofs.Graph.Acyclic

/-!
Links without knots have no cycles but links from a name to itself: what is reached within as many
links as there are names is all that can be reached.
-/

namespace TaskGraph.Links

open Relation

variable {links : Links}

/-- Nothing that the names refer to is missing. -/
def IsClosed (links : Links) (found : List String) : Prop :=
  ∀ x ∈ found, ∀ y ∈ links.next x, y ∈ found

/-- One name refers to another. -/
def Refers (links : Links) (a b : String) : Prop := b ∈ links.next a

def widen (links : Links) (found : List String) : List String :=
  (found ++ found.flatMap links.next).eraseDups

theorem mem_widen {found : List String} {x : String} :
    x ∈ links.widen found ↔ x ∈ found ∨ ∃ y ∈ found, links.Refers y x := by
  simp [widen,Refers]

theorem reach_succ (n : Nat) (found : List String) :
    links.reach (n+1) found = links.reach n (links.widen found) := rfl

theorem reach_sound {n : Nat} {found : List String} {x : String} (h : x ∈ links.reach n found) :
    ∃ y ∈ found, ReflTransGen links.Refers y x := by
  induction n generalizing found with
  | zero => exact ⟨x,h,.refl⟩
  | succ n ih =>
    obtain ⟨y,hy,hyx⟩ := ih (reach_succ n found ▸ h)
    obtain hy | ⟨z,hz,hzy⟩ := mem_widen.mp hy
    · exact ⟨y,hy,hyx⟩
    · exact ⟨z,hz,.head hzy hyx⟩

theorem subset_reach (n : Nat) (found : List String) : found ⊆ links.reach n found := by
  induction n generalizing found with
  | zero => exact List.Subset.refl found
  | succ n ih => exact fun x hx => ih _ (mem_widen.mpr (.inl hx))

theorem reach_of_closed {found : List String} (h : links.IsClosed found) (n : Nat) :
    links.IsClosed (links.reach n found) := by
  induction n generalizing found with
  | zero => exact h
  | succ n ih =>
    refine ih fun x hx y hy => mem_widen.mpr ?_
    obtain hx | ⟨z,hz,hzx⟩ := mem_widen.mp hx
    · exact .inl (h x hx y hy)
    · exact .inl (h x (h z hz x hzx) y hy)

/-- Each round finds a name more, or there is no more to find. -/
theorem reach_closed {n : Nat} {found : List String} (hnames : found ⊆ links.names)
    (hn : links.names.toFinset.card ≤ n+found.toFinset.card) :
    links.IsClosed (links.reach n found) := by
  induction n generalizing found with
  | zero =>
    have hsub : found.toFinset ⊆ links.names.toFinset := fun x hx =>
      List.mem_toFinset.mpr (hnames (List.mem_toFinset.mp hx))
    have hall := Finset.eq_of_subset_of_card_le hsub (by omega)
    intro x _ y hy
    have : y ∈ links.names.toFinset := List.mem_toFinset.mpr (links.mem_names_of_mem_next hy)
    exact List.mem_toFinset.mp (hall ▸ this)
  | succ n ih =>
    by_cases hclosed : links.IsClosed found
    · exact reach_of_closed hclosed (n+1)
    · obtain ⟨x,hx,y,hy,hnew⟩ : ∃ x ∈ found, ∃ y ∈ links.next x, y ∉ found := by
        simpa [IsClosed] using hclosed
      refine ih (fun z hz => ?_) ?_
      · obtain hz | ⟨u,-,huz⟩ := mem_widen.mp hz
        · exact hnames hz
        · exact links.mem_names_of_mem_next huz
      · have hless : found.toFinset ⊂ (links.widen found).toFinset := by
          refine Finset.ssubset_iff_subset_ne.mpr ⟨fun z hz => ?_,fun he => ?_⟩
          · exact List.mem_toFinset.mpr (mem_widen.mpr (.inl (List.mem_toFinset.mp hz)))
          · have hmem : y ∈ (links.widen found).toFinset :=
              List.mem_toFinset.mpr (mem_widen.mpr (.inr ⟨x,hx,hy⟩))
            exact hnew (List.mem_toFinset.mp (he ▸ hmem))
        have := Finset.card_lt_card hless
        change links.names.toFinset.card ≤ n+(links.widen found).toFinset.card
        omega

theorem leadsTo_iff {a b : String} :
    links.leadsTo a b = true ↔ TransGen links.Refers a b := by
  rw [leadsTo,List.contains_iff_mem]
  constructor
  · intro h
    obtain ⟨c,hc,hcb⟩ := reach_sound h
    exact TransGen.head' hc hcb
  · intro h
    have hclosed : links.IsClosed (links.reach links.length (links.next a)) := by
      refine reach_closed (fun x hx => links.mem_names_of_mem_next hx) ?_
      have := links.names.toFinset_card_le
      have hlength : links.names.length = links.length := List.length_map _
      omega
    obtain ⟨c,hc,hcb⟩ := TransGen.head'_iff.mp h
    have hfirst : c ∈ links.reach links.length (links.next a) := subset_reach _ _ hc
    induction hcb with
    | refl => exact hfirst
    | tail hcd hde ih => exact hclosed _ (ih (TransGen.head' hc hcd)) _ hde

/-- The names that a name can be reached from and back. -/
def knot (links : Links) (name : String) : List String :=
  links.names.filter fun other =>
    other == name || (links.leadsTo name other && links.leadsTo other name)

theorem mem_knot {a b : String} : b ∈ links.knot a ↔ b ∈ links.names ∧
    (b = a ∨ TransGen links.Refers a b ∧ TransGen links.Refers b a) := by
  simp [knot,leadsTo_iff]

theorem knot_eq {a b : String} (h : b ∈ links.knot a) : links.knot b = links.knot a := by
  obtain ⟨-,rfl | ⟨hab,hba⟩⟩ := mem_knot.mp h
  · rfl
  refine List.filter_congr fun c _ => ?_
  rw [Bool.eq_iff_iff]
  simp only [Bool.or_eq_true,beq_iff_eq,Bool.and_eq_true,leadsTo_iff]
  constructor
  · rintro (rfl | ⟨hbc,hcb⟩)
    · exact .inr ⟨hab,hba⟩
    · exact .inr ⟨hab.trans hbc,hcb.trans hba⟩
  · rintro (rfl | ⟨hac,hca⟩)
    · exact .inr ⟨hba,hab⟩
    · exact .inr ⟨hba.trans hac,hca.trans hab⟩

theorem one_lt_length {l : List String} {a b : String} (ha : a ∈ l) (hb : b ∈ l) (hne : a ≠ b) :
    1 < l.length := by
  match l with
  | [c] => exact absurd ((List.mem_singleton.mp ha).trans (List.mem_singleton.mp hb).symm) hne
  | _::_::_ => simp

/-- Without knots no two names can be reached from each other. -/
theorem not_mutual (hk : links.knots = []) {a b : String} (hne : a ≠ b)
    (hab : TransGen links.Refers a b) (hba : TransGen links.Refers b a) : False := by
  have hname {x y : String} (h : TransGen links.Refers x y) : y ∈ links.names := by
    obtain ⟨z,-,hzy⟩ := TransGen.tail'_iff.mp h
    exact links.mem_names_of_mem_next hzy
  have ha : a ∈ links.knot a := mem_knot.mpr ⟨hname hba,.inl rfl⟩
  have hb : b ∈ links.knot a := mem_knot.mpr ⟨hname hab,.inr ⟨hab,hba⟩⟩
  obtain ⟨c,hc⟩ : ∃ c, (links.knot a).head? = some c :=
    ⟨_,List.head?_eq_some_head (List.ne_nil_of_mem ha)⟩
  have hmem : c ∈ links.knot a := List.mem_of_mem_head? hc
  have hsome : links.knot a ∈ links.knots := by
    refine List.mem_filterMap.mpr ⟨c,(mem_knot.mp hmem).1,?_⟩
    change (if 1 < (links.knot c).length && (links.knot c).head? == some c then
      some (links.knot c) else none) = some (links.knot a)
    rw [knot_eq hmem,hc,if_pos]
    simp [one_lt_length ha hb hne]
  rw [hk] at hsome
  cases hsome

theorem not_cyclic (hk : links.knots = []) (hself : ∀ a, ¬ links.Refers a a) (a : String) :
    ¬ TransGen links.Refers a a := by
  intro h
  obtain ⟨b,hab,hba⟩ := TransGen.head'_iff.mp h
  have hne : a ≠ b := by
    rintro rfl
    exact hself a hab
  obtain rfl | hba := reflTransGen_iff_eq_or_transGen.mp hba
  · exact hne rfl
  · exact not_mutual hk hne (.single hab) hba

/-- Names can be ranked so that each stands above those it refers to. -/
theorem exists_rank (hk : links.knots = []) (hself : ∀ a, ¬ links.Refers a a) :
    ∃ rank : String → Nat, ∀ a b, links.Refers a b → rank b < rank a := by
  let below (a : String) : Finset String := links.names.toFinset.filter fun b => links.leadsTo a b
  refine ⟨fun a => (below a).card,fun a b hab => Finset.card_lt_card ?_⟩
  have hmem {x y : String} : y ∈ below x ↔ y ∈ links.names ∧ TransGen links.Refers x y := by
    simp [below,leadsTo_iff]
  refine Finset.ssubset_iff_subset_ne.mpr ⟨fun c hc => ?_,fun he => ?_⟩
  · obtain ⟨hname,hbc⟩ := hmem.mp hc
    exact hmem.mpr ⟨hname,.head hab hbc⟩
  · have hb : b ∈ below a := hmem.mpr ⟨links.mem_names_of_mem_next hab,.single hab⟩
    exact not_cyclic hk hself b (hmem.mp (he ▸ hb)).2

end TaskGraph.Links
