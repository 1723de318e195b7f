import TaskGraph.Dependency

/-!
The truth of dependencies. What `resolve` calls settled stays so in every table that keeps the nodes
that have ended, and `holds` then agrees with it; nothing is left undecided once all nodes at the
leaves have ended; without negations a dependency that holds goes on to hold as more nodes succeed.
-/

namespace TaskGraph

namespace Resolution

theorem and_eq_satisfied {a b : Resolution} :
    a.and b = .satisfied ↔ a = .satisfied ∧ b = .satisfied := by
  cases a <;> cases b <;> decide

theorem and_eq_unsatisfied {a b : Resolution} :
    a.and b = .unsatisfied ↔ a = .unsatisfied ∨ b = .unsatisfied := by
  cases a <;> cases b <;> decide

theorem or_eq_satisfied {a b : Resolution} :
    a.or b = .satisfied ↔ a = .satisfied ∨ b = .satisfied := by
  cases a <;> cases b <;> decide

theorem or_eq_unsatisfied {a b : Resolution} :
    a.or b = .unsatisfied ↔ a = .unsatisfied ∧ b = .unsatisfied := by
  cases a <;> cases b <;> decide

theorem and_ne_undecided {a b : Resolution} (ha : a ≠ .undecided) (hb : b ≠ .undecided) :
    a.and b ≠ .undecided := by
  cases a <;> cases b <;> simp_all [and]

theorem or_ne_undecided {a b : Resolution} (ha : a ≠ .undecided) (hb : b ≠ .undecided) :
    a.or b ≠ .undecided := by
  cases a <;> cases b <;> simp_all [or]

theorem negate_eq_satisfied {a : Resolution} : a.negate = .satisfied ↔ a = .unsatisfied := by
  cases a <;> decide

theorem negate_eq_unsatisfied {a : Resolution} : a.negate = .unsatisfied ↔ a = .satisfied := by
  cases a <;> decide

theorem negate_eq_undecided {a : Resolution} : a.negate = .undecided ↔ a = .undecided := by
  cases a <;> decide

theorem ofStatus_eq_satisfied {s : Status} : ofStatus s = .satisfied ↔ s = .success := by
  cases s <;> decide

theorem ofStatus_eq_unsatisfied {s : Status} :
    ofStatus s = .unsatisfied ↔ s.isTerminal = true ∧ s ≠ .success := by
  cases s <;> decide

theorem ofStatus_eq_undecided {s : Status} : ofStatus s = .undecided ↔ s.isTerminal = false := by
  cases s <;> decide

end Resolution

/-- A table in which some nodes are skipped and all others wait. -/
def Status.skipping (ids : List String) (id : String) : Status :=
  if id ∈ ids then .skipped else .pending

theorem Status.skipping_unsatisfied {ids : List String} {id : String} :
    Resolution.ofStatus (skipping ids id) = .unsatisfied ↔ id ∈ ids := by
  by_cases h : id ∈ ids <;> simp [skipping,h,Resolution.ofStatus]

/-- Of two tables of states, the second keeps all nodes that have ended in the first. -/
def Status.Keeps (before after : String → Status) : Prop :=
  ∀ id, (before id).isTerminal = true → after id = before id

theorem Status.skipping_keeps {ids : List String} {status : String → Status}
    (h : ∀ id ∈ ids, status id = .skipped) : Keeps (skipping ids) status := by
  intro id ht
  by_cases hid : id ∈ ids
  · rw [h id hid,skipping,if_pos hid]
  · rw [skipping,if_neg hid] at ht
    cases ht

namespace Dependency

/-- Dependencies are built from nodes by groups and negations. -/
@[induction_eliminator] theorem induction {P : Dependency → Prop} (node : ∀ id, P (.node id))
    (all : ∀ terms, (∀ d ∈ terms, P d) → P (.all terms))
    (any : ∀ terms, (∀ d ∈ terms, P d) → P (.any terms))
    (negation : ∀ d, P d → P (.negation d)) (d : Dependency) : P d := by
  refine Dependency.rec (motive_1 := P) (motive_2 := fun terms => ∀ d ∈ terms, P d)
    node all any negation ?_ ?_ d
  · intro d hd
    cases hd
  · intro d ds hd hds e he
    rcases List.mem_cons.mp he with rfl | he
    · exact hd
    · exact hds e he

section Groups

variable (status : String → Status) (ds : List Dependency)

attribute [local simp] holdsAll holdsAny leavesOf resolveAll resolveAny

theorem holdsAll_eq : holdsAll status ds = ds.all (holds status) := by
  induction ds with
  | nil => rfl
  | cons d ds ih => simp [ih]

theorem holdsAny_eq : holdsAny status ds = ds.any (holds status) := by
  induction ds with
  | nil => rfl
  | cons d ds ih => simp [ih]

theorem leavesOf_eq : leavesOf ds = ds.flatMap leaves := by
  induction ds with
  | nil => rfl
  | cons d ds ih => simp [ih]

theorem resolveAll_eq_satisfied :
    resolveAll status ds = .satisfied ↔ ∀ d ∈ ds, resolve status d = .satisfied := by
  induction ds with
  | nil => simp
  | cons d ds ih => simp [Resolution.and_eq_satisfied,ih]

theorem resolveAll_eq_unsatisfied :
    resolveAll status ds = .unsatisfied ↔ ∃ d ∈ ds, resolve status d = .unsatisfied := by
  induction ds with
  | nil => simp
  | cons d ds ih => simp [Resolution.and_eq_unsatisfied,ih]

theorem resolveAny_eq_satisfied :
    resolveAny status ds = .satisfied ↔ ∃ d ∈ ds, resolve status d = .satisfied := by
  induction ds with
  | nil => simp
  | cons d ds ih => simp [Resolution.or_eq_satisfied,ih]

theorem resolveAny_eq_unsatisfied :
    resolveAny status ds = .unsatisfied ↔ ∀ d ∈ ds, resolve status d = .unsatisfied := by
  induction ds with
  | nil => simp
  | cons d ds ih => simp [Resolution.or_eq_unsatisfied,ih]

theorem resolveAll_ne_undecided (h : ∀ d ∈ ds, resolve status d ≠ .undecided) :
    resolveAll status ds ≠ .undecided := by
  induction ds with
  | nil => simp
  | cons d ds ih =>
    have hd := h d List.mem_cons_self
    have hds := ih fun e he => h e (List.mem_cons_of_mem d he)
    exact Resolution.and_ne_undecided hd hds

theorem resolveAny_ne_undecided (h : ∀ d ∈ ds, resolve status d ≠ .undecided) :
    resolveAny status ds ≠ .undecided := by
  induction ds with
  | nil => simp
  | cons d ds ih =>
    have hd := h d List.mem_cons_self
    have hds := ih fun e he => h e (List.mem_cons_of_mem d he)
    exact Resolution.or_ne_undecided hd hds

end Groups

theorem mem_leavesOf {id : String} {ds : List Dependency} :
    id ∈ leavesOf ds ↔ ∃ d ∈ ds, id ∈ leaves d := by
  rw [leavesOf_eq,List.mem_flatMap]

theorem mem_references {id : String} {d : Dependency} : id ∈ d.references ↔ id ∈ d.leaves :=
  List.mem_eraseDups

section Meaning

variable {before after status : String → Status}

attribute [local simp] holds leaves resolve

/-- A dependency that is settled has come to its truth, for good. -/
theorem resolve_settled (h : Status.Keeps before after) (d : Dependency) :
    (resolve before d = .satisfied → resolve after d = .satisfied ∧ holds after d = true) ∧
    (resolve before d = .unsatisfied → resolve after d = .unsatisfied ∧ holds after d = false) := by
  induction d with
  | node id =>
    simp only [resolve,holds,Resolution.ofStatus_eq_satisfied,Resolution.ofStatus_eq_unsatisfied]
    constructor
    · intro hs
      have he := h id (by rw [hs]; rfl)
      simp [he,hs]
    · rintro ⟨ht,hs⟩
      have he := h id ht
      simp [he,ht,hs]
  | all ds ih =>
    simp only [resolve,holds,holdsAll_eq,resolveAll_eq_satisfied,resolveAll_eq_unsatisfied,
      List.all_eq_true,List.all_eq_false]
    constructor
    · intro hs
      exact ⟨fun d hd => ((ih d hd).1 (hs d hd)).1,fun d hd => ((ih d hd).1 (hs d hd)).2⟩
    · rintro ⟨d,hd,hs⟩
      have ⟨hr,hf⟩ := (ih d hd).2 hs
      exact ⟨⟨d,hd,hr⟩,d,hd,by simp [hf]⟩
  | any ds ih =>
    simp only [resolve,holds,holdsAny_eq,resolveAny_eq_satisfied,resolveAny_eq_unsatisfied,
      List.any_eq_true,List.any_eq_false]
    constructor
    · rintro ⟨d,hd,hs⟩
      have ⟨hr,ht⟩ := (ih d hd).1 hs
      exact ⟨⟨d,hd,hr⟩,d,hd,ht⟩
    · intro hs
      exact ⟨fun d hd => ((ih d hd).2 (hs d hd)).1,fun d hd => by simp [((ih d hd).2 (hs d hd)).2]⟩
  | negation d ih =>
    simp only [resolve,holds,Resolution.negate_eq_satisfied,Resolution.negate_eq_unsatisfied]
    constructor
    · intro hs
      have ⟨hr,hf⟩ := ih.2 hs
      exact ⟨hr,by simp [hf]⟩
    · intro hs
      have ⟨hr,ht⟩ := ih.1 hs
      exact ⟨hr,by simp [ht]⟩

theorem resolve_ne_undecided (d : Dependency) (h : ∀ id ∈ d.leaves, (status id).isTerminal = true) :
    resolve status d ≠ .undecided := by
  induction d with
  | node id =>
    have ht := h id (by simp)
    simp [Resolution.ofStatus_eq_undecided,ht]
  | all ds ih =>
    exact resolveAll_ne_undecided status ds fun d hd =>
      ih d hd fun id hid => h id (mem_leavesOf.mpr ⟨d,hd,hid⟩)
  | any ds ih =>
    exact resolveAny_ne_undecided status ds fun d hd =>
      ih d hd fun id hid => h id (mem_leavesOf.mpr ⟨d,hd,hid⟩)
  | negation d ih =>
    rw [resolve,ne_eq,Resolution.negate_eq_undecided]
    exact ih h

theorem holds_of_satisfied {d : Dependency} (h : resolve status d = .satisfied) :
    holds status d = true :=
  ((resolve_settled (fun _ _ => rfl) d).1 h).2

theorem not_holds_of_unsatisfied {d : Dependency} (h : resolve status d = .unsatisfied) :
    holds status d = false :=
  ((resolve_settled (fun _ _ => rfl) d).2 h).2

/-- Once all nodes at the leaves have ended, a dependency that does not hold never will. -/
theorem unsatisfied_of_not_holds {d : Dependency}
    (h : ∀ id ∈ d.leaves, (status id).isTerminal = true) (hf : holds status d = false) :
    resolve status d = .unsatisfied := by
  have hu := resolve_ne_undecided d h
  cases hr : resolve status d with
  | satisfied => simp [holds_of_satisfied hr] at hf
  | unsatisfied => rfl
  | undecided => exact absurd hr hu

theorem holds_all_iff {ds : List Dependency} :
    holds status (.all ds) = true ↔ ∀ d ∈ ds, holds status d = true := by
  rw [holds,holdsAll_eq,List.all_eq_true]

theorem holds_any_iff {ds : List Dependency} :
    holds status (.any ds) = true ↔ ∃ d ∈ ds, holds status d = true := by
  rw [holds,holdsAny_eq,List.any_eq_true]

theorem holds_node_iff {id : String} : holds status (.node id) = true ↔ status id = .success := by
  simp

theorem holds_congr (d : Dependency) (h : ∀ id ∈ d.leaves, before id = after id) :
    holds before d = holds after d := by
  induction d with
  | node id => simp only [holds,h id (by simp)]
  | all ds ih =>
    have hd (d : Dependency) (hd : d ∈ ds) : holds before d = holds after d :=
      ih d hd fun id hid => h id (mem_leavesOf.mpr ⟨d,hd,hid⟩)
    rw [Bool.eq_iff_iff,holds_all_iff,holds_all_iff]
    exact forall₂_congr fun d hm => by rw [hd d hm]
  | any ds ih =>
    have hd (d : Dependency) (hd : d ∈ ds) : holds before d = holds after d :=
      ih d hd fun id hid => h id (mem_leavesOf.mpr ⟨d,hd,hid⟩)
    rw [Bool.eq_iff_iff,holds_any_iff,holds_any_iff]
    exact exists_congr fun d => and_congr_right fun hm => by rw [hd d hm]
  | negation d ih => simp only [holds,ih h]

end Meaning

mutual

/-- Whether a negation stands anywhere. -/
def hasNegation : Dependency → Bool
  | .node _ => false
  | .all terms | .any terms => someNegation terms
  | .negation _ => true

def someNegation : List Dependency → Bool
  | [] => false
  | d::ds => hasNegation d || someNegation ds

end

theorem someNegation_eq (ds : List Dependency) : someNegation ds = ds.any hasNegation := by
  induction ds with
  | nil => rfl
  | cons d ds ih => simp only [someNegation,ih,List.any_cons]

/-- Without negations, success can only help. -/
theorem holds_mono {before after : String → Status} (d : Dependency) (hn : d.hasNegation = false)
    (h : ∀ id, before id = .success → after id = .success) (hb : holds before d = true) :
    holds after d = true := by
  induction d with
  | node id => exact holds_node_iff.mpr (h id (holds_node_iff.mp hb))
  | all ds ih =>
    simp only [hasNegation,someNegation_eq,List.any_eq_false] at hn
    rw [holds_all_iff] at hb ⊢
    exact fun d hd => ih d hd (by simpa using hn d hd) (hb d hd)
  | any ds ih =>
    simp only [hasNegation,someNegation_eq,List.any_eq_false] at hn
    obtain ⟨d,hd,ht⟩ := holds_any_iff.mp hb
    exact holds_any_iff.mpr ⟨d,hd,ih d hd (by simpa using hn d hd) ht⟩
  | negation d _ => simp [hasNegation] at hn

/-- Without negations, that a dependency cannot hold comes from the nodes that did not succeed. -/
theorem unsatisfied_mono {before after : String → Status} (d : Dependency)
    (hn : d.hasNegation = false)
    (h : ∀ id ∈ d.leaves, Resolution.ofStatus (before id) = .unsatisfied →
      Resolution.ofStatus (after id) = .unsatisfied)
    (hu : resolve before d = .unsatisfied) : resolve after d = .unsatisfied := by
  induction d with
  | node id => exact h id (List.mem_singleton_self id) hu
  | all ds ih =>
    simp only [hasNegation,someNegation_eq,List.any_eq_false] at hn
    obtain ⟨d,hd,hr⟩ := (resolveAll_eq_unsatisfied before ds).mp hu
    refine (resolveAll_eq_unsatisfied after ds).mpr ⟨d,hd,?_⟩
    exact ih d hd (by simpa using hn d hd) (fun id hid => h id (mem_leavesOf.mpr ⟨d,hd,hid⟩)) hr
  | any ds ih =>
    simp only [hasNegation,someNegation_eq,List.any_eq_false] at hn
    have hall := (resolveAny_eq_unsatisfied before ds).mp hu
    refine (resolveAny_eq_unsatisfied after ds).mpr fun d hd => ?_
    exact ih d hd (by simpa using hn d hd) (fun id hid => h id (mem_leavesOf.mpr ⟨d,hd,hid⟩))
      (hall d hd)
  | negation d _ => cases hn

/-- A dependency is the conjunction of its conjuncts. -/
theorem holds_conjuncts (status : String → Status) (d : Dependency) :
    holds status d = true ↔ ∀ c ∈ d.conjuncts, holds status c = true := by
  cases d with
  | all ds => exact holds_all_iff
  | _ => simp [conjuncts]

theorem leaves_conjuncts {id : String} {d : Dependency} :
    id ∈ d.leaves ↔ ∃ c ∈ d.conjuncts, id ∈ c.leaves := by
  cases d with
  | all ds => exact mem_leavesOf
  | _ => simp [conjuncts]

theorem conjuncts_and (a b : Dependency) : (a.and b).conjuncts = a.conjuncts ++ b.conjuncts := rfl

theorem conjuncts_ofAll (ids : List String) :
    (Dependency.ofAll ids).conjuncts = ids.map .node := rfl

theorem hasNegation_conjuncts (d : Dependency) : d.hasNegation = d.conjuncts.any hasNegation := by
  cases d with
  | all ds => exact someNegation_eq ds
  | _ => simp [conjuncts]

end Dependency

end TaskGraph
