import Mathlib.Data.List.Nodup
import TaskGraph.Proofs.Dependency

/-!
What nodes that have not ended can still do to a dependency: nothing once it is settled; either way
while it is undecided, if it mentions no node twice.
-/

namespace TaskGraph

/-- A table in which every node has ended; those that have ended in another table are as they are
there. -/
structure Status.Completes (before after : String → Status) : Prop where
  keeps : Keeps before after
  ended : ∀ id, (after id).isTerminal = true

namespace Status

variable {before inside outside : String → Status}

/-- A table in which all nodes that have not ended come to the same end. -/
def endAll (last : Status) (status : String → Status) (id : String) : Status :=
  if (status id).isTerminal then status id else last

theorem completes_endAll (status : String → Status) (last : Status) (hl : last.isTerminal = true) :
    Completes status (endAll last status) where
  keeps id ht := if_pos ht
  ended id := by
    unfold endAll
    split
    · next ht => exact ht
    · exact hl

/-- One table on some nodes, another on all others. -/
def splice (ids : List String) (inside outside : String → Status) (id : String) : Status :=
  if id ∈ ids then inside id else outside id

theorem Completes.splice (hi : Completes before inside) (ho : Completes before outside)
    (ids : List String) : Completes before (splice ids inside outside) where
  keeps id ht := by
    unfold Status.splice
    split
    · exact hi.keeps id ht
    · exact ho.keeps id ht
  ended id := by
    unfold Status.splice
    split
    · exact hi.ended id
    · exact ho.ended id

end Status

namespace Dependency

open Status (Keeps Completes)

variable {before : String → Status}

section Splice

variable {ids : List String} (inside outside : String → Status)

theorem holds_splice_inside (d : Dependency) (h : ∀ id ∈ d.leaves, id ∈ ids) :
    holds (Status.splice ids inside outside) d = holds inside d :=
  holds_congr d fun id hid => if_pos (h id hid)

theorem holds_splice_outside (d : Dependency) (h : ∀ id ∈ d.leaves, id ∉ ids) :
    holds (Status.splice ids inside outside) d = holds outside d :=
  holds_congr d fun id hid => if_neg (h id hid)

end Splice

theorem leaves_nodup_of_mem {ds : List Dependency} (hn : (leavesOf ds).Nodup) {d : Dependency}
    (hd : d ∈ ds) : d.leaves.Nodup := by
  rw [leavesOf_eq,List.nodup_flatMap] at hn
  exact hn.1 d hd

/-- Dependencies that share no node come to their truths together if each does by itself. -/
theorem exists_completion_of_each {ds : List Dependency} (hn : (leavesOf ds).Nodup) {value : Bool}
    (h : ∀ d ∈ ds, ∃ after, Completes before after ∧ holds after d = value) :
    ∃ after, Completes before after ∧ ∀ d ∈ ds, holds after d = value := by
  induction ds with
  | nil => exact ⟨_,Status.completes_endAll before .success rfl,by simp⟩
  | cons d ds ih =>
    rw [leavesOf,List.nodup_append] at hn
    obtain ⟨-,hrest,hapart⟩ := hn
    obtain ⟨inside,hi,hd⟩ := h d List.mem_cons_self
    obtain ⟨outside,ho,hds⟩ := ih hrest fun e he => h e (List.mem_cons_of_mem d he)
    refine ⟨_,hi.splice ho d.leaves,fun e he => ?_⟩
    rcases List.mem_cons.mp he with rfl | he
    · rw [holds_splice_inside inside outside e fun _ hid => hid,hd]
    · have hout : ∀ id ∈ e.leaves, id ∉ d.leaves := fun id hid hin =>
        hapart id hin id (mem_leavesOf.mpr ⟨e,he,hid⟩) rfl
      rw [holds_splice_outside inside outside e hout,hds e he]

/-- A dependency that mentions no node twice can still come to every truth that its resolution leaves
open. The two truths are shown together, as a negation turns one into the other. -/
theorem exists_completion (before : String → Status) (d : Dependency) (hn : d.leaves.Nodup) :
    (resolve before d ≠ .unsatisfied → ∃ after, Completes before after ∧ holds after d = true) ∧
    (resolve before d ≠ .satisfied → ∃ after, Completes before after ∧ holds after d = false) := by
  induction d with
  | node id =>
    simp only [resolve,ne_eq,Resolution.ofStatus_eq_satisfied,Resolution.ofStatus_eq_unsatisfied]
    constructor
    · intro hr
      refine ⟨_,Status.completes_endAll before .success rfl,?_⟩
      rw [holds_node_iff,Status.endAll]
      split
      · next ht => simpa [ht] using hr
      · rfl
    · intro hr
      refine ⟨_,Status.completes_endAll before .failed rfl,?_⟩
      rw [← Bool.not_eq_true,holds_node_iff,Status.endAll]
      split
      · exact hr
      · decide
  | all ds ih =>
    have hone (d : Dependency) (hd : d ∈ ds) := ih d hd (leaves_nodup_of_mem hn hd)
    simp only [resolve,ne_eq,resolveAll_eq_satisfied,resolveAll_eq_unsatisfied]
    constructor
    · intro hr
      have heach (d : Dependency) (hd : d ∈ ds) :
          ∃ after, Completes before after ∧ holds after d = true :=
        (hone d hd).1 fun hu => hr ⟨d,hd,hu⟩
      obtain ⟨after,hc,hall⟩ := exists_completion_of_each hn heach
      exact ⟨after,hc,holds_all_iff.mpr hall⟩
    · intro hr
      simp only [not_forall,exists_prop] at hr
      obtain ⟨d,hd,hs⟩ := hr
      obtain ⟨after,hc,hf⟩ := (hone d hd).2 hs
      refine ⟨after,hc,?_⟩
      rw [← Bool.not_eq_true,holds_all_iff]
      intro hall
      simp [hall d hd] at hf
  | any ds ih =>
    have hone (d : Dependency) (hd : d ∈ ds) := ih d hd (leaves_nodup_of_mem hn hd)
    simp only [resolve,ne_eq,resolveAny_eq_satisfied,resolveAny_eq_unsatisfied]
    constructor
    · intro hr
      simp only [not_forall,exists_prop] at hr
      obtain ⟨d,hd,hs⟩ := hr
      obtain ⟨after,hc,ht⟩ := (hone d hd).1 hs
      exact ⟨after,hc,holds_any_iff.mpr ⟨d,hd,ht⟩⟩
    · intro hr
      have heach (d : Dependency) (hd : d ∈ ds) :
          ∃ after, Completes before after ∧ holds after d = false :=
        (hone d hd).2 fun hs => hr ⟨d,hd,hs⟩
      obtain ⟨after,hc,hall⟩ := exists_completion_of_each hn heach
      refine ⟨after,hc,?_⟩
      rw [← Bool.not_eq_true,holds_any_iff]
      rintro ⟨d,hd,ht⟩
      simp [hall d hd] at ht
  | negation d ih =>
    have hinner := ih hn
    simp only [resolve,holds,ne_eq,Resolution.negate_eq_satisfied,Resolution.negate_eq_unsatisfied,
      Bool.not_eq_true',Bool.not_eq_false']
    exact ⟨hinner.2,hinner.1⟩

/-- What the resolution of a dependency says of all ways in which a table can go on. -/
structure Foretells (before : String → Status) (d : Dependency) : Prop where
  satisfied : resolve before d = .satisfied → ∀ after, Keeps before after →
    holds after d = true ∧ resolve after d = .satisfied
  unsatisfied : resolve before d = .unsatisfied → ∀ after, Keeps before after →
    holds after d = false ∧ resolve after d = .unsatisfied
  ended : (∀ id ∈ d.references, (before id).isTerminal = true) → resolve before d ≠ .undecided
  undecided : d.leaves.Nodup → resolve before d = .undecided →
    (∃ after, Completes before after ∧ holds after d = true) ∧
    ∃ after, Completes before after ∧ holds after d = false

/-- What is settled is settled for good, nothing is undecided once all has ended, and whatever is
undecided can come out either way, if no node is mentioned twice. -/
theorem resolve_foretells (before : String → Status) (d : Dependency) : d.Foretells before where
  satisfied hr after hk := ((resolve_settled hk d).1 hr).symm
  unsatisfied hr after hk := ((resolve_settled hk d).2 hr).symm
  ended h := resolve_ne_undecided d fun id hid => h id (mem_references.mpr hid)
  undecided hn hr := by
    obtain ⟨htrue,hfalse⟩ := exists_completion before d hn
    exact ⟨htrue (by simp [hr]),hfalse (by simp [hr])⟩

/-- What is paid at once, or put on an account on which nothing is overdue. -/
def onAccount : Dependency :=
  .any [.node "paid",.all [.node "account",.negation (.node "overdue")]]

/-- Whoever does not pay at once may still have it or not, and knows once the account is refused. -/
theorem resolve_foretells_onAccount :
    resolve (Status.skipping ["paid"]) onAccount = .undecided ∧
    (∃ after, Completes (Status.skipping ["paid"]) after ∧ holds after onAccount = true) ∧
    (∃ after, Completes (Status.skipping ["paid"]) after ∧ holds after onAccount = false) ∧
    resolve (Status.skipping ["paid","account"]) onAccount = .unsatisfied ∧
    ∀ after, Keeps (Status.skipping ["paid","account"]) after → holds after onAccount = false :=
  have hopen : resolve (Status.skipping ["paid"]) onAccount = .undecided := by decide
  have hshut : resolve (Status.skipping ["paid","account"]) onAccount = .unsatisfied := by decide
  have heither := (resolve_foretells _ onAccount).undecided (by decide) hopen
  ⟨hopen,heither.1,heither.2,hshut,
    fun after hk => ((resolve_foretells _ onAccount).unsatisfied hshut after hk).1⟩

end Dependency

end TaskGraph
