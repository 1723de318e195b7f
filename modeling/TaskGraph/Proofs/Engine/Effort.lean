import Mathlib.Algebra.GroupWithZero.Nat
import Mathlib.Algebra.Order.BigOperators.Group.List
import Mathlib.Algebra.Order.Group.Nat
import TaskGraph.Proofs.Engine.Share

/-!
How much a cancelled run has left to do. Each of its steps leaves less, so it makes only so many.
-/

namespace TaskGraph.Engine

section Sums

variable {α β : Type} {l : List α} {f g : α → Nat} {c : Nat}

theorem sum_filter (p : α → Bool) (l : List α) (f : α → Nat) :
    ((l.filter p).map f).sum = (l.map fun x => if p x = true then f x else 0).sum := by
  induction l with
  | nil => rfl
  | cons x rest ih =>
    rw [List.filter_cons]
    split
    · next hp => simp [hp,ih]
    · next hp => simp [hp,ih]

/-- One part falls by an amount and no other rises. -/
theorem sum_add_le {x : α} (hx : x ∈ l) (hle : ∀ y ∈ l, g y ≤ f y) (hc : g x+c ≤ f x) :
    (l.map g).sum+c ≤ (l.map f).sum := by
  induction l with
  | nil => cases hx
  | cons y rest ih =>
    have hrest := fun z hz => hle z (List.mem_cons_of_mem y hz)
    rw [List.map_cons,List.map_cons,List.sum_cons,List.sum_cons]
    rcases List.mem_cons.mp hx with rfl | hx
    · have hs : (rest.map g).sum ≤ (rest.map f).sum := List.sum_le_sum hrest
      omega
    · have hs := ih hx hrest
      have hy := hle y List.mem_cons_self
      omega

/-- The part with a key rises by no more than an amount, and no other rises. -/
theorem sum_le_add {key : α → β} {b : β} (hd : (l.map key).Nodup)
    (hle : ∀ y ∈ l, key y ≠ b → g y ≤ f y) (hc : ∀ y ∈ l, key y = b → g y ≤ f y+c) :
    (l.map g).sum ≤ (l.map f).sum+c := by
  induction l with
  | nil => exact Nat.zero_le _
  | cons y rest ih =>
    rw [List.map_cons,List.nodup_cons] at hd
    rw [List.map_cons,List.map_cons,List.sum_cons,List.sum_cons]
    by_cases hy : key y = b
    · have hs : (rest.map g).sum ≤ (rest.map f).sum := by
        refine List.sum_le_sum fun z hz => hle z (List.mem_cons_of_mem y hz) fun hzb => ?_
        exact hd.1 (List.mem_map.mpr ⟨z,hz,hzb.trans hy.symm⟩)
      have hyc := hc y List.mem_cons_self hy
      omega
    · have hs := ih hd.2 (fun z hz => hle z (List.mem_cons_of_mem y hz))
        fun z hz => hc z (List.mem_cons_of_mem y hz)
      have hyle := hle y List.mem_cons_self hy
      omega

theorem sum_filter_le (p : α → Bool) : ((l.filter p).map f).sum ≤ (l.map f).sum :=
  (List.Sublist.map f List.filter_sublist).sum_le_sum fun _ _ => Nat.zero_le _

end Sums

/-- What a run counts for among those of a started run. -/
def Run.weight (n : Nat) (r : Run) : Nat := if r.id.root == n then r.effort else 0

def Task.weight (n : Nat) (t : Task) : Nat := if t.id.run.root == n then t.phase.effort else 0

namespace World

variable {w v : World} {r r' : Run} {t : Task} {d : Deed} {n : Nat}

/-- How much a cancelled run, with all that lies in it, may still have to do. -/
def effort (w : World) (n : Nat) : Nat :=
  (w.runs.map (Run.weight n)).sum + (w.tasks.map (Task.weight n)).sum

theorem Alike.effort (h : Alike w v) (n : Nat) : v.effort n = w.effort n := by
  rw [World.effort,World.effort,h.runs,h.tasks]

theorem Spares.effort (h : Spares n w v) : v.effort n = w.effort n := by
  -- The weights outside of the started run are zero.
  have hsplit (u : World) : u.effort n =
      ((u.runsOf n).map Run.effort).sum + ((u.tasksOf n).map fun t => t.phase.effort).sum := by
    rw [runsOf,tasksOf,sum_filter,sum_filter]
    rfl
  rw [hsplit,hsplit,h.runs,h.tasks]

theorem Coherent.effort_setRun (h : w.Coherent) (hr : r ∈ w.runs) (hn : r.id.root = n)
    (hid : r'.id = r.id) (he : r'.effort < r.effort) : (w.setRun r').effort n < w.effort n := by
  have hw : r'.weight n+1 ≤ r.weight n := by
    simp only [Run.weight,hid,hn,beq_self_eq_true,if_true]
    omega
  have hruns : ((w.setRun r').runs.map (Run.weight n)).sum+1 ≤ (w.runs.map (Run.weight n)).sum := by
    rw [World.setRun,List.map_map]
    refine sum_add_le hr (fun old ho => ?_) ?_
    · rw [Function.comp_apply]
      split
      · next heq =>
        rw [h.run_unique ho hr (heq.trans hid)]
        omega
      · exact Nat.le_refl _
    · rw [Function.comp_apply,if_pos hid.symm]
      exact hw
  have htasks : (w.setRun r').tasks = w.tasks := rfl
  unfold World.effort
  rw [htasks]
  omega

theorem receive_weight_of_ne (hne : r.id ≠ t.id.run) : (d.receive t r).weight n = r.weight n := by
  simp [Deed.receive,hne]

theorem receive_weight (hid : r.id = t.id.run) :
    (d.receive t r).weight n ≤ r.weight n+2*d.posted.toList.length := by
  unfold Run.weight
  by_cases hn : (r.id.root == n) = true
  · rw [if_pos hn,if_pos (show ((d.receive t r).id.root == n) = true from hn)]
    simp only [Deed.receive,Run.effort,hid,if_true,List.length_append,List.length_map]
    omega
  · rw [if_neg (show ¬ ((d.receive t r).id.root == n) = true from hn)]
    exact Nat.zero_le _

theorem opened_weight {graph : Graph} (hr : r.IsNew graph) : r.weight n ≤ 3 := by
  unfold Run.weight
  split
  · simp [Run.effort,hr.phase,hr.stopped,hr.inbox]
  · exact Nat.zero_le _

theorem Acts.runs_effort (h : w.Coherent) (ha : (w.discard t.phase.runs).Acts v t d)
    (hf : d.Fits t) : (v.runs.map (Run.weight n)).sum ≤ (w.runs.map (Run.weight n)).sum +
      3*d.opened.length+2*d.posted.toList.length := by
  rw [ha.runs_eq h,List.map_append,List.sum_append,List.map_map]
  have hd : ((w.runs.filter fun r => !r.id.isWithinAny t.phase.runs).map Run.id).Nodup :=
    h.runs_nodup.sublist (List.Sublist.map _ List.filter_sublist)
  have hreceive := sum_le_add (f := Run.weight n) (g := Run.weight n ∘ d.receive t)
    (c := 2*d.posted.toList.length) hd
    (fun r _ hne => Nat.le_of_eq (receive_weight_of_ne hne)) fun r _ hr => receive_weight hr
  have hkept := sum_filter_le (l := w.runs) (f := Run.weight n)
    fun r => !r.id.isWithinAny t.phase.runs
  have hopened : (d.opened.map (Run.weight n)).sum ≤ d.opened.length*3 := by
    rw [← List.length_map (Run.weight n),← Nat.nsmul_eq_mul]
    refine List.sum_le_card_nsmul _ _ fun x hx => ?_
    obtain ⟨q,hq,rfl⟩ := List.mem_map.mp hx
    obtain ⟨g,-,hn⟩ := hf.opened q hq
    exact opened_weight hn
  omega

theorem Acts.tasks_effort (h : w.Coherent) (ht : t ∈ w.tasks) (hn : t.id.run.root = n)
    (ha : (w.discard t.phase.runs).Acts v t d) (hc : d.cost < t.phase.effort) :
    (v.tasks.map (Task.weight n)).sum+(t.phase.effort-(d.next.map Phase.effort).getD 0) ≤
      (w.tasks.map (Task.weight n)).sum := by
  have hweight : t.weight n = t.phase.effort := by simp [Task.weight,hn]
  have hstays : t ∈ (w.discard t.phase.runs).tasks := by
    rw [(w.discard_spec t.phase.runs).2.2.1,List.mem_filter]
    refine ⟨ht,?_⟩
    rw [show t.id.run.isWithinAny t.phase.runs = false from h.stays_self ht]
    rfl
  have hunique (u : Task) (hu : u ∈ (w.discard t.phase.runs).tasks) (he : u.id = t.id) : u = t := by
    rw [(w.discard_spec t.phase.runs).2.2.1] at hu
    exact h.task_unique (List.mem_filter.mp hu).1 ht he
  have hkept : ((w.discard t.phase.runs).tasks.map (Task.weight n)).sum ≤
      (w.tasks.map (Task.weight n)).sum := by
    rw [(w.discard_spec t.phase.runs).2.2.1]
    exact sum_filter_le _
  refine Nat.le_trans ?_ hkept
  rw [ha.tasks]
  unfold Deed.cost at hc
  cases hp : d.next with
  | none =>
    rw [sum_filter]
    refine sum_add_le hstays (fun u hu => ?_) ?_
    · split
      · exact Nat.le_refl _
      · exact Nat.zero_le _
    · simp [hweight]
  | some p =>
    rw [hp] at hc
    simp only [Option.map_some,Option.getD_some] at hc ⊢
    have hp' : Task.weight n { t with phase := p, started := t.started+d.opened.length } = p.effort := by
      simp [Task.weight,hn]
    rw [List.map_map]
    refine sum_add_le hstays (fun u hu => ?_) ?_
    · rw [Function.comp_apply]
      split
      · next he =>
        rw [hunique u hu he,hp',hweight]
        omega
      · exact Nat.le_refl _
    · rw [Function.comp_apply,if_pos rfl,hp',hweight]
      omega

/-- A step of a cancelled run leaves less to be done. -/
theorem Wanes.effort_lt (hw : Wanes n w v) (h : w.Coherent) : v.effort n < w.effort n := by
  cases hw with
  | run hr hn hid _ he ha =>
    rw [ha.effort]
    exact h.effort_setRun hr hn hid he
  | @acts t d ht hn _ ha hf _ hc =>
    have hruns := ha.runs_effort (n := n) h hf
    have htasks := ha.tasks_effort h ht hn hc
    unfold Deed.cost at hc
    unfold World.effort
    omega
  | @leaves t ht hn _ ha =>
    rw [ha.effort]
    have hweight : t.weight n = t.phase.effort := by simp [Task.weight,hn]
    have hpos := t.phase.effort_pos
    have htasks : ((w.tasks.filter fun other => other.id != t.id).map (Task.weight n)).sum+1 ≤
        (w.tasks.map (Task.weight n)).sum := by
      rw [sum_filter]
      refine sum_add_le ht (fun u hu => ?_) ?_
      · split
        · exact Nat.le_refl _
        · exact Nat.zero_le _
      · simp only [bne_self_eq_false,Bool.false_eq_true,if_false]
        omega
    exact Nat.add_lt_add_left htasks _

end World

end TaskGraph.Engine
