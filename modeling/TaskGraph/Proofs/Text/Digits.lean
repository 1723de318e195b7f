import Mathlib.Tactic.Common
import TaskGraph.Text.Blank

/-!
The decimal digits that numbers are written in, as a list of characters.
-/

namespace TaskGraph.Text

/-- The decimal digits of a number. -/
def digits (n : Nat) : List Char := Nat.toDigits 10 n

theorem toList_toString (n : Nat) : (toString n).toList = digits n := Nat.toList_repr

theorem toList_toString_int (n : Int) :
    (toString n).toList = if n < 0 then '-'::digits n.natAbs else digits n.natAbs := by
  cases n with
  | ofNat n =>
    have hn : ¬Int.ofNat n < 0 := by simp
    rw [if_neg hn]
    exact toList_toString n
  | negSucc n =>
    have hn : Int.negSucc n < 0 := Int.negSucc_lt_zero n
    rw [if_pos hn]
    simp [Int.toString_eq_repr,Int.repr,digits]

theorem isDigit_of_mem_digits {n : Nat} {c : Char} (h : c ∈ digits n) : c.isDigit = true :=
  Nat.isDigit_of_mem_toDigits (by decide) (by decide) h

theorem toNat_of_isDigit {c : Char} (h : c.isDigit = true) : 48 ≤ c.toNat ∧ c.toNat ≤ 57 := by
  simp only [Char.isDigit,Bool.and_eq_true,decide_eq_true_eq] at h
  exact ⟨h.1,h.2⟩

theorem not_isBlank_of_isDigit {c : Char} (h : c.isDigit = true) : isBlank c = false := by
  have hc := toNat_of_isDigit h
  simp [isBlank,inRanges,blankRanges]
  omega

theorem digits_ne_nil (n : Nat) : digits n ≠ [] := Nat.toDigits_ne_nil

/-- The value of digits, read after others whose value is known. -/
def digitsValueFrom (start : Nat) (ds : List Char) : Nat :=
  ds.foldl (fun n c => n*10+(c.toNat-48)) start

theorem digitsValueFrom_digits (n : Nat) : digitsValueFrom 0 (digits n) = n := by
  have h := Nat.ofDigitChars_toDigits (b := 10) (n := n) (by decide) (by decide)
  have hf : (fun (n : Nat) (c : Char) => n*10+(c.toNat-48)) =
      fun n c => 10*n+(c.toNat-( '0').toNat) := by
    funext n c
    rw [Nat.mul_comm]
    rfl
  rw [digitsValueFrom,hf]
  exact h

theorem le_digitsValueFrom (start : Nat) (ds : List Char) : start ≤ digitsValueFrom start ds := by
  induction ds generalizing start with
  | nil => exact Nat.le_refl start
  | cons c rest ih =>
    have h := ih (start*10+(c.toNat-48))
    rw [digitsValueFrom,List.foldl_cons]
    rw [digitsValueFrom] at h
    omega

/-- Only the zero starts with a zero, and it has no other digit. -/
theorem digits_of_head_zero {n : Nat} {ds : List Char} (h : digits n = '0'::ds) : ds = [] := by
  have hn : n < 10 := by
    induction n using Nat.strongRecOn generalizing ds with
    | ind n ih =>
      by_contra hn
      have hsplit : digits n = digits (n/10) ++ [(n%10).digitChar] :=
        Nat.toDigits_of_base_le (by decide) (by omega)
      obtain ⟨c,cs,hc⟩ := List.exists_cons_of_ne_nil (digits_ne_nil (n/10))
      rw [hsplit,hc,List.cons_append,List.cons.injEq] at h
      have hlt : n/10 < 10 := ih (n/10) (by omega) (h.1 ▸ hc)
      have hone : digits (n/10) = [(n/10).digitChar] := Nat.toDigits_of_lt_base hlt
      rw [hone,List.cons.injEq,h.1] at hc
      have hzero : ∀ m < 10, 0 < m → m.digitChar ≠ '0' := by decide
      exact hzero (n/10) hlt (by omega) hc.1
  have hone : digits n = [n.digitChar] := Nat.toDigits_of_lt_base hn
  rw [hone,List.cons.injEq] at h
  exact h.2.symm

end TaskGraph.Text
