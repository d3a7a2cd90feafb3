import Mathlib.Algebra.BigOperators.Fin
import Mathlib.Tactic.Common

/-!
# Counting pairs

`pairCount r xs` counts the pairs of places of a list whose elements are related, each pair once.
For a symmetric relation the order of the list does not matter.
-/

namespace Sealr.Lib

variable {α : Type*} {r : α → α → Bool}

def pairCount (r : α → α → Bool) : List α → Nat
  | [] => 0
  | x :: xs => xs.countP (r x) + pairCount r xs

/-- One element more is paired with those before it. -/
theorem pairCount_concat (xs : List α) (x : α) :
    pairCount r (xs ++ [x]) = pairCount r xs + xs.countP (r · x) := by
  induction xs with
  | nil => rfl
  | cons y xs ih =>
    simp only [List.cons_append, pairCount, ih, List.countP_append, List.countP_cons,
      List.countP_nil, Nat.zero_add]
    omega

theorem pairCount_perm (hr : ∀ a b, r a b = r b a) {xs ys : List α} (h : xs.Perm ys) :
    pairCount r xs = pairCount r ys := by
  induction h with
  | nil => rfl
  | cons x h ih => rw [pairCount, pairCount, ih, h.countP_eq]
  | swap x y xs =>
    simp only [pairCount, List.countP_cons, hr y x]
    omega
  | trans _ _ ih₁ ih₂ => exact ih₁.trans ih₂

theorem sum_getElem_countP (p : α → Bool) (xs : List α) :
    ∑ i : Fin xs.length, (if p xs[i] then 1 else 0) = xs.countP p := by
  induction xs with
  | nil => rfl
  | cons x xs ih =>
    rw [List.countP_cons, ← ih, Nat.add_comm]
    exact Fin.sum_univ_succ _

/-- The pairs of places, counted as a set. -/
theorem card_pairs (r : α → α → Bool) (xs : List α) :
    (Finset.univ.filter fun p : Fin xs.length × Fin xs.length =>
      p.1 < p.2 ∧ r xs[p.1] xs[p.2] = true).card = pairCount r xs := by
  rw [Finset.card_filter, Fintype.sum_prod_type]
  induction xs with
  | nil => rfl
  | cons x xs ih =>
    have hsucc : ∀ i : Fin xs.length, (∑ j : Fin (xs.length + 1),
        if i.succ < j ∧ r (x :: xs)[i.succ] (x :: xs)[j] = true then 1 else 0) =
          ∑ j : Fin xs.length, if i < j ∧ r xs[i] xs[j] = true then 1 else 0 := by
      intro i
      rw [Fin.sum_univ_succ, if_neg fun h => absurd h.1 (Fin.not_lt_zero _), Nat.zero_add]
      apply Finset.sum_congr rfl
      intro j _
      simp only [Fin.succ_lt_succ_iff]
      rfl
    have hzero : (∑ j : Fin (xs.length + 1),
        if 0 < j ∧ r (x :: xs)[(0 : Fin (xs.length + 1))] (x :: xs)[j] = true then 1 else 0) =
          xs.countP (r x) := by
      rw [Fin.sum_univ_succ, if_neg fun h => absurd h.1 (Fin.not_lt_zero _), Nat.zero_add,
        ← sum_getElem_countP]
      apply Finset.sum_congr rfl
      intro j _
      have hpos : 0 < j.succ := Fin.succ_pos j
      simp only [hpos, true_and]
      rfl
    rw [pairCount, ← ih, ← hzero]
    refine (Fin.sum_univ_succ _).trans ?_
    exact congrArg (_ + ·) (Finset.sum_congr rfl fun i _ => hsucc i)

end Sealr.Lib
