import Mathlib.Data.List.Basic

/-!
# A list in sections

Elements carry a key, and keys have an order. A list whose keys ascend is the concatenation of its
sections: all elements of the first key, then all of the second, and so on.
-/

namespace Sealr.Lib

variable {α κ : Type} [DecidableEq κ]

/-- The elements with this key. -/
def keyed (key : α → κ) (xs : List α) (k : κ) : List α := xs.filter fun x => key x = k

/-- The list is made of sections in this order. -/
def InSections (key : α → κ) (ks : List κ) (xs : List α) : Prop :=
  xs = ks.flatMap (keyed key xs)

@[simp]
theorem keyed_append (key : α → κ) (xs ys : List α) (k : κ) :
    keyed key (xs ++ ys) k = keyed key xs k ++ keyed key ys k :=
  List.filter_append xs ys

theorem keyed_eq_nil {key : α → κ} {xs : List α} {k : κ} (h : ∀ x ∈ xs, key x ≠ k) :
    keyed key xs k = [] := by
  apply List.filter_eq_nil_iff.mpr
  intro x hx
  simpa using h x hx

theorem keyed_eq_self {key : α → κ} {xs : List α} {k : κ} (h : ∀ x ∈ xs, key x = k) :
    keyed key xs k = xs := by
  apply List.filter_eq_self.mpr
  intro x hx
  simpa using h x hx

section Order

variable {key : α → κ} {rank : κ → Nat}

/-- The first section comes before the rest. -/
theorem keyed_append_filter_ne {k : κ} {xs : List α}
    (hsorted : xs.Pairwise fun a b => rank (key a) ≤ rank (key b))
    (hmin : ∀ x ∈ xs, key x ≠ k → rank k < rank (key x)) :
    keyed key xs k ++ xs.filter (fun x => key x ≠ k) = xs := by
  induction xs with
  | nil => rfl
  | cons x xs ih =>
    rw [List.pairwise_cons] at hsorted
    by_cases hx : key x = k
    · have hrest := ih hsorted.2 fun y hy => hmin y (List.mem_cons_of_mem x hy)
      simpa [keyed, hx] using hrest
    · -- every later key is at least this one, so none is the first
      have hlater : ∀ y ∈ xs, key y ≠ k := by
        intro y hy heq
        have hlt := hmin x List.mem_cons_self hx
        have hle := hsorted.1 y hy
        rw [heq] at hle
        omega
      have hnil := keyed_eq_nil hlater
      have hself : xs.filter (fun y => key y ≠ k) = xs := by
        apply List.filter_eq_self.mpr
        intro y hy
        simpa using hlater y hy
      simp only [keyed] at hnil
      simp only [keyed, hx, decide_false, Bool.false_eq_true, not_false_eq_true,
        List.filter_cons_of_neg, hnil, List.nil_append, ne_eq, decide_not, Bool.not_false,
        List.filter_cons_of_pos]
      simpa using hself

/-- A list whose keys ascend is in sections. -/
theorem inSections_of_pairwise {ks : List κ} {xs : List α}
    (hks : ks.Pairwise fun k k' => rank k < rank k') (hmem : ∀ x ∈ xs, key x ∈ ks)
    (hsorted : xs.Pairwise fun a b => rank (key a) ≤ rank (key b)) : InSections key ks xs := by
  unfold InSections
  induction ks generalizing xs with
  | nil =>
    cases xs with
    | nil => rfl
    | cons x xs => exact absurd (hmem x List.mem_cons_self) List.not_mem_nil
  | cons k ks ih =>
    rw [List.pairwise_cons] at hks
    have hrest : xs.filter (fun x => key x ≠ k) =
        ks.flatMap (keyed key (xs.filter fun x => key x ≠ k)) := by
      apply ih hks.2
      · intro x hx
        simp only [List.mem_filter, decide_eq_true_eq] at hx
        exact List.mem_of_ne_of_mem hx.2 (hmem x hx.1)
      · exact hsorted.filter _
    have hsame : ks.flatMap (keyed key (xs.filter fun x => key x ≠ k)) =
        ks.flatMap (keyed key xs) := by
      apply List.flatMap_congr
      intro k' hk'
      have hne : k' ≠ k := by
        intro heq
        have hlt := hks.1 k' hk'
        rw [heq] at hlt
        omega
      unfold keyed
      rw [List.filter_filter]
      apply List.filter_congr
      intro x _
      by_cases hx : key x = k' <;> simp [hx, hne]
    have hmin : ∀ x ∈ xs, key x ≠ k → rank k < rank (key x) := by
      intro x hx hne
      exact hks.1 (key x) (List.mem_of_ne_of_mem hne (hmem x hx))
    rw [List.flatMap_cons, ← hsame, ← hrest, keyed_append_filter_ne hsorted hmin]

end Order

end Sealr.Lib
