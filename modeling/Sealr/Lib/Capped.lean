import Mathlib.Algebra.GroupWithZero.Nat
import Mathlib.Data.List.Basic
import Mathlib.Tactic.Common

/-!
# Capped copies

A list is copied up to a cap on the weight of the copy. Some elements are left out, and where the cap
cuts a mark is put. The cap is tested before each element, so also before one that is left out: a
copy is its own copy (`capped_capped`), but it is the copy of what is left in only when the cap does
not cut behind the last of these (`capped_kept_iff`).
-/

namespace Sealr.Lib

variable {α : Type*} (weight : α → Nat) (skip : α → Bool) (mark : α)

/-- Copy while there is room. -/
def capped : Nat → List α → List α
  | _, [] => []
  | 0, _ :: _ => [mark]
  | room + 1, x :: xs =>
    if skip x then capped (room + 1) xs else x :: capped (room + 1 - weight x) xs

/-- What is left in. -/
def kept (xs : List α) : List α := xs.filter fun x => !skip x

/-- What is left in takes the room up with its last element, and something left out follows. -/
structure CutBehind (room : Nat) (xs : List α) : Prop where
  skipped : ∃ x ∈ xs.getLast?, skip x = true
  full : room ≤ ((kept skip xs).map weight).sum
  last : ∀ pre x, kept skip xs = pre ++ [x] → (pre.map weight).sum < room

variable {weight skip mark} {room : Nat} {x : α} {xs : List α}

theorem kept_cons_of_pos (h : skip x = true) : kept skip (x :: xs) = kept skip xs := by
  simp [kept, h]

theorem kept_cons_of_neg (h : skip x = false) : kept skip (x :: xs) = x :: kept skip xs := by
  simp [kept, h]

/-- **A capped copy is its own capped copy.** -/
theorem capped_capped (room : Nat) (xs : List α) :
    capped weight skip mark room (capped weight skip mark room xs) =
      capped weight skip mark room xs := by
  induction xs generalizing room with
  | nil => cases room <;> rfl
  | cons x xs ih =>
    cases room with
    | zero => rfl
    | succ room =>
      rw [capped]
      split_ifs with hskip
      · exact ih (room + 1)
      · rw [capped, if_neg hskip, ih]

theorem length_capped_le (room : Nat) (xs : List α) :
    (capped weight skip mark room xs).length ≤ xs.length := by
  induction xs generalizing room with
  | nil => cases room <;> exact Nat.le_refl 0
  | cons x xs ih =>
    cases room with
    | zero => simp [capped]
    | succ room =>
      rw [capped]
      split_ifs with hskip
      · exact Nat.le_succ_of_le (ih (room + 1))
      · exact Nat.succ_le_succ (ih _)

/-! ## Leaving out beforehand -/

/-- Without room, the cap cuts behind what is left in exactly when nothing is. -/
theorem cutBehind_zero : CutBehind weight skip 0 (x :: xs) ↔ kept skip (x :: xs) = [] := by
  constructor
  · intro h
    rcases List.eq_nil_or_concat' (kept skip (x :: xs)) with hnil | ⟨pre, y, hlast⟩
    · exact hnil
    · exact absurd (h.last pre y hlast) (Nat.not_lt_zero _)
  · intro h
    refine ⟨⟨_, List.getLast?_eq_some_getLast (List.cons_ne_nil x xs), ?_⟩, Nat.zero_le _, ?_⟩
    · have hall := List.filter_eq_nil_iff.mp h _ (List.getLast_mem (List.cons_ne_nil x xs))
      simpa using hall
    · intro pre y hlast
      rw [h] at hlast
      simp at hlast

theorem cutBehind_cons_of_pos (h : skip x = true) :
    CutBehind weight skip (room + 1) (x :: xs) ↔ CutBehind weight skip (room + 1) xs := by
  constructor
  · rintro ⟨hskipped, hfull, hbefore⟩
    rw [kept_cons_of_pos h] at hfull hbefore
    refine ⟨?_, hfull, hbefore⟩
    rcases eq_or_ne xs [] with rfl | hne
    · simp [kept] at hfull
    · rwa [List.getLast?_cons_of_ne_nil hne] at hskipped
  · rintro ⟨hskipped, hfull, hbefore⟩
    rw [← kept_cons_of_pos (x := x) h] at hfull hbefore
    refine ⟨?_, hfull, hbefore⟩
    rwa [List.getLast?_cons_of_ne_nil]
    rintro rfl
    simp at hskipped

theorem cutBehind_cons_of_neg (h : skip x = false) :
    CutBehind weight skip (room + 1) (x :: xs) ↔
      CutBehind weight skip (room + 1 - weight x) xs := by
  constructor
  · rintro ⟨⟨y, hy, hskip⟩, hfull, hbefore⟩
    rw [kept_cons_of_neg h] at hfull hbefore
    rw [List.map_cons, List.sum_cons] at hfull
    refine ⟨⟨y, ?_, hskip⟩, by omega, ?_⟩
    · rcases eq_or_ne xs [] with rfl | hne
      · obtain rfl : x = y := by simpa using hy
        rw [h] at hskip
        cases hskip
      · rwa [List.getLast?_cons_of_ne_nil hne] at hy
    · intro pre z hkept
      have hlt := hbefore (x :: pre) z (by rw [hkept]; rfl)
      rw [List.map_cons, List.sum_cons] at hlt
      omega
  · rintro ⟨⟨y, hy, hskip⟩, hfull, hbefore⟩
    refine ⟨⟨y, ?_, hskip⟩, ?_, ?_⟩
    · rw [List.getLast?_cons, Option.mem_def.mp hy]
      rfl
    · rw [kept_cons_of_neg h, List.map_cons, List.sum_cons]
      omega
    · intro pre z hkept
      rw [kept_cons_of_neg h] at hkept
      cases pre with
      | nil => exact Nat.succ_pos room
      | cons w pre =>
        obtain ⟨rfl, hrest⟩ := List.cons.inj hkept
        have hlt := hbefore pre z hrest
        rw [List.map_cons, List.sum_cons]
        omega

/-- **When leaving elements out beforehand changes nothing**: unless the cap cuts behind the last
element that is left in. -/
theorem capped_kept_iff : capped weight skip mark room xs =
    capped weight skip mark room (kept skip xs) ↔ ¬CutBehind weight skip room xs := by
  induction xs generalizing room with
  | nil => exact iff_of_true rfl fun h => by simpa using h.skipped
  | cons x xs ih =>
    cases room with
    | zero =>
      rw [cutBehind_zero]
      cases kept skip (x :: xs) <;> simp [capped]
    | succ room =>
      rw [capped]
      cases hskip : skip x with
      | true => rw [if_pos rfl, kept_cons_of_pos hskip, ih, cutBehind_cons_of_pos hskip]
      | false =>
        rw [if_neg Bool.false_ne_true, kept_cons_of_neg hskip, capped, if_neg (by simp [hskip]),
          List.cons.injEq, ih, cutBehind_cons_of_neg hskip]
        exact and_iff_right rfl

/-- The mark stands for something that was left in, unless the cap cuts behind the last of it. -/
theorem capped_kept_ne : capped weight skip mark room (kept skip xs) ≠ kept skip xs ++ [mark] := by
  intro h
  have hle : (capped weight skip mark room (kept skip xs)).length ≤ (kept skip xs).length :=
    length_capped_le room (kept skip xs)
  rw [h, List.length_append, List.length_singleton] at hle
  omega

end Sealr.Lib
