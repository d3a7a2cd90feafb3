import Mathlib.Data.List.Basic
import Mathlib.Tactic.Common

/-!
# Linked lists

The elements of a list that each name the digest of the one before, and a part of them that was
kept: no link of the part is loose exactly when the part is a prefix of the list
(`LinkedFrom.resolved_iff`). The digests only have to agree on what they link to.
-/

namespace Sealr.Lib

section

variable {α δ : Type*} (digest : α → δ) (prev : α → Option δ)

/-- Every element links to the one before it, the first one to `p`. -/
inductive LinkedFrom : Option δ → List α → Prop where
  | nil {p : Option δ} : LinkedFrom p []
  | cons {p : Option δ} {a : α} {as : List α} (hprev : prev a = p)
      (hrest : LinkedFrom (some (digest a)) as) : LinkedFrom p (a :: as)

end

variable {α δ : Type*} {digest : α → δ} {prev : α → Option δ} {p : Option δ} {as : List α}

theorem LinkedFrom.prev_zero (h : LinkedFrom digest prev p as) {a : α} (ha : as[0]? = some a) :
    prev a = p := by
  cases h with
  | nil => cases ha
  | cons hprev _ =>
    obtain rfl := Option.some.inj ha
    exact hprev

theorem LinkedFrom.prev_succ (h : LinkedFrom digest prev p as) {i : Nat} {a b : α} (ha : as[i]? = some a)
    (hb : as[i + 1]? = some b) : prev b = some (digest a) := by
  induction h generalizing i with
  | nil => cases ha
  | cons hprev hrest ih =>
    cases i with
    | zero =>
      obtain rfl := Option.some.inj ha
      exact hrest.prev_zero hb
    | succ i => exact ih ha hb

theorem getElem?_before {i : Nat} {b : α} (hb : as[i + 1]? = some b) : ∃ a, as[i]? = some a :=
  ⟨_, List.getElem?_eq_getElem (Nat.lt_of_succ_lt (List.getElem?_eq_some_iff.mp hb).1)⟩

/-- Different places have different digests: otherwise the links would lead both to the first
element, of which only one place has no link. -/
theorem LinkedFrom.digest_ne (h : LinkedFrom digest prev none as)
    (hdet : ∀ a ∈ as, ∀ b ∈ as, digest a = digest b → prev a = prev b) {i j : Nat} (hij : i < j)
    {a b : α} (ha : as[i]? = some a) (hb : as[j]? = some b) : digest a ≠ digest b := by
  induction i generalizing j a b with
  | zero =>
    intro heq
    obtain ⟨j, rfl⟩ : ∃ k, j = k + 1 := Nat.exists_eq_succ_of_ne_zero (by omega)
    obtain ⟨c, hc⟩ := getElem?_before hb
    have hprev := hdet a (List.mem_of_getElem? ha) b (List.mem_of_getElem? hb) heq
    rw [h.prev_zero ha, h.prev_succ hc hb] at hprev
    cases hprev
  | succ i ih =>
    intro heq
    obtain ⟨j, rfl⟩ : ∃ k, j = k + 1 := Nat.exists_eq_succ_of_ne_zero (by omega)
    obtain ⟨a', ha'⟩ := getElem?_before ha
    obtain ⟨b', hb'⟩ := getElem?_before hb
    have hprev := hdet a (List.mem_of_getElem? ha) b (List.mem_of_getElem? hb) heq
    rw [h.prev_succ ha' ha, h.prev_succ hb' hb] at hprev
    exact ih (Nat.lt_of_succ_lt_succ hij) ha' hb' (Option.some.inj hprev)

/-- A property of numbers that is passed down and fails somewhere holds below a number. -/
theorem exists_cut {P : Nat → Prop} (hdown : ∀ i, P (i + 1) → P i) {n : Nat} (hn : ¬P n) :
    ∃ k, ∀ i, P i ↔ i < k := by
  have hbelow : ∀ i j, i ≤ j → P j → P i := by
    intro i j hij
    induction hij with
    | refl => exact id
    | step _ ih => exact fun h => ih (hdown _ h)
  induction n with
  | zero =>
    refine ⟨0, ?_⟩
    intro i
    refine ⟨?_, fun h => absurd h (Nat.not_lt_zero i)⟩
    exact fun h => absurd (hbelow 0 i (Nat.zero_le i) h) hn
  | succ n ih =>
    by_cases hP : P n
    · refine ⟨n + 1, ?_⟩
      intro i
      constructor
      · intro h
        by_contra hle
        exact hn (hbelow (n + 1) i (by omega) h)
      · intro h
        exact hbelow i n (by omega) hP
    · exact ih hP

/-- **What is kept of a linked list resolves its links exactly when it is a prefix.** -/
theorem LinkedFrom.resolved_iff (h : LinkedFrom digest prev none as)
    (hdet : ∀ a ∈ as, ∀ b ∈ as, digest a = digest b → prev a = prev b) {kept : List α}
    (hkept : ∀ a ∈ kept, a ∈ as) :
    (∀ a ∈ kept, ∀ d, prev a = some d → ∃ b ∈ kept, d = digest b) ↔
      ∃ k, ∀ a, a ∈ kept ↔ a ∈ as.take k := by
  constructor
  · intro hresolved
    have hdown : ∀ i, (∃ a ∈ kept, as[i + 1]? = some a) → ∃ a ∈ kept, as[i]? = some a := by
      intro i hi
      obtain ⟨b, hb, hbi⟩ := hi
      obtain ⟨a, ha⟩ := getElem?_before hbi
      obtain ⟨c, hc, hdigest⟩ := hresolved b hb _ (h.prev_succ ha hbi)
      obtain ⟨j, hj⟩ := List.mem_iff_getElem?.mp (hkept c hc)
      -- only one place has this digest
      obtain hlt | rfl | hgt := Nat.lt_trichotomy i j
      · exact absurd hdigest (h.digest_ne hdet hlt ha hj)
      · exact ⟨c, hc, hj⟩
      · exact absurd hdigest.symm (h.digest_ne hdet hgt hj ha)
    have hend : ¬∃ a ∈ kept, as[as.length]? = some a := by simp
    obtain ⟨k, hk⟩ := exists_cut (P := fun i => ∃ a ∈ kept, as[i]? = some a) hdown hend
    refine ⟨k, ?_⟩
    intro a
    rw [List.mem_take_iff_getElem]
    constructor
    · intro ha
      obtain ⟨i, hi⟩ := List.mem_iff_getElem?.mp (hkept a ha)
      have hik := (hk i).mp ⟨a, ha, hi⟩
      obtain ⟨hlen, heq⟩ := List.getElem?_eq_some_iff.mp hi
      exact ⟨i, by omega, heq⟩
    · intro ha
      obtain ⟨i, hi, rfl⟩ := ha
      obtain ⟨b, hb, hbi⟩ := (hk i).mpr (by omega)
      rw [List.getElem?_eq_getElem (by omega)] at hbi
      rw [Option.some.inj hbi]
      exact hb
  · intro hprefix a ha d hd
    obtain ⟨k, hk⟩ := hprefix
    obtain ⟨i, hi, rfl⟩ := List.mem_take_iff_getElem.mp ((hk a).mp ha)
    have hi' : as[i]? = some as[i] := List.getElem?_eq_getElem (by omega)
    cases i with
    | zero =>
      rw [h.prev_zero hi'] at hd
      cases hd
    | succ i =>
      have hbefore : as[i]? = some as[i] := List.getElem?_eq_getElem (by omega)
      rw [h.prev_succ hbefore hi'] at hd
      refine ⟨as[i], (hk _).mpr ?_, (Option.some.inj hd).symm⟩
      exact List.mem_take_iff_getElem.mpr ⟨i, by omega, rfl⟩

end Sealr.Lib
