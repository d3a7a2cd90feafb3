import Mathlib.Algebra.Group.Nat.Defs
import Mathlib.Data.Nat.Log

/-!
# Halves at a power of two

A number from two on is split at the power of two below it that is at least its half. There is one
such power (`halves_iff`), and on either side what is left has a smaller logarithm, so that splitting
again and again ends after as many rounds as the logarithm says.
-/

namespace Sealr.Lib

/-- `k` is a power of two below `n` that is at least half of it. -/
structure Halves (k n : Nat) : Prop where
  pow : ∃ e, k = 2 ^ e
  lt : k < n
  le : n ≤ 2 * k

variable {k n : Nat}

theorem halves_pow_iff {e : Nat} : Halves (2 ^ e) n ↔ Nat.clog 2 n = e + 1 := by
  have hlt : 2 ^ e < n ↔ e < Nat.clog 2 n := (Nat.lt_clog_iff_pow_lt Nat.one_lt_two).symm
  have hle : n ≤ 2 * 2 ^ e ↔ Nat.clog 2 n ≤ e + 1 := by
    rw [Nat.clog_le_iff_le_pow Nat.one_lt_two, Nat.pow_succ']
  constructor
  · intro h
    exact Nat.le_antisymm (hle.mp h.le) (hlt.mp h.lt)
  · intro h
    exact ⟨⟨e, rfl⟩, hlt.mpr (by omega), hle.mpr (by omega)⟩

/-- **The halving power is unique**: its exponent is one less than the logarithm. -/
theorem halves_iff (h : 2 ≤ n) : Halves k n ↔ k = 2 ^ (Nat.clog 2 n - 1) := by
  have hpos : 0 < Nat.clog 2 n := Nat.clog_pos Nat.one_lt_two h
  constructor
  · intro hk
    obtain ⟨e, rfl⟩ := hk.pow
    rw [halves_pow_iff.mp hk, Nat.add_sub_cancel]
  · rintro rfl
    exact halves_pow_iff.mpr (by omega)

namespace Halves

theorem clog_left (h : Halves k n) : Nat.clog 2 k + 1 = Nat.clog 2 n := by
  obtain ⟨e, rfl⟩ := h.pow
  rw [halves_pow_iff.mp h, Nat.clog_pow 2 e Nat.one_lt_two]

theorem clog_right (h : Halves k n) : Nat.clog 2 (n - k) + 1 ≤ Nat.clog 2 n := by
  rw [← h.clog_left]
  have hle := h.le
  exact Nat.succ_le_succ (Nat.clog_mono_right 2 (by omega))

end Halves

end Sealr.Lib
