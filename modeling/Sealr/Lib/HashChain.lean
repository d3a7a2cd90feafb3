import Mathlib.Data.List.Forall2
import Sealr.Lib.Bytes

/-!
# Hash chains

A chain is grown at its end: every record carries the digest of what it hashes, the digest of the
record before it inside what it hashes, and a sequence number above that of the record before it;
the first record has number zero.

The last digest determines the chain (`Chain.determined`), for chains whose lengths need not agree
beforehand: number zero stops one chain from being a proper end of the other.
-/

namespace Sealr.Lib

section

variable {R D : Type*} (H : Bytes → D) (input : R → Bytes) (digest prev : R → D) (seq : R → Nat)

/-- A chain and its last record. -/
inductive Chain : List R → R → Prop where
  | first {r : R} (hseq : seq r = 0) (hdigest : digest r = H (input r)) : Chain [r] r
  | snoc {rs : List R} {p r : R} (h : Chain rs p) (hseq : seq p < seq r)
      (hprev : prev r = digest p) (hdigest : digest r = H (input r)) : Chain (rs ++ [r]) r

end

variable {R D : Type*} {H : Bytes → D} {input : R → Bytes} {digest prev : R → D} {seq : R → Nat}

theorem Chain.last_mem {rs : List R} {r : R} (h : Chain H input digest prev seq rs r) : r ∈ rs := by
  cases h <;> simp

theorem Chain.digest_last {rs : List R} {r : R} (h : Chain H input digest prev seq rs r) :
    digest r = H (input r) := by
  cases h <;> assumption

/-- **The last digest determines the chain**: two chains that end in one digest hash the same
inputs, record by record, or two of the inputs collide. -/
theorem Chain.determined {xs ys : List R} {x y : R} (hx : Chain H input digest prev seq xs x)
    (hy : Chain H input digest prev seq ys y) (h : digest x = digest y)
    (hinj : ∀ a ∈ xs, ∀ b ∈ ys, input a = input b → prev a = prev b ∧ seq a = seq b) :
    List.Forall₂ (fun a b => input a = input b) xs ys ∨
      Collides H (xs.map input) (ys.map input) := by
  induction hx generalizing ys y with
  | @first r hseq hdigest =>
    have hH : H (input r) = H (input y) := by rw [← hdigest, ← hy.digest_last, h]
    have hmem : input r ∈ [r].map input := by simp
    rcases Lib.eq_or_collides hmem (List.mem_map_of_mem hy.last_mem) hH with heq | hcol
    · cases hy with
      | first => exact .inl (.cons heq .nil)
      | snoc _ hlt =>
        -- a later record is above its predecessor, so it is not numbered zero
        have := (hinj r (by simp) y (by simp) heq).2
        omega
    · exact .inr hcol
  | @snoc rs p r hchain hlt hprev hdigest ih =>
    have hH : H (input r) = H (input y) := by rw [← hdigest, ← hy.digest_last, h]
    have hmem : input r ∈ (rs ++ [r]).map input := by simp
    rcases Lib.eq_or_collides hmem (List.mem_map_of_mem hy.last_mem) hH with heq | hcol
    · cases hy with
      | first hseq =>
        have := (hinj r (by simp) y (by simp) heq).2
        omega
      | @snoc rs' p' _ hchain' _ hprev' _ =>
        have hlink : digest p = digest p' := by
          rw [← hprev, ← hprev', (hinj r (by simp) y (by simp) heq).1]
        rcases ih hchain' hlink fun a ha b hb => hinj a (by simp [ha]) b (by simp [hb]) with
          hall | hcol
        · exact .inl (List.rel_append hall (.cons heq .nil))
        · exact .inr (hcol.mono (by simp) (by simp))
    · exact .inr hcol

end Sealr.Lib
