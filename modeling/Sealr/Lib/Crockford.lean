import Mathlib.Data.Nat.Digits.Lemmas
import Mathlib.Tactic.IntervalCases

/-!
# Crockford base 32

Numbers written with a fixed count of base-32 digits, the most significant first. Reading what was
written gives the number (`decode_encode`).
-/

namespace Sealr.Lib.Crockford

/-- The alphabet, which leaves out I, L, O and U. -/
def alphabet : List Char := "0123456789ABCDEFGHJKMNPQRSTVWXYZ".toList

def digitChar (d : Nat) : Char := alphabet.getD d '0'

/-- A letter is read in either case. -/
def charDigit (c : Char) : Option Nat := alphabet.idxOf? c.toUpper

def encode (l n : Nat) : List Char := (Nat.digitsAppend 32 l n).reverse.map digitChar

def decode (cs : List Char) : Option Nat :=
  (cs.mapM charDigit).map fun ds => Nat.ofDigits 32 ds.reverse

theorem charDigit_digitChar {d : Nat} (h : d < 32) : charDigit (digitChar d) = some d := by
  interval_cases d <;> decide

theorem length_encode {l n : Nat} (h : n < 32 ^ l) : (encode l n).length = l := by
  rw [encode, List.length_map, List.length_reverse, Nat.length_digitsAppend (by norm_num) l h]

theorem mapM_charDigit {ds : List Nat} (h : ∀ d ∈ ds, d < 32) :
    (ds.map digitChar).mapM charDigit = some ds := by
  induction ds with
  | nil => rfl
  | cons d ds ih =>
    have hd := charDigit_digitChar (h d List.mem_cons_self)
    have hds := ih fun x hx => h x (List.mem_cons_of_mem _ hx)
    simp [List.mapM_cons, hd, hds]

theorem decode_encode (l n : Nat) : decode (encode l n) = some n := by
  have hlt : ∀ d ∈ (Nat.digitsAppend 32 l n).reverse, d < 32 := by
    intro d hd
    exact Nat.lt_of_mem_digitsAppend (by norm_num) l d (List.mem_reverse.mp hd)
  rw [decode, encode, mapM_charDigit hlt, Option.map_some, List.reverse_reverse, Nat.digitsAppend,
    Nat.ofDigits_append_replicate_zero, Nat.ofDigits_digits]

end Sealr.Lib.Crockford
