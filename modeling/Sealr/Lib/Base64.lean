import Mathlib.Data.List.Basic
import Sealr.Lib.Bytes

/-!
# Base 64 (RFC 4648)

The decoder: four digits make three bytes, and a last group may be padded to four, where the bits
that are not used must be zero. `decode_full`, `decode_two` and `decode_one` say what the digits of
three, two and one bytes are read as.
-/

namespace Sealr.Lib.Base64

/-- The digits, by value. -/
def alphabet : List Char :=
  "ABCDEFGHIJKLMNOPQRSTUVWXYZabcdefghijklmnopqrstuvwxyz0123456789+/".toList

/-- The value of a digit. -/
def digit (c : Char) : Option Nat := if c ∈ alphabet then some (alphabet.idxOf c) else none

def decode : List Char → Option Bytes
  | [] => some []
  | [a, b, '=', '='] => do
    let x ← digit a
    let y ← digit b
    if y % 16 = 0 then some [UInt8.ofNat (x * 4 + y / 16)] else none
  | [a, b, c, '='] => do
    let x ← digit a
    let y ← digit b
    let z ← digit c
    if z % 4 = 0 then
      some [UInt8.ofNat (x * 4 + y / 16), UInt8.ofNat (y % 16 * 16 + z / 4)]
    else none
  | a :: b :: c :: d :: rest => do
    let x ← digit a
    let y ← digit b
    let z ← digit c
    let w ← digit d
    let bytes ← decode rest
    some (UInt8.ofNat (x * 4 + y / 16) :: UInt8.ofNat (y % 16 * 16 + z / 4) ::
      UInt8.ofNat (z % 4 * 64 + w) :: bytes)
  | _ => none

section Digits

variable {c d e f : Char} {rest : List Char} {bytes : Bytes} {p q r : UInt8}

theorem digit_pad : digit '=' = none := by decide

theorem ne_pad {n : Nat} (h : digit c = some n) : c ≠ '=' := by
  rintro rfl
  rw [digit_pad] at h
  cases h

theorem ne_newline {n : Nat} (h : digit c = some n) : c ≠ '\n' := by
  have hnone : digit '\n' = none := by decide
  rintro rfl
  rw [hnone] at h
  cases h

/-- The first byte is the first digit and the upper bits of the second. -/
theorem byte_first (p : UInt8) {k : Nat} (hk : k < 16) :
    UInt8.ofNat (p.toNat / 4 * 4 + (p.toNat % 4 * 16 + k) / 16) = p := by
  have hp : p.toNat / 4 * 4 + (p.toNat % 4 * 16 + k) / 16 = p.toNat := by omega
  rw [hp, UInt8.ofNat_toNat]

theorem byte_second (q : UInt8) (j : Nat) {k : Nat} (hk : k < 4) :
    UInt8.ofNat ((j * 16 + q.toNat / 16) % 16 * 16 + (q.toNat % 16 * 4 + k) / 4) = q := by
  have hlt := q.toNat_lt
  have hq : (j * 16 + q.toNat / 16) % 16 * 16 + (q.toNat % 16 * 4 + k) / 4 = q.toNat := by omega
  rw [hq, UInt8.ofNat_toNat]

theorem byte_third (r : UInt8) (j : Nat) :
    UInt8.ofNat ((j * 4 + r.toNat / 64) % 4 * 64 + r.toNat % 64) = r := by
  have hlt := r.toNat_lt
  have hr : (j * 4 + r.toNat / 64) % 4 * 64 + r.toNat % 64 = r.toNat := by omega
  rw [hr, UInt8.ofNat_toNat]

/-- The digits of one byte. -/
theorem decode_one (hc : digit c = some (p.toNat / 4)) (hd : digit d = some (p.toNat % 4 * 16)) :
    decode [c, d, '=', '='] = some [p] := by
  have hzero : p.toNat % 4 * 16 % 16 = 0 := by omega
  have hbyte := byte_first p (k := 0) (by decide)
  rw [Nat.add_zero] at hbyte
  rw [decode, hc, hd]
  simp only [Option.bind_eq_bind, Option.bind_some]
  rw [if_pos hzero, hbyte]

/-- The digits of two bytes. -/
theorem decode_two (hc : digit c = some (p.toNat / 4))
    (hd : digit d = some (p.toNat % 4 * 16 + q.toNat / 16))
    (he : digit e = some (q.toNat % 16 * 4)) : decode [c, d, e, '='] = some [p, q] := by
  have hlt := q.toNat_lt
  have hzero : q.toNat % 16 * 4 % 4 = 0 := by omega
  have hfirst := byte_first p (k := q.toNat / 16) (by omega)
  have hsecond := byte_second q (p.toNat % 4) (k := 0) (by decide)
  rw [Nat.add_zero] at hsecond
  rw [decode, hc, hd, he]
  · simp only [Option.bind_eq_bind, Option.bind_some]
    rw [if_pos hzero, hfirst, hsecond]
  · exact ne_pad he

/-- The digits of three bytes, and what follows them. -/
theorem decode_full (hc : digit c = some (p.toNat / 4))
    (hd : digit d = some (p.toNat % 4 * 16 + q.toNat / 16))
    (he : digit e = some (q.toNat % 16 * 4 + r.toNat / 64)) (hf : digit f = some (r.toNat % 64))
    (hrest : decode rest = some bytes) :
    decode (c :: d :: e :: f :: rest) = some (p :: q :: r :: bytes) := by
  have hq := q.toNat_lt
  have hr := r.toNat_lt
  have hfirst := byte_first p (k := q.toNat / 16) (by omega)
  have hsecond := byte_second q (p.toNat % 4) (k := r.toNat / 64) (by omega)
  have hthird := byte_third r (q.toNat % 16)
  rw [decode, hc, hd, he, hf, hrest]
  · simp only [Option.bind_eq_bind, Option.bind_some]
    rw [hfirst, hsecond, hthird]
  · intro _ hpad
    exact absurd hpad (ne_pad hf)
  · intro hpad
    exact absurd hpad (ne_pad hf)

end Digits

end Sealr.Lib.Base64
