import Mathlib.Data.Bool.AllAny
import Sealr.Evidence.Contiguous

/-!
# What hexadecimal texts are read

`hex_decode` reads a text as some bytes exactly when the text in lower case is what `hex_encode`
writes for them (`hexDecode_eq_ok_iff`). Digests, keys and salts are read by it, so each has the
spellings of its bytes and no others.
-/

namespace Sealr.Evidence

open Lib

section

variable {E : Externals} {field : String} {c : Char} {b v : UInt8} {cs : List Char} {bs : Bytes}

/-- What an octet is read as, without the error. -/
def nibbleOf (b : UInt8) : Option UInt8 :=
  if 0x30 ≤ b ∧ b ≤ 0x39 then some (b - 0x30)
  else if 0x61 ≤ b ∧ b ≤ 0x66 then some (b - 0x61 + 10)
  else if 0x41 ≤ b ∧ b ≤ 0x46 then some (b - 0x41 + 10)
  else none

theorem hexVal_eq_ok : hexVal E field b = .ok v ↔ nibbleOf b = some v := by
  unfold hexVal nibbleOf
  split_ifs <;> simp

/-- The octets that are read are ASCII, and what they are read as is their digit in lower case. -/
theorem nibbleOf_eq_some (h : nibbleOf b = some v) : b < 0x80 ∧ v.toNat < 16 ∧
    (Char.ofNat b.toNat).toLower = hexChar v.toNat := by
  have hall : ∀ k : Fin 256, ∀ v, nibbleOf (UInt8.ofNat k.val) = some v →
      k.val < 0x80 ∧ v.toNat < 16 ∧ (Char.ofNat k.val).toLower = hexChar v.toNat := by
    have hcases : ∀ k : Fin 256, (nibbleOf (UInt8.ofNat k.val)).all fun v =>
        decide (k.val < 0x80 ∧ v.toNat < 16 ∧ (Char.ofNat k.val).toLower = hexChar v.toNat) := by
      decide +kernel
    intro k v hv
    have hk := hcases k
    rw [hv, Option.all_some, decide_eq_true_eq] at hk
    exact hk
  have hb := hall ⟨b.toNat, b.toNat_lt⟩ v (by simpa using h)
  exact ⟨UInt8.lt_iff_toNat_lt.mpr hb.1, hb.2⟩

/-- A character whose lower case is a digit is read as that digit. -/
theorem nibbleOf_of_toLower {n : Nat} (hn : n < 16) (h : c.toLower = hexChar n) :
    c.toNat < 0x80 ∧ nibbleOf (UInt8.ofNat c.toNat) = some (UInt8.ofNat n) := by
  have hdigit : (hexChar n).toNat < 0x80 := by
    interval_cases n <;> decide
  have hlow : c.toNat < 0x80 := by
    unfold Char.toLower at h
    split at h
    · next hupper =>
      have hle : c.toNat ≤ 0x5a := hupper.2
      omega
    · rwa [h]
  have hall : ∀ k : Fin 128, ∀ n : Fin 16, (Char.ofNat k.val).toLower = hexChar n.val →
      nibbleOf (UInt8.ofNat k.val) = some (UInt8.ofNat n.val) := by
    decide +kernel
  refine ⟨hlow, hall ⟨c.toNat, hlow⟩ ⟨n, hn⟩ ?_⟩
  rwa [Char.ofNat_toNat]

/-- An encoding that starts with an ASCII octet starts with that character. -/
theorem utf8_eq_cons {t : Bytes} (h : utf8 cs = b :: t) (hb : b < 0x80) :
    ∃ rest, cs = Char.ofNat b.toNat :: rest ∧ t = utf8 rest := by
  cases cs with
  | nil => cases h
  | cons c rest =>
    rw [utf8_cons] at h
    by_cases hc : c.toNat < 0x80
    · rw [utf8EncodeChar_ascii hc, List.singleton_append] at h
      obtain ⟨rfl, rfl⟩ := List.cons.inj h
      have hchar : (UInt8.ofNat c.toNat).toNat = c.toNat := by
        rw [UInt8.toNat_ofNat']
        omega
      exact ⟨rest, by rw [hchar, Char.ofNat_toNat], rfl⟩
    · obtain ⟨first, more, hfirst, hle⟩ := utf8EncodeChar_head (Nat.le_of_not_lt hc)
      rw [hfirst, List.cons_append] at h
      obtain ⟨rfl, -⟩ := List.cons.inj h
      exact absurd hb (UInt8.not_lt.mpr hle)

theorem hexPairs_cons {hi lo : UInt8} {rest : Bytes} :
    hexPairs E field (hi :: lo :: rest) = .ok bs ↔ ∃ x y out, nibbleOf hi = some x ∧
      nibbleOf lo = some y ∧ hexPairs E field rest = .ok out ∧ bs = (x <<< 4 ||| y) :: out := by
  simp only [hexPairs, bind_eq_ok, hexVal_eq_ok]
  constructor
  · rintro ⟨x, hx, y, hy, out, hout, heq⟩
    exact ⟨x, y, out, hx, hy, hout, (Except.ok.inj heq).symm⟩
  · rintro ⟨x, y, out, hx, hy, hout, rfl⟩
    exact ⟨x, hx, y, hy, out, hout, rfl⟩

theorem toList_hexEncode_cons : (hexEncode (b :: bs)).toList =
    hexChar (b.toNat / 16) :: hexChar (b.toNat % 16) :: (hexEncode bs).toList := by
  simp [hexEncode]

/-- Two digits are the halves of the octet they make. -/
theorem halves_of_nibbles {x y : UInt8} (hx : x.toNat < 16) (hy : y.toNat < 16) :
    (x <<< 4 ||| y).toNat / 16 = x.toNat ∧ (x <<< 4 ||| y).toNat % 16 = y.toNat := by
  have hall : ∀ m n : Fin 16,
      (UInt8.ofNat m.val <<< 4 ||| UInt8.ofNat n.val).toNat / 16 = m.val ∧
        (UInt8.ofNat m.val <<< 4 ||| UInt8.ofNat n.val).toNat % 16 = n.val := by
    decide +kernel
  simpa using hall ⟨x.toNat, hx⟩ ⟨y.toNat, hy⟩

/-- Octets that are read in pairs are the digits of what is read, in either case. -/
theorem toLower_of_hexPairs (hlen : (utf8 cs).length % 2 = 0)
    (h : hexPairs E field (utf8 cs) = .ok bs) : cs.map Char.toLower = (hexEncode bs).toList := by
  induction bs generalizing cs with
  | nil =>
    rcases hcs : utf8 cs with _ | ⟨hi, _ | ⟨lo, rest⟩⟩
    · obtain rfl : cs = [] := utf8_injective hcs
      rfl
    · rw [hcs] at hlen
      cases hlen
    · rw [hcs, hexPairs_cons] at h
      obtain ⟨_, _, _, -, -, -, heq⟩ := h
      cases heq
  | cons v bs ih =>
    rcases hcs : utf8 cs with _ | ⟨hi, _ | ⟨lo, rest⟩⟩
    · rw [hcs] at h
      cases h
    · rw [hcs] at hlen
      cases hlen
    · rw [hcs, hexPairs_cons] at h
      obtain ⟨x, y, out, hx, hy, hout, heq⟩ := h
      obtain ⟨rfl, rfl⟩ := List.cons.inj heq
      obtain ⟨hhi, hx16, hxchar⟩ := nibbleOf_eq_some hx
      obtain ⟨hlo, hy16, hychar⟩ := nibbleOf_eq_some hy
      obtain ⟨cs, rfl, htail⟩ := utf8_eq_cons hcs hhi
      obtain ⟨cs, rfl, rfl⟩ := utf8_eq_cons htail.symm hlo
      have hrest : (utf8 cs).length % 2 = 0 := by
        rw [hcs, List.length_cons, List.length_cons] at hlen
        omega
      obtain ⟨hhigh, hlow⟩ := halves_of_nibbles hx16 hy16
      rw [toList_hexEncode_cons, List.map_cons, List.map_cons, hxchar, hychar, ih hrest hout, hhigh,
        hlow]

theorem hexPairs_of_toLower (h : cs.map Char.toLower = (hexEncode bs).toList) :
    (utf8 cs).length % 2 = 0 ∧ hexPairs E field (utf8 cs) = .ok bs := by
  induction bs generalizing cs with
  | nil =>
    obtain rfl : cs = [] := List.map_eq_nil_iff.mp h
    exact ⟨rfl, rfl⟩
  | cons b bs ih =>
    have hb := b.toNat_lt
    rw [toList_hexEncode_cons] at h
    obtain ⟨hi, cs, rfl, hhi, htail⟩ := List.map_eq_cons_iff.mp h
    obtain ⟨lo, cs, rfl, hlo, hrest⟩ := List.map_eq_cons_iff.mp htail
    obtain ⟨hhi', hx⟩ := nibbleOf_of_toLower (by omega) hhi
    obtain ⟨hlo', hy⟩ := nibbleOf_of_toLower (by omega) hlo
    obtain ⟨hlen, hpairs⟩ := ih hrest
    rw [utf8_cons, utf8_cons, utf8EncodeChar_ascii hhi', utf8EncodeChar_ascii hlo',
      List.singleton_append, List.singleton_append]
    refine ⟨?_, hexPairs_cons.mpr ⟨_, _, bs, hx, hy, hpairs, by rw [nibbles]⟩⟩
    rw [List.length_cons, List.length_cons]
    omega

/-- The name of the field is only in errors. -/
theorem hexPairs_field {field' : String} {xs : Bytes} :
    hexPairs E field xs = .ok bs ↔ hexPairs E field' xs = .ok bs := by
  induction xs using hexPairs.induct generalizing bs with
  | case1 hi lo rest ih => simp only [hexPairs_cons, ih]
  | case2 xs hshort =>
    rw [hexPairs, hexPairs]
    · exact hshort
    · exact hshort

theorem hexDecodeDigest_field {field' : String} {s : String} {d : Digest} :
    hexDecodeDigest E field s = .ok d ↔ hexDecodeDigest E field' s = .ok d := by
  have hdecode : ∀ {f f' : String} {bs : Bytes}, hexDecode E f s = .ok bs →
      hexDecode E f' s = .ok bs := by
    intro f f' bs h
    unfold hexDecode at h ⊢
    dsimp only at h ⊢
    split_ifs at h with hodd
    rw [if_neg hodd]
    exact hexPairs_field.mp h
  have hdigest : ∀ {f f' : String}, hexDecodeDigest E f s = .ok d →
      hexDecodeDigest E f' s = .ok d := by
    intro f f' h
    obtain ⟨bs, hbs, h⟩ := bind_eq_ok.mp h
    refine bind_eq_ok.mpr ⟨bs, hdecode hbs, ?_⟩
    by_cases hlen : bs.length = 32
    · exact (dif_pos hlen).trans ((dif_pos hlen).symm.trans h)
    · cases (dif_neg hlen).symm.trans h
  exact ⟨hdigest, hdigest⟩

/-- **What `hex_decode` reads**: the texts that in lower case are what `hex_encode` writes. -/
theorem hexDecode_eq_ok_iff {s : String} :
    hexDecode E field s = .ok bs ↔ s.toList.map Char.toLower = (hexEncode bs).toList := by
  unfold hexDecode
  rw [asBytes_eq]
  constructor
  · intro h
    dsimp only at h
    split_ifs at h with hodd
    exact toLower_of_hexPairs (not_not.mp hodd) h
  · intro h
    obtain ⟨hlen, hpairs⟩ := @hexPairs_of_toLower E field _ _ h
    dsimp only
    rw [if_neg (not_not.mpr hlen)]
    exact hpairs

end

end Sealr.Evidence
