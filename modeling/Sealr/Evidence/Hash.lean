import Mathlib.Tactic.IntervalCases
import Sealr.Evidence.Error

/-!
# Hashing and hexadecimal

Digests are written in lower-case hexadecimal and read in either case. Reading back what was
written gives the bytes (`hexDecode_hexEncode`).
-/

namespace Sealr.Evidence

open Lib

/-! ## Encoding and decoding -/

/-- `hex_encode`. -/
def hexEncode (bytes : Bytes) : String :=
  String.ofList (bytes.flatMap fun b => [hexChar (b.toNat / 16), hexChar (b.toNat % 16)])

def blake3Raw (E : Externals) (bytes : Bytes) : Digest := E.blake3 bytes

def blake3Hex (E : Externals) (bytes : Bytes) : String := hexEncode (E.blake3 bytes).toList

def sha256Raw (E : Externals) (bytes : Bytes) : Digest := E.sha256 bytes

def sha256Hex (E : Externals) (bytes : Bytes) : String := hexEncode (E.sha256 bytes).toList

/-- `hex_val`. -/
def hexVal (E : Externals) (field : String) (c : UInt8) : Result UInt8 :=
  if 0x30 ≤ c ∧ c ≤ 0x39 then .ok (c - 0x30)
  else if 0x61 ≤ c ∧ c ≤ 0x66 then .ok (c - 0x61 + 10)
  else if 0x41 ≤ c ∧ c ≤ 0x46 then .ok (c - 0x41 + 10)
  else .error (.invalidHex field ("invalid hex character " ++ E.debugChar (Char.ofNat c.toNat)))

/-- The loop of `hex_decode` over pairs of characters. -/
def hexPairs (E : Externals) (field : String) : Bytes → Result Bytes
  | hi :: lo :: rest => do
    let hi ← hexVal E field hi
    let lo ← hexVal E field lo
    let out ← hexPairs E field rest
    return (hi <<< 4 ||| lo) :: out
  | _ => .ok []

/-- `hex_decode`. -/
def hexDecode (E : Externals) (field s : String) : Result Bytes :=
  let bytes := asBytes s
  if bytes.length % 2 ≠ 0 then
    .error (.invalidHex field ("odd length " ++ toString bytes.length))
  else hexPairs E field bytes

/-- `hex_decode_digest`. -/
def hexDecodeDigest (E : Externals) (field s : String) : Result Digest := do
  let v ← hexDecode E field s
  if h : v.length = 32 then return ⟨v, h⟩
  else .error (.invalidHex field ("expected 32 bytes, got " ++ toString v.length))

/-- The bytes that a hexadecimal text spells. -/
def bytesOfHex (s : String) : Bytes := (hexDecode (.recorded {}) "" s).toOption.getD []

/-- The digest or signature that a text spells. -/
def ofHex {n : Nat} (s : String) : List.Vector UInt8 n :=
  if h : (bytesOfHex s).length = n then ⟨bytesOfHex s, h⟩ else .replicate n 0

/-! ## Reading back -/

/-- The octet of a hexadecimal digit. -/
theorem utf8EncodeChar_hexChar {n : Nat} (h : n < 16) :
    String.utf8EncodeChar (hexChar n) =
      [if n < 10 then UInt8.ofNat (0x30 + n) else UInt8.ofNat (0x57 + n)] := by
  interval_cases n <;> decide

theorem hexVal_hexChar (E : Externals) (field : String) {n : Nat} (h : n < 16) :
    hexVal E field (if n < 10 then UInt8.ofNat (0x30 + n) else UInt8.ofNat (0x57 + n)) =
      .ok (UInt8.ofNat n) := by
  interval_cases n <;> rfl

/-- An octet is its two digits. -/
theorem nibbles (b : UInt8) :
    UInt8.ofNat (b.toNat / 16) <<< 4 ||| UInt8.ofNat (b.toNat % 16) = b := by
  have hall : ∀ n : Fin 256,
      UInt8.ofNat (n.val / 16) <<< 4 ||| UInt8.ofNat (n.val % 16) = UInt8.ofNat n.val := by
    decide +kernel
  simpa using hall ⟨b.toNat, b.toNat_lt⟩

theorem utf8_hexEncode_cons (b : UInt8) (bs : Bytes) :
    utf8 (hexEncode (b :: bs)).toList =
      String.utf8EncodeChar (hexChar (b.toNat / 16)) ++
        (String.utf8EncodeChar (hexChar (b.toNat % 16)) ++ utf8 (hexEncode bs).toList) := by
  simp [hexEncode, List.flatMap_cons]

theorem length_utf8_hexEncode (bs : Bytes) : (utf8 (hexEncode bs).toList).length = 2 * bs.length := by
  induction bs with
  | nil => rfl
  | cons b bs ih =>
    have hb := b.toNat_lt
    rw [utf8_hexEncode_cons, utf8EncodeChar_hexChar (by omega), utf8EncodeChar_hexChar (by omega)]
    simp [ih]
    omega

theorem hexPairs_hexEncode (E : Externals) (field : String) (bs : Bytes) :
    hexPairs E field (utf8 (hexEncode bs).toList) = .ok bs := by
  induction bs with
  | nil => rfl
  | cons b bs ih =>
    have hb := b.toNat_lt
    rw [utf8_hexEncode_cons, utf8EncodeChar_hexChar (by omega), utf8EncodeChar_hexChar (by omega)]
    simp only [List.cons_append, List.nil_append, hexPairs]
    rw [hexVal_hexChar E field (by omega), hexVal_hexChar E field (by omega), ih]
    simp [bind, Except.bind, pure, Except.pure, nibbles]

theorem hexDecode_hexEncode (E : Externals) (field : String) (bs : Bytes) :
    hexDecode E field (hexEncode bs) = .ok bs := by
  simp only [hexDecode, asBytes_eq, length_utf8_hexEncode, Nat.mul_mod_right, ne_eq, not_true_eq_false,
    ↓reduceIte]
  exact hexPairs_hexEncode E field bs

theorem hexDecodeDigest_hexEncode (E : Externals) (field : String) (d : Digest) :
    hexDecodeDigest E field (hexEncode d.toList) = .ok d := by
  have hlen : d.toList.length = 32 := d.toList_length
  simp only [hexDecodeDigest, hexDecode_hexEncode, bind, Except.bind, hlen, ↓reduceDIte]
  rfl

theorem hexEncode_injective : Function.Injective hexEncode := by
  intro a b h
  have hdec := hexDecode_hexEncode (.recorded {}) "" a
  rw [h, hexDecode_hexEncode] at hdec
  exact (Except.ok.inj hdec).symm

/-- Equal hash texts are equal digests. -/
theorem blake3Hex_inj {E : Externals} {a b : Bytes} :
    blake3Hex E a = blake3Hex E b ↔ E.blake3 a = E.blake3 b := by
  constructor
  · intro h
    exact List.Vector.toList_injective (hexEncode_injective h)
  · intro h
    rw [blake3Hex, h, blake3Hex]

end Sealr.Evidence
