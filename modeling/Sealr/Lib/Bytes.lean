import Mathlib.Algebra.Group.Nat.Defs
import Mathlib.Data.List.Basic
import Mathlib.Data.List.Infix
import Mathlib.Tactic.Common

/-!
# Byte strings, UTF-8 and exhibited collisions

A byte string is a list of octets. `utf8` encodes a list of Unicode scalar values, `utf8Decode`
inverts it (`utf8Decode_utf8`), and the encoding of a text without control characters has no
control byte (`le_of_mem_utf8`). Bytes that are ASCII are decoded one by one, which is what makes
`utf8Decode` and `chars` cheap to evaluate on concrete texts.

A hash function over byte strings always has collisions, so a binding result cannot say "or a
collision exists". `Collides H S T` names two distinct byte strings with one digest among the
inputs `S` and `T` that two computations really hashed.
-/

namespace Sealr.Lib

/-- A byte string. -/
abbrev Bytes := List UInt8

/-- The last `k` bytes of a number, the most significant first. -/
def bytesBE (k n : Nat) : Bytes := (List.range k).map fun i => UInt8.ofNat (n / 256 ^ (k - 1 - i))

/-! ## UTF-8 -/

/-- The UTF-8 encoding of a list of Unicode scalar values. -/
def utf8 (cs : List Char) : Bytes :=
  cs.flatMap String.utf8EncodeChar

/-- The characters of a byte string that is ASCII. -/
def asciiChars : Bytes → Option (List Char)
  | [] => some []
  | b :: bs => if b < 0x80 then (asciiChars bs).map (Char.ofNat b.toNat :: ·) else none

/-- Decode UTF-8, refusing ill-formed sequences. -/
def utf8Decode (b : Bytes) : Option (List Char) :=
  match asciiChars b with
  | some cs => some cs
  | none => b.toByteArray.utf8Decode?.map Array.toList

/-- The bytes of a text. -/
def asBytes (s : String) : Bytes := s.toByteArray.data.toList

/-- The characters of a text. -/
def chars (s : String) : List Char := (asciiChars (asBytes s)).getD s.toList

@[simp] theorem utf8_nil : utf8 [] = [] := rfl

@[simp] theorem utf8_cons (c : Char) (cs : List Char) :
    utf8 (c :: cs) = String.utf8EncodeChar c ++ utf8 cs := rfl

@[simp] theorem utf8_append (cs ds : List Char) : utf8 (cs ++ ds) = utf8 cs ++ utf8 ds := by
  simp [utf8]

theorem utf8_toByteArray (cs : List Char) : (utf8 cs).toByteArray = cs.utf8Encode := rfl

/-- A character below 0x80 is its own encoding. -/
theorem utf8EncodeChar_ascii {c : Char} (h : c.toNat < 0x80) :
    String.utf8EncodeChar c = [UInt8.ofNat c.toNat] := by
  have h' : c.val.toNat ≤ 0x7f := by
    have : c.toNat = c.val.toNat := rfl
    omega
  simp only [String.utf8EncodeChar, h', ↓reduceIte]
  rfl

/-- The encoding of a character from U+0080 on starts with a byte that is not ASCII. -/
theorem utf8EncodeChar_head {c : Char} (h : 0x80 ≤ c.toNat) :
    ∃ b bs, String.utf8EncodeChar c = b :: bs ∧ 0x80 ≤ b := by
  have hv : c.toNat = c.val.toNat := rfl
  have h80 : (0x80 : UInt8).toNat = 0x80 := rfl
  simp only [String.utf8EncodeChar]
  split_ifs
  · omega
  all_goals
    refine ⟨_, _, rfl, ?_⟩
    rw [UInt8.le_iff_toNat_le, UInt8.toNat_ofNat']
    omega

theorem toNat_ofNat_of_valid {n : Nat} (h : n.isValidChar) : (Char.ofNat n).toNat = n := by
  rw [Char.ofNat, dif_pos h]
  rfl

theorem asciiChars_utf8 {cs ds : List Char} (h : asciiChars (utf8 cs) = some ds) : ds = cs := by
  induction cs generalizing ds with
  | nil => simpa [asciiChars] using h.symm
  | cons c cs ih =>
    rw [utf8_cons] at h
    by_cases hc : c.toNat < 0x80
    · have hval : (UInt8.ofNat c.toNat).toNat = c.toNat := by
        rw [UInt8.toNat_ofNat']
        omega
      have hb : UInt8.ofNat c.toNat < 0x80 := by
        rw [UInt8.lt_iff_toNat_lt, hval]
        exact hc
      rw [utf8EncodeChar_ascii hc, List.singleton_append, asciiChars, if_pos hb] at h
      obtain ⟨ds', hds, rfl⟩ := Option.map_eq_some_iff.mp h
      rw [ih hds, hval, Char.ofNat_toNat]
    · obtain ⟨b, bs, hb, hle⟩ := utf8EncodeChar_head (not_lt.mp hc)
      rw [hb, List.cons_append, asciiChars, if_neg (UInt8.not_lt.mpr hle)] at h
      cases h

@[simp] theorem utf8Decode_utf8 (cs : List Char) : utf8Decode (utf8 cs) = some cs := by
  unfold utf8Decode
  cases h : asciiChars (utf8 cs) with
  | some ds => rw [asciiChars_utf8 h]
  | none => simp [utf8_toByteArray]

/-- What is decoded encodes the bytes. -/
theorem utf8_of_utf8Decode {b : Bytes} {cs : List Char} (h : utf8Decode b = some cs) :
    utf8 cs = b := by
  have hascii : ∀ {b cs}, asciiChars b = some cs → utf8 cs = b := by
    intro b
    induction b with
    | nil =>
      intro cs hcs
      obtain rfl := Option.some.inj hcs
      rfl
    | cons x b ih =>
      intro cs hcs
      rw [asciiChars] at hcs
      split_ifs at hcs with hx
      obtain ⟨ds, hds, rfl⟩ := Option.map_eq_some_iff.mp hcs
      have h80 : (0x80 : UInt8).toNat = 0x80 := rfl
      rw [UInt8.lt_iff_toNat_lt, h80] at hx
      have hchar : (Char.ofNat x.toNat).toNat = x.toNat := by
        refine toNat_ofNat_of_valid ?_
        unfold Nat.isValidChar
        omega
      rw [utf8_cons, ih hds, utf8EncodeChar_ascii (by omega), hchar, UInt8.ofNat_toNat]
      rfl
  unfold utf8Decode at h
  split at h
  · next ds hds =>
    obtain rfl := Option.some.inj h
    exact hascii hds
  · obtain ⟨arr, harr, rfl⟩ := Option.map_eq_some_iff.mp h
    have hsome : b.toByteArray.utf8Decode?.isSome := by rw [harr, Option.isSome_some]
    have henc := @ByteArray.utf8Encode_get_utf8Decode? b.toByteArray hsome
    simp only [harr, Option.get_some] at henc
    have hdata := congrArg (fun a => a.data.toList) henc
    simpa [utf8, List.utf8Encode] using hdata

@[simp] theorem asBytes_eq (s : String) : asBytes s = utf8 s.toList := by
  have h : s.toByteArray = (utf8 s.toList).toByteArray := by
    rw [utf8_toByteArray, ← String.toByteArray_ofList, String.ofList_toList]
  rw [asBytes, h, List.toList_data_toByteArray]

@[simp] theorem chars_eq (s : String) : chars s = s.toList := by
  unfold chars
  rw [asBytes_eq]
  cases h : asciiChars (utf8 s.toList) with
  | some ds => rw [asciiChars_utf8 h, Option.getD_some]
  | none => rfl

/-- The encoding determines the text. -/
theorem utf8_injective : Function.Injective utf8 := by
  intro cs ds h
  have hd : utf8Decode (utf8 cs) = utf8Decode (utf8 ds) := by rw [h]
  simpa using hd

theorem asBytes_injective : Function.Injective asBytes := by
  intro s t h
  rw [asBytes_eq, asBytes_eq] at h
  exact String.toList_inj.mp (utf8_injective h)

theorem isValidUTF8_utf8 (cs : List Char) : (utf8 cs).toByteArray.IsValidUTF8 :=
  .intro cs rfl

/-- The octets of a character from U+0020 on are not control bytes. -/
theorem le_of_mem_utf8EncodeChar {c : Char} (h : 0x20 ≤ c.toNat) {b : UInt8}
    (hb : b ∈ String.utf8EncodeChar c) : 0x20 ≤ b := by
  have hv : c.toNat = c.val.toNat := rfl
  have h20 : (0x20 : UInt8).toNat = 32 := rfl
  rw [UInt8.le_iff_toNat_le]
  simp only [String.utf8EncodeChar] at hb
  split_ifs at hb <;> simp only [List.mem_cons, List.not_mem_nil, or_false] at hb
  · subst hb
    rw [UInt8.toNat_ofNat']
    omega
  · rcases hb with rfl | rfl <;> rw [UInt8.toNat_ofNat'] <;> omega
  · rcases hb with rfl | rfl | rfl <;> rw [UInt8.toNat_ofNat'] <;> omega
  · rcases hb with rfl | rfl | rfl | rfl <;> rw [UInt8.toNat_ofNat'] <;> omega

theorem le_of_mem_utf8 {cs : List Char} (h : ∀ c ∈ cs, 0x20 ≤ c.toNat) {b : UInt8}
    (hb : b ∈ utf8 cs) : 0x20 ≤ b := by
  obtain ⟨c, hc, hbc⟩ := List.mem_flatMap.mp hb
  exact le_of_mem_utf8EncodeChar (h c hc) hbc

/-! ## Hexadecimal digits -/

/-- A lower-case hexadecimal digit. -/
def hexChar (n : Nat) : Char :=
  if n < 10 then Char.ofNat ('0'.toNat + n) else Char.ofNat ('a'.toNat + (n - 10))

/-! ## Exhibited collisions -/

section Collides

variable {α β : Type*} {H : α → β} {S S' T T' : List α}

/-- An input of `S` and a different input of `T` have one digest. -/
def Collides (H : α → β) (S T : List α) : Prop :=
  ∃ x ∈ S, ∃ y ∈ T, x ≠ y ∧ H x = H y

theorem Collides.mono (h : Collides H S T) (hS : S ⊆ S') (hT : T ⊆ T') : Collides H S' T' := by
  obtain ⟨x, hx, y, hy, hne, heq⟩ := h
  exact ⟨x, hS hx, y, hT hy, hne, heq⟩

theorem Collides.symm (h : Collides H S T) : Collides H T S := by
  obtain ⟨x, hx, y, hy, hne, heq⟩ := h
  exact ⟨y, hy, x, hx, hne.symm, heq.symm⟩

/-- Hashed inputs with one digest are equal, or they are the collision. -/
theorem eq_or_collides {x y : α} (hx : x ∈ S) (hy : y ∈ T) (h : H x = H y) :
    x = y ∨ Collides H S T := by
  by_cases hxy : x = y
  · exact .inl hxy
  · exact .inr ⟨x, hx, y, hy, hxy, h⟩

end Collides

end Sealr.Lib
