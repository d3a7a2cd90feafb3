import Mathlib.Data.List.TakeWhile
import Mathlib.Tactic.IntervalCases
import Sealr.Lib.Bytes

/-!
# Flipping one bit of a UTF-8 text

A text whose encoding differs from another's in one bit differs from it in one character: the lead
byte of a character says how many bytes follow it, and those that follow cannot be lead bytes, so
the boundaries between characters stay where they were (`utf8_flip`). An ASCII character stays one,
with the bit flipped in its code.
-/

namespace Sealr.Lib

/-- Flip bit `k` of byte `i`. -/
def flipBit (i k : Nat) (b : Bytes) : Bytes := b.modify i (· ^^^ (1 <<< UInt8.ofNat k))

/-- One character for another, as flipping bit `k` of its encoding does it: an ASCII character
stays ASCII. -/
structure FlippedChar (k : Nat) (c c' : Char) : Prop where
  ne : c ≠ c'
  ascii_iff : c.toNat < 0x80 ↔ c'.toNat < 0x80
  toNat_eq : c.toNat < 0x80 → c'.toNat = c.toNat ^^^ 2 ^ k

/-! ## Flipping -/

section Flip

variable {k : Nat}

@[simp] theorem length_flipBit (i k : Nat) (b : Bytes) : (flipBit i k b).length = b.length := by
  simp [flipBit]

@[simp] theorem flipBit_zero_cons (k : Nat) (x : UInt8) (b : Bytes) :
    flipBit 0 k (x :: b) = (x ^^^ (1 <<< UInt8.ofNat k)) :: b := rfl

@[simp] theorem flipBit_succ_cons (i k : Nat) (x : UInt8) (b : Bytes) :
    flipBit (i + 1) k (x :: b) = x :: flipBit i k b := by
  simp [flipBit]

theorem flipBit_append_left {i : Nat} {b : Bytes} (hi : i < b.length) (c : Bytes) :
    flipBit i k (b ++ c) = flipBit i k b ++ c := by
  induction b generalizing i with
  | nil => cases hi
  | cons x b ih =>
    cases i with
    | zero => rfl
    | succ i =>
      have hlt : i < b.length := by simpa using hi
      simp [ih hlt]

theorem flipBit_append_right {i : Nat} {b : Bytes} (hi : b.length ≤ i) (c : Bytes) :
    flipBit i k (b ++ c) = b ++ flipBit (i - b.length) k c := by
  induction b generalizing i with
  | nil => simp
  | cons x b ih =>
    cases i with
    | zero => simp at hi
    | succ i =>
      have hle : b.length ≤ i := by simpa using hi
      simp [ih hle]

theorem toNat_bit (hk : k < 8) : ((1 : UInt8) <<< UInt8.ofNat k).toNat = 2 ^ k := by
  interval_cases k <;> rfl

theorem xor_bit_ne (hk : k < 8) (x : UInt8) : x ^^^ (1 <<< UInt8.ofNat k) ≠ x := by
  intro h
  have hzero : (1 : UInt8) <<< UInt8.ofNat k = 0 := by
    have hx := congrArg (x ^^^ ·) h
    simpa [← UInt8.xor_assoc] using hx
  have hpow := toNat_bit hk
  rw [hzero] at hpow
  exact absurd hpow.symm (Nat.two_pow_pos k).ne'

theorem flipBit_ne (hk : k < 8) {i : Nat} {b : Bytes} (hi : i < b.length) : flipBit i k b ≠ b := by
  induction b generalizing i with
  | nil => cases hi
  | cons x b ih =>
    cases i with
    | zero =>
      intro h
      exact xor_bit_ne hk x (List.cons.inj h).1
    | succ i =>
      intro h
      rw [flipBit_succ_cons] at h
      exact ih (by simpa using hi) (List.cons.inj h).2

end Flip

/-! ## Lead bytes and continuation bytes -/

/-- Can the byte only follow another? -/
def isContinuation (b : UInt8) : Bool := 0x80 ≤ b && b < 0xc0

/-- How many bytes follow a lead byte. -/
def following (b : UInt8) : Nat :=
  if b < 0xc0 then 0 else if b < 0xe0 then 1 else if b < 0xf0 then 2 else 3

theorem isContinuation_ofNat (n : Nat) : isContinuation (UInt8.ofNat (n % 0x40 + 0x80)) = true := by
  have h : n % 0x40 < 0x40 := Nat.mod_lt n (by decide)
  interval_cases n % 0x40 <;> rfl

/-- A character is encoded as a lead byte and the continuation bytes it announces. -/
theorem utf8EncodeChar_shape (c : Char) : ∃ h t, String.utf8EncodeChar c = h :: t ∧
    isContinuation h = false ∧ (∀ b ∈ t, isContinuation b = true) ∧ t.length = following h := by
  have hascii : ∀ n, n ≤ 0x7f → isContinuation (UInt8.ofNat n) = false ∧
      0 = following (UInt8.ofNat n) := by
    intro n hn
    interval_cases n <;> exact ⟨rfl, rfl⟩
  have htwo : ∀ n, isContinuation (UInt8.ofNat (n % 0x20 + 0xc0)) = false ∧
      1 = following (UInt8.ofNat (n % 0x20 + 0xc0)) := by
    intro n
    have h : n % 0x20 < 0x20 := Nat.mod_lt n (by decide)
    interval_cases n % 0x20 <;> exact ⟨rfl, rfl⟩
  have hthree : ∀ n, isContinuation (UInt8.ofNat (n % 0x10 + 0xe0)) = false ∧
      2 = following (UInt8.ofNat (n % 0x10 + 0xe0)) := by
    intro n
    have h : n % 0x10 < 0x10 := Nat.mod_lt n (by decide)
    interval_cases n % 0x10 <;> exact ⟨rfl, rfl⟩
  have hfour : ∀ n, isContinuation (UInt8.ofNat (n % 0x08 + 0xf0)) = false ∧
      3 = following (UInt8.ofNat (n % 0x08 + 0xf0)) := by
    intro n
    have h : n % 0x08 < 0x08 := Nat.mod_lt n (by decide)
    interval_cases n % 0x08 <;> exact ⟨rfl, rfl⟩
  have hcons : ∀ (n : Nat) (t : Bytes), (∀ b ∈ t, isContinuation b = true) →
      ∀ b ∈ UInt8.ofNat (n % 0x40 + 0x80) :: t, isContinuation b = true := by
    intro n t ht
    exact List.forall_mem_cons.mpr ⟨isContinuation_ofNat n, ht⟩
  have hnil : ∀ b ∈ ([] : Bytes), isContinuation b = true := List.forall_mem_nil _
  simp only [String.utf8EncodeChar]
  split_ifs with h1 h2 h3
  · exact ⟨_, _, rfl, (hascii _ h1).1, hnil, (hascii _ h1).2⟩
  · exact ⟨_, _, rfl, (htwo _).1, hcons _ _ hnil, (htwo _).2⟩
  · exact ⟨_, _, rfl, (hthree _).1, hcons _ _ (hcons _ _ hnil), (hthree _).2⟩
  · exact ⟨_, _, rfl, (hfour _).1, hcons _ _ (hcons _ _ (hcons _ _ hnil)), (hfour _).2⟩

theorem utf8EncodeChar_injective : Function.Injective String.utf8EncodeChar := by
  intro c d h
  have hutf8 : utf8 [c] = utf8 [d] := by simp [h]
  exact List.singleton_inj.mp (utf8_injective hutf8)

/-- The continuation bytes in front of a text end where its first character starts. -/
theorem takeWhile_isContinuation {t : Bytes} (ht : ∀ b ∈ t, isContinuation b = true)
    (cs : List Char) : (t ++ utf8 cs).takeWhile isContinuation = t := by
  rw [List.takeWhile_append_of_pos ht]
  cases cs with
  | nil => simp
  | cons c cs =>
    obtain ⟨h, u, hu, hlead, -, -⟩ := utf8EncodeChar_shape c
    simp [hu, hlead]

theorem continuations_unique {t t' : Bytes} (ht : ∀ b ∈ t, isContinuation b = true)
    (ht' : ∀ b ∈ t', isContinuation b = true) {cs ds : List Char}
    (h : t ++ utf8 cs = t' ++ utf8 ds) : t = t' ∧ cs = ds := by
  obtain rfl : t = t' := by
    rw [← takeWhile_isContinuation ht cs, h, takeWhile_isContinuation ht' ds]
  exact ⟨rfl, utf8_injective (List.append_cancel_left h)⟩

/-! ## One bit, one character -/

section OneCharacter

variable {k : Nat} {c c' : Char} {h h' : UInt8} {t t' : Bytes}

/-- A character is ASCII when nothing follows its lead byte. -/
theorem ascii_iff_following (hc : String.utf8EncodeChar c = h :: t) : c.toNat < 0x80 ↔ t = [] := by
  constructor
  · intro hlt
    rw [utf8EncodeChar_ascii hlt] at hc
    exact (List.cons.inj hc).2.symm
  · rintro rfl
    by_contra hle
    obtain ⟨b, bs, hb, hge⟩ := utf8EncodeChar_head (not_lt.mp hle)
    obtain ⟨h₂, t₂, hc₂, hlead, -, hlen⟩ := utf8EncodeChar_shape c
    rw [hc] at hb hc₂
    obtain ⟨rfl, rfl⟩ := List.cons.inj hb
    obtain ⟨rfl, rfl⟩ := List.cons.inj hc₂
    -- a byte from 0x80 on that announces nothing is a continuation byte
    have hlow : h < 0xc0 := by
      by_contra hhigh
      simp only [following, hhigh, ↓reduceIte, List.length_nil] at hlen
      split_ifs at hlen
    simp [isContinuation, hge, hlow] at hlead

/-- The characters of two encodings that differ in one bit. -/
theorem flippedChar_of (hk : k < 8) {i : Nat} (hi : i < (String.utf8EncodeChar c).length)
    (hc : flipBit i k (String.utf8EncodeChar c) = String.utf8EncodeChar c') :
    FlippedChar k c c' := by
  obtain ⟨h, t, hht, -, -, -⟩ := utf8EncodeChar_shape c
  obtain ⟨h', t', hht', -, -, -⟩ := utf8EncodeChar_shape c'
  have hlen : (h :: t).length = (h' :: t').length := by
    rw [← hht, ← hht', ← hc, length_flipBit]
  have hiff : c.toNat < 0x80 ↔ c'.toNat < 0x80 := by
    rw [ascii_iff_following hht, ascii_iff_following hht', ← List.length_eq_zero_iff,
      ← List.length_eq_zero_iff]
    simp only [List.length_cons] at hlen
    omega
  refine ⟨?_, hiff, fun hlt => ?_⟩
  · rintro rfl
    exact flipBit_ne hk hi hc
  · rw [utf8EncodeChar_ascii hlt, utf8EncodeChar_ascii (hiff.mp hlt)] at hc
    rw [utf8EncodeChar_ascii hlt, List.length_singleton, Nat.lt_one_iff] at hi
    subst hi
    have hbyte := congrArg UInt8.toNat (List.cons.inj hc).1
    rw [UInt8.toNat_xor, toNat_bit hk, UInt8.toNat_ofNat', UInt8.toNat_ofNat'] at hbyte
    have hlt' := hiff.mp hlt
    rw [Nat.mod_eq_of_lt (by omega), Nat.mod_eq_of_lt (by omega)] at hbyte
    exact hbyte.symm

/-- **Texts whose encodings differ in one bit differ in one character**, the one whose encoding
holds the bit. -/
theorem utf8_flip {cs cs' : List Char} {i : Nat} (hi : i < (utf8 cs).length) (hk : k < 8)
    (hflip : flipBit i k (utf8 cs) = utf8 cs') :
    ∃ pre c c' post, cs = pre ++ c :: post ∧ cs' = pre ++ c' :: post ∧ FlippedChar k c c' ∧
      (utf8 pre).length ≤ i ∧ i < (utf8 pre).length + (String.utf8EncodeChar c).length := by
  induction cs generalizing i cs' with
  | nil => simp at hi
  | cons a cs ih =>
    obtain ⟨h, t, hht, -, hcont, hlen⟩ := utf8EncodeChar_shape a
    cases cs' with
    | nil =>
      have hlength := congrArg List.length hflip
      rw [length_flipBit, utf8_nil, List.length_nil] at hlength
      omega
    | cons a' ds =>
      obtain ⟨h', t', hht', -, hcont', hlen'⟩ := utf8EncodeChar_shape a'
      -- the flipped byte is one of the first character, or comes after it
      by_cases hfirst : i < (String.utf8EncodeChar a).length
      · have hsplit : flipBit i k (String.utf8EncodeChar a) = String.utf8EncodeChar a' ∧ cs = ds := by
          rw [utf8_cons, utf8_cons, flipBit_append_left hfirst, hht, hht'] at hflip
          rw [hht, hht']
          cases i with
          | zero =>
            rw [flipBit_zero_cons, List.cons_append, List.cons_append] at hflip
            obtain ⟨hlead, hrest⟩ := List.cons.inj hflip
            obtain ⟨rfl, rfl⟩ := continuations_unique hcont hcont' hrest
            exact ⟨by rw [flipBit_zero_cons, hlead], rfl⟩
          | succ j =>
            -- the lead byte is the same, so as many bytes follow it
            rw [flipBit_succ_cons, List.cons_append, List.cons_append] at hflip
            obtain ⟨rfl, hrest⟩ := List.cons.inj hflip
            have hsame : (flipBit j k t).length = t'.length := by
              rw [length_flipBit, hlen, hlen']
            obtain ⟨htail, hcs⟩ := List.append_inj hrest hsame
            exact ⟨by rw [flipBit_succ_cons, htail], utf8_injective hcs⟩
        obtain ⟨hchar, rfl⟩ := hsplit
        refine ⟨[], a, a', cs, rfl, rfl, flippedChar_of hk hfirst hchar, by simp, ?_⟩
        rwa [utf8_nil, List.length_nil, Nat.zero_add]
      · rw [not_lt] at hfirst
        rw [utf8_cons, utf8_cons, flipBit_append_right hfirst, hht, hht', List.cons_append,
          List.cons_append] at hflip
        obtain ⟨rfl, hrest⟩ := List.cons.inj hflip
        obtain ⟨rfl, hcs⟩ := List.append_inj hrest (hlen.trans hlen'.symm)
        obtain rfl : a = a' := utf8EncodeChar_injective (hht.trans hht'.symm)
        rw [utf8_cons, List.length_append] at hi
        rw [← hht] at hcs
        obtain ⟨pre, c, c', post, rfl, rfl, hchar, hle, hlt⟩ := ih (by omega) hcs
        refine ⟨a :: pre, c, c', post, rfl, rfl, hchar, ?_, ?_⟩
        · rw [utf8_cons, List.length_append]
          omega
        · rw [utf8_cons, List.length_append]
          omega

end OneCharacter

end Sealr.Lib
