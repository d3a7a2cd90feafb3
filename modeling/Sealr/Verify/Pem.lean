import Sealr.Lib.Base64
import Sealr.Verify.Identity

/-!
# The PEM encoder

`der_to_pem` and `base64_encode` are written by hand. What they write is the base 64 of RFC 4648,
padded at the end only, in lines of 64 characters, and decodes to the bytes that were encoded
(`derToPem_decodes`).
-/

namespace Sealr.Verify

open Lib Evidence

section Encoding

/-! ## Digits -/

theorem digit_base64Char (n : Nat) : Base64.digit (base64Char n) = some (n % 64) := by
  have hall : ∀ k ∈ List.range 64, Base64.digit (base64Table.getD k 'A') = some k := by
    decide +kernel
  exact hall _ (List.mem_range.mpr (Nat.mod_lt n (by decide)))

theorem digit_base64Char_eq {n k : Nat} (h : n % 64 = k) :
    Base64.digit (base64Char n) = some k := by
  rw [digit_base64Char, h]

/-- **What was encoded is decoded.** -/
theorem decode_base64Chars (der : Bytes) : Base64.decode (base64Chars der) = some der := by
  induction der using base64Chars.induct with
  | case1 a b c rest ih =>
    have ha := a.toNat_lt
    have hb := b.toNat_lt
    have hc := c.toNat_lt
    exact Base64.decode_full (digit_base64Char_eq (by omega)) (digit_base64Char_eq (by omega))
      (digit_base64Char_eq (by omega)) (digit_base64Char_eq (by omega)) ih
  | case2 a b =>
    have ha := a.toNat_lt
    have hb := b.toNat_lt
    exact Base64.decode_two (digit_base64Char_eq (by omega)) (digit_base64Char_eq (by omega))
      (digit_base64Char_eq (by omega))
  | case3 a =>
    have ha := a.toNat_lt
    exact Base64.decode_one (digit_base64Char_eq (by omega)) (digit_base64Char_eq (by omega))
  | case4 => rw [base64Chars, Base64.decode]

/-- Four characters for every three bytes begun. -/
theorem length_base64Chars (der : Bytes) :
    (base64Chars der).length = 4 * ((der.length + 2) / 3) := by
  induction der using base64Chars.induct with
  | case1 a b c rest ih =>
    simp only [base64Chars, List.length_cons, ih]
    omega
  | case2 | case3 => simp [base64Chars]
  | case4 => simp [base64Chars]

/-- Digits, and what pads them to fours. -/
theorem exists_digits (der : Bytes) : ∃ digits pad, base64Chars der = digits ++ List.replicate pad '=' ∧
    pad ≤ 2 ∧ ∀ c ∈ digits, ∃ n, Base64.digit c = some n := by
  have hdigit : ∀ n, ∃ k, Base64.digit (base64Char n) = some k := fun n => ⟨_, digit_base64Char n⟩
  induction der using base64Chars.induct with
  | case1 a b c rest ih =>
    obtain ⟨digits, pad, heq, hpad, hdigits⟩ := ih
    refine ⟨_ :: _ :: _ :: _ :: digits, pad, by rw [base64Chars, heq]; rfl, hpad, ?_⟩
    simp only [List.forall_mem_cons]
    exact ⟨hdigit _, hdigit _, hdigit _, hdigit _, hdigits⟩
  | case2 a b =>
    refine ⟨[_, _, _], 1, by rw [base64Chars]; rfl, by decide, ?_⟩
    simp only [List.forall_mem_cons]
    exact ⟨hdigit _, hdigit _, hdigit _, by simp⟩
  | case3 a =>
    refine ⟨[_, _], 2, by rw [base64Chars]; rfl, by decide, ?_⟩
    simp only [List.forall_mem_cons]
    exact ⟨hdigit _, hdigit _, by simp⟩
  | case4 => exact ⟨[], 0, by rw [base64Chars]; rfl, by decide, by simp⟩

theorem newline_not_mem_base64Chars (der : Bytes) : '\n' ∉ base64Chars der := by
  obtain ⟨digits, pad, heq, -, hdigits⟩ := exists_digits der
  rw [heq, List.mem_append, not_or]
  constructor
  · intro hmem
    obtain ⟨n, hn⟩ := hdigits _ hmem
    exact Base64.ne_newline hn rfl
  · intro hmem
    cases List.eq_of_mem_replicate hmem

/-! ## Lines -/

/-- The lines of a body, all but the last of 64 characters. -/
theorem pemLines_spec {fuel : Nat} {cs : List Char} (hfuel : cs.length ≤ fuel) :
    ∃ lines : List (List Char), pemLines fuel cs = lines.flatMap (· ++ ['\n']) ∧
      lines.flatten = cs ∧ (∀ line ∈ lines, line.length ≤ 64) ∧
      ∀ line ∈ lines.dropLast, line.length = 64 := by
  induction fuel generalizing cs with
  | zero =>
    obtain rfl := List.length_eq_zero_iff.mp (Nat.le_zero.mp hfuel)
    exact ⟨[], rfl, rfl, by simp, by simp⟩
  | succ fuel ih =>
    match cs with
    | [] => exact ⟨[], rfl, rfl, by simp, by simp⟩
    | c :: cs =>
      generalize hall : c :: cs = all at *
      have hpos : 0 < all.length := by rw [← hall]; exact Nat.succ_pos _
      have hunfold : pemLines (fuel + 1) all = all.take 64 ++ '\n' :: pemLines fuel (all.drop 64) := by
        rw [← hall]
        rfl
      obtain ⟨lines, hlines, hflat, hle, hfull⟩ := @ih (all.drop 64) (by rw [List.length_drop]; omega)
      refine ⟨all.take 64 :: lines, ?_, ?_, ?_, ?_⟩
      · rw [hunfold, hlines, List.flatMap_cons, List.append_assoc]
        rfl
      · rw [List.flatten_cons, hflat, List.take_append_drop]
      · rw [List.forall_mem_cons]
        exact ⟨List.length_take_le 64 all, hle⟩
      · cases lines with
        | nil => simp
        | cons line lines =>
          rw [List.dropLast_cons_cons, List.forall_mem_cons]
          refine ⟨?_, hfull⟩
          -- another line follows, so this one is full
          have hrest : all.drop 64 ≠ [] := by
            intro hnil
            rw [hnil] at hlines
            have hnone : pemLines fuel [] = [] := by cases fuel <;> rfl
            rw [hnone] at hlines
            simp at hlines
          have hlong := List.length_pos_of_ne_nil hrest
          rw [List.length_drop] at hlong
          rw [List.length_take]
          omega

/-- Lines are read off a text again. -/
theorem splitOn_lines {lines : List (List Char)} (h : ∀ line ∈ lines, '\n' ∉ line) (cs : List Char) :
    (lines.flatMap (· ++ ['\n']) ++ cs).splitOn '\n' = lines ++ cs.splitOn '\n' := by
  induction lines with
  | nil => rfl
  | cons line lines ih =>
    rw [List.forall_mem_cons] at h
    rw [List.flatMap_cons, List.append_assoc, List.append_assoc, List.singleton_append,
      List.splitOn_append_cons_self_of_not_mem h.1, ih h.2, List.cons_append]

/-- The text between its marks. -/
theorem toList_derToPem (der : Bytes) : (derToPem der).toList =
    ("-----BEGIN CERTIFICATE-----".toList ++ ['\n']) ++
      (pemLines (base64Chars der).length (base64Chars der) ++
        ("-----END CERTIFICATE-----".toList ++ ['\n'])) := by
  have hfirst : "-----BEGIN CERTIFICATE-----\n".toList =
      "-----BEGIN CERTIFICATE-----".toList ++ ['\n'] := by decide +kernel
  have hlast : "-----END CERTIFICATE-----\n".toList =
      "-----END CERTIFICATE-----".toList ++ ['\n'] := by decide +kernel
  have happend : (derToPem der).toList = "-----BEGIN CERTIFICATE-----\n".toList ++
      (String.ofList (pemLines (base64Chars der).length (base64Chars der))).toList ++
        "-----END CERTIFICATE-----\n".toList := by
    unfold derToPem
    rw [String.toList_append, String.toList_append]
  rw [happend, List.append_assoc]
  exact congrArg₂ (· ++ ·) hfirst (congrArg₂ (· ++ ·) String.toList_ofList hlast)

/-- **The PEM encoder is correct**: four characters for every three bytes begun, padding at the end
only, and the bytes back when the text, or the body between the two marks without its line breaks, is
decoded; no line of the body is longer than 64 characters, and only the last may be shorter. -/
theorem derToPem_decodes (der : Bytes) :
    (base64Chars der).length = 4 * ((der.length + 2) / 3) ∧
    (∃ digits pad, base64Chars der = digits ++ List.replicate pad '=' ∧ pad ≤ 2 ∧ '=' ∉ digits) ∧
    Base64.decode (base64Chars der) = some der ∧
    ∃ lines : List (List Char),
      (derToPem der).toList.splitOn '\n' = "-----BEGIN CERTIFICATE-----".toList ::
        (lines ++ ["-----END CERTIFICATE-----".toList, []]) ∧
      Base64.decode lines.flatten = some der ∧
      (∀ line ∈ lines, line.length ≤ 64) ∧ ∀ line ∈ lines.dropLast, line.length = 64 := by
  obtain ⟨digits, pad, heq, hpad, hdigits⟩ := exists_digits der
  obtain ⟨lines, hlines, hflat, hle, hfull⟩ := pemLines_spec (le_refl (base64Chars der).length)
  refine ⟨length_base64Chars der, ⟨digits, pad, heq, hpad, ?_⟩, decode_base64Chars der, lines, ?_,
    ?_, hle, hfull⟩
  · intro hmem
    obtain ⟨n, hn⟩ := hdigits _ hmem
    exact Base64.ne_pad hn rfl
  · have hbody : ∀ line ∈ lines, '\n' ∉ line := by
      intro line hline hmem
      refine newline_not_mem_base64Chars der ?_
      rw [← hflat]
      exact List.mem_flatten.mpr ⟨line, hline, hmem⟩
    rw [toList_derToPem, hlines, List.append_assoc, List.singleton_append,
      List.splitOn_append_cons_self_of_not_mem (by decide +kernel), splitOn_lines hbody,
      List.splitOn_append_cons_self_of_not_mem (by decide +kernel), List.splitOn_nil]
  · rw [hflat]
    exact decode_base64Chars der

end Encoding

end Sealr.Verify
