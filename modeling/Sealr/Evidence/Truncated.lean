import Sealr.Lib.Capped
import Sealr.Evidence.Sanitized

/-!
# Truncation

`sanitize` is a capped copy of the characters, where control characters are left out and the cap is
marked by an ellipsis. So it is idempotent (`sanitize_sanitize`), and it tells control characters
from none in one case only: the cap is tested before the control character is skipped, so behind a
text that fills the cap a control character brings an ellipsis (`sanitize_stripControl_iff`).
-/

namespace Sealr.Evidence

open Lib

/-- The length of a character in a string, in bytes. -/
def charLen (c : Char) : Nat := (String.utf8EncodeChar c).length

/-- The characters of a string that `sanitize` may push. -/
def visible (s : String) : List Char := s.toList.filter fun c => !isControl c

/-- A string with all control characters removed. -/
def stripControl (s : String) : String := String.ofList (visible s)

/-- A control character ends the string, and the others reach the cap with the last of them. -/
def EndsCapped (s : String) (maxLen : Nat) : Prop := CutBehind charLen isControl maxLen s.toList

section Sanitize

variable {s : String} {maxLen : Nat}

theorem length_utf8 (cs : List Char) : (utf8 cs).length = (cs.map charLen).sum := by
  induction cs with
  | nil => rfl
  | cons c cs ih => rw [utf8_cons, List.length_append, ih, List.map_cons, List.sum_cons, charLen]

/-- The loop makes a capped copy, in the room that is left. -/
theorem sanitizeFrom_eq_capped (out cs : List Char) : sanitizeFrom maxLen out cs =
    out ++ capped charLen isControl '…' (maxLen - (utf8 out).length) cs := by
  induction cs generalizing out with
  | nil => simp [sanitizeFrom, capped]
  | cons c cs ih =>
    rw [sanitizeFrom]
    split_ifs with hcap hcontrol
    · rw [Nat.sub_eq_zero_of_le hcap, capped]
    · obtain ⟨room, hroom⟩ := Nat.exists_eq_succ_of_ne_zero (Nat.sub_ne_zero_of_lt (not_le.mp hcap))
      rw [ih, hroom, capped, if_pos hcontrol]
    · obtain ⟨room, hroom⟩ := Nat.exists_eq_succ_of_ne_zero (Nat.sub_ne_zero_of_lt (not_le.mp hcap))
      have hsub : maxLen - (utf8 (out ++ [c])).length = room + 1 - charLen c := by
        rw [length_utf8, List.map_append, List.sum_append, ← length_utf8]
        simp only [List.map_cons, List.map_nil, List.sum_cons, List.sum_nil]
        omega
      rw [ih, hroom, capped, if_neg hcontrol, hsub, List.append_assoc, List.singleton_append]

theorem toList_sanitize : (sanitize s maxLen).toList =
    capped charLen isControl '…' maxLen s.toList := by
  rw [sanitize, String.toList_ofList, sanitizeFrom_eq_capped]
  rfl

/-- **When control characters leave no trace**: the string is sanitized as it is without them, and
not to all the others and an ellipsis, unless a control character ends it behind a text that just
reaches the cap. -/
theorem sanitize_stripControl_iff : (sanitize s maxLen = sanitize (stripControl s) maxLen ∧
    (sanitize s maxLen).toList ≠ visible s ++ ['…']) ↔ ¬EndsCapped s maxLen := by
  have hstrip : (sanitize (stripControl s) maxLen).toList =
      capped charLen isControl '…' maxLen (kept isControl s.toList) := by
    rw [toList_sanitize, stripControl, String.toList_ofList]
    rfl
  have hsame : sanitize s maxLen = sanitize (stripControl s) maxLen ↔ ¬EndsCapped s maxLen := by
    rw [← String.toList_inj, toList_sanitize, hstrip]
    exact capped_kept_iff
  rw [hsame, and_iff_left_iff_imp]
  intro hends
  rw [hsame.mpr hends, hstrip]
  exact capped_kept_ne

/-- `sanitize` looks at the control character behind the cap before it skips it. -/
theorem control_leaves_ellipsis : sanitize "a\x1b" 1 = "a…" ∧ stripControl "a\x1b" = "a" ∧
    sanitize "a" 1 = "a" := by
  decide

end Sanitize

/-! ## Projecting again -/

/-- **`sanitize` is idempotent**, so what was projected is not changed by being projected again. -/
theorem sanitize_sanitize : (∀ s maxLen, sanitize (sanitize s maxLen) maxLen = sanitize s maxLen) ∧
    ∀ r, ∀ s ∈ (ConsoleSafeRecord.fromRecord r).sanitizedStrings,
      sanitize s MAX_PROJECTED_STRING = s := by
  have hidem : ∀ s maxLen, sanitize (sanitize s maxLen) maxLen = sanitize s maxLen := by
    intro s maxLen
    rw [← String.toList_inj, toList_sanitize, toList_sanitize]
    exact capped_capped maxLen s.toList
  refine ⟨hidem, ?_⟩
  intro r s hs
  obtain ⟨vs, hvs⟩ := exists_sanitizedStrings_eq r
  rw [hvs] at hs
  obtain ⟨v, -, rfl⟩ := List.mem_map.mp hs
  exact hidem v _

end Sealr.Evidence
