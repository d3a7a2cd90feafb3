import Mathlib.Data.List.DropRight
import Sealr.Lib.Bytes

/-!
# Splitting, trimming and decimal numbers

A text is split at the first separator, loses what is blank at both ends, and is read as an unsigned
number. Each operation is told by the texts it takes apart (`splitOnce_eq_some`, `trim_eq_iff`,
`parseU64_eq_some`), so that a line that was put together is read back.
-/

namespace Sealr.Lib.Text

/-! ## Splitting -/

section Split

variable {α : Type} [DecidableEq α] {sep : α} {s l r : List α}

/-- What stands before and after the first separator. -/
def splitOnce (sep : α) : List α → Option (List α × List α)
  | [] => none
  | c :: cs => if c = sep then some ([], cs) else (splitOnce sep cs).map fun p => (c :: p.1, p.2)

theorem splitOnce_eq_some : splitOnce sep s = some (l, r) ↔ s = l ++ sep :: r ∧ sep ∉ l := by
  induction s generalizing l with
  | nil => simp [splitOnce]
  | cons c cs ih =>
    unfold splitOnce
    split_ifs with hc
    · cases l with
      | nil => simp [hc, eq_comm]
      | cons d l =>
        refine iff_of_false (by simp) ?_
        rintro ⟨heq, hl⟩
        obtain ⟨rfl, -⟩ := List.cons.inj heq
        exact hl (hc ▸ List.mem_cons_self)
    · cases l with
      | nil => simp [hc]
      | cons d l =>
        simp only [Option.map_eq_some_iff, Prod.mk.injEq, Prod.exists, List.cons.injEq,
          List.cons_append, List.mem_cons, not_or]
        constructor
        · rintro ⟨l', r', hsplit, ⟨rfl, rfl⟩, rfl⟩
          obtain ⟨hcs, hl⟩ := ih.mp hsplit
          exact ⟨⟨rfl, hcs⟩, Ne.symm hc, hl⟩
        · rintro ⟨⟨rfl, hcs⟩, -, hl⟩
          exact ⟨l, r, ih.mpr ⟨hcs, hl⟩, ⟨rfl, rfl⟩, rfl⟩

/-- The line of a number, up to the separator that ends it. -/
def lineAt (sep : α) : Nat → List α → List α
  | 0, s => s.takeWhile (· ≠ sep)
  | n + 1, s => lineAt sep n (s.dropWhile (· ≠ sep)).tail

theorem ne_sep_of_notMem (h : sep ∉ l) : ∀ c ∈ l, (c ≠ sep : Bool) = true := by
  intro c hc
  have hne : c ≠ sep := fun heq => h (heq ▸ hc)
  simpa using hne

theorem lineAt_zero (h : sep ∉ l) : lineAt sep 0 (l ++ sep :: r) = l := by
  unfold lineAt
  rw [List.takeWhile_append_of_pos (ne_sep_of_notMem h)]
  simp

theorem lineAt_succ (h : sep ∉ l) (n : Nat) :
    lineAt sep (n + 1) (l ++ sep :: r) = lineAt sep n r := by
  rw [lineAt, List.dropWhile_append_of_pos (ne_sep_of_notMem h)]
  simp

end Split

/-! ## Trimming -/

section Trim

variable {α : Type} {blank : α → Bool} {s t : List α}

/-- What is left when both ends are stripped of blanks. -/
def trim (blank : α → Bool) (s : List α) : List α := (s.dropWhile blank).rdropWhile blank

/-- Neither end is blank. -/
structure Trimmed (blank : α → Bool) (t : List α) : Prop where
  head : ∀ c ∈ t.head?, blank c = false
  last : ∀ c ∈ t.getLast?, blank c = false

theorem trimmed_trim (s : List α) : Trimmed blank (trim blank s) where
  head := by
    intro c hc
    have hprefix : trim blank s <+: s.dropWhile blank := List.rdropWhile_prefix blank _
    have hhead : (s.dropWhile blank).head? = some c := by
      obtain ⟨rest, hrest⟩ := hprefix
      rw [← hrest, List.head?_append, Option.mem_def.mp hc]
      rfl
    have hnot := List.head?_dropWhile_not blank s
    rwa [hhead] at hnot
  last := by
    intro c hc
    have hne : trim blank s ≠ [] := by
      intro hnil
      rw [hnil] at hc
      cases hc
    have hnot := List.rdropWhile_last_not blank (s.dropWhile blank) hne
    have hlast : (trim blank s).getLast hne = c := by
      rw [List.getLast?_eq_getLast_of_ne_nil hne] at hc
      exact Option.some.inj hc
    rw [← hlast]
    exact Bool.not_eq_true _ ▸ hnot

theorem trim_append {l r : List α} (ht : Trimmed blank t) (hl : ∀ c ∈ l, blank c = true)
    (hr : ∀ c ∈ r, blank c = true) : trim blank (l ++ t ++ r) = t := by
  unfold trim
  rw [List.append_assoc, List.dropWhile_append_of_pos hl]
  cases t with
  | nil => simp [List.dropWhile_eq_nil_iff.mpr hr]
  | cons c cs =>
    have hc : blank c = false := ht.head c rfl
    rw [List.cons_append, List.dropWhile_cons_of_neg (by simp [hc]), ← List.cons_append,
      List.rdropWhile, List.reverse_append,
      List.dropWhile_append_of_pos (by simpa using hr), ← List.rdropWhile]
    apply List.rdropWhile_eq_self_iff.mpr
    intro hne
    rw [ht.last _ (List.getLast?_eq_getLast_of_ne_nil hne)]
    exact Bool.false_ne_true

/-- **What is left is trimmed, and what is lost is blank.** -/
theorem trim_eq_iff : trim blank s = t ↔ Trimmed blank t ∧ ∃ l r, s = l ++ t ++ r ∧
    (∀ c ∈ l, blank c = true) ∧ ∀ c ∈ r, blank c = true := by
  constructor
  · rintro rfl
    refine ⟨trimmed_trim s, s.takeWhile blank, (s.dropWhile blank).rtakeWhile blank, ?_, ?_, ?_⟩
    · rw [List.append_assoc, trim, List.rdropWhile_append_rtakeWhile,
        List.takeWhile_append_dropWhile]
    · exact fun c hc => List.mem_takeWhile_imp hc
    · exact fun c hc => List.mem_rtakeWhile_imp hc
  · rintro ⟨ht, l, r, rfl, hl, hr⟩
    exact trim_append ht hl hr

/-- A trimmed text is left as it is. -/
theorem Trimmed.trim_eq (h : Trimmed blank t) : trim blank t = t := by
  have happend := trim_append h (List.forall_mem_nil _) (List.forall_mem_nil _)
  rwa [List.nil_append, List.append_nil] at happend

/-- A text without blanks is trimmed. -/
theorem trimmed_of_forall (h : ∀ c ∈ t, blank c = false) : Trimmed blank t where
  head := fun c hc => h c (List.mem_of_mem_head? hc)
  last := fun c hc => h c (List.mem_of_mem_getLast? hc)

end Trim

/-! ## Numbers -/

section Numbers

variable {s ds : List Char} {n : UInt64}

/-- Digits, at least one, of a number below `2 ^ 64`. -/
def parseDigits (ds : List Char) : Option UInt64 :=
  let n := Nat.ofDigitChars 10 ds 0
  if ds ≠ [] ∧ ds.all Char.isDigit ∧ n < 2 ^ 64 then some (UInt64.ofNat n) else none

/-- A number that may have a plus sign. -/
def parseU64 : List Char → Option UInt64
  | '+' :: ds => parseDigits ds
  | ds => parseDigits ds

theorem parseDigits_eq_some : parseDigits ds = some n ↔
    ds ≠ [] ∧ (∀ c ∈ ds, c.isDigit = true) ∧ Nat.ofDigitChars 10 ds 0 = n.toNat := by
  simp only [parseDigits, List.all_eq_true]
  split_ifs with h
  · obtain ⟨hne, hdigits, hlt⟩ := h
    rw [Option.some.injEq, ← UInt64.toNat_inj, UInt64.toNat_ofNat_of_lt' hlt]
    exact ⟨fun heq => ⟨hne, hdigits, heq⟩, fun heq => heq.2.2⟩
  · simp only [false_iff]
    rintro ⟨hne, hdigits, heq⟩
    exact h ⟨hne, hdigits, heq ▸ n.toNat_lt⟩

/-- **The texts of a number**: its digits, with zeros before them, and a plus sign or none. -/
theorem parseU64_eq_some : parseU64 s = some n ↔ ∃ ds, (s = ds ∨ s = '+' :: ds) ∧ ds ≠ [] ∧
    (∀ c ∈ ds, c.isDigit = true) ∧ Nat.ofDigitChars 10 ds 0 = n.toNat := by
  have hplus : ∀ ds, ¬parseDigits ('+' :: ds) = some n := by
    intro ds h
    have hdigit := (parseDigits_eq_some.mp h).2.1 '+' List.mem_cons_self
    cases hdigit
  unfold parseU64
  split
  · next ds =>
    rw [parseDigits_eq_some]
    constructor
    · exact fun h => ⟨ds, .inr rfl, h⟩
    · rintro ⟨ds', rfl | heq, h⟩
      · exact absurd (parseDigits_eq_some.mpr h) (hplus ds)
      · rwa [(List.cons.inj heq).2]
  · next hs =>
    rw [parseDigits_eq_some]
    constructor
    · exact fun h => ⟨s, .inl rfl, h⟩
    · rintro ⟨ds, rfl | rfl, h⟩
      · exact h
      · exact absurd rfl (hs ds)

theorem parseU64_toDigits (n : UInt64) : parseU64 (Nat.toDigits 10 n.toNat) = some n := by
  apply parseU64_eq_some.mpr
  refine ⟨_, .inl rfl, Nat.toDigits_ne_nil, ?_, Nat.ofDigitChars_ten_toDigits⟩
  exact fun c hc => Nat.isDigit_of_mem_toDigits (by decide) (by decide) hc

end Numbers

end Sealr.Lib.Text
