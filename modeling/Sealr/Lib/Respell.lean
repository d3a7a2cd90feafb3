import Mathlib.Data.Bool.AllAny
import Sealr.Lib.Lexer
import Sealr.Lib.Rfc8785

/-!
# A changed character inside of strings

Canonical string bodies are the shortest ones (`length_le_of_body`). So when one character of such a
body is changed and the string stays, the text was not cut up differently: the character was a
letter, the last digit of the escape of a control character, and has become upper case
(`upcased_of_body`). Every such change leaves the string (`body_of_upcased`).
-/

namespace Sealr.Lib.Lexer

open Rfc8259 Rfc8785 Mode

/-! ## How a character is printed -/

/-- The lower-case hexadecimal digits that are letters. -/
def hexLetters : List Char := ['a', 'b', 'c', 'd', 'e', 'f']

/-- The three ways to print a character. -/
inductive Escaped (e : Char) : Prop where
  | simple (y : Char) (h : escape e = ['\\', y]) (hy : simpleEscape y = some e) (hu : y ≠ 'u')
      (he : e.toNat < 0x20 ∨ e = '\"' ∨ e = '\\')
  | control (h : escape e = ['\\', 'u', '0', '0', hexChar (e.toNat / 16), hexChar (e.toNat % 16)])
      (hlt : e.toNat < 0x20) (hno : ∀ y, simpleEscape y ≠ some e)
  | plain (h : escape e = [e]) (hle : 0x20 ≤ e.toNat) (hq : e ≠ '\"') (hb : e ≠ '\\')

theorem escaped (e : Char) : Escaped e := by
  by_cases h1 : e = '\"'
  · subst h1
    exact .simple '\"' rfl rfl (by decide) (by decide)
  by_cases h2 : e = '\\'
  · subst h2
    exact .simple '\\' rfl rfl (by decide) (by decide)
  by_cases h3 : e = '\x08'
  · subst h3
    exact .simple 'b' rfl rfl (by decide) (by decide)
  by_cases h4 : e = '\t'
  · subst h4
    exact .simple 't' rfl rfl (by decide) (by decide)
  by_cases h5 : e = '\n'
  · subst h5
    exact .simple 'n' rfl rfl (by decide) (by decide)
  by_cases h6 : e = '\x0c'
  · subst h6
    exact .simple 'f' rfl rfl (by decide) (by decide)
  by_cases h7 : e = '\r'
  · subst h7
    exact .simple 'r' rfl rfl (by decide) (by decide)
  by_cases hlt : e.toNat < 0x20
  · refine .control ?_ hlt ?_
    · have hthousands : e.toNat / 0x1000 % 16 = 0 := by omega
      have hhundreds : e.toNat / 0x100 % 16 = 0 := by omega
      have htens : e.toNat / 0x10 % 16 = e.toNat / 16 := by omega
      simp only [escape, h1, h2, h3, h4, h5, h6, h7, hlt, ↓reduceIte, hthousands, hhundreds, htens]
      rfl
    · intro y hy
      unfold simpleEscape at hy
      split_ifs at hy <;> obtain rfl := Option.some.inj hy
      all_goals contradiction
  · refine .plain ?_ (by omega) h1 h2
    simp only [escape, h1, h2, h3, h4, h5, h6, h7, hlt, ↓reduceIte]

/-- What a hexadecimal digit looks like. -/
theorem hexDigit_eq_some {a : Char} {n : Nat} (h : hexDigit a = some n) :
    n < 16 ∧ (a = hexChar n ∨ (10 ≤ n ∧ a = (hexChar n).toUpper)) := by
  have hall : ∀ m < 103, ∀ n, hexDigit (Char.ofNat m) = some n →
      n < 16 ∧ (Char.ofNat m = hexChar n ∨ (10 ≤ n ∧ Char.ofNat m = (hexChar n).toUpper)) := by
    intro m hm n hn
    interval_cases m <;> first
      | (cases hn; done)
      | (obtain rfl := Option.some.inj hn; decide)
  have hlt : a.toNat < 103 := by
    have h9 : '9'.toNat = 57 := rfl
    have hf : 'f'.toNat = 102 := rfl
    have hF : 'F'.toNat = 70 := rfl
    unfold hexDigit at h
    split_ifs at h <;> omega
  have hchar := hall a.toNat hlt n
  rw [Char.ofNat_toNat] at hchar
  exact hchar h

theorem hex4_eq_some {a b c d : Char} {n : Nat} (h : hex4 a b c d = some n) :
    ∃ i j k l, hexDigit a = some i ∧ hexDigit b = some j ∧ hexDigit c = some k ∧
      hexDigit d = some l ∧ n = ((i * 16 + j) * 16 + k) * 16 + l := by
  unfold hex4 at h
  split at h
  · next i j k l ha hb hc hd => exact ⟨i, j, k, l, ha, hb, hc, hd, (Option.some.inj h).symm⟩
  · cases h

theorem hexChar_ne {n : Nat} (h : n < 16) : hexChar n ≠ '\"' ∧ hexChar n ≠ '\\' := by
  interval_cases n <;> decide

/-- Behind a printed character, the scanner is inside the string and not behind a backslash. -/
theorem after_escape (e : Char) (y : List Char) : (str y).after (escape e) = str (y ++ escape e) := by
  cases escaped e with
  | simple z h hz hu he =>
    rw [h]
    simp [next]
  | control h hlt hno =>
    obtain ⟨hq, hb⟩ := hexChar_ne (show e.toNat / 16 < 16 by omega)
    obtain ⟨hq', hb'⟩ := hexChar_ne (show e.toNat % 16 < 16 by omega)
    rw [h]
    simp [next, hq, hb, hq', hb']
  | plain h hle hq hb =>
    rw [h]
    simp [next, hq, hb]

/-- Backslashes stand in front of an escape, and behind one that escapes them. -/
theorem eq_of_escape_eq {e : Char} {p b : List Char} (h : escape e = p ++ '\\' :: b) :
    p = [] ∨ p = ['\\'] := by
  cases escaped e with
  | simple y hy _ _ _ =>
    rw [hy] at h
    rcases p with _ | ⟨p₁, _ | ⟨p₂, p⟩⟩
    · exact .inl rfl
    · right
      rw [(List.cons.inj h).1]
    · simp at h
  | control hc hlt _ =>
    obtain ⟨-, hb⟩ := hexChar_ne (show e.toNat / 16 < 16 by omega)
    obtain ⟨-, hb'⟩ := hexChar_ne (show e.toNat % 16 < 16 by omega)
    rw [hc] at h
    rcases p with _ | ⟨p₁, _ | ⟨p₂, _ | ⟨p₃, _ | ⟨p₄, _ | ⟨p₅, _ | ⟨p₆, p⟩⟩⟩⟩⟩⟩
    · exact .inl rfl
    all_goals simp_all
  | plain hp _ _ hb =>
    rw [hp] at h
    rcases p with _ | ⟨p₁, p⟩
    · exact .inl rfl
    · simp at h

/-! ## Bodies of one string -/

section Bodies

variable {e c c' : Char} {t s es cs x q p : List Char}

/-- How the text of a string starts that starts with a character. -/
theorem body_cons (h : StringBody t (e :: es)) :
    (∃ t', t = e :: t' ∧ 0x20 ≤ e.toNat ∧ e ≠ '\"' ∧ e ≠ '\\' ∧ StringBody t' es) ∨
    (∃ y t', t = '\\' :: y :: t' ∧ simpleEscape y = some e ∧ StringBody t' es) ∨
    (∃ a b c d t', t = '\\' :: 'u' :: a :: b :: c :: d :: t' ∧ hex4 a b c d = some e.toNat ∧
      StringBody t' es) ∨
    (∃ a b c d t' u, t = '\\' :: 'u' :: a :: b :: c :: d :: (u ++ t') ∧ u.length = 6 ∧
      0x10000 ≤ e.toNat ∧ StringBody t' es) := by
  have hdigits : ∀ {a b c d n}, hex4 a b c d = some n → n < 0x10000 := by
    intro a b c d n hn
    obtain ⟨i, j, k, l, ha, hb, hc, hd, rfl⟩ := hex4_eq_some hn
    have hi := (hexDigit_eq_some ha).1
    have hj := (hexDigit_eq_some hb).1
    have hk := (hexDigit_eq_some hc).1
    have hl := (hexDigit_eq_some hd).1
    omega
  generalize hs : e :: es = s at h
  cases h with
  | nil => cases hs
  | plain hc hq hb h =>
    obtain ⟨rfl, rfl⟩ := List.cons.inj hs
    exact .inl ⟨_, rfl, hc, hq, hb, h⟩
  | escape he h =>
    obtain ⟨rfl, rfl⟩ := List.cons.inj hs
    exact .inr (.inl ⟨_, _, rfl, he, h⟩)
  | @unicode a b c d n _ _ hn hv h =>
    obtain ⟨rfl, rfl⟩ := List.cons.inj hs
    have hlt := hdigits hn
    have hvalid : n.isValidChar := by
      unfold Nat.isValidChar
      omega
    refine .inr (.inr (.inl ⟨a, b, c, d, _, rfl, ?_, h⟩))
    rw [toNat_ofNat_of_valid hvalid]
    exact hn
  | @surrogates a b c d a' b' c' d' hi lo _ _ hh hhi hl hlo h =>
    obtain ⟨hchar, rfl⟩ := List.cons.inj hs
    have hvalid : (surrogatePair hi lo).isValidChar := by
      unfold surrogatePair Nat.isValidChar
      omega
    have hlarge : 0x10000 ≤ surrogatePair hi lo := by
      unfold surrogatePair
      omega
    refine .inr (.inr (.inr ⟨a, b, c, d, _, ['\\', 'u', a', b', c', d'], rfl, rfl, ?_, h⟩))
    rwa [hchar, toNat_ofNat_of_valid hvalid]

/-- **No text of a string is shorter than its canonical one.** -/
theorem length_le_of_body (h : StringBody t s) : (s.flatMap escape).length ≤ t.length := by
  have hsix : ∀ e, (escape e).length ≤ 6 := by
    intro e
    cases escaped e with
    | simple y h _ _ _ | control h _ _ | plain h _ _ _ => simp [h]
  induction h with
  | nil => simp
  | @plain c t s hc hq hb h ih =>
    have hone : (escape c).length = 1 := by
      cases escaped c with
      | simple y _ _ _ he =>
        rcases he with he | he | he
        · omega
        · exact absurd he hq
        · exact absurd he hb
      | control _ hlt _ => omega
      | plain h _ _ _ => simp [h]
    simp only [List.flatMap_cons, List.length_append, List.length_cons, hone]
    omega
  | @escape y c t s he h ih =>
    have htwo : (Rfc8785.escape c).length ≤ 2 := by
      cases escaped c with
      | simple y h _ _ _ => simp [h]
      | control _ _ hno => exact absurd he (hno y)
      | plain h _ _ _ => simp [h]
    simp only [List.flatMap_cons, List.length_append, List.length_cons]
    omega
  | @unicode _ _ _ _ n _ _ _ _ _ ih =>
    have hlen := hsix (Char.ofNat n)
    simp only [List.flatMap_cons, List.length_append, List.length_cons]
    omega
  | @surrogates _ _ _ _ _ _ _ _ hi lo _ _ _ _ _ _ _ ih =>
    have hlen := hsix (Char.ofNat (surrogatePair hi lo))
    simp only [List.flatMap_cons, List.length_append, List.length_cons]
    omega

/-- Two-character escapes of one character are one. -/
theorem simpleEscape_inj {y z : Char} (h : simpleEscape y = some e) (h' : simpleEscape z = some e) :
    y = z := by
  let pairs : List (Char × Char) := [('\"', '\"'), ('\\', '\\'), ('/', '/'), ('b', '\x08'),
    ('f', '\x0c'), ('n', '\n'), ('r', '\r'), ('t', '\t')]
  have hpair : ∀ y, simpleEscape y = some e → (y, e) ∈ pairs := by
    intro y hy
    unfold simpleEscape at hy
    split_ifs at hy with h1 h2 h3 h4 h5 h6 h7 h8 <;> obtain rfl := Option.some.inj hy
    · subst h1; decide
    · subst h2; decide
    · subst h3; decide
    · subst h4; decide
    · subst h5; decide
    · subst h6; decide
    · subst h7; decide
    · subst h8; decide
  have hinj : ∀ p ∈ pairs, ∀ q ∈ pairs, p.2 = q.2 → p.1 = q.1 := by decide
  exact hinj _ (hpair y h) _ (hpair z h') rfl

/-- The code of a control character has two digits, and the first is 0 or 1. -/
theorem digits_of_control {a b u v : Char} {n : Nat} (hn : n < 0x20) (h : hex4 a b u v = some n) :
    a = '0' ∧ b = '0' ∧ u = hexChar (n / 16) ∧
      (v = hexChar (n % 16) ∨ (10 ≤ n % 16 ∧ v = (hexChar (n % 16)).toUpper)) := by
  obtain ⟨i, j, k, l, ha, hb, hu, hv, rfl⟩ := hex4_eq_some h
  obtain ⟨hi, ha⟩ := hexDigit_eq_some ha
  obtain ⟨hj, hb⟩ := hexDigit_eq_some hb
  obtain ⟨hk, hu⟩ := hexDigit_eq_some hu
  obtain ⟨hl, hv⟩ := hexDigit_eq_some hv
  obtain rfl : i = 0 := by omega
  obtain rfl : j = 0 := by omega
  have hsmall : k < 2 := by omega
  have hlow : ∀ {m : Nat} {c : Char}, m < 2 → (c = hexChar m ∨ (10 ≤ m ∧ c = (hexChar m).toUpper)) →
      c = hexChar m := by
    intro m c hm hc
    exact hc.resolve_right fun hge => by omega
  have hdiv : (((0 * 16 + 0) * 16 + k) * 16 + l) / 16 = k := by omega
  have hmod : (((0 * 16 + 0) * 16 + k) * 16 + l) % 16 = l := by omega
  rw [hdiv, hmod]
  exact ⟨hlow (by decide) ha, hlow (by decide) hb, hlow hsmall hu, hv⟩

/-- A printed character at the start of a body is that character. -/
theorem body_of_escape_append (h : StringBody (escape e ++ t) (e :: es)) : StringBody t es := by
  have hinv := body_cons h
  cases escaped e with
  | simple y hy hsimple hu he =>
    rw [hy] at hinv
    rcases hinv with ⟨t', ht, hle, hq, hb, -⟩ | ⟨z, t', ht, -, hbody⟩ |
      ⟨a, b, c, d, t', ht, -, -⟩ | ⟨a, b, c, d, t', u, ht, -, -, -⟩
    · rcases he with he | he | he
      · omega
      · exact absurd he hq
      · exact absurd he hb
    · obtain rfl : t = t' := (List.cons.inj (List.cons.inj ht).2).2
      exact hbody
    · exact absurd (List.cons.inj (List.cons.inj ht).2).1 hu
    · exact absurd (List.cons.inj (List.cons.inj ht).2).1 hu
  | control hc hlt hno =>
    rw [hc] at hinv
    rcases hinv with ⟨t', ht, hle, -, -, -⟩ | ⟨z, t', -, hsimple, -⟩ |
      ⟨a, b, c, d, t', ht, -, hbody⟩ | ⟨a, b, c, d, t', u, -, -, hge, -⟩
    · omega
    · exact absurd hsimple (hno z)
    · simp only [List.cons_append, List.nil_append, List.cons.injEq, true_and] at ht
      obtain ⟨-, -, -, -, rfl⟩ := ht
      exact hbody
    · omega
  | plain hp hle hq hb =>
    rw [hp] at hinv
    rcases hinv with ⟨t', ht, -, -, -, hbody⟩ | ⟨z, t', ht, -, -⟩ | ⟨a, b, c, d, t', ht, -, -⟩ |
      ⟨a, b, c, d, t', u, ht, -, -, -⟩
    · obtain rfl : t = t' := (List.cons.inj ht).2
      exact hbody
    all_goals exact absurd (List.cons.inj ht).1 hb

theorem place_of_pair {a a' : Char} {b : List Char} (h : [a, a'] = x ++ c :: b) :
    (x = [] ∧ c = a ∧ b = [a']) ∨ (x = [a] ∧ c = a' ∧ b = []) := by
  rcases x with _ | ⟨x₁, _ | ⟨x₂, x⟩⟩
  · obtain ⟨rfl, rfl⟩ := List.cons.inj h
    exact .inl ⟨rfl, rfl, rfl⟩
  · simp only [List.cons_append, List.nil_append, List.cons.injEq] at h
    obtain ⟨rfl, rfl, rfl⟩ := h
    exact .inr ⟨rfl, rfl, rfl⟩
  · simp at h

/-- Texts that differ at their ends only differ there. -/
theorem place_of_last {a a' : Char} {b : List Char} (h : p ++ [a] = x ++ c :: b)
    (h' : p ++ [a'] = x ++ c' :: b) (hne : c ≠ c') : x = p ∧ c = a ∧ c' = a' ∧ b = [] := by
  rcases b.eq_nil_or_concat' with rfl | ⟨b, z, rfl⟩
  · obtain ⟨rfl, hc⟩ := List.append_inj' h rfl
    obtain ⟨-, hc'⟩ := List.append_inj' h' rfl
    exact ⟨rfl, (List.singleton_inj.mp hc).symm, (List.singleton_inj.mp hc').symm, rfl⟩
  · rw [← List.cons_append, ← List.append_assoc] at h h'
    have hinit := (List.append_inj' h rfl).1.symm.trans (List.append_inj' h' rfl).1
    exact absurd (List.cons.inj (List.append_cancel_left hinit)).1 hne

/-- The first character of a body, changed without changing the string: it is a control character
whose last digit has become upper case. -/
theorem upcased_of_escape {b : List Char} (h : escape e = x ++ c :: b)
    (hbody : StringBody (x ++ c' :: (b ++ es.flatMap escape)) (e :: es)) (hne : c ≠ c') :
    ∃ d, x = ['\\', 'u', '0', '0', d] ∧ (d = '0' ∨ d = '1') ∧ c ∈ hexLetters ∧ c' = c.toUpper := by
  have hinv := body_cons hbody
  have hlong : ∀ {t'}, StringBody t' es → (es.flatMap escape).length ≤ t'.length := length_le_of_body
  cases escaped e with
  | simple y hy hsimple hu he =>
    rw [hy] at h
    rcases place_of_pair h with ⟨rfl, rfl, rfl⟩ | ⟨rfl, rfl, rfl⟩
    · rcases hinv with ⟨t', ht, hle, hq, hb, -⟩ | ⟨z, t', ht, -⟩ | ⟨_, _, _, _, t', ht, -⟩ |
        ⟨_, _, _, _, t', u, ht, -⟩
      · rcases he with he | he | he
        · omega
        · exact absurd he hq
        · exact absurd he hb
      all_goals exact absurd (List.cons.inj ht).1.symm hne
    · rcases hinv with ⟨t', ht, -, -, hb, -⟩ | ⟨z, t', ht, hz, -⟩ | ⟨_, _, _, _, t', ht, -, ht'⟩ |
        ⟨_, _, _, _, t', u, ht, -, -, ht'⟩
      · exact absurd (List.cons.inj ht).1.symm hb
      · rw [← (List.cons.inj (List.cons.inj ht).2).1] at hz
        exact absurd (simpleEscape_inj hsimple hz) hne
      all_goals
        have hlen := congrArg List.length ht
        have hle := hlong ht'
        simp only [List.length_cons, List.length_append, List.length_nil] at hlen
        omega
  | control hc hlt hno =>
    rw [hc] at h
    rcases hinv with ⟨t', -, hle, -⟩ | ⟨z, -, -, hz, -⟩ | ⟨a₁, b₁, c₁, d₁, t', ht, hhex, ht'⟩ |
      ⟨_, _, _, _, t', u, -, -, hge, -⟩
    · omega
    · exact absurd hz (hno z)
    · -- both texts of the character are six characters long
      have hlen := congrArg List.length ht
      have hlen' := congrArg List.length h
      have hle := hlong ht'
      simp only [List.length_cons, List.length_append, List.length_nil] at hlen hlen'
      have hsplit : (x ++ c' :: b) ++ es.flatMap escape =
          ['\\', 'u', a₁, b₁, c₁, d₁] ++ t' := by
        simpa using ht
      have hsix := (List.append_inj hsplit (by simp; omega)).1
      obtain ⟨rfl, rfl, rfl, hd⟩ := digits_of_control hlt hhex
      obtain ⟨rfl, rfl, rfl, rfl⟩ := place_of_last
        (p := ['\\', 'u', '0', '0', hexChar (e.toNat / 16)]) h hsix.symm hne
      have hupper := hd.resolve_left hne.symm
      have hmod : e.toNat % 16 < 16 := Nat.mod_lt _ (by decide)
      refine ⟨_, rfl, ?_, ?_, hupper.2⟩
      · have htwo : e.toNat / 16 < 2 := by omega
        interval_cases e.toNat / 16 <;> decide
      · have hten := hupper.1
        interval_cases e.toNat % 16 <;> decide
    · omega
  | plain hp hle hq hb =>
    rw [hp] at h
    obtain ⟨rfl, rfl, rfl⟩ : x = [] ∧ c = e ∧ b = [] := by
      simpa [List.append_eq_singleton_iff] using h.symm
    rcases hinv with ⟨t', ht, -⟩ | ⟨z, t', ht, -, ht'⟩ | ⟨_, _, _, _, t', ht, -, ht'⟩ |
      ⟨_, _, _, _, t', u, ht, -, -, ht'⟩
    · exact absurd (List.cons.inj ht).1.symm hne
    all_goals
      have hlen := congrArg List.length ht
      have hle := hlong ht'
      simp only [List.length_cons, List.length_append, List.length_nil] at hlen
      omega

/-- **A changed character that leaves the string**: by induction on the characters printed. -/
theorem upcased_of_body (h : cs.flatMap escape = x ++ c :: q) (hbody : StringBody (x ++ c' :: q) cs)
    (hne : c ≠ c') : ∃ p d, x = p ++ ['\\', 'u', '0', '0', d] ∧ (d = '0' ∨ d = '1') ∧
      c ∈ hexLetters ∧ c' = c.toUpper ∧ ∀ y, (str y).after p = str (y ++ p) := by
  induction cs generalizing x with
  | nil => simp at h
  | cons e es ih =>
    rw [List.flatMap_cons] at h
    rcases List.append_eq_append_iff.mp h with ⟨x, rfl, hrest⟩ | ⟨b, he, hrest⟩
    · rw [List.append_assoc] at hbody
      obtain ⟨p, d, rfl, hd, hc, hc', hafter⟩ := ih hrest (body_of_escape_append hbody)
      refine ⟨escape e ++ p, d, by simp, hd, hc, hc', fun y => ?_⟩
      rw [after_append, after_escape, hafter, List.append_assoc]
    · cases b with
      | nil =>
        -- the changed character is the first one of the rest
        rw [List.append_nil] at he
        rw [← he] at hbody
        have hbody' : StringBody ([] ++ c' :: q) es := body_of_escape_append hbody
        obtain ⟨p, d, hp, -⟩ := ih (x := []) hrest.symm hbody'
        simp at hp
      | cons b₁ b =>
        obtain ⟨rfl, rfl⟩ := List.cons.inj hrest
        obtain ⟨d, rfl, hd, hc, hc'⟩ := upcased_of_escape he hbody hne
        exact ⟨[], d, rfl, hd, hc, hc', fun y => by simp⟩

theorem hexDigit_toUpper (h : c ∈ hexLetters) : hexDigit c.toUpper = hexDigit c := by
  have hall : ∀ c ∈ hexLetters, hexDigit c.toUpper = hexDigit c :=
    List.all_iff_forall_prop.mp (by decide)
  exact hall c h

/-- **Upper case at the end of an escape leaves the string.** -/
theorem body_of_upcased {d : Char} {y z : List Char}
    (h : cs.flatMap escape = p ++ '\\' :: 'u' :: '0' :: '0' :: d :: c :: q)
    (hp : (str y).after p = str z) (hc : c ∈ hexLetters) :
    StringBody (p ++ '\\' :: 'u' :: '0' :: '0' :: d :: c.toUpper :: q) cs := by
  induction cs generalizing p y z with
  | nil => simp at h
  | cons e es ih =>
    rw [List.flatMap_cons] at h
    rcases List.append_eq_append_iff.mp h with ⟨p, rfl, hrest⟩ | ⟨b, he, hrest⟩
    · rw [after_append, after_escape] at hp
      rw [List.append_assoc]
      exact stringBody_escape e (ih hrest hp)
    · cases b with
      | nil =>
        rw [List.append_nil] at he
        rw [← he]
        exact stringBody_escape e (ih (p := []) hrest.symm (y := y) (z := y) rfl)
      | cons b₁ b =>
        obtain ⟨rfl, htail⟩ := List.cons.inj hrest
        rcases eq_of_escape_eq he with rfl | rfl
        · cases escaped e with
          | simple y hy hsimple hu _ =>
            obtain ⟨-, rfl⟩ := List.cons.inj (hy.symm.trans he)
            exact absurd (List.cons.inj htail).1.symm hu
          | control hc' hlt _ =>
            obtain ⟨-, rfl⟩ := List.cons.inj (hc'.symm.trans he)
            have hdigits : d :: c :: q = hexChar (e.toNat / 16) :: hexChar (e.toNat % 16) ::
                es.flatMap escape :=
              (List.cons.inj (List.cons.inj (List.cons.inj htail).2).2).2
            simp only [List.cons.injEq] at hdigits
            obtain ⟨rfl, rfl, rfl⟩ := hdigits
            have hcode : hex4 '0' '0' (hexChar (e.toNat / 16)) (hexChar (e.toNat % 16)).toUpper =
                some e.toNat := by
              have hzero : hexDigit '0' = some 0 := rfl
              rw [hex4, hexDigit_toUpper hc, hzero, hexDigit_hexChar (by omega),
                hexDigit_hexChar (by omega)]
              simp only [Option.some.injEq]
              omega
            have hes : StringBody (es.flatMap escape) es := by
              have hprint := stringBody_print (String.ofList es)
              rwa [printBody, chars_eq, String.toList_ofList] at hprint
            have hbody := StringBody.unicode hcode (by omega) hes
            rwa [Char.ofNat_toNat] at hbody
          | plain hplain _ _ hb =>
            exact absurd (List.cons.inj (hplain.symm.trans he)).1 hb
        · simp [next] at hp

end Bodies

end Sealr.Lib.Lexer
