import Sealr.Lib.Rfc8259

/-!
# Tokens of a JSON text

A scanner that cuts a text into strings, words (what stands for a number or a literal name) and
separators (punctuation and white space), one character at a time and without looking ahead. It
does not judge what is inside a string or a word.

Changing one character of a text changes its tokens around that character only (`toks_change`): a
character inside a string changes that string; one outside changes a word, or joins, cuts or moves
words. Quotes are what could spread a change further, and they cannot: of two scans of one text
that disagree on whether they are inside a string, at most one ends outside (`not_both`).
-/

namespace Sealr.Lib.Lexer

open Rfc8259

/-! ## The scanner -/

/-- The structural characters of the grammar. -/
def isPunct (c : Char) : Bool :=
  c = ',' || c = ':' || c = '[' || c = ']' || c = '\x7b' || c = '\x7d'

/-- What ends a word. -/
def isSep (c : Char) : Bool := isWs c || isPunct c

inductive Tok where
  /-- The text between two quotes. -/
  | str (raw : List Char)
  | word (w : List Char)
  | sep (c : Char)
  deriving DecidableEq

/-- Where the scanner stands: outside of strings behind the beginning of a word, inside a string
behind the beginning of its text, or there behind a backslash. -/
inductive Mode where
  | out (w : List Char)
  | str (raw : List Char)
  | esc (raw : List Char)
  deriving DecidableEq

/-- The word that ends here, if one was begun. -/
def flush (w : List Char) : List Tok := if w = [] then [] else [.word w]

namespace Mode

/-- The scanner behind one more character. -/
def next : Mode → Char → Mode
  | out w, c => if c = '\"' then str [] else if isSep c then out [] else out (w ++ [c])
  | str x, c =>
    if c = '\"' then out [] else if c = '\\' then esc (x ++ [c]) else str (x ++ [c])
  | esc x, c => str (x ++ [c])

/-- The tokens that one more character completes; a backslash stands in strings only. -/
def emit : Mode → Char → Option (List Tok)
  | out w, c =>
    if c = '\"' then some (flush w)
    else if c = '\\' then none
    else if isSep c then some (flush w ++ [.sep c])
    else some []
  | str x, c => if c = '\"' then some [.str x] else some []
  | esc _, _ => some []

/-- The tokens that the end of the text completes; a string has to be closed. -/
def finish : Mode → Option (List Tok)
  | out w => some (flush w)
  | str _ => none
  | esc _ => none

/-- The scanner behind a text. -/
def after (m : Mode) (cs : List Char) : Mode := cs.foldl next m

/-- What of the text is not in a token yet. -/
def pending : Mode → List Char
  | out w => w
  | str x => '\"' :: x
  | esc x => '\"' :: x

end Mode

open Mode

/-- The tokens of a text, for a scanner that stands somewhere. -/
def toks : Mode → List Char → Option (List Tok)
  | m, [] => m.finish
  | m, c :: cs =>
    match m.emit c, toks (m.next c) cs with
    | some e, some ts => some (e ++ ts)
    | _, _ => none

/-- The text of a token. -/
def Tok.text : Tok → List Char
  | .str x => '\"' :: (x ++ ['\"'])
  | .word w => w
  | .sep c => [c]

section Scan

variable {m : Mode} {c c' : Char} {cs t u pre post w x y : List Char} {ts us : List Tok}

theorem isSep_iff : isSep c = true ↔ c = ' ' ∨ c = '\t' ∨ c = '\n' ∨ c = '\r' ∨ c = ',' ∨ c = ':' ∨
    c = '[' ∨ c = ']' ∨ c = '\x7b' ∨ c = '\x7d' := by
  simp [isSep, isWs, isPunct, or_assoc]

theorem ne_of_isSep (h : isSep c = true) : c ≠ '\"' ∧ c ≠ '\\' := by
  rcases isSep_iff.mp h with rfl | rfl | rfl | rfl | rfl | rfl | rfl | rfl | rfl | rfl <;> decide

@[simp] theorem flush_nil : flush [] = [] := rfl

theorem flush_of_ne_nil (h : w ≠ []) : flush w = [.word w] := if_neg h

@[simp] theorem flush_concat : flush (w ++ c :: u) = [.word (w ++ c :: u)] :=
  flush_of_ne_nil (by simp)

@[simp] theorem after_nil : m.after [] = m := rfl

@[simp] theorem after_cons : m.after (c :: cs) = (m.next c).after cs := rfl

theorem after_append : m.after (t ++ u) = (m.after t).after u := List.foldl_append

theorem toks_cons : toks m (c :: cs) = some ts ↔
    ∃ e us, m.emit c = some e ∧ toks (m.next c) cs = some us ∧ ts = e ++ us := by
  rw [toks]
  cases m.emit c <;> cases toks (m.next c) cs <;> simp [eq_comm]

theorem toks_step {e : List Tok} (h : m.emit c = some e) :
    toks m (c :: cs) = (toks (m.next c) cs).map (e ++ ·) := by
  rw [toks, h]
  cases toks (m.next c) cs <;> rfl

/-! One character, by where the scanner stands and what the character is. -/

@[simp] theorem toks_out_quote : toks (out w) ('\"' :: cs) = (toks (str []) cs).map (flush w ++ ·) :=
  toks_step rfl

@[simp] theorem toks_out_backslash : toks (out w) ('\\' :: cs) = none := rfl

theorem toks_out_sep (h : isSep c = true) :
    toks (out w) (c :: cs) = (toks (out []) cs).map (flush w ++ Tok.sep c :: ·) := by
  obtain ⟨hq, hb⟩ := ne_of_isSep h
  have hemit : (out w).emit c = some (flush w ++ [.sep c]) :=
    (if_neg hq).trans ((if_neg hb).trans (if_pos h))
  have hnext : (out w).next c = out [] := (if_neg hq).trans (if_pos h)
  rw [toks_step hemit, hnext]
  simp only [List.append_assoc, List.singleton_append]

theorem toks_out_word (h : isSep c = false) (hq : c ≠ '\"') (hb : c ≠ '\\') :
    toks (out w) (c :: cs) = toks (out (w ++ [c])) cs := by
  have hs : ¬isSep c = true := Bool.eq_false_iff.mp h
  have hemit : (out w).emit c = some [] := (if_neg hq).trans ((if_neg hb).trans (if_neg hs))
  have hnext : (out w).next c = out (w ++ [c]) := (if_neg hq).trans (if_neg hs)
  rw [toks_step hemit, hnext]
  exact Option.map_id'

@[simp] theorem toks_str_quote :
    toks (str x) ('\"' :: cs) = (toks (out []) cs).map (Tok.str x :: ·) :=
  toks_step (e := [.str x]) rfl

@[simp] theorem toks_str_backslash : toks (str x) ('\\' :: cs) = toks (esc (x ++ ['\\'])) cs :=
  (toks_step rfl).trans Option.map_id'

theorem toks_str_plain (hq : c ≠ '\"') (hb : c ≠ '\\') :
    toks (str x) (c :: cs) = toks (str (x ++ [c])) cs := by
  have hemit : (str x).emit c = some [] := if_neg hq
  have hnext : (str x).next c = str (x ++ [c]) := (if_neg hq).trans (if_neg hb)
  rw [toks_step hemit, hnext]
  exact Option.map_id'

@[simp] theorem toks_esc_cons : toks (esc x) (c :: cs) = toks (str (x ++ [c])) cs :=
  (toks_step rfl).trans Option.map_id'

theorem finish_eq_some (h : m.finish = some ts) : ∃ w, m = out w ∧ ts = flush w := by
  cases m with
  | out w => exact ⟨w, rfl, (Option.some.inj h).symm⟩
  | str _ => cases h
  | esc _ => cases h

/-! ## Texts behind one another -/

/-- The tokens of a beginning do not depend on how the text goes on. -/
theorem toks_append (h : toks m (pre ++ t) = some ts) : ∃ e, ∀ u us,
    toks m (pre ++ u) = some us ↔ ∃ vs, toks (m.after pre) u = some vs ∧ us = e ++ vs := by
  induction pre generalizing m ts with
  | nil => exact ⟨[], fun u us => by simp⟩
  | cons c pre ih =>
    obtain ⟨e, us, he, hus, -⟩ := toks_cons.mp h
    obtain ⟨e', hiff⟩ := ih hus
    refine ⟨e ++ e', fun u vs => ?_⟩
    rw [List.cons_append, toks_cons, after_cons]
    constructor
    · rintro ⟨d, rest, hd, hrest, rfl⟩
      obtain rfl := Option.some.inj (he.symm.trans hd)
      obtain ⟨last, hlast, rfl⟩ := (hiff u rest).mp hrest
      exact ⟨last, hlast, by simp⟩
    · rintro ⟨last, hlast, rfl⟩
      exact ⟨e, e' ++ last, he, (hiff u _).mpr ⟨last, hlast, rfl⟩, by simp⟩

/-- A word that was begun ends where something else than a word starts. -/
def Breaks (t : List Char) : Prop := ∀ c, t.head? = some c → c = '\"' ∨ isSep c = true

theorem Breaks.nil : Breaks [] := by intro c h; cases h

theorem Breaks.cons (h : isSep c = true) (t : List Char) : Breaks (c :: t) := by
  intro d hd
  cases hd
  exact .inr h

theorem toks_out_breaks (hb : Breaks u) (h : toks (out []) u = some us) :
    toks (out w) u = some (flush w ++ us) := by
  cases u with
  | nil =>
    obtain rfl : us = [] := (Option.some.inj h).symm
    simp [toks, finish]
  | cons c u =>
    rcases hb c rfl with rfl | hc
    · rw [toks_out_quote, Option.map_eq_some_iff] at h ⊢
      obtain ⟨vs, hvs, rfl⟩ := h
      exact ⟨vs, hvs, rfl⟩
    · rw [toks_out_sep hc, Option.map_eq_some_iff] at h ⊢
      obtain ⟨vs, hvs, rfl⟩ := h
      exact ⟨vs, hvs, rfl⟩

/-- A text behind one that is complete. -/
theorem toks_join (h : toks m t = some ts) (hb : Breaks u) (hu : toks (out []) u = some us) :
    toks m (t ++ u) = some (ts ++ us) := by
  induction t generalizing m ts with
  | nil =>
    obtain ⟨w, rfl, rfl⟩ := finish_eq_some h
    exact toks_out_breaks hb hu
  | cons c t ih =>
    obtain ⟨e, vs, he, hvs, rfl⟩ := toks_cons.mp h
    exact toks_cons.mpr ⟨e, vs ++ us, he, ih hvs, by simp⟩

/-- The tokens hold the whole text. -/
theorem text_toks (h : toks m cs = some ts) : m.pending ++ cs = ts.flatMap Tok.text := by
  have hflush : ∀ w, (flush w).flatMap Tok.text = w := by
    intro w
    by_cases hw : w = []
    · simp [hw]
    · simp [flush_of_ne_nil hw, Tok.text]
  induction cs generalizing m ts with
  | nil =>
    obtain ⟨w, rfl, rfl⟩ := finish_eq_some h
    simp [hflush, pending]
  | cons c cs ih =>
    obtain ⟨e, us, he, hus, rfl⟩ := toks_cons.mp h
    rw [List.flatMap_append, ← ih hus]
    cases m with
    | out w =>
      simp only [emit] at he
      split_ifs at he with hq hb hs
      · obtain rfl := Option.some.inj he
        simp [hflush, pending, next, hq]
      · obtain rfl := Option.some.inj he
        simp [hflush, pending, next, hq, hs, Tok.text]
      · obtain rfl := Option.some.inj he
        simp [pending, next, hq, hs]
    | str x =>
      simp only [emit] at he
      split_ifs at he with hq
      · obtain rfl := Option.some.inj he
        simp [pending, next, hq, Tok.text]
      · obtain rfl := Option.some.inj he
        by_cases hb : c = '\\' <;> simp [pending, next, hq, hb]
    | esc x =>
      obtain rfl := Option.some.inj he
      simp [pending, next]

/-! ## Scans of one text that disagree -/

/-- A quote opens a string for one and closes it for the other, so they never agree again. -/
theorem not_both (h : toks (out w) cs = some ts) (h' : toks (str x) cs = some us) : False := by
  induction cs generalizing w x ts us with
  | nil => cases h'
  | cons c cs ih =>
    by_cases hq : c = '\"'
    · subst hq
      rw [toks_out_quote, Option.map_eq_some_iff] at h
      rw [toks_str_quote, Option.map_eq_some_iff] at h'
      obtain ⟨vs, hvs, -⟩ := h
      obtain ⟨vs', hvs', -⟩ := h'
      exact ih hvs' hvs
    · by_cases hb : c = '\\'
      · subst hb
        rw [toks_out_backslash] at h
        cases h
      · rw [toks_str_plain hq hb] at h'
        by_cases hs : isSep c = true
        · rw [toks_out_sep hs, Option.map_eq_some_iff] at h
          obtain ⟨vs, hvs, -⟩ := h
          exact ih hvs h'
        · rw [toks_out_word (by simpa using hs) hq hb] at h
          exact ih h h'

/-- How a scan inside a string goes on: up to the closing quote, whatever came before. -/
theorem toks_inside (cs : List Char) :
    (∀ x ts, toks (str x) cs = some ts → ∃ q r us, cs = q ++ '\"' :: r ∧
      toks (out []) r = some us ∧ ∀ y, toks (str y) cs = some (.str (y ++ q) :: us)) ∧
    (∀ x ts, toks (esc x) cs = some ts → ∃ q r us, cs = q ++ '\"' :: r ∧
      toks (out []) r = some us ∧ ∀ y, toks (esc y) cs = some (.str (y ++ q) :: us)) := by
  induction cs with
  | nil => exact ⟨fun _ _ h => (nomatch h), fun _ _ h => (nomatch h)⟩
  | cons c cs ih =>
    obtain ⟨ihs, ihe⟩ := ih
    refine ⟨fun x ts h => ?_, fun x ts h => ?_⟩
    · by_cases hq : c = '\"'
      · subst hq
        rw [toks_str_quote, Option.map_eq_some_iff] at h
        obtain ⟨us, hus, -⟩ := h
        exact ⟨[], cs, us, rfl, hus, fun y => by simp [hus]⟩
      · by_cases hb : c = '\\'
        · subst hb
          rw [toks_str_backslash] at h
          obtain ⟨q, r, us, rfl, hus, hall⟩ := ihe _ ts h
          exact ⟨'\\' :: q, r, us, rfl, hus, fun y => by simp [hall]⟩
        · rw [toks_str_plain hq hb] at h
          obtain ⟨q, r, us, rfl, hus, hall⟩ := ihs _ ts h
          exact ⟨c :: q, r, us, rfl, hus, fun y => by simp [toks_str_plain hq hb, hall]⟩
    · rw [toks_esc_cons] at h
      obtain ⟨q, r, us, rfl, hus, hall⟩ := ihs _ ts h
      exact ⟨c :: q, r, us, rfl, hus, fun y => by simp [hall]⟩

/-- Scans inside a string, one of them behind a backslash, end at one closing quote. -/
theorem toks_misaligned (h : toks (esc x) cs = some ts) (h' : toks (str y) cs = some us) :
    ∃ q r vs, cs = q ++ '\"' :: r ∧ ts = .str (x ++ q) :: vs ∧ us = .str (y ++ q) :: vs := by
  induction cs generalizing x y ts us with
  | nil => cases h
  | cons c cs ih =>
    rw [toks_esc_cons] at h
    by_cases hq : c = '\"'
    · subst hq
      rw [toks_str_quote, Option.map_eq_some_iff] at h'
      obtain ⟨vs, hvs, -⟩ := h'
      exact (not_both hvs h).elim
    · by_cases hb : c = '\\'
      · subst hb
        rw [toks_str_backslash] at h'
        obtain ⟨q, r, vs, rfl, rfl, rfl⟩ := ih h' h
        exact ⟨'\\' :: q, r, vs, rfl, by simp, by simp⟩
      · rw [toks_str_plain hq hb] at h'
        obtain ⟨q, r, vs, rfl, -, hall⟩ := (toks_inside cs).1 _ _ h
        obtain rfl := Option.some.inj (h.symm.trans (hall _))
        obtain rfl := Option.some.inj (h'.symm.trans (hall _))
        exact ⟨c :: q, r, vs, rfl, by simp, by simp⟩

/-- How a scan outside goes on: the word that was begun ends, and the rest does not depend on
it. -/
theorem toks_outside (h : toks (out w) cs = some ts) :
    ∃ u us, ∀ v, toks (out v) cs = some (flush (v ++ u) ++ us) := by
  induction cs generalizing w ts with
  | nil => exact ⟨[], [], fun v => by simp [toks, finish]⟩
  | cons c cs ih =>
    by_cases hq : c = '\"'
    · subst hq
      rw [toks_out_quote, Option.map_eq_some_iff] at h
      obtain ⟨us, hus, -⟩ := h
      exact ⟨[], us, fun v => by simp [hus]⟩
    · by_cases hb : c = '\\'
      · subst hb
        rw [toks_out_backslash] at h
        cases h
      · by_cases hs : isSep c = true
        · rw [toks_out_sep hs, Option.map_eq_some_iff] at h
          obtain ⟨us, hus, -⟩ := h
          exact ⟨[], .sep c :: us, fun v => by simp [toks_out_sep hs, hus]⟩
        · have hs' : isSep c = false := by simpa using hs
          rw [toks_out_word hs' hq hb] at h
          obtain ⟨u, us, hall⟩ := ih h
          exact ⟨c :: u, us, fun v => by simp [toks_out_word hs' hq hb, hall]⟩

/-! ## Changing one character -/

/-- The tokens around a character outside of strings, between the beginning and the end of the
words next to it. -/
def around (w : List Char) (c : Char) (u : List Char) : List Tok :=
  if isSep c then flush w ++ .sep c :: flush u else [.word (w ++ c :: u)]

theorem toks_out_around (hq : c ≠ '\"') (h : toks (out w) (c :: post) = some ts) (hc' : c' ≠ '\"')
    (h' : toks (out w) (c' :: post) = some us) :
    ∃ u b, ts = around w c u ++ b ∧ us = around w c' u ++ b := by
  have hcase : ∀ {d vs}, d ≠ '\"' → toks (out w) (d :: post) = some vs →
      ∃ v rest, toks (out v) post = some rest ∧ ∀ u b,
        (∀ v, toks (out v) post = some (flush (v ++ u) ++ b)) → vs = around w d u ++ b := by
    intro d vs hdq hd
    by_cases hdb : d = '\\'
    · rw [hdb, toks_out_backslash] at hd
      cases hd
    · by_cases hs : isSep d = true
      · rw [toks_out_sep hs, Option.map_eq_some_iff] at hd
        obtain ⟨rest, hrest, rfl⟩ := hd
        refine ⟨[], rest, hrest, fun u b hall => ?_⟩
        obtain rfl := Option.some.inj (hrest.symm.trans (hall []))
        simp [around, hs]
      · have hs' : isSep d = false := by simpa using hs
        rw [toks_out_word hs' hdq hdb] at hd
        refine ⟨_, vs, hd, fun u b hall => ?_⟩
        obtain rfl := Option.some.inj (hd.symm.trans (hall _))
        simp [around, hs']
  obtain ⟨v, rest, hrest, hts⟩ := hcase hq h
  obtain ⟨-, -, -, hus⟩ := hcase hc' h'
  obtain ⟨u, b, hall⟩ := toks_outside hrest
  exact ⟨u, b, hts u b hall, hus u b hall⟩

/-- The scanner inside a string, behind the beginning of its text. -/
def Inside (m : Mode) (x : List Char) : Prop := m = str x ∨ m = esc x

theorem toks_inside_change (hm : Inside m x) (hne : c = '\"' → c' ≠ '\\') (hne' : c' = '\"' → c ≠ '\\')
    (hc : c ≠ c') (h : toks m (c :: post) = some ts) (h' : toks m (c' :: post) = some us) :
    ∃ q r b, post = q ++ '\"' :: r ∧ ts = .str (x ++ c :: q) :: b ∧
      us = .str (x ++ c' :: q) :: b := by
  rcases hm with rfl | rfl
  · by_cases hq : c = '\"'
    · subst hq
      rw [toks_str_quote, Option.map_eq_some_iff] at h
      obtain ⟨vs, hvs, -⟩ := h
      rw [toks_str_plain hc.symm (hne rfl)] at h'
      exact (not_both hvs h').elim
    · by_cases hq' : c' = '\"'
      · subst hq'
        rw [toks_str_quote, Option.map_eq_some_iff] at h'
        obtain ⟨vs, hvs, -⟩ := h'
        rw [toks_str_plain hc (hne' rfl)] at h
        exact (not_both hvs h).elim
      · by_cases hb : c = '\\'
        · subst hb
          rw [toks_str_backslash] at h
          rw [toks_str_plain hq' hc.symm] at h'
          obtain ⟨q, r, vs, rfl, rfl, rfl⟩ := toks_misaligned h h'
          exact ⟨q, r, vs, rfl, by simp, by simp⟩
        · rw [toks_str_plain hq hb] at h
          by_cases hb' : c' = '\\'
          · subst hb'
            rw [toks_str_backslash] at h'
            obtain ⟨q, r, vs, rfl, rfl, rfl⟩ := toks_misaligned h' h
            exact ⟨q, r, vs, rfl, by simp, by simp⟩
          · rw [toks_str_plain hq' hb'] at h'
            obtain ⟨q, r, b, rfl, -, hall⟩ := (toks_inside post).1 _ _ h
            obtain rfl := Option.some.inj (h.symm.trans (hall _))
            obtain rfl := Option.some.inj (h'.symm.trans (hall _))
            exact ⟨q, r, b, rfl, by simp, by simp⟩
  · rw [toks_esc_cons] at h h'
    obtain ⟨q, r, b, rfl, -, hall⟩ := (toks_inside post).1 _ _ h
    obtain rfl := Option.some.inj (h.symm.trans (hall _))
    obtain rfl := Option.some.inj (h'.symm.trans (hall _))
    exact ⟨q, r, b, rfl, by simp, by simp⟩

/-- **Changing one character changes the tokens around it only**, unless a quote is changed into a
backslash or a backslash into a quote. -/
theorem toks_change (hne : c = '\"' → c' ≠ '\\') (hne' : c' = '\"' → c ≠ '\\') (hc : c ≠ c')
    (h : toks m (pre ++ c :: post) = some ts) (h' : toks m (pre ++ c' :: post) = some us) :
    (∃ x q r a b, Inside (m.after pre) x ∧ post = q ++ '\"' :: r ∧
      ts = a ++ .str (x ++ c :: q) :: b ∧ us = a ++ .str (x ++ c' :: q) :: b) ∨
    (∃ w u a b, m.after pre = out w ∧ ts = a ++ (around w c u ++ b) ∧
      us = a ++ (around w c' u ++ b)) := by
  obtain ⟨a, hiff⟩ := toks_append h
  obtain ⟨ts, hts, rfl⟩ := (hiff _ _).mp h
  obtain ⟨us, hus, rfl⟩ := (hiff _ _).mp h'
  cases hm : m.after pre with
  | out w =>
    rw [hm] at hts hus
    by_cases hq : c = '\"'
    · -- a string is opened in one text only
      subst hq
      rw [toks_out_quote, Option.map_eq_some_iff] at hts
      obtain ⟨vs, hvs, -⟩ := hts
      by_cases hs : isSep c' = true
      · rw [toks_out_sep hs, Option.map_eq_some_iff] at hus
        obtain ⟨vs', hvs', -⟩ := hus
        exact (not_both hvs' hvs).elim
      · rw [toks_out_word (by simpa using hs) hc.symm (hne rfl)] at hus
        exact (not_both hus hvs).elim
    · by_cases hq' : c' = '\"'
      · subst hq'
        rw [toks_out_quote, Option.map_eq_some_iff] at hus
        obtain ⟨vs, hvs, -⟩ := hus
        by_cases hs : isSep c = true
        · rw [toks_out_sep hs, Option.map_eq_some_iff] at hts
          obtain ⟨vs', hvs', -⟩ := hts
          exact (not_both hvs' hvs).elim
        · rw [toks_out_word (by simpa using hs) hc (hne' rfl)] at hts
          exact (not_both hts hvs).elim
      · obtain ⟨u, b, rfl, rfl⟩ := toks_out_around hq hts hq' hus
        exact .inr ⟨w, u, a, b, rfl, rfl, rfl⟩
  | str x =>
    rw [hm] at hts hus
    obtain ⟨q, r, b, rfl, rfl, rfl⟩ := toks_inside_change (.inl rfl) hne hne' hc hts hus
    exact .inl ⟨x, q, r, a, b, .inl rfl, rfl, rfl, rfl⟩
  | esc x =>
    rw [hm] at hts hus
    obtain ⟨q, r, b, rfl, rfl, rfl⟩ := toks_inside_change (.inr rfl) hne hne' hc hts hus
    exact .inl ⟨x, q, r, a, b, .inr rfl, rfl, rfl, rfl⟩

/-- The string the scanner is in was opened by a quote outside of strings. -/
theorem opened_of_inside {pre : List Char} (h : Inside ((out []).after pre) x) :
    ∃ p w, pre = p ++ '\"' :: x ∧ (out []).after p = out w ∧ Inside ((str []).after x) x := by
  induction pre using List.reverseRecOn generalizing x with
  | nil => rcases h with h | h <;> cases h
  | append_singleton pre d ih =>
    rw [after_append, after_cons, after_nil] at h
    cases hm : (out []).after pre with
    | out w =>
      rw [hm] at h
      simp only [next] at h
      split_ifs at h with hq hs
      · obtain rfl : [] = x := by rcases h with h | h <;> cases h; rfl
        exact ⟨pre, w, by rw [hq], hm, .inl rfl⟩
      · rcases h with h | h <;> cases h
      · rcases h with h | h <;> cases h
    | str y =>
      rw [hm] at h
      obtain ⟨p, w, rfl, hp, hy⟩ := ih (.inl hm)
      have hstr : (str []).after y = str y := by
        rw [after_append, hp, after_cons] at hm
        simpa [next] using hm
      simp only [next] at h
      split_ifs at h with hq hb
      · rcases h with h | h <;> cases h
      · obtain rfl : y ++ [d] = x := by rcases h with h | h <;> cases h; rfl
        refine ⟨p, w, by simp, hp, .inr ?_⟩
        simp [after_append, hstr, next, hb]
      · obtain rfl : y ++ [d] = x := by rcases h with h | h <;> cases h; rfl
        refine ⟨p, w, by simp, hp, .inl ?_⟩
        simp [after_append, hstr, next, hq, hb]
    | esc y =>
      rw [hm] at h
      obtain ⟨p, w, rfl, hp, hy⟩ := ih (.inr hm)
      have hesc : (str []).after y = esc y := by
        rw [after_append, hp, after_cons] at hm
        simpa [next] using hm
      obtain rfl : y ++ [d] = x := by
        simp only [next] at h
        rcases h with h | h <;> cases h
        rfl
      refine ⟨p, w, by simp, hp, .inl ?_⟩
      simp [after_append, hesc, next]

end Scan

end Sealr.Lib.Lexer
