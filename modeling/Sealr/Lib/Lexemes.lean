import Mathlib.Data.Bool.AllAny
import Sealr.Lib.Lexer
import Sealr.Lib.Rfc8785

/-!
# What the tokens of a JSON text say

A value is a tree; `lexemes` lists its leaves, its names and its punctuation in text order. Every
text of the grammar lexes to tokens that read, one by one, as the lexemes of a tree that denotes
its value once repeated names are collapsed (`lexed_of_text`), and the printed canonical form lexes
to tokens that spell its own lexemes, with no white space between them (`lexed_print`).
-/

namespace Sealr.Lib.Lexer

open Rfc8259 Rfc8785 Mode

/-! ## Lexemes -/

/-- What one token stands for, over numbers of a type. -/
inductive Lexeme (ν : Type) where
  | null
  | bool (b : Bool)
  | num (n : ν)
  | str (s : String)
  | sep (c : Char)
  deriving DecidableEq

mutual

/-- The lexemes of a value in text order. -/
def lexemes : Value → List (Lexeme Number)
  | .null => [.null]
  | .bool b => [.bool b]
  | .number n => [.num n]
  | .string s => [.str s]
  | .array items => .sep '[' :: (lexItems items ++ [.sep ']'])
  | .object members => .sep '\x7b' :: (lexMembers members ++ [.sep '\x7d'])

def lexItems : List Value → List (Lexeme Number)
  | [] => []
  | [x] => lexemes x
  | x :: y :: ys => lexemes x ++ .sep ',' :: lexItems (y :: ys)

def lexMembers : List (String × Value) → List (Lexeme Number)
  | [] => []
  | [(k, v)] => .str k :: .sep ':' :: lexemes v
  | (k, v) :: m :: ms => .str k :: .sep ':' :: (lexemes v ++ .sep ',' :: lexMembers (m :: ms))

end

mutual

/-- The value of a tree in which a name may stand more than once in one object. -/
def collapse : Value → Value
  | .array items => .array (collapseItems items)
  | .object members => .object (ofMembers (collapseMembers members))
  | v => v

def collapseItems : List Value → List Value
  | [] => []
  | x :: xs => collapse x :: collapseItems xs

def collapseMembers : List (String × Value) → List (String × Value)
  | [] => []
  | (k, v) :: ms => (k, collapse v) :: collapseMembers ms

end

theorem lexItems_cons {x : Value} {xs : List Value} (hxs : xs ≠ []) :
    lexItems (x :: xs) = lexemes x ++ .sep ',' :: lexItems xs := by
  obtain ⟨y, ys, rfl⟩ := List.exists_cons_of_ne_nil hxs
  rfl

theorem lexMembers_cons {k : String} {v : Value} {ms : List (String × Value)} (hms : ms ≠ []) :
    lexMembers ((k, v) :: ms) = .str k :: .sep ':' :: (lexemes v ++ .sep ',' :: lexMembers ms) := by
  obtain ⟨m, ms, rfl⟩ := List.exists_cons_of_ne_nil hms
  rfl

theorem collapseItems_eq_map (xs : List Value) : collapseItems xs = xs.map collapse := by
  induction xs with
  | nil => rfl
  | cons x xs ih => simp [collapseItems, ih]

theorem collapseMembers_eq_map (ms : List (String × Value)) :
    collapseMembers ms = ms.map fun m => (m.1, collapse m.2) := by
  induction ms with
  | nil => rfl
  | cons m ms ih => simp [collapseMembers, ih]

/-! ## Reading tokens -/

/-- What a token may stand for; white space stands for nothing. -/
inductive Reads (fl : List Char → Option F64) : Tok → List (Lexeme Number) → Prop where
  | null : Reads fl (.word ['n', 'u', 'l', 'l']) [.null]
  | true : Reads fl (.word ['t', 'r', 'u', 'e']) [.bool true]
  | false : Reads fl (.word ['f', 'a', 'l', 's', 'e']) [.bool false]
  | num {w : List Char} {n : Number} (h : NumberText fl w n) : Reads fl (.word w) [.num n]
  | str {x s : List Char} (h : StringBody x s) : Reads fl (.str x) [.str (String.ofList s)]
  | punct {c : Char} (h : isPunct c = true) : Reads fl (.sep c) [.sep c]
  | ws {c : Char} (h : isWs c = true) : Reads fl (.sep c) []

/-- The tokens that canonical forms are printed with. -/
inductive Spells : Tok → List (Lexeme Number) → Prop where
  | null : Spells (.word ['n', 'u', 'l', 'l']) [.null]
  | true : Spells (.word ['t', 'r', 'u', 'e']) [.bool true]
  | false : Spells (.word ['f', 'a', 'l', 's', 'e']) [.bool false]
  | num {i : Int} (h : i.natAbs ≤ maxSafe) : Spells (.word (printInt i)) [.num (ofInt i)]
  | str (s : String) : Spells (.str (printBody s)) [.str s]
  | punct {c : Char} (h : isPunct c = true) : Spells (.sep c) [.sep c]

section Denotes

variable {fl : List Char → Option F64} {R : Tok → List (Lexeme Number) → Prop} {ts us : List Tok}
  {ls ms l : List (Lexeme Number)} {t : Tok}

/-- Tokens that stand, one after the other, for lexemes. -/
inductive Denotes (R : Tok → List (Lexeme Number) → Prop) :
    List Tok → List (Lexeme Number) → Prop where
  | nil : Denotes R [] []
  | cons {t : Tok} {l : List (Lexeme Number)} {ts : List Tok} {ls : List (Lexeme Number)}
      (h : R t l) (hs : Denotes R ts ls) : Denotes R (t :: ts) (l ++ ls)

theorem Denotes.append (h : Denotes R ts ls) (h' : Denotes R us ms) :
    Denotes R (ts ++ us) (ls ++ ms) := by
  induction h with
  | nil => exact h'
  | cons h _ ih =>
    rw [List.cons_append, List.append_assoc]
    exact .cons h ih

theorem denotes_append : Denotes R (ts ++ us) ls ↔
    ∃ l₁ l₂, Denotes R ts l₁ ∧ Denotes R us l₂ ∧ ls = l₁ ++ l₂ := by
  constructor
  · intro h
    induction ts generalizing ls with
    | nil => exact ⟨[], ls, .nil, h, rfl⟩
    | cons t ts ih =>
      cases h with
      | cons h hs =>
        obtain ⟨l₁, l₂, h₁, h₂, rfl⟩ := ih hs
        exact ⟨_, l₂, .cons h h₁, h₂, by simp⟩
  · rintro ⟨l₁, l₂, h₁, h₂, rfl⟩
    exact h₁.append h₂

theorem denotes_cons : Denotes R (t :: ts) ls ↔
    ∃ l ms, R t l ∧ Denotes R ts ms ∧ ls = l ++ ms := by
  constructor
  · intro h
    cases h with
    | cons h hs => exact ⟨_, _, h, hs, rfl⟩
  · rintro ⟨l, ms, h, hs, rfl⟩
    exact .cons h hs

theorem denotes_nil : Denotes R [] ls ↔ ls = [] := by
  constructor
  · intro h
    cases h
    rfl
  · rintro rfl
    exact .nil

theorem denotes_singleton : Denotes R [t] ls ↔ R t ls := by
  rw [denotes_cons]
  simp [denotes_nil]

/-- A number literal is not a literal name. -/
theorem not_name_of_numberText {w : List Char} {n : Number} (h : NumberText fl w n) :
    w.head? ≠ some 'n' ∧ w.head? ≠ some 't' ∧ w.head? ≠ some 'f' := by
  obtain ⟨c, u, rfl, hc⟩ := h.head
  simp only [List.head?_cons, ne_eq, Option.some.injEq]
  rcases hc with rfl | hc
  · decide
  · refine ⟨?_, ?_, ?_⟩ <;> rintro rfl <;> exact absurd hc (by decide)

/-- A token that spells something is read as that. -/
theorem Spells.reads (h : Spells t l) : Reads fl t l := by
  cases h with
  | null => exact .null
  | true => exact .true
  | false => exact .false
  | num h => exact .num (numberText_printInt fl h)
  | str s =>
    have hread : Reads fl (.str (printBody s)) [.str (String.ofList s.toList)] :=
      .str (stringBody_print s)
    rwa [String.ofList_toList] at hread
  | punct h => exact .punct h

theorem not_isWs_of_isPunct {c : Char} (h : isPunct c = true) : isWs c = false := by
  simp only [isPunct, Bool.or_eq_true, decide_eq_true_eq, or_assoc] at h
  rcases h with rfl | rfl | rfl | rfl | rfl | rfl <;> decide

/-- A token is read in one way. -/
theorem Reads.unique {l' : List (Lexeme Number)} (h : Reads fl t l) (h' : Reads fl t l') :
    l = l' := by
  cases h with
  | null =>
    cases h' with
    | null => rfl
    | num h => exact absurd rfl (not_name_of_numberText h).1
  | true =>
    cases h' with
    | true => rfl
    | num h => exact absurd rfl (not_name_of_numberText h).2.1
  | false =>
    cases h' with
    | false => rfl
    | num h => exact absurd rfl (not_name_of_numberText h).2.2
  | num h =>
    cases h' with
    | null => exact absurd rfl (not_name_of_numberText h).1
    | true => exact absurd rfl (not_name_of_numberText h).2.1
    | false => exact absurd rfl (not_name_of_numberText h).2.2
    | num h' => rw [NumberText.unique h h']
  | str h =>
    cases h' with
    | str h' => rw [h.unique h']
  | punct h =>
    cases h' with
    | punct => rfl
    | ws h' => rw [not_isWs_of_isPunct h] at h'; cases h'
  | ws h =>
    cases h' with
    | punct h' => rw [not_isWs_of_isPunct h'] at h; cases h
    | ws => rfl

theorem Denotes.unique (h : Denotes Spells ts ls) (h' : Denotes (Reads fl) ts ms) : ls = ms := by
  induction h generalizing ms with
  | nil => exact (denotes_nil.mp h').symm
  | cons h _ ih =>
    obtain ⟨l, ms, hl, hms, rfl⟩ := denotes_cons.mp h'
    rw [h.reads.unique hl, ih hms]

end Denotes

/-! ## Texts that lex -/

/-- A text outside of strings whose tokens stand for the lexemes. -/
def Lexed (R : Tok → List (Lexeme Number) → Prop) (t : List Char) (ls : List (Lexeme Number)) :
    Prop :=
  ∃ ts, toks (out []) t = some ts ∧ Denotes R ts ls

section Lexed

variable {R : Tok → List (Lexeme Number) → Prop} {t u w x : List Char} {c : Char}
  {ls ms l : List (Lexeme Number)} {fl : List Char → Option F64}

theorem Lexed.nil : Lexed R [] [] := ⟨[], rfl, .nil⟩

theorem Lexed.join (h : Lexed R t ls) (hb : Breaks u) (hu : Lexed R u ms) :
    Lexed R (t ++ u) (ls ++ ms) := by
  obtain ⟨ts, hts, hls⟩ := h
  obtain ⟨us, hus, hms⟩ := hu
  exact ⟨ts ++ us, toks_join hts hb hus, hls.append hms⟩

theorem Lexed.sep (hc : isSep c = true) (hR : R (.sep c) l) (hu : Lexed R u ms) :
    Lexed R (c :: u) (l ++ ms) := by
  obtain ⟨us, hus, hms⟩ := hu
  exact ⟨.sep c :: us, by rw [toks_out_sep hc, hus]; rfl, .cons hR hms⟩

theorem isSep_of_isWs (h : isWs c = true) : isSep c = true := by
  simp [isSep, h]

theorem isSep_of_isPunct (h : isPunct c = true) : isSep c = true := by
  simp [isSep, h]

/-- A punctuation mark in front of a text, for a reader that keeps those. -/
theorem Lexed.punct (hR : ∀ d, isPunct d = true → R (.sep d) [.sep d]) (hc : isPunct c = true)
    (hu : Lexed R u ms) : Lexed R (c :: u) (.sep c :: ms) :=
  .sep (isSep_of_isPunct hc) (hR c hc) hu

theorem Lexed.closed (hR : ∀ d, isPunct d = true → R (.sep d) [.sep d]) (hc : isPunct c = true)
    (h : Lexed R u ms) : Lexed R (u ++ [c]) (ms ++ [.sep c]) :=
  h.join (.cons (isSep_of_isPunct hc) _) (.punct hR hc .nil)

/-- No escape of a string ends at a quote or a backslash that does not belong to it. -/
theorem toks_body {s : List Char} (h : StringBody x s) (y t : List Char) :
    toks (str y) (x ++ t) = toks (str (y ++ x)) t := by
  have hhex : ∀ d n, hexDigit d = some n → d ≠ '\"' ∧ d ≠ '\\' := by
    intro d n hd
    constructor <;> rintro rfl <;> exact absurd hd (by simp [hexDigit])
  have hfour : ∀ {a b c d n} (y t : List Char), hex4 a b c d = some n →
      toks (str y) ('\\' :: 'u' :: a :: b :: c :: d :: t) =
        toks (str (y ++ ['\\', 'u', a, b, c, d])) t := by
    intro a b c d n y t hn
    unfold hex4 at hn
    split at hn
    · next i j k l ha hb hc hd =>
      obtain ⟨ha1, ha2⟩ := hhex a i ha
      obtain ⟨hb1, hb2⟩ := hhex b j hb
      obtain ⟨hc1, hc2⟩ := hhex c k hc
      obtain ⟨hd1, hd2⟩ := hhex d l hd
      rw [toks_str_backslash, toks_esc_cons, toks_str_plain ha1 ha2, toks_str_plain hb1 hb2,
        toks_str_plain hc1 hc2, toks_str_plain hd1 hd2]
      simp
    · cases hn
  induction h generalizing y with
  | nil => simp
  | plain _ hq hb _ ih => rw [List.cons_append, toks_str_plain hq hb, ih]; simp
  | escape _ _ ih =>
    rw [List.cons_append, List.cons_append, toks_str_backslash, toks_esc_cons, ih]
    simp
  | unicode hn _ _ ih =>
    simp only [List.cons_append]
    rw [hfour _ _ hn, ih]
    simp
  | surrogates hh _ hl _ _ ih =>
    simp only [List.cons_append]
    rw [hfour _ _ hh, hfour _ _ hl, ih]
    simp

theorem Lexed.str {s : List Char} {k : String} (hx : StringBody x s) (hR : R (.str x) [.str k])
    (hu : Lexed R u ms) : Lexed R ('\"' :: (x ++ '\"' :: u)) (.str k :: ms) := by
  obtain ⟨us, hus, hms⟩ := hu
  refine ⟨.str x :: us, ?_, .cons hR hms⟩
  rw [toks_out_quote, toks_body hx, toks_str_quote, hus]
  rfl

/-- A character that belongs to a word. -/
def isWord (c : Char) : Bool := !isSep c && c ≠ '\"' && c ≠ '\\'

theorem toks_word {v : List Char} (hw : ∀ c ∈ w, isWord c = true) :
    toks (out v) (w ++ t) = toks (out (v ++ w)) t := by
  induction w generalizing v with
  | nil => simp
  | cons c w ih =>
    have hc := hw c List.mem_cons_self
    simp only [isWord, Bool.and_eq_true, Bool.not_eq_eq_eq_not, Bool.not_true, decide_eq_true_eq,
      ne_eq] at hc
    rw [List.cons_append, toks_out_word hc.1.1 hc.1.2 hc.2,
      ih fun d hd => hw d (List.mem_cons_of_mem c hd)]
    simp

theorem Lexed.word (hne : w ≠ []) (hw : ∀ c ∈ w, isWord c = true) (hR : R (.word w) l) :
    Lexed R w l := by
  refine ⟨[.word w], ?_, denotes_singleton.mpr hR⟩
  have h := toks_word (t := []) (v := []) hw
  rw [List.append_nil, List.nil_append] at h
  rw [h]
  simp [toks, finish, flush_of_ne_nil hne]

/-- The characters of number literals. -/
def isNumberChar (c : Char) : Bool :=
  c.isDigit || c = '-' || c = '+' || c = '.' || c = 'e' || c = 'E'

theorem isWord_of_isNumberChar (h : isNumberChar c = true) : isWord c = true := by
  simp only [isNumberChar, Bool.or_eq_true, decide_eq_true_eq, or_assoc] at h
  rcases h with h | rfl | rfl | rfl | rfl | rfl
  · simp only [isWord, Bool.and_eq_true, Bool.not_eq_eq_eq_not, Bool.not_true, decide_eq_true_eq]
    refine ⟨⟨?_, ?_⟩, ?_⟩
    · by_contra hs
      rw [Bool.not_eq_false, isSep_iff] at hs
      rcases hs with rfl | rfl | rfl | rfl | rfl | rfl | rfl | rfl | rfl | rfl <;>
        exact absurd h (by decide)
    · rintro rfl
      exact absurd h (by decide)
    · rintro rfl
      exact absurd h (by decide)
  all_goals decide

/-- A number literal is made of the characters of number literals. -/
theorem isNumberChar_of_mem {n : Number} (h : NumberText fl w n) (hc : c ∈ w) :
    isNumberChar c = true := by
  have hdigit : ∀ d : Char, d.isDigit = true → isNumberChar d = true := by
    intro d hd
    simp [isNumberChar, hd]
  have hdigits : ∀ ds : List Char, IsDigits ds → ∀ d ∈ ds, isNumberChar d = true := by
    intro ds hds d hd
    exact hdigit d (hds.2 d hd)
  obtain ⟨neg, ds, fr, ex, hi, hf, he, rfl, -⟩ := h
  rw [List.mem_append, List.mem_append, List.mem_append] at hc
  rcases hc with ((hc | hc) | hc) | hc
  · unfold minus at hc
    split_ifs at hc
    · cases List.mem_singleton.mp hc
      decide
    · cases hc
  · rcases hi with rfl | ⟨hds, -⟩
    · cases List.mem_singleton.mp hc
      decide
    · exact hdigits ds hds c hc
  · rcases hf with rfl | ⟨es, hes, rfl⟩
    · cases hc
    · rcases List.mem_cons.mp hc with rfl | hc
      · decide
      · exact hdigits es hes c hc
  · rcases he with rfl | ⟨e, sg, es, hee, hsg, hes, rfl⟩
    · cases hc
    · rw [List.mem_cons, List.mem_append] at hc
      rcases hc with rfl | hc | hc
      · rcases hee with rfl | rfl <;> decide
      · rcases hsg with rfl | rfl | rfl
        · cases hc
        · cases List.mem_singleton.mp hc
          decide
        · cases List.mem_singleton.mp hc
          decide
      · exact hdigits es hes c hc

theorem numberText_ne_nil {n : Number} (h : NumberText fl w n) : w ≠ [] := by
  obtain ⟨c, u, rfl, -⟩ := h.head
  simp

/-! ## Every text lexes -/

/-- White space in front of a text stands for nothing. -/
theorem Lexed.ws (hw : Ws w) (hu : Lexed (Reads fl) u ms) : Lexed (Reads fl) (w ++ u) ms := by
  induction w with
  | nil => exact hu
  | cons c w ih =>
    have hc : isWs c = true := hw c List.mem_cons_self
    exact .sep (isSep_of_isWs hc) (.ws hc) (ih fun d hd => hw d (List.mem_cons_of_mem c hd))

theorem breaks_ws (hw : Ws w) (hu : Breaks u) : Breaks (w ++ u) := by
  cases w with
  | nil => exact hu
  | cons c w => exact .cons (isSep_of_isWs (hw c List.mem_cons_self)) _

theorem reads_punct (d : Char) (h : isPunct d = true) : Reads fl (.sep d) [.sep d] := .punct h

theorem spells_punct (d : Char) (h : isPunct d = true) : Spells (.sep d) [.sep d] := .punct h

mutual

theorem lexed_value {fl : List Char → Option F64} {t : List Char} {v : Value}
    (h : ValueText fl t v) :
    ∃ r, collapse r = v ∧ Lexed (Reads fl) t (lexemes r) := by
  cases h with
  | null => exact ⟨.null, rfl, .word (by simp) (List.all_iff_forall_prop.mp (by decide)) .null⟩
  | true => exact ⟨.bool true, rfl, .word (by simp) (List.all_iff_forall_prop.mp (by decide)) .true⟩
  | false => exact ⟨.bool false, rfl, .word (by simp) (List.all_iff_forall_prop.mp (by decide)) .false⟩
  | number h =>
    exact ⟨.number _, rfl, .word (numberText_ne_nil h)
      (fun c hc => isWord_of_isNumberChar (isNumberChar_of_mem h hc)) (.num h)⟩
  | string h => exact ⟨.string _, rfl, .str h (.str h) .nil⟩
  | emptyArray hw =>
    exact ⟨.array [], rfl, .punct reads_punct (by decide) (.ws hw (.punct reads_punct (by decide) .nil))⟩
  | array h =>
    obtain ⟨rs, -, rfl, hlex⟩ := lexed_elements h
    exact ⟨.array rs, rfl, .punct reads_punct (by decide) (hlex.closed reads_punct (by decide))⟩
  | emptyObject hw =>
    exact ⟨.object [], rfl, .punct reads_punct (by decide) (.ws hw (.punct reads_punct (by decide) .nil))⟩
  | object h =>
    obtain ⟨rs, -, rfl, hlex⟩ := lexed_members h
    exact ⟨.object rs, rfl, .punct reads_punct (by decide) (hlex.closed reads_punct (by decide))⟩
termination_by (t.length, 0)
decreasing_by all_goals decreasing_tactic

theorem lexed_elements {fl : List Char → Option F64} {t : List Char} {vs : List Value}
    (h : ElementsText fl t vs) :
    ∃ rs, rs ≠ [] ∧ collapseItems rs = vs ∧ Lexed (Reads fl) t (lexItems rs) := by
  cases h with
  | one h₁ h h₂ =>
    obtain ⟨r, rfl, hlex⟩ := lexed_value h
    refine ⟨[r], by simp, rfl, .ws h₁ ?_⟩
    have hend : Lexed (Reads fl) (_ ++ []) [] := .ws h₂ .nil
    have hjoin := hlex.join (breaks_ws h₂ .nil) hend
    simpa [lexItems] using hjoin
  | cons h₁ h h₂ hs =>
    obtain ⟨r, rfl, hlex⟩ := lexed_value h
    obtain ⟨rs, hne, rfl, hrest⟩ := lexed_elements hs
    refine ⟨r :: rs, by simp, rfl, .ws h₁ ?_⟩
    rw [lexItems_cons hne]
    exact hlex.join (breaks_ws h₂ (.cons (by decide) _)) (.ws h₂ (.punct reads_punct (by decide) hrest))
termination_by (t.length, 1)
decreasing_by all_goals simp; omega

theorem lexed_members {fl : List Char → Option F64} {t : List Char} {ns : List (String × Value)}
    (h : MembersText fl t ns) :
    ∃ rs, rs ≠ [] ∧ collapseMembers rs = ns ∧ Lexed (Reads fl) t (lexMembers rs) := by
  cases h with
  | @one w₁ k w₂ w₃ u w₄ s v h₁ hk h₂ h₃ h h₄ =>
    obtain ⟨r, rfl, hlex⟩ := lexed_value h
    refine ⟨[(String.ofList s, r)], by simp, rfl, .ws h₁ (.str hk (.str hk) (.ws h₂
      (.punct reads_punct (by decide) (.ws h₃ ?_))))⟩
    have hend : Lexed (Reads fl) (w₄ ++ []) [] := .ws h₄ .nil
    have hjoin := hlex.join (breaks_ws h₄ .nil) hend
    simpa using hjoin
  | @cons w₁ k w₂ w₃ u w₄ s u' v ms' h₁ hk h₂ h₃ h h₄ hs =>
    obtain ⟨r, rfl, hlex⟩ := lexed_value h
    obtain ⟨rs, hne, rfl, hrest⟩ := lexed_members hs
    refine ⟨(String.ofList s, r) :: rs, by simp, rfl, ?_⟩
    rw [lexMembers_cons hne]
    refine .ws h₁ (.str hk (.str hk) (.ws h₂ (.punct reads_punct (by decide) (.ws h₃ ?_))))
    exact hlex.join (breaks_ws h₄ (.cons (by decide) _)) (.ws h₄ (.punct reads_punct (by decide) hrest))
termination_by (t.length, 1)
decreasing_by all_goals simp; omega

end

/-- **A JSON text lexes to the lexemes of a tree that denotes its value.** -/
theorem lexed_of_text {v : Value} (h : JsonText fl t v) :
    ∃ r, collapse r = v ∧ Lexed (Reads fl) t (lexemes r) := by
  obtain ⟨w₁, u, w₂, h₁, hu, h₂, rfl⟩ := h
  obtain ⟨r, rfl, hlex⟩ := lexed_value hu
  refine ⟨r, rfl, .ws h₁ ?_⟩
  have hend : Lexed (Reads fl) (w₂ ++ []) [] := .ws h₂ .nil
  have hjoin := hlex.join (breaks_ws h₂ .nil) hend
  simpa using hjoin

/-! ## Canonical forms -/

theorem lexed_printItems {xs : List Value} (h : ∀ x ∈ xs, Lexed Spells (print x) (lexemes x)) :
    Lexed Spells (printItems xs) (lexItems xs) := by
  induction xs with
  | nil => exact .nil
  | cons x xs ih =>
    have hx := h x List.mem_cons_self
    cases xs with
    | nil => exact hx
    | cons y ys =>
      have hys := ih fun z hz => h z (List.mem_cons_of_mem x hz)
      exact hx.join (.cons (by decide) _) (.punct spells_punct (by decide) hys)

theorem lexed_printMembers {ns : List (String × Value)}
    (h : ∀ m ∈ ns, Lexed Spells (print m.2) (lexemes m.2)) :
    Lexed Spells (printMembers ns) (lexMembers ns) := by
  induction ns with
  | nil => exact .nil
  | cons m ns ih =>
    obtain ⟨k, v⟩ := m
    have hv : Lexed Spells (print v) (lexemes v) := h (k, v) List.mem_cons_self
    cases ns with
    | nil =>
      exact .str (stringBody_print k) (.str k) (.punct spells_punct (by decide) hv)
    | cons n ns =>
      have hns := ih fun p hp => h p (List.mem_cons_of_mem (k, v) hp)
      have hrest : Lexed Spells (',' :: printMembers (n :: ns)) (.sep ',' :: lexMembers (n :: ns)) :=
        .punct spells_punct (by decide) hns
      exact .str (stringBody_print k) (.str k)
        (.punct spells_punct (by decide) (hv.join (.cons (by decide) _) hrest))

/-- **A printed canonical form lexes to tokens that spell its lexemes.** -/
theorem lexed_print {v c : Value} (hc : canon v = some c) : Lexed Spells (print c) (lexemes c) := by
  have hclosed : ∀ {o p : Char} {t ls}, isPunct o = true → isPunct p = true → Lexed Spells t ls →
      Lexed Spells (o :: (t ++ [p])) (.sep o :: (ls ++ [.sep p])) := by
    intro o p t ls ho hp h
    exact .punct spells_punct ho (h.closed spells_punct hp)
  induction v generalizing c with
  | null => cases hc; exact .word (by simp [print]) (List.all_iff_forall_prop.mp (by decide)) .null
  | bool b =>
    cases hc
    cases b
    · exact .word (by simp [print]) (List.all_iff_forall_prop.mp (by decide)) .false
    · exact .word (by simp [print]) (List.all_iff_forall_prop.mp (by decide)) .true
  | string s =>
    cases hc
    exact .str (stringBody_print s) (.str s) .nil
  | number n =>
    obtain ⟨i, hi, rfl⟩ := canon_number.mp hc
    have hsafe := (safeInt_eq_some hi).2
    have htext := numberText_printInt (fun _ => none) hsafe
    rw [print, intOf_ofInt hsafe]
    exact .word (numberText_ne_nil htext)
      (fun c hc => isWord_of_isNumberChar (isNumberChar_of_mem htext hc)) (.num hsafe)
  | array xs ih =>
    obtain ⟨ys, hys, rfl⟩ := canon_array.mp hc
    refine hclosed (by decide) (by decide) (lexed_printItems fun y hy => ?_)
    obtain ⟨x, hx, hxy⟩ := exists_of_mem_forall₂ hys hy
    exact ih x hx hxy
  | object ms ih =>
    obtain ⟨ns, hns, rfl⟩ := canon_object.mp hc
    refine hclosed (by decide) (by decide) (lexed_printMembers fun n hn => ?_)
    obtain ⟨m, hm, hmn⟩ := exists_of_mem_forall₂ hns ((sortMembers_perm ns).mem_iff.mp hn)
    exact ih m hm hmn.2

end Lexed

end Sealr.Lib.Lexer
