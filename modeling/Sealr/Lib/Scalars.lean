import Mathlib.Data.Bool.AllAny
import Sealr.Lib.Flips
import Sealr.Lib.Inventory
import Sealr.Lib.Outline

/-!
# A flipped bit outside of strings

A safe integer has one spelling among the short literals made of digits and minus signs
(`printInt_of_numberText`), and a literal name has one spelling. So flipping a bit of a canonical
form outside of its strings, if what comes out can still be read, takes a lexeme away that the value
needs (`not_weighAll_le`), and it moves no string from one name to another (`notes_eq_of_flip`).
-/

namespace Sealr.Lib.Lexer

open Rfc8259 Rfc8785

/-! ## Numbers have one plain spelling -/

theorem digitChar_of_isDigit {d : Char} (h : d.isDigit = true) :
    d.toNat - '0'.toNat < 10 ∧ Nat.digitChar (d.toNat - '0'.toNat) = d := by
  obtain ⟨hlo, hhi⟩ := Char.isDigit_iff_toNat.mp h
  have h0 : '0'.toNat = 48 := rfl
  have h9 : '9'.toNat = 57 := rfl
  have hlt : d.toNat - '0'.toNat < 10 := by omega
  refine ⟨hlt, Char.toNat_inj.mp ?_⟩
  rw [Nat.toNat_digitChar_of_lt_ten hlt]
  omega

/-- Digits without a leading zero are the digits of their number. -/
theorem toDigits_ofDigitChars {ds : List Char} (h : IsInt ds) :
    Nat.toDigits 10 (Nat.ofDigitChars 10 ds 0) = ds := by
  rcases h with rfl | ⟨⟨hne, hall⟩, hz⟩
  · decide
  · induction ds using List.reverseRecOn with
    | nil => exact absurd rfl hne
    | append_singleton ds d ih =>
      obtain ⟨hlt, hchar⟩ := digitChar_of_isDigit (hall d (by simp))
      rw [Nat.ofDigitChars_append, Nat.ofDigitChars_cons, Nat.ofDigitChars_nil]
      by_cases hds : ds = []
      · subst hds
        rw [Nat.ofDigitChars_nil, Nat.mul_zero, Nat.zero_add, Nat.toDigits_of_lt_base hlt, hchar]
        rfl
      · have hhead : ds.head? ≠ some '0' := by
          rwa [List.head?_append_of_ne_nil _ hds] at hz
        have hds' := ih hhead hds fun c hc => hall c (List.mem_append_left _ hc)
        have hpos : 0 < Nat.ofDigitChars 10 ds 0 := by
          rw [Nat.pos_iff_ne_zero]
          intro hzero
          rw [hzero, Nat.toDigits_zero] at hds'
          rw [← hds'] at hhead
          exact hhead rfl
        rw [← Nat.toDigits_append_toDigits (by decide) hpos hlt, hds', Nat.toDigits_of_lt_base hlt,
          hchar]

/-- A digit or a minus sign. -/
def isPlain (c : Char) : Bool := c.isDigit || c = '-'

theorem isPlain_of_mem_printInt {i : Int} {c : Char} (h : c ∈ printInt i) : isPlain c = true := by
  rcases List.mem_append.mp h with h | h
  · unfold minus at h
    split_ifs at h
    · cases List.mem_singleton.mp h
      decide
    · cases h
  · simp [isPlain, Nat.isDigit_of_mem_toDigits (by decide) (by decide) h]

theorem length_printInt_le {i : Int} (h : i.natAbs ≤ maxSafe) : (printInt i).length ≤ 17 := by
  have hm : maxSafe = 2 ^ 53 - 1 := rfl
  have hdigits : (Nat.toDigits 10 i.natAbs).length ≤ 16 :=
    (Nat.length_toDigits_le_iff (by decide) (by decide)).mpr (by omega)
  have hminus : (minus (decide (i < 0))).length ≤ 1 := by
    unfold minus
    split_ifs <;> simp
  rw [printInt, List.length_append]
  omega

/-- **A short plain literal that is worth an integer is its text**, but for minus zero. -/
theorem printInt_of_numberText {fl : List Char → Option F64} {w : List Char} {n : Number} {i : Int}
    (hzero : ∀ f, fl ['-', '0'] = some f → f.toRat = 0) (h : NumberText fl w n)
    (hplain : ∀ d ∈ w, isPlain d = true) (hlen : w.length ≤ 17) (hn : n.toRat = i) :
    w = printInt i ∨ (w = ['-', '0'] ∧ i = 0) := by
  obtain ⟨neg, ds, fr, ex, hds, hfr, hex, rfl, hval⟩ := h
  obtain rfl : fr = [] := by
    rcases hfr with rfl | ⟨es, -, rfl⟩
    · rfl
    · exact absurd (hplain '.' (by simp)) (by decide)
  obtain rfl : ex = [] := by
    rcases hex with rfl | ⟨e, sg, es, he, -, -, rfl⟩
    · rfl
    · have hplain := hplain e (by simp)
      rcases he with rfl | rfl <;> exact absurd hplain (by decide)
  rw [List.append_nil, List.append_nil] at hlen ⊢
  have hdigits := toDigits_ofDigitChars hds
  have hbound : Nat.ofDigitChars 10 ds 0 < 10 ^ 17 := by
    rw [← Nat.length_toDigits_le_iff (by decide) (by decide), hdigits]
    rw [List.length_append] at hlen
    omega
  cases neg with
  | false =>
    have hlt : Nat.ofDigitChars 10 ds 0 < 2 ^ 64 := by omega
    simp only [numberOf, true_and, hlt, ↓reduceIte, Option.some.injEq] at hval
    subst hval
    have hi : (Nat.ofDigitChars 10 ds 0 : ℚ) = i := by
      rwa [Number.toRat, UInt64.toNat_ofNat_of_lt' hlt] at hn
    obtain rfl : (Nat.ofDigitChars 10 ds 0 : Int) = i := by exact_mod_cast hi
    left
    simp [printInt, minus, hdigits]
  | true =>
    by_cases hpos : 0 < Nat.ofDigitChars 10 ds 0
    · have hle : 0 < Nat.ofDigitChars 10 ds 0 ∧ Nat.ofDigitChars 10 ds 0 ≤ 2 ^ 63 := by omega
      simp only [numberOf, Bool.true_eq_false, false_and, and_false, ↓reduceIte, hle,
        and_self, ↓reduceDIte, Option.some.injEq] at hval
      subst hval
      obtain rfl : -(Nat.ofDigitChars 10 ds 0 : Int) = i := by
        rw [Number.toRat] at hn
        exact_mod_cast hn
      left
      simp [printInt, hdigits, hpos]
    · have hnat : Nat.ofDigitChars 10 ds 0 = 0 := by omega
      obtain rfl : ds = ['0'] := by rw [← hdigits, hnat, Nat.toDigits_zero]
      right
      simp only [numberOf, hnat, Bool.true_eq_false, false_and, and_false, ↓reduceIte, lt_irrefl,
        ↓reduceDIte, Option.map_eq_some_iff, List.append_nil] at hval
      obtain ⟨f, hf, rfl⟩ := hval
      have hi : (i : ℚ) = 0 := by
        rw [← hn]
        exact hzero f hf
      exact ⟨rfl, by exact_mod_cast hi⟩

/-! ## Words -/

section Words

variable {fl : List Char → Option F64} {w W : List Char} {x y : Lexeme Number}
  {l : List (Lexeme Number)}

/-- A word stands for one number or literal name. -/
theorem Reads.word (h : Reads fl (.word w) l) : ∃ x, l = [x] ∧ x.kind = .scalar := by
  cases h with
  | null | true | false | num => exact ⟨_, rfl, rfl⟩

/-- **A word that stands for what a canonical word spells is that word**, if it is no longer and
plain where that one is. -/
theorem word_unique (hzero : ∀ f, fl ['-', '0'] = some f → f.toRat = 0)
    (h : Spells (.word W) [x]) (h' : Reads fl (.word w) [y]) (hxy : weigh y = weigh x)
    (hlen : w.length ≤ W.length)
    (hplain : (∀ d ∈ W, isPlain d = true) → ∀ d ∈ w, isNumberChar d = true → isPlain d = true) :
    w = W := by
  cases h with
  | null =>
    cases h' with
    | null => rfl
    | true | false | num => cases hxy
  | true =>
    cases h' with
    | true => rfl
    | null | false | num => cases hxy
  | false =>
    cases h' with
    | false => rfl
    | null | true | num => cases hxy
  | @num i hi =>
    cases h' with
    | null | true | false => cases hxy
    | @num _ n hn =>
      have hrat : n.toRat = i := by
        simp only [weigh, Lexeme.map, Lexeme.num.injEq] at hxy
        rw [hxy, toRat_ofInt hi]
      have hchars : ∀ d ∈ w, isPlain d = true := fun d hd =>
        hplain (fun c hc => isPlain_of_mem_printInt hc) d hd (isNumberChar_of_mem hn hd)
      rcases printInt_of_numberText hzero hn hchars (hlen.trans (length_printInt_le hi)) hrat with
        hw | ⟨rfl, rfl⟩
      · exact hw
      · exact absurd hlen (by decide)

/-- No shorter word of its characters stands for what a canonical word spells. -/
theorem not_reads_shorter (hzero : ∀ f, fl ['-', '0'] = some f → f.toRat = 0)
    (h : Spells (.word W) [x]) (hxy : weigh y = weigh x) (hsub : w ⊆ W)
    (hlt : w.length < W.length) : ¬Reads fl (.word w) [y] := by
  intro h'
  have hsame := word_unique hzero h h' hxy hlt.le fun hall d hd _ => hall d (hsub hd)
  exact absurd (congrArg List.length hsame) hlt.ne

end Words

/-! ## Flips -/

section Flips

variable {fl : List Char → Option F64} {k : Nat} {c c' : Char} {w u : List Char}
  {M M' l l' : List (Lexeme Number)}

/-- What holds of ASCII characters and all their flips holds of a flipped one of them. -/
theorem of_flippedChar {P : Char → Char → Prop} {cs : List Char} (h : FlippedChar k c c')
    (hk : k < 8) (hc : c ∈ cs) (hascii : ∀ d ∈ cs, d.toNat < 0x80)
    (hP : ∀ d ∈ cs, ∀ j ∈ List.range 8, P d (Char.ofNat (d.toNat ^^^ 2 ^ j))) : P c c' := by
  have hflip := hP c hc k (List.mem_range.mpr hk)
  rwa [← h.toNat_eq (hascii c hc), Char.ofNat_toNat] at hflip

/-- A flipped digit or minus sign is not another character of number literals. -/
theorem isPlain_of_flip (h : FlippedChar k c c') (hk : k < 8) (hc : isPlain c = true)
    (hc' : isNumberChar c' = true) : isPlain c' = true := by
  have hmem : c ∈ ['0', '1', '2', '3', '4', '5', '6', '7', '8', '9', '-'] := by
    rcases Bool.or_eq_true_iff.mp hc with hd | hd
    · obtain ⟨hlt, hchar⟩ := digitChar_of_isDigit hd
      rw [← hchar]
      generalize c.toNat - '0'.toNat = n at hlt
      interval_cases n <;> decide
    · rw [decide_eq_true_eq] at hd
      subst hd
      decide
  refine of_flippedChar (P := fun _ d => isNumberChar d = true → isPlain d = true) h hk hmem
    (List.all_iff_forall_prop.mp (by decide)) (List.all_iff_forall_prop.mp (by decide)) hc'

/-- A flipped punctuation mark that is one again, or white space, opens or closes as before. -/
theorem isPunct_of_flip (h : FlippedChar k c c') (hk : k < 8) (hc : isPunct c = true)
    (hc' : isSep c' = true) :
    isPunct c' = true ∧ (Lexeme.sep c : Lexeme Number).kind = (Lexeme.sep c' : Lexeme Number).kind := by
  have hmem : c ∈ [',', ':', '[', ']', '\x7b', '\x7d'] := by
    simpa [isPunct, or_assoc] using hc
  refine of_flippedChar (P := fun d d' => isSep d' = true → isPunct d' = true ∧
    (Lexeme.sep d : Lexeme Number).kind = (Lexeme.sep d' : Lexeme Number).kind) h hk hmem
    (List.all_iff_forall_prop.mp (by decide)) (List.all_iff_forall_prop.mp (by decide)) hc'

/-- A word that was begun stands for one scalar, or there is none. -/
theorem denotes_flush {R : Tok → List (Lexeme Number) → Prop} (h : Denotes R (flush w) l) :
    (w = [] ∧ l = []) ∨ R (.word w) l := by
  by_cases hw : w = []
  · subst hw
    exact .inl ⟨rfl, denotes_nil.mp h⟩
  · rw [flush_of_ne_nil hw, denotes_singleton] at h
    exact .inr h

/-- The words around a separator and the separator. -/
theorem denotes_around_sep {R : Tok → List (Lexeme Number) → Prop} (hc : isSep c = true)
    (h : Denotes R (around w c u) M) : ∃ l m l', Denotes R (flush w) l ∧ R (.sep c) m ∧
      Denotes R (flush u) l' ∧ M = l ++ (m ++ l') := by
  rw [around, if_pos hc] at h
  obtain ⟨l, ms, hl, hms, rfl⟩ := denotes_append.mp h
  obtain ⟨m, l', hm, hl', rfl⟩ := denotes_cons.mp hms
  exact ⟨l, m, l', hl, hm, hl', rfl⟩

theorem denotes_around_word {R : Tok → List (Lexeme Number) → Prop} (hc : isSep c = false) :
    Denotes R (around w c u) M ↔ R (.word (w ++ c :: u)) M := by
  rw [around, hc, if_neg (by simp), denotes_singleton]

/-- A separator of a canonical form is punctuation. -/
theorem punct_of_spells {m : List (Lexeme Number)} (h : Spells (.sep c) m) :
    isPunct c = true ∧ m = [.sep c] := by
  cases h with
  | punct h => exact ⟨h, rfl⟩

theorem eq_of_reads_sep {m : List (Lexeme Number)} (h : Reads fl (.sep c) m) : m = [] ∨ m = [.sep c] := by
  cases h with
  | punct => exact .inr rfl
  | ws => exact .inl rfl

/-- A quote and a backslash are more than a flip apart. -/
theorem quote_of_flip (h : FlippedChar k c c') (hk : k < 8) :
    (c = '\"' → c' ≠ '\\') ∧ (c' = '\"' → c ≠ '\\') := by
  constructor
  · rintro rfl
    exact of_flippedChar (P := fun _ d => d ≠ '\\') h hk (List.mem_cons_self : '\"' ∈ ['\"'])
      (List.all_iff_forall_prop.mp (by decide)) (List.all_iff_forall_prop.mp (by decide))
  · rintro rfl rfl
    exact of_flippedChar (P := fun _ d => d ≠ '\"') h hk (List.mem_cons_self : '\\' ∈ ['\\'])
      (List.all_iff_forall_prop.mp (by decide)) (List.all_iff_forall_prop.mp (by decide)) rfl

/-- Words hold no separator. -/
theorem scalar_of_mem_flush (h : Denotes (Reads fl) (flush w) l) {x : Lexeme Number} (hx : x ∈ l) :
    x.kind = .scalar ∧ Reads fl (.word w) [x] := by
  rcases denotes_flush h with ⟨-, rfl⟩ | h
  · cases hx
  · obtain ⟨y, rfl, hy⟩ := h.word
    obtain rfl := List.mem_singleton.mp hx
    exact ⟨hy, h⟩

theorem kind_sep_ne (c : Char) : (Lexeme.sep c : Lexeme Number).kind ≠ .scalar := by
  simp only [Lexeme.kind]
  split_ifs <;> simp

theorem kind_weigh (x : Lexeme Number) : (weigh x).kind = x.kind := by
  cases x <;> rfl

theorem weigh_ne_of_kind {x y : Lexeme Number} (hx : x.kind = .scalar) (hy : y.kind ≠ .scalar) :
    weigh x ≠ weigh y := by
  intro h
  rw [← kind_weigh, ← h, kind_weigh] at hy
  exact hy hx

/-- **A flip outside of strings takes a lexeme away**: what can still be read lacks one that stood
there. -/
theorem not_weighAll_le (hzero : ∀ f, fl ['-', '0'] = some f → f.toRat = 0)
    (h : FlippedChar k c c') (hk : k < 8) (hM : Denotes Spells (around w c u) M)
    (hM' : Denotes (Reads fl) (around w c' u) M') : ¬weighAll M ≤ weighAll M' := by
  intro hle
  have hmem : ∀ x ∈ M, ∃ y ∈ M', weigh y = weigh x := by
    intro x hx
    have hin : weigh x ∈ weighAll M' := Multiset.mem_of_le hle (List.mem_map_of_mem hx)
    exact List.mem_map.mp hin
  by_cases hc : isSep c = true
  · obtain ⟨l, m, l', hl, hm, hl', rfl⟩ := denotes_around_sep hc hM
    obtain ⟨hpunct, rfl⟩ := punct_of_spells hm
    by_cases hc' : isSep c' = true
    · -- the words are the same, and one separator is not the other
      obtain ⟨n, m', n', hn, hm', hn', rfl⟩ := denotes_around_sep hc' hM'
      obtain rfl := hl.unique hn
      obtain rfl := hl'.unique hn'
      simp only [weighAll_append, add_le_add_iff_left, add_le_add_iff_right] at hle
      have hin : weigh (.sep c) ∈ weighAll m' :=
        Multiset.mem_of_le hle (List.mem_map_of_mem (List.mem_singleton.mpr rfl))
      rcases eq_of_reads_sep hm' with rfl | rfl
      · cases hin
      · have heq : weigh (.sep c) = weigh (.sep c') := List.mem_singleton.mp hin
        exact h.ne (Lexeme.sep.inj heq)
    · rw [denotes_around_word (by simpa using hc')] at hM'
      obtain ⟨y, rfl, hy⟩ := hM'.word
      obtain ⟨x, hx, heq⟩ := hmem (.sep c) (by simp)
      obtain rfl := List.mem_singleton.mp hx
      exact weigh_ne_of_kind hy (kind_sep_ne c) heq
  · have hc₀ : isSep c = false := by simpa using hc
    rw [denotes_around_word hc₀] at hM
    have hreads : Reads fl (.word (w ++ c :: u)) M := hM.reads
    obtain ⟨x, rfl, hx⟩ := hreads.word
    obtain ⟨y, hy, heq⟩ := hmem x (List.mem_singleton.mpr rfl)
    by_cases hc' : isSep c' = true
    · -- the word was cut, so no word is as long
      obtain ⟨n, m', n', hn, hm', hn', rfl⟩ := denotes_around_sep hc' hM'
      rcases List.mem_append.mp hy with hy | hy
      · exact not_reads_shorter hzero hM heq (List.subset_append_left _ _) (by simp)
          (scalar_of_mem_flush hn hy).2
      · rcases List.mem_append.mp hy with hy | hy
        · rcases eq_of_reads_sep hm' with rfl | rfl
          · cases hy
          · obtain rfl := List.mem_singleton.mp hy
            exact weigh_ne_of_kind hx (kind_sep_ne c') heq.symm
        · refine not_reads_shorter hzero hM heq (fun d hd => by simp [hd]) ?_
            (scalar_of_mem_flush hn' hy).2
          rw [List.length_append, List.length_cons]
          omega
    · rw [denotes_around_word (by simpa using hc')] at hM'
      obtain ⟨z, rfl, -⟩ := hM'.word
      obtain rfl := List.mem_singleton.mp hy
      have hsame : w ++ c' :: u = w ++ c :: u := by
        refine word_unique hzero hM hM' heq (by simp) fun hall d hd hnum => ?_
        simp only [List.mem_append, List.mem_cons] at hall hd
        rcases hd with hd | rfl | hd
        · exact hall d (.inl hd)
        · exact isPlain_of_flip h hk (hall c (.inr (.inl rfl))) hnum
        · exact hall d (.inr (.inr hd))
      exact h.ne (List.cons.inj (List.append_cancel_left hsame)).1.symm

/-- Words hold no string. -/
theorem not_str_around {R : Tok → List (Lexeme Number) → Prop} {fl : List Char → Option F64}
    (hR : ∀ t l, R t l → Reads fl t l) (h : Denotes R (around w c u) M) :
    ∀ x ∈ M, ∀ s, x.kind ≠ .str s := by
  have hflush : ∀ {v l}, Denotes R (flush v) l → ∀ x ∈ l, ∀ s, x.kind ≠ .str s := by
    intro v l hl x hx s hs
    rcases denotes_flush hl with ⟨-, rfl⟩ | hl
    · cases hx
    · obtain ⟨y, rfl, hy⟩ := (hR _ _ hl).word
      rw [List.mem_singleton.mp hx, hy] at hs
      cases hs
  intro x hx s hs
  by_cases hc : isSep c = true
  · obtain ⟨l, m, l', hl, hm, hl', rfl⟩ := denotes_around_sep hc h
    rw [List.mem_append, List.mem_append] at hx
    rcases hx with hx | hx | hx
    · exact hflush hl x hx s hs
    · rcases eq_of_reads_sep (hR _ _ hm) with rfl | rfl
      · cases hx
      · rw [List.mem_singleton.mp hx] at hs
        simp only [Lexeme.kind] at hs
        split_ifs at hs
    · exact hflush hl' x hx s hs
  · rw [denotes_around_word (by simpa using hc)] at h
    obtain ⟨y, rfl, hy⟩ := (hR _ _ h).word
    rw [List.mem_singleton.mp hx, hy] at hs
    cases hs

/-- **A flip outside of strings leaves what is noted**: no string goes from one name to another. -/
theorem notes_eq_of_flip (h : FlippedChar k c c') (hk : k < 8)
    (hM : Denotes Spells (around w c u) M) (hM' : Denotes (Reads fl) (around w c' u) M') {σ : Spot}
    {before after : List (Lexeme Number)} {e e' : List (String × String)}
    (hrun : σ.run (before ++ (M ++ after)) = some (⟨0, .done⟩, e))
    (hrun' : σ.run (before ++ (M' ++ after)) = some (⟨0, .done⟩, e')) : e = e' := by
  have hstr := not_str_around (fun t l ht => (Spells.reads ht : Reads fl t l)) hM
  have hstr' := not_str_around (fun t l ht => ht) hM'
  have hsame : M.map Lexeme.kind = M'.map Lexeme.kind → e = e' := by
    intro hkinds
    have hcongr := @run_congr Number (before ++ (M ++ after)) (before ++ (M' ++ after))
      (by simp only [List.map_append, hkinds]) σ
    rw [hrun, hrun'] at hcongr
    exact (Prod.mk.inj (Option.some.inj hcongr)).2
  by_cases hc : isSep c = true
  · by_cases hc' : isSep c' = true
    · obtain ⟨l, m, l', hl, hm, hl', rfl⟩ := denotes_around_sep hc hM
      obtain ⟨n, m', n', hn, hm', hn', rfl⟩ := denotes_around_sep hc' hM'
      obtain rfl := hl.unique hn
      obtain rfl := hl'.unique hn'
      obtain ⟨hpunct, rfl⟩ := punct_of_spells hm
      obtain ⟨hpunct', hkind⟩ := isPunct_of_flip h hk hpunct hc'
      obtain rfl := hm'.unique (.punct hpunct')
      refine hsame ?_
      simp only [List.map_append, List.map_cons, List.map_nil, hkind]
    · rw [denotes_around_word (by simpa using hc')] at hM'
      obtain ⟨y, rfl, hy⟩ := hM'.word
      exact (outline_scalar hy hstr hrun' hrun).symm
  · rw [denotes_around_word (by simpa using hc)] at hM
    have hreads : Reads fl (.word (w ++ c :: u)) M := hM.reads
    obtain ⟨x, rfl, hx⟩ := hreads.word
    exact outline_scalar hx hstr' hrun hrun'

end Flips

end Sealr.Lib.Lexer
