import Sealr.Lib.Replaced
import Sealr.Lib.Scalars

/-!
# A flipped bit of a line

Flip one bit of a line that holds a printed canonical form, and read what comes out as JSON. Either
the bit is outside of strings, and the value is another one with its strings where they were; or it
is inside of one, and that string is replaced (`flipped_reads`). The string stays in one case only:
the bit turns the last digit of the escape of a control character to upper case (`UpcasesEscape`),
and then the value is the same (`upcased_reads`).
-/

namespace Sealr.Lib.Lexer

open Rfc8259 Rfc8785 Mode

/-- Bit `k` of the character behind `pre` is the one that makes it upper case, and the character is
the last digit, a letter, of the escape of a control character. -/
def UpcasesEscape (k : Nat) (pre : List Char) (a : Char) : Prop :=
  k = 5 ∧ a ∈ hexLetters ∧ ∃ p d z, pre = p ++ ['\\', 'u', '0', '0', d] ∧ (d = '0' ∨ d = '1') ∧
    (out []).after p = str z

section Replacing

variable {s s' : String} {c d : Value}

/-- Putting a string in its own place changes nothing. -/
theorem Replaced.eq_self (h : Replaced s s c d) (hwf : c.wf = true) : d = c := by
  induction h with
  | string => rfl
  | @item p q x x' _ ih => rw [ih (Value.wf_array.mp hwf x (by simp))]
  | name => rw [ofMembers_of_nodup (Value.wf_object.mp hwf).1]
  | @value p q k v v' _ ih =>
    obtain ⟨hnodup, hwf⟩ := Value.wf_object.mp hwf
    rw [ih (hwf (k, v) (by simp)), ofMembers_of_nodup hnodup]

/-- A string member that is another one after a replacement: it was replaced itself, or another name
has become its name. -/
theorem Replaced.member {ns : List (String × Value)} (h : Replaced s s' (.object ns) d)
    (hwf : (Value.object ns).wf = true) (hwf' : d.wf = true) {key t t' : String}
    (ht : ns.lookup key = some (.string t)) (ht' : d.get key = some (.string t')) (hne : t ≠ t') :
    (∃ p q, ns = p ++ (key, .string s) :: q ∧ d = .object (p ++ (key, .string s') :: q)) ∨
      (s' = key ∧ s ≠ key ∧ s ∈ ns.map Prod.fst) := by
  obtain ⟨hnodup, -⟩ := Value.wf_object.mp hwf
  have hmem := (Value.lookup_eq_some_iff hnodup).mp ht
  -- a member that stood there keeps its value
  have hsame : (key, .string t') ∉ ns := by
    intro hm
    have heq := (Value.lookup_eq_some_iff hnodup).mpr hm
    rw [ht] at heq
    exact hne (Value.string.inj (Option.some.inj heq))
  have hread : ∀ ms, d = .object (ofMembers ms) → (key, .string t') ∈ ms := by
    rintro ms rfl
    have hm := (Value.lookup_eq_some_iff (Value.wf_object.mp hwf').1).mp ht'
    exact (ofMembers_subperm ms).subset hm
  generalize hns : Value.object ns = c at h
  cases h with
  | string => cases hns
  | item => cases hns
  | @name p q v =>
    obtain rfl := Value.object.inj hns
    have hm := hread _ rfl
    simp only [List.mem_append, List.mem_cons, Prod.mk.injEq] at hm hsame
    rcases hm with hm | ⟨rfl, rfl⟩ | hm
    · exact absurd (.inl hm) hsame
    · refine .inr ⟨rfl, ?_, by simp⟩
      rintro rfl
      exact hsame (.inr (.inl ⟨rfl, rfl⟩))
    · exact absurd (.inr (.inr hm)) hsame
  | @value p q k v v' hv =>
    obtain rfl := Value.object.inj hns
    have hm := hread _ rfl
    simp only [List.mem_append, List.mem_cons, Prod.mk.injEq] at hm hsame
    rcases hm with hm | ⟨rfl, rfl⟩ | hm
    · exact absurd (.inl hm) hsame
    · have hold : (key, v) ∈ p ++ (key, v) :: q := by simp
      have heq := (Value.lookup_eq_some_iff hnodup).mpr hold
      obtain rfl : Value.string t = v := Option.some.inj (ht.symm.trans heq)
      have hstring : s = t ∧ s' = t' := by
        generalize hx : Value.string t = x at hv
        generalize hx' : Value.string t' = x' at hv
        cases hv with
        | string => exact ⟨(Value.string.inj hx).symm, (Value.string.inj hx').symm⟩
        | item => cases hx
        | name => cases hx
        | value => cases hx
      obtain ⟨rfl, rfl⟩ := hstring
      have hnodup' : ((p ++ (key, Value.string s') :: q).map Prod.fst).Nodup := by
        simpa using hnodup
      exact .inl ⟨p, q, rfl, by rw [ofMembers_of_nodup hnodup']⟩
    · exact absurd (.inr (.inr hm)) hsame

end Replacing

/-! ## Lines -/

section Line

variable {fl : List Char → Option F64} {k : Nat} {v c w : Value} {a a' : Char}
  {pre post t : List Char} {m : Mode} {us : List Tok} {ls : List (Lexeme Number)}

theorem toks_concat_sep {b : Char} (hb : isSep b = true) (h : toks m (t ++ [b]) = some us) :
    ∃ ts, toks m t = some ts ∧ us = ts ++ [.sep b] := by
  induction t generalizing m us with
  | nil =>
    obtain ⟨hq, hbs⟩ := ne_of_isSep hb
    cases m with
    | out x =>
      rw [List.nil_append, toks_out_sep hb] at h
      obtain rfl : flush x ++ [.sep b] = us := by simpa [toks, finish] using h
      exact ⟨flush x, rfl, rfl⟩
    | str x =>
      rw [List.nil_append, toks_str_plain hq hbs] at h
      cases h
    | esc x =>
      rw [List.nil_append, toks_esc_cons] at h
      cases h
  | cons d t ih =>
    rw [List.cons_append] at h
    obtain ⟨e, vs, he, hvs, rfl⟩ := toks_cons.mp h
    obtain ⟨ts, hts, rfl⟩ := ih hvs
    exact ⟨e ++ ts, toks_cons.mpr ⟨e, ts, he, hts, rfl⟩, by simp⟩

/-- The line feed of a line stands for nothing. -/
theorem lexed_of_line (h : JsonText fl (t ++ ['\n']) w) :
    ∃ r, collapse r = w ∧ Lexed (Reads fl) t (lexemes r) := by
  obtain ⟨r, hr, us, hus, hreads⟩ := lexed_of_text h
  obtain ⟨ts, hts, rfl⟩ := toks_concat_sep (by decide) hus
  obtain ⟨ls, ms, hls, hms, heq⟩ := denotes_append.mp hreads
  have hspace : isWs '\n' = true := rfl
  obtain rfl : ms = [] := (denotes_singleton.mp hms).unique (.ws hspace)
  rw [List.append_nil] at heq
  exact ⟨r, hr, ts, hts, heq ▸ hls⟩

/-- A string token of a canonical form. -/
theorem spells_str {x : List Char} (h : Denotes Spells (.str x :: us) ls) :
    ∃ s ms, x = printBody s ∧ ls = .str s :: ms ∧ Denotes Spells us ms := by
  obtain ⟨l, ms, hl, hms, rfl⟩ := denotes_cons.mp h
  cases hl with
  | str s => exact ⟨s, ms, rfl, rfl, hms⟩

theorem reads_str {x : List Char} (h : Denotes (Reads fl) (.str x :: us) ls) :
    ∃ s ms, StringBody x s ∧ ls = .str (String.ofList s) :: ms ∧ Denotes (Reads fl) us ms := by
  obtain ⟨l, ms, hl, hms, rfl⟩ := denotes_cons.mp h
  cases hl with
  | str hbody => exact ⟨_, ms, hbody, rfl, hms⟩

/-- A value text and a line feed. -/
theorem jsonText_line (h : ValueText fl t w) : JsonText fl (t ++ ['\n']) w := by
  have hnewline : Ws ['\n'] := by
    intro b hb
    cases List.mem_singleton.mp hb
    rfl
  exact ⟨[], t, ['\n'], Ws.nil, h, hnewline, rfl⟩

/-- A text with another body in the place of a string. -/
theorem jsonText_of_tokens {A B : List Tok} {la lb : List (Lexeme Number)} {x : List Char}
    {d : Value} (hA : Denotes Spells A la) (hB : Denotes Spells B lb)
    (htoks : toks (out []) t = some (A ++ .str x :: B))
    (hd : ValueText fl (la.flatMap Lexeme.text ++ (quoted x ++ lb.flatMap Lexeme.text)) d) :
    JsonText fl (t ++ ['\n']) d := by
  have htext := text_toks htoks
  rw [pending, List.nil_append, List.flatMap_append, List.flatMap_cons, text_of_spells hA,
    text_of_spells hB] at htext
  exact jsonText_line (htext ▸ hd)

/-- A flip that leaves a string is one of the flips to upper case. -/
theorem upcases_of_body {x q s : List Char} (hflip : FlippedChar k a a') (hk : k < 8)
    (hin : Inside ((out []).after pre) x) (hbody : s.flatMap escape = x ++ a :: q)
    (hbody' : StringBody (x ++ a' :: q) s) : UpcasesEscape k pre a := by
  obtain ⟨p, d, rfl, hd, ha, ha', hafter⟩ := upcased_of_body hbody hbody' hflip.ne
  obtain ⟨p₀, u, rfl, hout, -⟩ := opened_of_inside hin
  have hbit : ∀ b ∈ hexLetters, ∀ j ∈ List.range 8, Char.ofNat (b.toNat ^^^ 2 ^ j) = b.toUpper →
      j = 5 :=
    List.all_iff_forall_prop.mp (by decide)
  have hascii : ∀ b ∈ hexLetters, b.toNat < 0x80 := List.all_iff_forall_prop.mp (by decide)
  refine ⟨hbit a ha k (List.mem_range.mpr hk) ?_, ha, p₀ ++ '\"' :: p, d, p, by simp, hd, ?_⟩
  · rw [← hflip.toNat_eq (hascii a ha), Char.ofNat_toNat, ha']
  · rw [after_append, hout, after_cons, next, if_pos rfl, hafter, List.nil_append]

/-- The string members of an object that was read with duplicates are members of its text. -/
theorem mem_stringMembers_of_collapse {ns : List (String × Value)} {key s : String}
    (h : (key, Value.string s) ∈ ofMembers (collapseMembers ns)) : (key, s) ∈ stringMembers ns := by
  have hmem := (ofMembers_subperm _).subset h
  rw [collapseMembers_eq_map, List.mem_map] at hmem
  obtain ⟨⟨key', x⟩, hx, hkx⟩ := hmem
  obtain ⟨rfl, hstring⟩ := Prod.mk.inj hkx
  cases x with
  | string t =>
    obtain rfl := Value.string.inj hstring
    exact mem_stringMembers.mpr hx
  | _ => cases hstring

/-- **What a line with a flipped bit reads as**: with the bit outside of strings, another value
whose string members stood there; with the bit inside of one, the value with that string
replaced. -/
theorem flipped_reads (hzero : ∀ f, fl ['-', '0'] = some f → f.toRat = 0) (hv : v.wf = true)
    (hc : canon v = some c) (hprint : print c = pre ++ a :: post) (hflip : FlippedChar k a a')
    (hk : k < 8) (hw : JsonText fl ((pre ++ a' :: post) ++ ['\n']) w) :
    (¬c.Equiv w ∧ ∀ ns ns', c = .object ns → w = .object ns' →
      ∀ key s, (key, .string s) ∈ ns' → (key, .string s) ∈ ns) ∨
    ∃ s s', Replaced s s' c w ∧ (c.Equiv w → s = s') ∧ (s = s' → UpcasesEscape k pre a) ∧
      ∃ x q, printBody s = x ++ a :: q ∧ StringBody (x ++ a' :: q) s'.toList := by
  obtain ⟨ts, hts, hspells⟩ := lexed_print hc
  obtain ⟨r, hr, us, hus, hreads⟩ := lexed_of_line hw
  rw [hprint] at hts
  obtain ⟨hquote, hquote'⟩ := quote_of_flip hflip hk
  have hle : c.Equiv w → weighAll (lexemes c) ≤ weighAll (lexemes r) := by
    intro hequiv
    have hle := inventory_collapse_le r
    rwa [hr, ← inventory_of_equiv hequiv] at hle
  rcases toks_change hquote hquote' hflip.ne hts hus with
    ⟨x, q, post', A, B, hin, -, rfl, rfl⟩ | ⟨x, u, A, B, -, rfl, rfl⟩
  · right
    obtain ⟨la, rest, hA, hrest, heq⟩ := denotes_append.mp hspells
    obtain ⟨s, lb, hbody, rfl, hB⟩ := spells_str hrest
    obtain ⟨la', rest', hA', hrest', heq'⟩ := denotes_append.mp hreads
    obtain ⟨s', lb', hbody', rfl, hB'⟩ := reads_str hrest'
    obtain rfl := hA.unique hA'
    obtain rfl := hB.unique hB'
    obtain ⟨d, hd, htext⟩ := respelled fl hv hc heq hbody'
    obtain rfl := (jsonText_of_tokens hA hB hus htext).unique hw
    refine ⟨s, String.ofList s', hd, fun hequiv => ?_, ?_, x, q, hbody.symm, ?_⟩
    · have hcons := hle hequiv
      rw [heq, heq', weighAll_append, weighAll_append, weighAll_cons, weighAll_cons,
        add_le_add_iff_left, ← Multiset.singleton_add, ← Multiset.singleton_add,
        add_le_add_iff_right, Multiset.singleton_le, Multiset.mem_singleton] at hcons
      exact Lexeme.str.inj hcons
    · rintro rfl
      rw [printBody, chars_eq, String.toList_ofList] at hbody
      exact upcases_of_body hflip hk hin hbody.symm hbody'
    · rwa [String.toList_ofList]
  · left
    obtain ⟨la, rest, hA, hrest, heq⟩ := denotes_append.mp hspells
    obtain ⟨M, lb, hM, hB, rfl⟩ := denotes_append.mp hrest
    obtain ⟨la', rest', hA', hrest', heq'⟩ := denotes_append.mp hreads
    obtain ⟨M', lb', hM', hB', rfl⟩ := denotes_append.mp hrest'
    obtain rfl := hA.unique hA'
    obtain rfl := hB.unique hB'
    refine ⟨fun hequiv => ?_, ?_⟩
    · have hcons := hle hequiv
      rw [heq, heq', weighAll_append, weighAll_append, weighAll_append, weighAll_append,
        add_le_add_iff_left, add_le_add_iff_right] at hcons
      exact not_weighAll_le hzero hflip hk hM hM' hcons
    · rintro ns ns' rfl rfl key s hmem
      cases r with
      | object rs =>
        rw [collapse] at hr
        obtain rfl := Value.object.inj hr
        have hrun := run_object ns
        have hrun' := run_object rs
        rw [heq] at hrun
        rw [heq'] at hrun'
        have hnotes := notes_eq_of_flip hflip hk hM hM' hrun hrun'
        rw [← mem_stringMembers, hnotes]
        exact mem_stringMembers_of_collapse hmem
      | _ => cases hr

/-- **A flip to upper case in an escape leaves the value.** -/
theorem upcased_reads (hv : v.wf = true) (hc : canon v = some c)
    (hprint : print c = pre ++ a :: post) (hup : UpcasesEscape k pre a) :
    JsonText fl ((pre ++ a.toUpper :: post) ++ ['\n']) c := by
  obtain ⟨-, ha, p, d, z, rfl, hd, hp⟩ := hup
  obtain ⟨p₀, u, rfl, hout, -⟩ := opened_of_inside (.inl hp)
  have hz : (str []).after z = str z := by
    rw [after_append, hout, after_cons, next, if_pos rfl] at hp
    exact hp
  obtain ⟨ts, hts, hspells⟩ := lexed_print hc
  rw [hprint, List.append_assoc] at hts
  obtain ⟨e, hiff⟩ := toks_append hts
  have hsix : ∀ b t, b ≠ '\"' → b ≠ '\\' →
      toks (str z) ('\\' :: 'u' :: '0' :: '0' :: d :: b :: t) =
        toks (str (z ++ ['\\', 'u', '0', '0', d, b])) t := by
    intro b t hbq hbb
    have hdq : d ≠ '\"' ∧ d ≠ '\\' := by
      rcases hd with rfl | rfl <;> decide
    rw [toks_str_backslash, toks_esc_cons, toks_str_plain (by decide) (by decide),
      toks_str_plain (by decide) (by decide), toks_str_plain hdq.1 hdq.2, toks_str_plain hbq hbb]
    simp
  have hplain : ∀ b ∈ hexLetters, (b ≠ '\"' ∧ b ≠ '\\') ∧ b.toUpper ≠ '\"' ∧ b.toUpper ≠ '\\' :=
    List.all_iff_forall_prop.mp (by decide)
  obtain ⟨⟨haq, hab⟩, huq, hub⟩ := hplain a ha
  obtain ⟨vs, hvs, rfl⟩ := (hiff _ _).mp hts
  rw [hp, List.cons_append, List.cons_append, List.cons_append, List.cons_append, List.cons_append,
    List.nil_append, hsix a post haq hab] at hvs
  obtain ⟨q, r, us, rfl, hus, hall⟩ := (toks_inside post).1 _ _ hvs
  obtain rfl := Option.some.inj (hvs.symm.trans (hall _))
  obtain ⟨la, rest, hA, hrest, heq⟩ := denotes_append.mp hspells
  obtain ⟨s, lb, hbody, rfl, hB⟩ := spells_str hrest
  rw [printBody, chars_eq, List.append_assoc] at hbody
  have hbody' := body_of_upcased hbody.symm hz ha
  obtain ⟨D, hD, htext⟩ := respelled fl hv hc heq hbody'
  rw [String.ofList_toList] at hD
  obtain rfl := hD.eq_self (wf_canon hv hc)
  refine jsonText_of_tokens hA hB ?_ htext
  rw [List.append_assoc]
  refine (hiff _ _).mpr ⟨_, ?_, rfl⟩
  rw [hp, List.cons_append, List.cons_append, List.cons_append, List.cons_append, List.cons_append,
    List.nil_append, hsix a.toUpper _ huq hub, hall]
  simp

end Line

end Sealr.Lib.Lexer
