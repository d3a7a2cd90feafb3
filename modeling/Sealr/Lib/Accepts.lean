import Mathlib.Data.List.TakeWhile
import Sealr.Lib.Rfc8259

/-!
# The parser accepts only texts

The other half of `Rfc8259.parse_of_text`: what each parser reads is a prefix of its input that the
grammar derives, and the value it returns is the one the prefix denotes. So the parser accepts
exactly the JSON texts (`parse_eq_some_iff`).
-/

namespace Sealr.Lib.Rfc8259

/-! ## White space and names -/

/-- What `skipWs` skips is white space. -/
theorem exists_skipWs (t : List Char) : ∃ w, Ws w ∧ t = w ++ skipWs t := by
  refine ⟨t.takeWhile isWs, fun c hc => ?_, (List.takeWhile_append_dropWhile).symm⟩
  exact List.mem_takeWhile_imp hc

theorem parseName_eq_some {name : List Char} {v v' : Value} {t r : List Char}
    (h : parseName name v t = some (v', r)) : v' = v ∧ t = name ++ r := by
  unfold parseName at h
  split_ifs at h with hprefix
  obtain ⟨rfl, rfl⟩ := Prod.mk.inj (Option.some.inj h)
  obtain ⟨u, rfl⟩ := List.isPrefixOf_iff_prefix.mp hprefix
  exact ⟨rfl, by simp⟩

/-! ## Strings -/

theorem push_eq_some {c : Char} {o : Option (List Char × List Char)} {s r : List Char}
    (h : push c o = some (s, r)) : ∃ s', o = some (s', r) ∧ s = c :: s' := by
  obtain ⟨⟨s', r'⟩, ho, heq⟩ := Option.map_eq_some_iff.mp h
  obtain ⟨rfl, rfl⟩ := Prod.mk.inj heq
  exact ⟨s', ho, rfl⟩

/-- What is read of a string is its body and the closing quote. -/
theorem body_of_parseString {t s r : List Char} (h : parseString t = some (s, r)) :
    ∃ body, t = body ++ '\"' :: r ∧ StringBody body s := by
  fun_induction parseString t generalizing s r with
  | case1 => cases h
  | case2 a b c d t n hn hv ih =>
    obtain ⟨s', hs', rfl⟩ := push_eq_some h
    obtain ⟨body, rfl, hbody⟩ := ih hs'
    exact ⟨_, rfl, .unicode hn hv hbody⟩
  | case3 => cases h
  | case4 => cases h
  | case5 a b c d n hn hlow hhigh a' b' c' d' t lo hl hlo ih =>
    obtain ⟨s', hs', rfl⟩ := push_eq_some h
    obtain ⟨body, rfl, hbody⟩ := ih hs'
    refine ⟨_, rfl, .surrogates hn ?_ hl hlo hbody⟩
    omega
  | case6 => cases h
  | case7 => cases h
  | case8 e t _ c he ih =>
    obtain ⟨s', hs', rfl⟩ := push_eq_some h
    obtain ⟨body, rfl, hbody⟩ := ih hs'
    exact ⟨_, rfl, .escape he hbody⟩
  | case9 => cases h
  | case10 t =>
    obtain ⟨rfl, rfl⟩ := Prod.mk.inj (Option.some.inj h)
    exact ⟨[], rfl, .nil⟩
  | case11 => cases h
  | case12 c t _ _ hq hb hc ih =>
    obtain ⟨s', hs', rfl⟩ := push_eq_some h
    obtain ⟨body, rfl, hbody⟩ := ih hs'
    exact ⟨_, rfl, .plain hc hq hb hbody⟩
  | case13 => cases h
  | case14 => cases h

/-! ## Numbers -/

theorem isDigits_takeWhile {t : List Char} (h : t.takeWhile Char.isDigit ≠ []) :
    IsDigits (t.takeWhile Char.isDigit) :=
  ⟨h, fun _ hc => List.mem_takeWhile_imp hc⟩

theorem spanMinus_eq {t r : List Char} {neg : Bool} (h : spanMinus t = (neg, r)) :
    t = minus neg ++ r := by
  unfold spanMinus at h
  split at h
  · split_ifs at h with hc
    · obtain ⟨rfl, rfl⟩ := Prod.mk.inj h
      rw [hc]
      rfl
    · obtain ⟨rfl, rfl⟩ := Prod.mk.inj h
      rfl
  · obtain ⟨rfl, rfl⟩ := Prod.mk.inj h
    rfl

theorem spanInt_eq_some {t ds r : List Char} (h : spanInt t = some (ds, r)) :
    IsInt ds ∧ t = ds ++ r := by
  unfold spanInt at h
  split at h
  · next c t =>
    split_ifs at h with hzero hdigit
    · obtain ⟨rfl, rfl⟩ := Prod.mk.inj (Option.some.inj h)
      exact ⟨.inl rfl, by rw [hzero]; rfl⟩
    · obtain ⟨rfl, rfl⟩ := Prod.mk.inj (Option.some.inj h)
      refine ⟨.inr ⟨⟨List.cons_ne_nil _ _, fun d hd => ?_⟩, by simpa using hzero⟩, ?_⟩
      · rcases List.mem_cons.mp hd with rfl | hd
        · exact hdigit
        · exact List.mem_takeWhile_imp hd
      · simp
  · cases h

theorem spanDigits_eq_some {head t ds r : List Char} (h : spanDigits head t = some (ds, r)) :
    ∃ es, IsDigits es ∧ ds = head ++ es ∧ t = es ++ r := by
  unfold spanDigits at h
  dsimp only at h
  split_ifs at h with hnil
  obtain ⟨rfl, rfl⟩ := Prod.mk.inj (Option.some.inj h)
  exact ⟨_, isDigits_takeWhile hnil, rfl, List.takeWhile_append_dropWhile.symm⟩

theorem spanFrac_eq_some {t fr r : List Char} (h : spanFrac t = some (fr, r)) :
    IsFrac fr ∧ t = fr ++ r := by
  unfold spanFrac at h
  split at h
  · split_ifs at h with hdot
    · obtain ⟨es, hes, rfl, rfl⟩ := spanDigits_eq_some h
      exact ⟨.inr ⟨es, hes, rfl⟩, by rw [hdot]; rfl⟩
    · obtain ⟨rfl, rfl⟩ := Prod.mk.inj (Option.some.inj h)
      exact ⟨.inl rfl, rfl⟩
  · obtain ⟨rfl, rfl⟩ := Prod.mk.inj (Option.some.inj h)
    exact ⟨.inl rfl, rfl⟩

theorem spanExp_eq_some {t ex r : List Char} (h : spanExp t = some (ex, r)) :
    IsExp ex ∧ t = ex ++ r := by
  unfold spanExp at h
  split at h
  · next c t =>
    split_ifs at h with he
    · split at h
      · next s u =>
        split_ifs at h with hsign
        · obtain ⟨es, hes, rfl, rfl⟩ := spanDigits_eq_some h
          refine ⟨.inr ⟨c, [s], es, he, ?_, hes, rfl⟩, by simp⟩
          rcases hsign with rfl | rfl
          · exact .inr (.inl rfl)
          · exact .inr (.inr rfl)
        · obtain ⟨es, hes, rfl, heq⟩ := spanDigits_eq_some h
          exact ⟨.inr ⟨c, [], es, he, .inl rfl, hes, rfl⟩, by simp [heq]⟩
      · cases h
    · obtain ⟨rfl, rfl⟩ := Prod.mk.inj (Option.some.inj h)
      exact ⟨.inl rfl, rfl⟩
  · obtain ⟨rfl, rfl⟩ := Prod.mk.inj (Option.some.inj h)
    exact ⟨.inl rfl, rfl⟩

section Accepts

variable {fl : List Char → Option F64}

theorem text_of_parseNumber {t r : List Char} {n : Number} (h : parseNumber fl t = some (n, r)) :
    ∃ u, t = u ++ r ∧ NumberText fl u n := by
  unfold parseNumber at h
  generalize hm : spanMinus t = m at h
  obtain ⟨neg, t₁⟩ := m
  obtain rfl := spanMinus_eq hm
  dsimp only at h
  split at h
  · cases h
  · next ds t₂ hds =>
    obtain ⟨hint, rfl⟩ := spanInt_eq_some hds
    split at h
    · cases h
    · next fr t₃ hfr =>
      obtain ⟨hfrac, rfl⟩ := spanFrac_eq_some hfr
      split at h
      · cases h
      · next ex t₄ hex =>
        obtain ⟨hexp, rfl⟩ := spanExp_eq_some hex
        obtain ⟨m, hnum, heq⟩ := Option.map_eq_some_iff.mp h
        obtain ⟨rfl, rfl⟩ := Prod.mk.inj heq
        exact ⟨minus neg ++ ds ++ fr ++ ex, by simp, neg, ds, fr, ex, hint, hfrac, hexp, rfl, hnum⟩

/-! ## Values -/

/-- The three parsers read only what the grammar derives, by induction on the fuel. -/
theorem parse_sound (fuel : Nat) :
    (∀ t v r, parseValue fl fuel t = some (v, r) → ∃ u, t = u ++ r ∧ ValueText fl u v) ∧
    (∀ t vs r, parseElements fl fuel t = some (vs, r) →
      ∃ u, t = u ++ ']' :: r ∧ ElementsText fl u vs) ∧
    (∀ t ms r, parseMembers fl fuel t = some (ms, r) →
      ∃ u, t = u ++ '\x7d' :: r ∧ MembersText fl u ms) := by
  induction fuel with
  | zero => exact ⟨fun _ _ _ h => by simp [parseValue] at h,
      fun _ _ _ h => by simp [parseElements] at h, fun _ _ _ h => by simp [parseMembers] at h⟩
  | succ fuel ih =>
    obtain ⟨ihv, ihe, ihm⟩ := ih
    refine ⟨fun t v r h => ?_, fun t vs r h => ?_, fun t ms r h => ?_⟩
    · cases t with
      | nil => simp [parseValue] at h
      | cons c t =>
        simp only [parseValue] at h
        split_ifs at h with hquote hbracket hbrace hnull htrue hfalse
        · subst hquote
          obtain ⟨⟨s, r'⟩, hs, heq⟩ := Option.map_eq_some_iff.mp h
          obtain ⟨rfl, rfl⟩ := Prod.mk.inj heq
          obtain ⟨body, rfl, hbody⟩ := body_of_parseString hs
          exact ⟨_, by simp, .string hbody⟩
        · subst hbracket
          obtain ⟨w, hw, ht⟩ := exists_skipWs t
          split at h
          · next r' hskip =>
            obtain ⟨rfl, rfl⟩ := Prod.mk.inj (Option.some.inj h)
            exact ⟨'[' :: (w ++ [']']), by rw [ht, hskip]; simp, .emptyArray hw⟩
          · obtain ⟨⟨vs, r'⟩, hvs, heq⟩ := Option.map_eq_some_iff.mp h
            obtain ⟨rfl, rfl⟩ := Prod.mk.inj heq
            obtain ⟨u, rfl, hu⟩ := ihe t vs r' hvs
            exact ⟨'[' :: (u ++ [']']), by simp, .array hu⟩
        · subst hbrace
          obtain ⟨w, hw, ht⟩ := exists_skipWs t
          split at h
          · next r' hskip =>
            obtain ⟨rfl, rfl⟩ := Prod.mk.inj (Option.some.inj h)
            exact ⟨'\x7b' :: (w ++ ['\x7d']), by rw [ht, hskip]; simp, .emptyObject hw⟩
          · obtain ⟨⟨ms, r'⟩, hms, heq⟩ := Option.map_eq_some_iff.mp h
            obtain ⟨rfl, rfl⟩ := Prod.mk.inj heq
            obtain ⟨u, rfl, hu⟩ := ihm t ms r' hms
            exact ⟨'\x7b' :: (u ++ ['\x7d']), by simp, .object hu⟩
        · obtain ⟨rfl, rfl⟩ := parseName_eq_some h
          exact ⟨['n', 'u', 'l', 'l'], by rw [hnull]; rfl, .null⟩
        · obtain ⟨rfl, rfl⟩ := parseName_eq_some h
          exact ⟨['t', 'r', 'u', 'e'], by rw [htrue]; rfl, .true⟩
        · obtain ⟨rfl, rfl⟩ := parseName_eq_some h
          exact ⟨['f', 'a', 'l', 's', 'e'], by rw [hfalse]; rfl, .false⟩
        · obtain ⟨⟨n, r'⟩, hn, heq⟩ := Option.map_eq_some_iff.mp h
          obtain ⟨rfl, rfl⟩ := Prod.mk.inj heq
          obtain ⟨u, hu, htext⟩ := text_of_parseNumber hn
          exact ⟨u, hu, .number htext⟩
    · obtain ⟨w₁, hw₁, ht⟩ := exists_skipWs t
      simp only [parseElements] at h
      split at h
      · cases h
      · next v r₁ hv =>
        obtain ⟨u, hu, hvalue⟩ := ihv _ v r₁ hv
        obtain ⟨w₂, hw₂, hr₁⟩ := exists_skipWs r₁
        split at h
        · next u' hskip =>
          obtain ⟨⟨vs', r'⟩, hvs, heq⟩ := Option.map_eq_some_iff.mp h
          obtain ⟨rfl, rfl⟩ := Prod.mk.inj heq
          obtain ⟨u'', rfl, helems⟩ := ihe u' vs' r' hvs
          refine ⟨_, ?_, .cons hw₁ hvalue hw₂ helems⟩
          rw [ht, hu, hr₁, hskip]
          simp
        · next u' hskip =>
          obtain ⟨rfl, rfl⟩ := Prod.mk.inj (Option.some.inj h)
          refine ⟨_, ?_, .one hw₁ hvalue hw₂⟩
          rw [ht, hu, hr₁, hskip]
          simp
        · cases h
    · obtain ⟨w₁, hw₁, ht⟩ := exists_skipWs t
      simp only [parseMembers] at h
      split at h
      · next r₁ hquote =>
        split at h
        · cases h
        · next k r₂ hk =>
          obtain ⟨body, rfl, hbody⟩ := body_of_parseString hk
          obtain ⟨w₂, hw₂, hr₂⟩ := exists_skipWs r₂
          split at h
          · next r₃ hcolon =>
            obtain ⟨w₃, hw₃, hr₃⟩ := exists_skipWs r₃
            split at h
            · cases h
            · next v r₄ hv =>
              obtain ⟨u, hu, hvalue⟩ := ihv _ v r₄ hv
              obtain ⟨w₄, hw₄, hr₄⟩ := exists_skipWs r₄
              split at h
              · next u' hskip =>
                obtain ⟨⟨ms', r'⟩, hms, heq⟩ := Option.map_eq_some_iff.mp h
                obtain ⟨rfl, rfl⟩ := Prod.mk.inj heq
                obtain ⟨u'', rfl, hmembers⟩ := ihm u' ms' r' hms
                refine ⟨_, ?_, .cons hw₁ hbody hw₂ hw₃ hvalue hw₄ hmembers⟩
                rw [ht, hquote, hr₂, hcolon, hr₃, hu, hr₄, hskip]
                simp
              · next u' hskip =>
                obtain ⟨rfl, rfl⟩ := Prod.mk.inj (Option.some.inj h)
                refine ⟨_, ?_, .one hw₁ hbody hw₂ hw₃ hvalue hw₄⟩
                rw [ht, hquote, hr₂, hcolon, hr₃, hu, hr₄, hskip]
                simp
              · cases h
          · cases h
      · cases h

/-- **The parser accepts exactly the JSON texts**, each as the value it denotes. -/
theorem parse_eq_some_iff {t : List Char} {v : Value} : parse fl t = some v ↔ JsonText fl t v := by
  refine ⟨fun h => ?_, parse_of_text⟩
  unfold parse at h
  split at h
  · next v' r hv =>
    split_ifs at h with hr
    obtain rfl := Option.some.inj h
    obtain ⟨w, hw, ht⟩ := exists_skipWs t
    obtain ⟨u, hu, hvalue⟩ := (parse_sound (2 * t.length)).1 _ v' r hv
    exact ⟨w, u, r, hw, hvalue, List.all_eq_true.mp hr, by rw [ht, hu]⟩
  · cases h

theorem parseBytes_eq_some_iff {b : Bytes} {v : Json} :
    parseBytes fl b = some v ↔ ∃ t, utf8Decode b = some t ∧ JsonText fl t v.value := by
  constructor
  · intro h
    unfold parseBytes at h
    split at h
    · next value hvalue =>
      split_ifs at h with hwf
      obtain rfl := Option.some.inj h
      obtain ⟨t, ht, hparse⟩ := Option.bind_eq_some_iff.mp hvalue
      exact ⟨t, ht, parse_eq_some_iff.mp hparse⟩
    · cases h
  · rintro ⟨t, ht, hv⟩
    exact parseBytes_of_text ht hv

end Accepts

end Sealr.Lib.Rfc8259
