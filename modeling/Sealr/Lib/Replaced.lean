import Sealr.Lib.Inventory
import Sealr.Lib.Respell

/-!
# Another string in the place of one

Put another body in the place of one string of a printed canonical form, a name or a value: the text
is still a JSON text, and it denotes the value with that string replaced (`respelled`). With the same
string, that is the value itself (`Replaced.eq_self`).
-/

namespace Sealr.Lib.Lexer

open Rfc8259 Rfc8785

/-! ## Separated lists -/

section Separated

variable {α β : Type} {sep a : α} {x la lb : List α} {xs pieces : List (List α)}

theorem flatMap_intercalate (f : α → List β) (pieces : List (List α)) :
    ([sep].intercalate pieces).flatMap f =
      (f sep).intercalate (pieces.map fun piece => piece.flatMap f) := by
  induction pieces with
  | nil => rfl
  | cons x xs ih =>
    by_cases hxs : xs = []
    · subst hxs
      simp
    · rw [List.intercalate_cons_of_ne_nil hxs, List.map_cons,
        List.intercalate_cons_of_ne_nil (by simpa using hxs), List.flatMap_append,
        List.flatMap_append, List.flatMap_singleton, ih]

/-- Something else than the separator stands in one of the pieces. -/
theorem intercalate_split (hne : a ≠ sep) (h : [sep].intercalate pieces = la ++ a :: lb) :
    ∃ p q la' lb', pieces = p ++ (la' ++ a :: lb') :: q ∧ ∀ (f : α → List β) (t : List β),
      la.flatMap f ++ (t ++ lb.flatMap f) =
        (f sep).intercalate (p.map (fun piece => piece.flatMap f) ++
          (la'.flatMap f ++ (t ++ lb'.flatMap f)) :: q.map fun piece => piece.flatMap f) := by
  induction pieces generalizing la with
  | nil => simp at h
  | cons x xs ih =>
    by_cases hxs : xs = []
    · subst hxs
      rw [List.intercalate_singleton] at h
      exact ⟨[], [], la, lb, by rw [h]; rfl, fun f t => by simp⟩
    · rw [List.intercalate_cons_of_ne_nil hxs, List.append_assoc, List.singleton_append] at h
      rcases List.append_eq_append_iff.mp h with ⟨as, rfl, hrest⟩ | ⟨bs, rfl, hrest⟩
      · cases as with
        | nil => exact absurd (List.cons.inj hrest).1.symm hne
        | cons b as =>
          obtain ⟨rfl, htail⟩ := List.cons.inj hrest
          obtain ⟨p, q, la', lb', rfl, htext⟩ := ih htail
          refine ⟨x :: p, q, la', lb', rfl, fun f t => ?_⟩
          rw [List.map_cons, List.cons_append, List.intercalate_cons_of_ne_nil (by simp), ← htext f t]
          simp
      · cases bs with
        | nil => exact absurd (List.cons.inj hrest).1 hne
        | cons b bs =>
          obtain ⟨rfl, rfl⟩ := List.cons.inj hrest
          refine ⟨[], xs, la, bs, rfl, fun f t => ?_⟩
          rw [List.map_nil, List.nil_append, List.intercalate_cons_of_ne_nil (by simpa using hxs),
            ← flatMap_intercalate]
          simp

end Separated

/-! ## Lexemes as text -/

/-- How a canonical form spells a lexeme. -/
def Lexeme.text : Lexeme Number → List Char
  | .null => ['n', 'u', 'l', 'l']
  | .bool true => ['t', 'r', 'u', 'e']
  | .bool false => ['f', 'a', 'l', 's', 'e']
  | .num n => printInt (intOf n)
  | .str s => '\"' :: (printBody s ++ ['\"'])
  | .sep c => [c]

/-- The lexemes of a member. -/
def lexMember (m : String × Value) : List (Lexeme Number) := .str m.1 :: .sep ':' :: lexemes m.2

section Text

variable {fl : List Char → Option F64} {ts : List Tok} {ls la lb : List (Lexeme Number)}

theorem lexItems_eq (xs : List Value) : lexItems xs = [.sep ','].intercalate (xs.map lexemes) := by
  induction xs with
  | nil => rfl
  | cons x xs ih =>
    by_cases hxs : xs = []
    · subst hxs
      simp [lexItems]
    · rw [lexItems_cons hxs, List.map_cons, List.intercalate_cons_of_ne_nil (by simpa using hxs), ih]
      simp

theorem lexMembers_eq (ns : List (String × Value)) :
    lexMembers ns = [.sep ','].intercalate (ns.map lexMember) := by
  induction ns with
  | nil => rfl
  | cons n ns ih =>
    obtain ⟨k, v⟩ := n
    by_cases hns : ns = []
    · subst hns
      simp [lexMembers, lexMember]
    · rw [lexMembers_cons hns, List.map_cons, List.intercalate_cons_of_ne_nil (by simpa using hns), ih]
      simp [lexMember]

/-- A text that spells lexemes is their text. -/
theorem text_of_spells (h : Denotes Spells ts ls) :
    ts.flatMap Tok.text = ls.flatMap Lexeme.text := by
  induction h with
  | nil => rfl
  | cons h _ ih =>
    rw [List.flatMap_cons, List.flatMap_append, ih]
    congr 1
    cases h with
    | num h => simp [Tok.text, Lexeme.text, intOf_ofInt h]
    | _ => simp [Tok.text, Lexeme.text]

/-- A printed canonical form is the text of its lexemes. -/
theorem print_eq {v c : Value} (hc : canon v = some c) :
    print c = (lexemes c).flatMap Lexeme.text := by
  obtain ⟨ts, hts, hspells⟩ := lexed_print hc
  have htext := text_toks hts
  rw [Mode.pending, List.nil_append] at htext
  rw [htext, text_of_spells hspells]

/-! ## Texts of lists -/

theorem elementsText_intercalate {texts : List (List Char)} {vs : List Value}
    (h : List.Forall₂ (ValueText fl) texts vs) (hne : vs ≠ []) :
    ElementsText fl ([','].intercalate texts) vs := by
  induction h with
  | nil => exact absurd rfl hne
  | @cons t v texts vs ht hs ih =>
    cases hs with
    | nil => simpa using ElementsText.one Ws.nil ht Ws.nil
    | @cons t' v' texts vs ht' hs =>
      have hrest := ih (by simp)
      rw [List.intercalate_cons_cons]
      simpa using ElementsText.cons Ws.nil ht Ws.nil hrest

/-- The text of one member, without white space. -/
def MemberText (fl : List Char → Option F64) (t : List Char) (m : String × Value) : Prop :=
  ∃ k s u, t = '\"' :: (k ++ '\"' :: ':' :: u) ∧ StringBody k s ∧ m.1 = String.ofList s ∧
    ValueText fl u m.2

theorem membersText_intercalate {texts : List (List Char)} {ms : List (String × Value)}
    (h : List.Forall₂ (MemberText fl) texts ms) (hne : ms ≠ []) :
    MembersText fl ([','].intercalate texts) ms := by
  induction h with
  | nil => exact absurd rfl hne
  | @cons t m texts ms ht hs ih =>
    obtain ⟨_, v⟩ := m
    obtain ⟨k, s, u, rfl, hk, rfl, hu⟩ := ht
    cases hs with
    | nil => simpa using MembersText.one Ws.nil hk Ws.nil Ws.nil hu Ws.nil
    | cons ht' hs =>
      have hrest := ih (by simp)
      rw [List.intercalate_cons_cons]
      simpa using MembersText.cons Ws.nil hk Ws.nil Ws.nil hu Ws.nil hrest

/-! ## Replacing a string -/

/-- One string of a value, a name or a value, and another in its place, as a reader of the text
sees it: a name that has become one that stands there already is the same member. -/
inductive Replaced (s s' : String) : Value → Value → Prop where
  | string : Replaced s s' (.string s) (.string s')
  | item {p q : List Value} {x x' : Value} (h : Replaced s s' x x') :
      Replaced s s' (.array (p ++ x :: q)) (.array (p ++ x' :: q))
  | name {p q : List (String × Value)} {v : Value} :
      Replaced s s' (.object (p ++ (s, v) :: q)) (.object (ofMembers (p ++ (s', v) :: q)))
  | value {p q : List (String × Value)} {k : String} {v v' : Value} (h : Replaced s s' v v') :
      Replaced s s' (.object (p ++ (k, v) :: q)) (.object (ofMembers (p ++ (k, v') :: q)))

/-- Between brackets, a string stands inside. -/
theorem enclosed {o c : Char} {s : String}
    (h : Lexeme.sep o :: (ls ++ [.sep c]) = la ++ .str s :: lb) :
    ∃ la' lb', la = .sep o :: la' ∧ lb = lb' ++ [.sep c] ∧ ls = la' ++ .str s :: lb' := by
  cases la with
  | nil => cases (List.cons.inj h).1
  | cons l la =>
    obtain ⟨rfl, htail⟩ := List.cons.inj h
    rcases List.append_eq_append_iff.mp htail with ⟨as, rfl, hrest⟩ | ⟨bs, rfl, hrest⟩
    · cases as with
      | nil => cases (List.cons.inj hrest).1
      | cons a as => simp at hrest
    · cases bs with
      | nil => cases (List.cons.inj hrest).1
      | cons b bs =>
        obtain ⟨rfl, rfl⟩ := List.cons.inj hrest
        exact ⟨la, bs, rfl, rfl, rfl⟩

/-- A string of a member is its name or in its value. -/
theorem place_of_member {k s : String} {v : Value} (h : lexMember (k, v) = la ++ .str s :: lb) :
    (la = [] ∧ k = s ∧ lb = .sep ':' :: lexemes v) ∨
      ∃ la', la = .str k :: .sep ':' :: la' ∧ lexemes v = la' ++ .str s :: lb := by
  rcases la with _ | ⟨l, _ | ⟨l', la⟩⟩
  · obtain ⟨hk, rfl⟩ := List.cons.inj h
    exact .inl ⟨rfl, Lexeme.str.inj hk, rfl⟩
  · cases (List.cons.inj (List.cons.inj h).2).1
  · obtain ⟨rfl, htail⟩ := List.cons.inj h
    obtain ⟨rfl, hv⟩ := List.cons.inj htail
    exact .inr ⟨la, rfl, hv⟩

/-- The text of a string's new body, in the place of the string. -/
def quoted (x : List Char) : List Char := '\"' :: (x ++ ['\"'])

theorem memberText_print {k : String} {v : Value} (h : ValueText fl (print v) v)
    (hprint : print v = (lexemes v).flatMap Lexeme.text) :
    MemberText fl ((lexMember (k, v)).flatMap Lexeme.text) (k, v) := by
  refine ⟨printBody k, k.toList, print v, ?_, stringBody_print k, by simp, h⟩
  simp [lexMember, Lexeme.text, hprint]

/-- **Another body for a string in one of several pieces**: between the printed pieces stands the text
of that piece, whatever it is. -/
theorem respelled_piece {α : Type} {R : List Char → α → Prop} {f : α → List (Lexeme Number)}
    {l : List α} {s : String} (h : [Lexeme.sep ','].intercalate (l.map f) = la ++ .str s :: lb)
    (hprint : ∀ a ∈ l, R ((f a).flatMap Lexeme.text) a) :
    ∃ l₁ a l₂ la' lb', l = l₁ ++ a :: l₂ ∧ f a = la' ++ .str s :: lb' ∧ ∀ t b,
      R (la'.flatMap Lexeme.text ++ (t ++ lb'.flatMap Lexeme.text)) b → ∃ texts,
        la.flatMap Lexeme.text ++ (t ++ lb.flatMap Lexeme.text) = [','].intercalate texts ∧
          List.Forall₂ R texts (l₁ ++ b :: l₂) := by
  have hmap : ∀ {l' : List α}, (∀ a ∈ l', a ∈ l) →
      List.Forall₂ R ((l'.map f).map fun piece => piece.flatMap Lexeme.text) l' := by
    intro l' hl'
    rw [List.map_map, List.forall₂_map_left_iff]
    exact List.forall₂_same.mpr fun a ha => hprint a (hl' a ha)
  obtain ⟨p, q, la', lb', hpieces, htext⟩ := intercalate_split (β := Char) (by simp) h
  obtain ⟨l₁, rest, hl, rfl, hrest⟩ := List.map_eq_append_iff.mp hpieces
  obtain ⟨a, l₂, rfl, ha, rfl⟩ := List.map_eq_cons_iff.mp hrest
  refine ⟨l₁, a, l₂, la', lb', hl, ha, fun t b hb => ⟨_, htext Lexeme.text t, ?_⟩⟩
  exact List.rel_append (hmap fun x hx => by simp [hl, hx]) (.cons hb (hmap fun x hx => by simp [hl, hx]))

/-- **Another body in the place of a string** of a printed canonical form: the text denotes the
value with that string replaced. -/
theorem respelled (fl : List Char → Option F64) {v c : Value} (hv : v.wf = true)
    (hc : canon v = some c) {s : String} (h : lexemes c = la ++ .str s :: lb) {x s' : List Char}
    (hx : StringBody x s') : ∃ d, Replaced s (String.ofList s') c d ∧
      ValueText fl (la.flatMap Lexeme.text ++ (quoted x ++ lb.flatMap Lexeme.text)) d := by
  induction v generalizing c la lb with
  | null | bool b =>
    cases hc
    cases la <;> simp [lexemes] at h
  | number n =>
    obtain ⟨i, hi, rfl⟩ := canon_number.mp hc
    cases la <;> simp [lexemes] at h
  | string t =>
    cases hc
    cases la with
    | nil =>
      obtain ⟨hs, rfl⟩ := List.cons.inj h
      obtain rfl := Lexeme.str.inj hs
      refine ⟨_, .string, ?_⟩
      have htext : ValueText fl _ _ := ValueText.string hx
      simpa [quoted] using htext
    | cons l la => simp [lexemes] at h
  | array xs ih =>
    obtain ⟨ys, hys, rfl⟩ := canon_array.mp hc
    obtain ⟨la, lb, rfl, rfl, hin⟩ := enclosed h
    rw [lexItems_eq] at hin
    have hwf := Value.wf_array.mp hv
    have hprint : ∀ y ∈ ys, ValueText fl ((lexemes y).flatMap Lexeme.text) y := by
      intro y hy
      obtain ⟨z, hz, hzy⟩ := exists_of_mem_forall₂ hys hy
      rw [← print_eq hzy]
      exact valueText_print fl (hwf z hz) hzy
    obtain ⟨ys₁, y, ys₂, la', lb', rfl, hy, hput⟩ := respelled_piece hin hprint
    obtain ⟨z, hz, hzy⟩ := exists_of_mem_forall₂ hys (List.mem_append_right _ List.mem_cons_self)
    obtain ⟨d, hd, hdtext⟩ := ih z hz (hwf z hz) hzy hy
    obtain ⟨texts, htext, hall⟩ := hput _ d hdtext
    have helements : ElementsText fl
        (la.flatMap Lexeme.text ++ (quoted x ++ lb.flatMap Lexeme.text)) (ys₁ ++ d :: ys₂) := by
      rw [htext]
      exact elementsText_intercalate hall (by simp)
    refine ⟨_, .item hd, ?_⟩
    have hvalue := ValueText.array helements
    simpa [Lexeme.text] using hvalue
  | object ms ih =>
    obtain ⟨ns, hns, rfl⟩ := canon_object.mp hc
    obtain ⟨la, lb, rfl, rfl, hin⟩ := enclosed h
    rw [lexMembers_eq] at hin
    have hwf := (Value.wf_object.mp hv).2
    have hcanon : ∀ n ∈ sortMembers ns, ∃ m ∈ ms, canon m.2 = some n.2 := by
      intro n hn
      obtain ⟨m, hm, hmn⟩ := exists_of_mem_forall₂ hns ((sortMembers_perm ns).mem_iff.mp hn)
      exact ⟨m, hm, hmn.2⟩
    have hprint : ∀ n ∈ sortMembers ns, MemberText fl ((lexMember n).flatMap Lexeme.text) n := by
      intro n hn
      obtain ⟨m, hm, hmn⟩ := hcanon n hn
      exact memberText_print (valueText_print fl (hwf m hm) hmn) (print_eq hmn)
    obtain ⟨ns₁, ⟨k, y⟩, ns₂, la', lb', hsorted, hy, hput⟩ := respelled_piece hin hprint
    rw [hsorted] at hcanon ⊢
    have hclose : ∀ {n}, MemberText fl
        (la'.flatMap Lexeme.text ++ (quoted x ++ lb'.flatMap Lexeme.text)) n →
        ValueText fl ((Lexeme.sep '\x7b' :: la).flatMap Lexeme.text ++
          (quoted x ++ (lb ++ [Lexeme.sep '\x7d']).flatMap Lexeme.text))
            (.object (ofMembers (ns₁ ++ n :: ns₂))) := by
      intro n hn
      obtain ⟨texts, htext, hall⟩ := hput _ n hn
      have hvalue := ValueText.object (membersText_intercalate hall (by simp))
      rw [← htext] at hvalue
      simpa [Lexeme.text] using hvalue
    obtain ⟨m, hm, hmy⟩ := hcanon (k, y) (by simp)
    rcases place_of_member hy with ⟨rfl, rfl, rfl⟩ | ⟨la', rfl, hin⟩
    · have hmember : MemberText fl (quoted x ++
          (Lexeme.sep ':' :: lexemes y).flatMap Lexeme.text) (String.ofList s', y) := by
        refine ⟨x, s', print y, ?_, hx, rfl, valueText_print fl (hwf m hm) hmy⟩
        simp [quoted, Lexeme.text, print_eq hmy]
      exact ⟨_, .name, hclose hmember⟩
    · obtain ⟨d, hd, hdtext⟩ := ih m hm (hwf m hm) hmy hin
      have hmember : MemberText fl ((Lexeme.str k :: .sep ':' :: la').flatMap Lexeme.text ++
          (quoted x ++ lb'.flatMap Lexeme.text)) (k, d) := by
        refine ⟨printBody k, k.toList, _, ?_, stringBody_print k, by simp, hdtext⟩
        simp [Lexeme.text]
      exact ⟨_, .value hd, hclose hmember⟩

end Text

end Sealr.Lib.Lexer
