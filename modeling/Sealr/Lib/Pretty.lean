import Sealr.Lib.Rfc8785

/-!
# Indented JSON text

A printer that puts every element and member on a line of its own, two spaces deeper than the bracket
around it, and keeps members in order. Its text denotes the value, so a reader of JSON texts gives it
back.
-/

namespace Sealr.Lib.Pretty

open Rfc8259 Rfc8785

/-- A new line at a depth. -/
def newline (depth : Nat) : List Char := '\n' :: List.replicate (2 * depth) ' '

mutual

/-- The text of a value at a depth; `fmt` spells doubles. -/
def pretty (fmt : F64 → List Char) (depth : Nat) : Value → List Char
  | .null => ['n', 'u', 'l', 'l']
  | .bool true => ['t', 'r', 'u', 'e']
  | .bool false => ['f', 'a', 'l', 's', 'e']
  | .number (.float f) => fmt f
  | .number n => printInt (intOf n)
  | .string s => '\"' :: (printBody s ++ ['\"'])
  | .array [] => ['[', ']']
  | .array items => '[' :: (prettyItems fmt depth items ++ [']'])
  | .object [] => ['\x7b', '\x7d']
  | .object members => '\x7b' :: (prettyMembers fmt depth members ++ ['\x7d'])

def prettyItems (fmt : F64 → List Char) (depth : Nat) : List Value → List Char
  | [] => []
  | [x] => newline (depth + 1) ++ (pretty fmt (depth + 1) x ++ newline depth)
  | x :: y :: ys =>
    newline (depth + 1) ++ (pretty fmt (depth + 1) x ++ ',' :: prettyItems fmt depth (y :: ys))

def prettyMembers (fmt : F64 → List Char) (depth : Nat) : List (String × Value) → List Char
  | [] => []
  | [(k, v)] =>
    newline (depth + 1) ++ '\"' :: (printBody k ++ '\"' :: ':' :: ' ' ::
      (pretty fmt (depth + 1) v ++ newline depth))
  | (k, v) :: m :: ms =>
    newline (depth + 1) ++ '\"' :: (printBody k ++ '\"' :: ':' :: ' ' ::
      (pretty fmt (depth + 1) v ++ ',' :: prettyMembers fmt depth (m :: ms)))

end

mutual

/-- No number of the value is a double. -/
def floatFree : Value → Bool
  | .number n => n.asFloat.isNone
  | .array items => floatFreeItems items
  | .object members => floatFreeMembers members
  | _ => true

def floatFreeItems : List Value → Bool
  | [] => true
  | x :: xs => floatFree x && floatFreeItems xs

def floatFreeMembers : List (String × Value) → Bool
  | [] => true
  | (_, v) :: ms => floatFree v && floatFreeMembers ms

end

theorem floatFree_array {xs : List Value} :
    floatFree (.array xs) = true ↔ ∀ x ∈ xs, floatFree x = true := by
  rw [floatFree]
  induction xs with
  | nil => simp [floatFreeItems]
  | cons x xs ih => simp [floatFreeItems, ih]

theorem floatFree_object {ms : List (String × Value)} :
    floatFree (.object ms) = true ↔ ∀ m ∈ ms, floatFree m.2 = true := by
  rw [floatFree]
  induction ms with
  | nil => simp [floatFreeMembers]
  | cons m ms ih => simp [floatFreeMembers, ih]

theorem floatFree_jsonArray {js : List Json} (h : ∀ j ∈ js, floatFree j.value = true) :
    floatFree (Json.array js).value = true := by
  apply floatFree_array.mpr
  intro x hx
  obtain ⟨j, hj, rfl⟩ := List.mem_map.mp hx
  exact h j hj

theorem floatFree_ofFields {fields : List (String × Option Json)}
    {hnodup : (fields.map Prod.fst).Nodup}
    (h : ∀ f ∈ fields, ∀ j, f.2 = some j → floatFree j.value = true) :
    floatFree (Json.ofFields fields hnodup).value = true := by
  apply floatFree_object.mpr
  intro m hm
  obtain ⟨f, hf, hfm⟩ := List.mem_filterMap.mp hm
  obtain ⟨j, hj, rfl⟩ := Option.map_eq_some_iff.mp hfm
  exact h f hf j hj

theorem ws_newline (depth : Nat) : Ws (newline depth) := by
  intro c hc
  rcases List.mem_cons.mp hc with rfl | hc
  · decide
  · rw [List.eq_of_mem_replicate hc]
    decide

section Text

variable {fl : List Char → Option F64} {fmt : F64 → List Char} {depth : Nat}

/-- An integer is spelled by its digits. -/
theorem numberText_intOf {n : Number} (h : n.asFloat = none) :
    NumberText fl (printInt (intOf n)) n := by
  cases n with
  | posInt k =>
    refine ⟨false, Nat.toDigits 10 k.toNat, [], [], isInt_toDigits _, .inl rfl, .inl rfl, ?_, ?_⟩
    · have hpos : ¬((k.toNat : Int) < 0) := by omega
      simp [printInt, intOf, hpos]
    · simp only [numberOf, Nat.ofDigitChars_ten_toDigits, true_and, k.toNat_lt, ↓reduceIte,
        UInt64.ofNat_toNat]
  | negInt i range =>
    refine ⟨true, Nat.toDigits 10 i.natAbs, [], [], isInt_toDigits _, .inl rfl, .inl rfl, ?_, ?_⟩
    · simp [printInt, intOf, range.2]
    · have hrange : 0 < i.natAbs ∧ i.natAbs ≤ 2 ^ 63 := by omega
      have habs : -(i.natAbs : Int) = i := by omega
      simp only [numberOf, Nat.ofDigitChars_ten_toDigits, true_and, Bool.true_eq_false, false_and,
        ↓reduceIte]
      rw [dif_pos hrange]
      simp only [habs]
  | float f => cases h

theorem elementsText_prettyItems {xs : List Value} (hne : xs ≠ [])
    (h : ∀ x ∈ xs, ValueText fl (pretty fmt (depth + 1) x) x) :
    ElementsText fl (prettyItems fmt depth xs) xs := by
  induction xs with
  | nil => exact absurd rfl hne
  | cons x xs ih =>
    have hx := h x List.mem_cons_self
    cases xs with
    | nil => exact .one (ws_newline _) hx (ws_newline _)
    | cons y ys =>
      have hys := ih (List.cons_ne_nil y ys) fun z hz => h z (List.mem_cons_of_mem x hz)
      exact .cons (ws_newline _) hx Ws.nil hys

theorem membersText_prettyMembers {ms : List (String × Value)} (hne : ms ≠ [])
    (h : ∀ m ∈ ms, ValueText fl (pretty fmt (depth + 1) m.2) m.2) :
    MembersText fl (prettyMembers fmt depth ms) ms := by
  have hspace : Ws [' '] := by
    intro c hc
    rw [List.mem_singleton.mp hc]
    decide
  induction ms with
  | nil => exact absurd rfl hne
  | cons m ms ih =>
    obtain ⟨k, v⟩ := m
    have hv : ValueText fl (pretty fmt (depth + 1) v) v := h (k, v) List.mem_cons_self
    have hk := stringBody_print k
    cases ms with
    | nil =>
      have hone := MembersText.one (ws_newline (depth + 1)) hk Ws.nil hspace hv (ws_newline depth)
      simpa [prettyMembers] using hone
    | cons n ns =>
      have hns := ih (List.cons_ne_nil n ns) fun p hp => h p (List.mem_cons_of_mem (k, v) hp)
      have hcons := MembersText.cons (ws_newline (depth + 1)) hk Ws.nil hspace hv Ws.nil hns
      simpa [prettyMembers] using hcons

/-- **The indented text of a value without doubles denotes it.** -/
theorem valueText_pretty {v : Value} (hwf : v.wf = true) (hv : floatFree v = true) :
    ValueText fl (pretty fmt depth v) v := by
  induction v generalizing depth with
  | null => exact .null
  | bool b => cases b; exacts [.false, .true]
  | string s =>
    have hs := @ValueText.string fl _ _ (stringBody_print s)
    rwa [String.ofList_toList] at hs
  | number n =>
    rw [floatFree, Option.isNone_iff_eq_none] at hv
    have htext := @ValueText.number fl _ n (numberText_intOf hv)
    cases n with
    | posInt k => exact htext
    | negInt i range => exact htext
    | float f => cases hv
  | array xs ih =>
    cases xs with
    | nil => exact .emptyArray Ws.nil
    | cons x xs =>
      refine .array (elementsText_prettyItems (List.cons_ne_nil x xs) fun y hy => ?_)
      exact ih y hy (Value.wf_array.mp hwf y hy) (floatFree_array.mp hv y hy)
  | object ms ih =>
    obtain ⟨hnodup, hmembers⟩ := Value.wf_object.mp hwf
    cases ms with
    | nil => exact .emptyObject Ws.nil
    | cons m ms =>
      have htext : MembersText fl (prettyMembers fmt depth (m :: ms)) (m :: ms) := by
        refine membersText_prettyMembers (List.cons_ne_nil m ms) fun n hn => ?_
        exact ih n hn (hmembers n hn) (floatFree_object.mp hv n hn)
      have hobject := ValueText.object htext
      rwa [ofMembers_of_nodup hnodup] at hobject

end Text

end Sealr.Lib.Pretty
