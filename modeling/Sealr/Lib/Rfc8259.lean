import Sealr.Lib.Json

/-!
# JSON texts (RFC 8259)

The grammar of RFC 8259 as relations between a text and the value it denotes, and a
recursive-descent parser that computes the value (`parse_of_text`). The parser being a function,
a text denotes one value only (`JsonText.unique`).

Integer literals that fit are read as integers; every other literal is read by `fl`, the
library's decimal-to-double conversion, which may refuse it. A later member replaces the value of
an earlier one with the same key. An escaped surrogate denotes a character only as half of a pair.
-/

namespace Sealr.Lib.Rfc8259

/-! ## White space -/

/-- The four white space characters of the grammar. -/
def isWs (c : Char) : Bool :=
  c = ' ' || c = '\t' || c = '\n' || c = '\r'

/-- `ws`. -/
def Ws (t : List Char) : Prop := ∀ c ∈ t, isWs c = true

def skipWs (t : List Char) : List Char := t.dropWhile isWs

theorem Ws.nil : Ws [] := by intro c hc; cases hc

theorem skipWs_append {w : List Char} (hw : Ws w) (t : List Char) : skipWs (w ++ t) = skipWs t := by
  induction w with
  | nil => rfl
  | cons c w ih =>
    have hc : isWs c = true := hw c List.mem_cons_self
    simp only [skipWs, List.cons_append, List.dropWhile_cons, hc, ↓reduceIte]
    exact ih fun d hd => hw d (List.mem_cons_of_mem c hd)

theorem skipWs_cons {c : Char} (hc : isWs c = false) (t : List Char) : skipWs (c :: t) = c :: t := by
  simp [skipWs, hc]

/-! ## Strings -/

/-- The character denoted by a two-character escape. -/
def simpleEscape (c : Char) : Option Char :=
  if c = '\"' then some '\"'
  else if c = '\\' then some '\\'
  else if c = '/' then some '/'
  else if c = 'b' then some '\x08'
  else if c = 'f' then some '\x0c'
  else if c = 'n' then some '\n'
  else if c = 'r' then some '\r'
  else if c = 't' then some '\t'
  else none

/-- The value of a hexadecimal digit of either case. -/
def hexDigit (c : Char) : Option Nat :=
  if '0'.toNat ≤ c.toNat ∧ c.toNat ≤ '9'.toNat then some (c.toNat - '0'.toNat)
  else if 'a'.toNat ≤ c.toNat ∧ c.toNat ≤ 'f'.toNat then some (c.toNat - 'a'.toNat + 10)
  else if 'A'.toNat ≤ c.toNat ∧ c.toNat ≤ 'F'.toNat then some (c.toNat - 'A'.toNat + 10)
  else none

/-- The code unit of four hexadecimal digits. -/
def hex4 (a b c d : Char) : Option Nat :=
  match hexDigit a, hexDigit b, hexDigit c, hexDigit d with
  | some i, some j, some k, some l => some (((i * 16 + j) * 16 + k) * 16 + l)
  | _, _, _, _ => none

/-- The code point of a surrogate pair. -/
def surrogatePair (hi lo : Nat) : Nat := 0x10000 + (hi - 0xD800) * 0x400 + (lo - 0xDC00)

/-- The text between the quotes of a string, and the characters it denotes. -/
inductive StringBody : List Char → List Char → Prop where
  | nil : StringBody [] []
  | plain {c : Char} {t s : List Char} (hc : 0x20 ≤ c.toNat) (hq : c ≠ '\"') (hb : c ≠ '\\')
      (h : StringBody t s) : StringBody (c :: t) (c :: s)
  | escape {e c : Char} {t s : List Char} (he : simpleEscape e = some c) (h : StringBody t s) :
      StringBody ('\\' :: e :: t) (c :: s)
  | unicode {a b c d : Char} {n : Nat} {t s : List Char} (hn : hex4 a b c d = some n)
      (hv : n < 0xD800 ∨ 0xE000 ≤ n) (h : StringBody t s) :
      StringBody ('\\' :: 'u' :: a :: b :: c :: d :: t) (Char.ofNat n :: s)
  | surrogates {a b c d a' b' c' d' : Char} {hi lo : Nat} {t s : List Char}
      (hh : hex4 a b c d = some hi) (hhi : 0xD800 ≤ hi ∧ hi < 0xDC00)
      (hl : hex4 a' b' c' d' = some lo) (hlo : 0xDC00 ≤ lo ∧ lo < 0xE000) (h : StringBody t s) :
      StringBody ('\\' :: 'u' :: a :: b :: c :: d :: '\\' :: 'u' :: a' :: b' :: c' :: d' :: t)
        (Char.ofNat (surrogatePair hi lo) :: s)

/-- Put a character in front of the string read so far. -/
def push (c : Char) (r : Option (List Char × List Char)) : Option (List Char × List Char) :=
  r.map fun p => (c :: p.1, p.2)

/-- Read a string up to its closing quote, returning the text after it. -/
def parseString : List Char → Option (List Char × List Char)
  | '\\' :: 'u' :: a :: b :: c :: d :: t =>
    match hex4 a b c d with
    | none => none
    | some n =>
      if n < 0xD800 ∨ 0xE000 ≤ n then push (Char.ofNat n) (parseString t)
      else if 0xDC00 ≤ n then none
      else
        match t with
        | '\\' :: 'u' :: a' :: b' :: c' :: d' :: t' =>
          match hex4 a' b' c' d' with
          | none => none
          | some lo =>
            if 0xDC00 ≤ lo ∧ lo < 0xE000 then
              push (Char.ofNat (surrogatePair n lo)) (parseString t')
            else none
        | _ => none
  | '\\' :: e :: t =>
    match simpleEscape e with
    | some c => push c (parseString t)
    | none => none
  | c :: t =>
    if c = '\"' then some ([], t)
    else if c = '\\' then none
    else if 0x20 ≤ c.toNat then push c (parseString t)
    else none
  | [] => none

theorem parseString_escape {e c : Char} (he : simpleEscape e = some c) (t : List Char) :
    parseString ('\\' :: e :: t) = push c (parseString t) := by
  have hu : e ≠ 'u' := by rintro rfl; simp [simpleEscape] at he
  rw [parseString.eq_def]
  split
  · next heq =>
    simp only [List.cons.injEq] at heq
    exact absurd heq.2.1 hu
  · next heq =>
    simp only [List.cons.injEq, true_and] at heq
    obtain ⟨rfl, rfl⟩ := heq
    rw [he]
  · next hno heq =>
    obtain ⟨rfl, rfl⟩ := List.cons.inj heq
    exact absurd rfl (hno e t rfl)
  · next heq => cases heq

theorem parseString_plain {c : Char} (hc : 0x20 ≤ c.toNat) (hq : c ≠ '\"') (hb : c ≠ '\\')
    (t : List Char) : parseString (c :: t) = push c (parseString t) := by
  rw [parseString.eq_def]
  split <;> simp_all

theorem parseString_of_body {t s : List Char} (h : StringBody t s) (rest : List Char) :
    parseString (t ++ '\"' :: rest) = some (s, rest) := by
  induction h with
  | nil => simp [parseString]
  | plain hc hq hb _ ih => rw [List.cons_append, parseString_plain hc hq hb, ih]; rfl
  | escape he _ ih => rw [List.cons_append, List.cons_append, parseString_escape he, ih]; rfl
  | unicode hn hv _ ih =>
    simp only [List.cons_append]
    rw [parseString]
    simp only [hn, hv, ↓reduceIte, ih]
    rfl
  | @surrogates _ _ _ _ _ _ _ _ hi lo _ _ hh hhi hl hlo _ ih =>
    simp only [List.cons_append]
    rw [parseString]
    have h1 : ¬(hi < 0xD800 ∨ 0xE000 ≤ hi) := by omega
    have h2 : ¬0xDC00 ≤ hi := by omega
    simp only [hh, h1, h2, hl, hlo, ↓reduceIte, ih]
    rfl

/-! ## Numbers -/

/-- A non-empty run of digits. -/
def IsDigits (t : List Char) : Prop := t ≠ [] ∧ ∀ c ∈ t, c.isDigit = true

/-- `int`: zero, or digits without a leading zero. -/
def IsInt (t : List Char) : Prop := t = ['0'] ∨ (IsDigits t ∧ t.head? ≠ some '0')

/-- `frac`, or nothing. -/
def IsFrac (t : List Char) : Prop := t = [] ∨ ∃ ds, IsDigits ds ∧ t = '.' :: ds

/-- `exp`, or nothing. -/
def IsExp (t : List Char) : Prop :=
  t = [] ∨ ∃ e sg ds, (e = 'e' ∨ e = 'E') ∧ (sg = [] ∨ sg = ['+'] ∨ sg = ['-']) ∧ IsDigits ds ∧
    t = e :: (sg ++ ds)

/-- The text of an optional minus sign. -/
def minus (neg : Bool) : List Char := if neg then ['-'] else []

/-- How a literal is read: as an integer where it is one and fits, otherwise by `fl`. -/
def numberOf (fl : List Char → Option F64) (neg : Bool) (ds fr ex : List Char) : Option Number :=
  let n := Nat.ofDigitChars 10 ds 0
  if fr = [] ∧ ex = [] ∧ neg = false ∧ n < 2 ^ 64 then some (.posInt (UInt64.ofNat n))
  else if h : fr = [] ∧ ex = [] ∧ neg = true ∧ 0 < n ∧ n ≤ 2 ^ 63 then
    some (.negInt (-n) (by omega))
  else (fl (minus neg ++ ds ++ fr ++ ex)).map .float

/-- A number literal and the number it denotes. -/
def NumberText (fl : List Char → Option F64) (t : List Char) (n : Number) : Prop :=
  ∃ neg ds fr ex, IsInt ds ∧ IsFrac fr ∧ IsExp ex ∧ t = minus neg ++ ds ++ fr ++ ex ∧
    numberOf fl neg ds fr ex = some n

/-- Read `int`. -/
def spanInt : List Char → Option (List Char × List Char)
  | c :: t =>
    if c = '0' then some (['0'], t)
    else if c.isDigit then some (c :: t.takeWhile Char.isDigit, t.dropWhile Char.isDigit)
    else none
  | [] => none

/-- Read digits after `head`, at least one. -/
def spanDigits (head t : List Char) : Option (List Char × List Char) :=
  let ds := t.takeWhile Char.isDigit
  if ds = [] then none else some (head ++ ds, t.dropWhile Char.isDigit)

/-- Read `frac`, if there is one. -/
def spanFrac : List Char → Option (List Char × List Char)
  | c :: t => if c = '.' then spanDigits ['.'] t else some ([], c :: t)
  | [] => some ([], [])

/-- Read `exp`, if there is one. -/
def spanExp : List Char → Option (List Char × List Char)
  | c :: t =>
    if c = 'e' ∨ c = 'E' then
      match t with
      | s :: u => if s = '+' ∨ s = '-' then spanDigits [c, s] u else spanDigits [c] (s :: u)
      | [] => none
    else some ([], c :: t)
  | [] => some ([], [])

/-- Split off a minus sign. -/
def spanMinus : List Char → Bool × List Char
  | c :: t => if c = '-' then (true, t) else (false, c :: t)
  | [] => (false, [])

/-- Read a number literal. -/
def parseNumber (fl : List Char → Option F64) (t : List Char) : Option (Number × List Char) :=
  let (neg, t₁) := spanMinus t
  match spanInt t₁ with
  | none => none
  | some (ds, t₂) =>
    match spanFrac t₂ with
    | none => none
    | some (fr, t₃) =>
      match spanExp t₃ with
      | none => none
      | some (ex, t₄) => (numberOf fl neg ds fr ex).map fun n => (n, t₄)

/-- What may follow a value: nothing, white space, or a structural character that closes or
separates values. -/
def Delim (rest : List Char) : Prop :=
  ∀ c, rest.head? = some c → isWs c = true ∨ c = ',' ∨ c = ']' ∨ c = '\x7d'

/-- Nothing that continues a number literal may start what follows a value. -/
theorem Delim.head {c : Char} {rest : List Char} (h : Delim (c :: rest)) :
    c.isDigit = false ∧ c ≠ '.' ∧ c ≠ 'e' ∧ c ≠ 'E' := by
  have hc := h c rfl
  simp only [isWs, Bool.or_eq_true, decide_eq_true_iff, or_assoc] at hc
  rcases hc with rfl | rfl | rfl | rfl | rfl | rfl | rfl <;> decide

theorem spanDigits_append {ds : List Char} (hds : IsDigits ds) (head : List Char)
    {rest : List Char} (hr : ∀ c, rest.head? = some c → c.isDigit = false) :
    spanDigits head (ds ++ rest) = some (head ++ ds, rest) := by
  have htake : (ds ++ rest).takeWhile Char.isDigit = ds := by
    rw [List.takeWhile_append_of_pos hds.2]
    cases rest with
    | nil => simp
    | cons c rest => simp [hr c rfl]
  have hdrop : (ds ++ rest).dropWhile Char.isDigit = rest := by
    rw [List.dropWhile_append_of_pos hds.2]
    cases rest with
    | nil => simp
    | cons c rest => simp [hr c rfl]
  simp [spanDigits, htake, hdrop, hds.1]

theorem spanInt_append {ds : List Char} (h : IsInt ds) {rest : List Char}
    (hr : ∀ c, rest.head? = some c → c.isDigit = false) :
    spanInt (ds ++ rest) = some (ds, rest) := by
  rcases h with rfl | ⟨⟨hne, hall⟩, hz⟩
  · simp [spanInt]
  · obtain ⟨d, ds, rfl⟩ := List.exists_cons_of_ne_nil hne
    have hd : d.isDigit = true := hall d List.mem_cons_self
    have hd0 : d ≠ '0' := by simpa using hz
    have hds : ∀ c ∈ ds, c.isDigit = true := fun c hc => hall c (List.mem_cons_of_mem d hc)
    simp only [List.cons_append, spanInt, hd0, hd, ↓reduceIte]
    rw [List.takeWhile_append_of_pos hds, List.dropWhile_append_of_pos hds]
    cases rest with
    | nil => simp
    | cons c rest => simp [hr c rfl]

theorem spanFrac_append {fr : List Char} (h : IsFrac fr) {rest : List Char}
    (hr : ∀ c, rest.head? = some c → c.isDigit = false ∧ c ≠ '.') :
    spanFrac (fr ++ rest) = some (fr, rest) := by
  rcases h with rfl | ⟨ds, hds, rfl⟩
  · cases rest with
    | nil => rfl
    | cons c rest => simp [spanFrac, (hr c rfl).2]
  · simp only [List.cons_append, spanFrac, ↓reduceIte]
    exact spanDigits_append hds ['.'] fun c hc => (hr c hc).1

theorem spanExp_append {ex : List Char} (h : IsExp ex) {rest : List Char} (hr : Delim rest) :
    spanExp (ex ++ rest) = some (ex, rest) := by
  have hdig : ∀ c, rest.head? = some c → c.isDigit = false := by
    intro c hc
    cases rest with
    | nil => cases hc
    | cons d rest => cases hc; exact hr.head.1
  rcases h with rfl | ⟨e, sg, ds, he, hsg, hds, rfl⟩
  · cases rest with
    | nil => rfl
    | cons c rest => simp [spanExp, hr.head.2.2]
  · simp only [List.cons_append, List.append_assoc, spanExp, he, ↓reduceIte]
    rcases hsg with rfl | rfl | rfl
    · -- no sign: the first digit is neither `+` nor `-`
      obtain ⟨d, ds, rfl⟩ := List.exists_cons_of_ne_nil hds.1
      have hd : d.isDigit = true := hds.2 d List.mem_cons_self
      have hs : ¬(d = '+' ∨ d = '-') := by
        rintro (rfl | rfl) <;> simp [Char.isDigit] at hd
      simp only [List.nil_append, List.cons_append, hs, ↓reduceIte]
      exact spanDigits_append hds [e] hdig
    · simpa using spanDigits_append hds [e, '+'] hdig
    · simpa using spanDigits_append hds [e, '-'] hdig

/-- The first character of an `int` is a digit. -/
theorem IsInt.head {ds : List Char} (h : IsInt ds) : ∃ d t, ds = d :: t ∧ d.isDigit = true := by
  rcases h with rfl | ⟨⟨hne, hall⟩, -⟩
  · exact ⟨'0', [], rfl, by decide⟩
  · obtain ⟨d, t, rfl⟩ := List.exists_cons_of_ne_nil hne
    exact ⟨d, t, rfl, hall d List.mem_cons_self⟩

theorem spanMinus_append (neg : Bool) {t : List Char} (h : t.head? ≠ some '-') :
    spanMinus (minus neg ++ t) = (neg, t) := by
  cases neg with
  | true => simp [minus, spanMinus]
  | false =>
    cases t with
    | nil => rfl
    | cons c t =>
      have hc : c ≠ '-' := by simpa using h
      simp [minus, spanMinus, hc]

theorem parseNumber_of_text {fl : List Char → Option F64} {t : List Char} {n : Number}
    (h : NumberText fl t n) {rest : List Char} (hr : Delim rest) :
    parseNumber fl (t ++ rest) = some (n, rest) := by
  obtain ⟨neg, ds, fr, ex, hi, hf, he, rfl, hn⟩ := h
  obtain ⟨d, ds', hds, hd⟩ := hi.head
  -- what follows the fraction starts with an exponent or a delimiter
  have hexp : ∀ c, (ex ++ rest).head? = some c → c.isDigit = false ∧ c ≠ '.' := by
    intro c hc
    rcases he with rfl | ⟨e, sg, es, hee, -, -, rfl⟩
    · cases rest with
      | nil => cases hc
      | cons b rest => cases hc; exact ⟨hr.head.1, hr.head.2.1⟩
    · cases hc
      rcases hee with rfl | rfl <;> decide
  have hfrac : ∀ c, (fr ++ (ex ++ rest)).head? = some c → c.isDigit = false := by
    intro c hc
    rcases hf with rfl | ⟨es, -, rfl⟩
    · exact (hexp c hc).1
    · cases hc; decide
  have hminus : (ds ++ (fr ++ (ex ++ rest))).head? ≠ some '-' := by
    rw [hds]
    simp only [List.cons_append, List.head?_cons, ne_eq, Option.some.injEq]
    rintro rfl
    exact absurd hd (by decide)
  unfold parseNumber
  rw [show minus neg ++ ds ++ fr ++ ex ++ rest = minus neg ++ (ds ++ (fr ++ (ex ++ rest))) by
    simp only [List.append_assoc]]
  simp only [spanMinus_append neg hminus, spanInt_append hi hfrac, spanFrac_append hf hexp,
    spanExp_append he hr, hn, Option.map_some]

/-- The first character of a number literal. -/
theorem NumberText.head {fl : List Char → Option F64} {t : List Char} {n : Number}
    (h : NumberText fl t n) : ∃ c u, t = c :: u ∧ (c = '-' ∨ c.isDigit = true) := by
  obtain ⟨neg, ds, fr, ex, hi, -, -, rfl, -⟩ := h
  obtain ⟨d, t, rfl, hd⟩ := hi.head
  cases neg with
  | true => exact ⟨'-', _, rfl, .inl rfl⟩
  | false => exact ⟨d, _, rfl, .inr hd⟩

/-! ## Values -/

/-- Set a member: a present key keeps its place and takes the new value. -/
def insertMember (ms : List (String × Value)) (k : String) (v : Value) : List (String × Value) :=
  if k ∈ ms.map Prod.fst then ms.map fun m => if m.1 = k then (k, v) else m
  else ms ++ [(k, v)]

/-- The object read from members in text order. -/
def ofMembers (ms : List (String × Value)) : List (String × Value) :=
  ms.foldl (fun acc m => insertMember acc m.1 m.2) []

/-- Members with distinct keys are read as they stand. -/
theorem ofMembers_of_nodup {ms : List (String × Value)} (h : (ms.map Prod.fst).Nodup) :
    ofMembers ms = ms := by
  suffices hgen : ∀ acc : List (String × Value), ((acc ++ ms).map Prod.fst).Nodup →
      ms.foldl (fun acc m => insertMember acc m.1 m.2) acc = acc ++ ms by
    simpa [ofMembers] using hgen [] (by simpa using h)
  clear h
  induction ms with
  | nil => simp
  | cons m ms ih =>
    intro acc hacc
    have hnot : m.1 ∉ acc.map Prod.fst := by
      simp only [List.map_append, List.map_cons, List.nodup_append] at hacc
      intro hm
      exact hacc.2.2 m.1 hm m.1 List.mem_cons_self rfl
    have hins : insertMember acc m.1 m.2 = acc ++ [m] := by simp [insertMember, hnot]
    rw [List.foldl_cons, hins, ih (acc ++ [m]) (by simpa using hacc)]
    simp

mutual

/-- `value`: a text without surrounding white space, and the value it denotes. -/
inductive ValueText (fl : List Char → Option F64) : List Char → Value → Prop where
  | null : ValueText fl ['n', 'u', 'l', 'l'] .null
  | true : ValueText fl ['t', 'r', 'u', 'e'] (.bool true)
  | false : ValueText fl ['f', 'a', 'l', 's', 'e'] (.bool false)
  | number {t : List Char} {n : Number} (h : NumberText fl t n) : ValueText fl t (.number n)
  | string {t s : List Char} (h : StringBody t s) :
      ValueText fl ('\"' :: (t ++ ['\"'])) (.string (String.ofList s))
  | emptyArray {w : List Char} (hw : Ws w) : ValueText fl ('[' :: (w ++ [']'])) (.array [])
  | array {t : List Char} {vs : List Value} (h : ElementsText fl t vs) :
      ValueText fl ('[' :: (t ++ [']'])) (.array vs)
  | emptyObject {w : List Char} (hw : Ws w) :
      ValueText fl ('\x7b' :: (w ++ ['\x7d'])) (.object [])
  | object {t : List Char} {ms : List (String × Value)} (h : MembersText fl t ms) :
      ValueText fl ('\x7b' :: (t ++ ['\x7d'])) (.object (ofMembers ms))

/-- The elements of a non-empty array, with the white space around each. -/
inductive ElementsText (fl : List Char → Option F64) : List Char → List Value → Prop where
  | one {w₁ t w₂ : List Char} {v : Value} (h₁ : Ws w₁) (h : ValueText fl t v) (h₂ : Ws w₂) :
      ElementsText fl (w₁ ++ (t ++ w₂)) [v]
  | cons {w₁ t w₂ u : List Char} {v : Value} {vs : List Value} (h₁ : Ws w₁)
      (h : ValueText fl t v) (h₂ : Ws w₂) (hs : ElementsText fl u vs) :
      ElementsText fl (w₁ ++ (t ++ (w₂ ++ ',' :: u))) (v :: vs)

/-- The members of a non-empty object, with the white space around each part. -/
inductive MembersText (fl : List Char → Option F64) :
    List Char → List (String × Value) → Prop where
  | one {w₁ k w₂ w₃ t w₄ s : List Char} {v : Value} (h₁ : Ws w₁) (hk : StringBody k s)
      (h₂ : Ws w₂) (h₃ : Ws w₃) (h : ValueText fl t v) (h₄ : Ws w₄) :
      MembersText fl (w₁ ++ '\"' :: (k ++ '\"' :: (w₂ ++ ':' :: (w₃ ++ (t ++ w₄)))))
        [(String.ofList s, v)]
  | cons {w₁ k w₂ w₃ t w₄ s u : List Char} {v : Value} {ms : List (String × Value)} (h₁ : Ws w₁)
      (hk : StringBody k s) (h₂ : Ws w₂) (h₃ : Ws w₃) (h : ValueText fl t v) (h₄ : Ws w₄)
      (hs : MembersText fl u ms) :
      MembersText fl (w₁ ++ '\"' :: (k ++ '\"' :: (w₂ ++ ':' :: (w₃ ++ (t ++ (w₄ ++ ',' :: u))))))
        ((String.ofList s, v) :: ms)

end

/-- `JSON-text`: a value with white space around it. -/
def JsonText (fl : List Char → Option F64) (t : List Char) (v : Value) : Prop :=
  ∃ w₁ u w₂, Ws w₁ ∧ ValueText fl u v ∧ Ws w₂ ∧ t = w₁ ++ (u ++ w₂)

/-! ## The parser -/

/-- Read the rest of a literal name. -/
def parseName (name : List Char) (v : Value) (t : List Char) : Option (Value × List Char) :=
  if name.isPrefixOf t then some (v, t.drop name.length) else none

mutual

/-- Read one value from a text that starts with it. -/
def parseValue (fl : List Char → Option F64) : Nat → List Char → Option (Value × List Char)
  | 0, _ => none
  | _, [] => none
  | fuel + 1, c :: t =>
    if c = '\"' then (parseString t).map fun p => (.string (String.ofList p.1), p.2)
    else if c = '[' then
      match skipWs t with
      | ']' :: r => some (.array [], r)
      | _ => (parseElements fl fuel t).map fun p => (.array p.1, p.2)
    else if c = '\x7b' then
      match skipWs t with
      | '\x7d' :: r => some (.object [], r)
      | _ => (parseMembers fl fuel t).map fun p => (.object (ofMembers p.1), p.2)
    else if c = 'n' then parseName ['u', 'l', 'l'] .null t
    else if c = 't' then parseName ['r', 'u', 'e'] (.bool true) t
    else if c = 'f' then parseName ['a', 'l', 's', 'e'] (.bool false) t
    else (parseNumber fl (c :: t)).map fun p => (.number p.1, p.2)

/-- Read the elements of a non-empty array and the bracket that closes it. -/
def parseElements (fl : List Char → Option F64) :
    Nat → List Char → Option (List Value × List Char)
  | 0, _ => none
  | fuel + 1, t =>
    match parseValue fl fuel (skipWs t) with
    | none => none
    | some (v, r) =>
      match skipWs r with
      | ',' :: u => (parseElements fl fuel u).map fun p => (v :: p.1, p.2)
      | ']' :: u => some ([v], u)
      | _ => none

/-- Read the members of a non-empty object and the brace that closes it. -/
def parseMembers (fl : List Char → Option F64) :
    Nat → List Char → Option (List (String × Value) × List Char)
  | 0, _ => none
  | fuel + 1, t =>
    match skipWs t with
    | '\"' :: r =>
      match parseString r with
      | none => none
      | some (k, r) =>
        match skipWs r with
        | ':' :: r =>
          match parseValue fl fuel (skipWs r) with
          | none => none
          | some (v, r) =>
            match skipWs r with
            | ',' :: u => (parseMembers fl fuel u).map fun p => ((String.ofList k, v) :: p.1, p.2)
            | '\x7d' :: u => some ([(String.ofList k, v)], u)
            | _ => none
        | _ => none
    | _ => none

end

/-- Parse a JSON text. -/
def parse (fl : List Char → Option F64) (t : List Char) : Option Value :=
  match parseValue fl (2 * t.length) (skipWs t) with
  | some (v, r) => if r.all isWs then some v else none
  | none => none

/-- Parse a UTF-8 encoded JSON text. -/
def parseBytes (fl : List Char → Option F64) (b : Bytes) : Option Json :=
  match (utf8Decode b).bind (parse fl) with
  | some v => if h : v.wf = true then some ⟨v, h⟩ else none
  | none => none

/-! ## The parser reads every text -/

section Completeness

variable {fl : List Char → Option F64}

/-- How a value starts: not with white space, and not like the end of an array or object. -/
theorem ValueText.head {t : List Char} {v : Value} (h : ValueText fl t v) :
    ∃ c u, t = c :: u ∧ isWs c = Bool.false ∧ c ≠ ']' ∧ c ≠ '\x7d' := by
  cases h with
  | null => exact ⟨'n', _, rfl, by decide⟩
  | true => exact ⟨'t', _, rfl, by decide⟩
  | false => exact ⟨'f', _, rfl, by decide⟩
  | number h =>
    obtain ⟨c, u, rfl, hc⟩ := h.head
    refine ⟨c, u, rfl, ?_⟩
    rcases hc with rfl | hc
    · decide
    · simp only [Char.isDigit, ge_iff_le, Bool.and_eq_true, decide_eq_true_eq] at hc
      refine ⟨?_, ?_, ?_⟩
      · simp only [isWs, Bool.or_eq_false_iff, decide_eq_false_iff_not]
        refine ⟨⟨⟨?_, ?_⟩, ?_⟩, ?_⟩ <;> rintro rfl <;> exact absurd hc (by decide)
      · rintro rfl; exact absurd hc (by decide)
      · rintro rfl; exact absurd hc (by decide)
  | string _ => exact ⟨'\"', _, rfl, by decide⟩
  | emptyArray _ => exact ⟨'[', _, rfl, by decide⟩
  | array _ => exact ⟨'[', _, rfl, by decide⟩
  | emptyObject _ => exact ⟨'\x7b', _, rfl, by decide⟩
  | object _ => exact ⟨'\x7b', _, rfl, by decide⟩

/-- White space in front of a value is skipped, and nothing else. -/
theorem ValueText.skipWs {t : List Char} {v : Value} (h : ValueText fl t v) {w : List Char}
    (hw : Ws w) (rest : List Char) : Rfc8259.skipWs (w ++ (t ++ rest)) = t ++ rest := by
  obtain ⟨c, u, rfl, hc, -, -⟩ := h.head
  rw [skipWs_append hw, List.cons_append, skipWs_cons hc]

theorem delim_append {w : List Char} (hw : Ws w) {rest : List Char} (hr : Delim rest) :
    Delim (w ++ rest) := by
  cases w with
  | nil => exact hr
  | cons c w =>
    intro d hd
    cases hd
    exact .inl (hw c List.mem_cons_self)

theorem delim_comma (t : List Char) : Delim (',' :: t) := by
  intro c hc; cases hc; exact .inr (.inl rfl)

theorem delim_bracket (t : List Char) : Delim (']' :: t) := by
  intro c hc; cases hc; exact .inr (.inr (.inl rfl))

theorem delim_brace (t : List Char) : Delim ('\x7d' :: t) := by
  intro c hc; cases hc; exact .inr (.inr (.inr rfl))

/-- The elements of an array do not start with the bracket that closes it. -/
theorem ElementsText.skipWs {t : List Char} {vs : List Value} (h : ElementsText fl t vs)
    (rest : List Char) : ∃ c u, Rfc8259.skipWs (t ++ rest) = c :: u ∧ c ≠ ']' := by
  cases h with
  | one h₁ h _ | cons h₁ h _ _ =>
    obtain ⟨c, u, rfl, hc, hb, -⟩ := h.head
    simp only [List.append_assoc]
    rw [skipWs_append h₁, List.cons_append, skipWs_cons hc]
    exact ⟨c, _, rfl, hb⟩

/-- The members of an object start with a quote. -/
theorem MembersText.skipWs {t : List Char} {ms : List (String × Value)}
    (h : MembersText fl t ms) (rest : List Char) :
    ∃ u, Rfc8259.skipWs (t ++ rest) = '\"' :: u := by
  cases h with
  | one h₁ _ _ _ _ _ | cons h₁ _ _ _ _ _ _ =>
    simp only [List.append_assoc]
    rw [skipWs_append h₁, List.cons_append, skipWs_cons (by decide)]
    exact ⟨_, rfl⟩

theorem parseName_append (name : List Char) (v : Value) (rest : List Char) :
    parseName name v (name ++ rest) = some (v, rest) := by
  simp [parseName]

/-- A value is not read from a name or a bracket when it starts like a number. -/
theorem parseValue_number (fuel : Nat) {c : Char} (hc : c = '-' ∨ c.isDigit = Bool.true)
    (t : List Char) :
    parseValue fl (fuel + 1) (c :: t) = (parseNumber fl (c :: t)).map fun p => (.number p.1, p.2) := by
  have hne : c ≠ '\"' ∧ c ≠ '[' ∧ c ≠ '\x7b' ∧ c ≠ 'n' ∧ c ≠ 't' ∧ c ≠ 'f' := by
    rcases hc with rfl | hc
    · decide
    · refine ⟨?_, ?_, ?_, ?_, ?_, ?_⟩ <;> rintro rfl <;> exact absurd hc (by decide)
  obtain ⟨h1, h2, h3, h4, h5, h6⟩ := hne
  simp only [parseValue, h1, h2, h3, h4, h5, h6, ↓reduceIte]

/-- The three parsers read every derivation, by induction on the fuel: a value needs twice its
length, and the elements or members inside it one more than twice theirs. -/
theorem parse_complete (fuel : Nat) :
    (∀ t v rest, ValueText fl t v → Delim rest → 2 * t.length ≤ fuel →
      parseValue fl fuel (t ++ rest) = some (v, rest)) ∧
    (∀ t vs rest, ElementsText fl t vs → 2 * t.length + 1 ≤ fuel →
      parseElements fl fuel (t ++ ']' :: rest) = some (vs, rest)) ∧
    (∀ t ms rest, MembersText fl t ms → 2 * t.length + 1 ≤ fuel →
      parseMembers fl fuel (t ++ '\x7d' :: rest) = some (ms, rest)) := by
  induction fuel with
  | zero =>
    refine ⟨fun t v rest h _ hlen => ?_, fun t vs rest _ hlen => ?_, fun t ms rest _ hlen => ?_⟩
    · obtain ⟨c, u, rfl, -⟩ := h.head
      simp at hlen
    · omega
    · omega
  | succ fuel ih =>
    obtain ⟨ihv, ihe, ihm⟩ := ih
    refine ⟨fun t v rest h hr hlen => ?_, fun t vs rest h hlen => ?_,
      fun t ms rest h hlen => ?_⟩
    · cases h with
      | null => exact parseName_append ['u', 'l', 'l'] .null rest
      | true => exact parseName_append ['r', 'u', 'e'] (.bool Bool.true) rest
      | false => exact parseName_append ['a', 'l', 's', 'e'] (.bool Bool.false) rest
      | number h =>
        have hp := parseNumber_of_text h hr
        obtain ⟨c, u, rfl, hc⟩ := h.head
        rw [List.cons_append, parseValue_number fuel hc, ← List.cons_append, hp]
        rfl
      | string h =>
        simp only [List.cons_append, List.append_assoc, List.nil_append, parseValue, ↓reduceIte,
          parseString_of_body h, Option.map_some]
      | emptyArray hw =>
        simp only [List.cons_append, List.append_assoc, List.nil_append, parseValue,
          skipWs_append hw]
        rw [skipWs_cons (by decide)]
        rfl
      | @array u vs h =>
        obtain ⟨c, r, hs, hc⟩ := h.skipWs (']' :: rest)
        have hlen' : 2 * u.length + 1 ≤ fuel := by simp at hlen; omega
        simp only [List.cons_append, List.append_assoc, List.nil_append, parseValue, hs,
          ihe u vs rest h hlen']
        simp [hc]
      | emptyObject hw =>
        simp only [List.cons_append, List.append_assoc, List.nil_append, parseValue,
          skipWs_append hw]
        rw [skipWs_cons (by decide)]
        rfl
      | @object u ms h =>
        obtain ⟨r, hs⟩ := h.skipWs ('\x7d' :: rest)
        have hlen' : 2 * u.length + 1 ≤ fuel := by simp at hlen; omega
        simp only [List.cons_append, List.append_assoc, List.nil_append, parseValue, hs,
          ihm u ms rest h hlen']
        rfl
    · cases h with
      | @one w₁ u w₂ v h₁ h h₂ =>
        have hlen' : 2 * u.length ≤ fuel := by simp at hlen; omega
        simp only [List.append_assoc, parseElements, h.skipWs h₁]
        rw [ihv u v _ h (delim_append h₂ (delim_bracket rest)) hlen']
        simp only [skipWs_append h₂]
        rw [skipWs_cons (by decide)]
        rfl
      | @cons w₁ u w₂ u' v vs h₁ h h₂ hs =>
        have hlen' : 2 * u.length ≤ fuel := by simp at hlen; omega
        have hlen'' : 2 * u'.length + 1 ≤ fuel := by simp at hlen; omega
        simp only [List.append_assoc, List.cons_append, parseElements, h.skipWs h₁]
        rw [ihv u v _ h (delim_append h₂ (delim_comma _)) hlen']
        simp only [skipWs_append h₂]
        rw [skipWs_cons (by decide)]
        simp only [ihe u' vs rest hs hlen'', Option.map_some]
    · cases h with
      | @one w₁ k w₂ w₃ u w₄ s v h₁ hk h₂ h₃ h h₄ =>
        have hlen' : 2 * u.length ≤ fuel := by simp at hlen; omega
        simp only [List.append_assoc, List.cons_append, parseMembers, skipWs_append h₁]
        rw [skipWs_cons (by decide)]
        simp only [parseString_of_body hk, skipWs_append h₂]
        rw [skipWs_cons (by decide)]
        simp only [h.skipWs h₃]
        rw [ihv u v _ h (delim_append h₄ (delim_brace rest)) hlen']
        simp only [skipWs_append h₄]
        rw [skipWs_cons (by decide)]
        rfl
      | @cons w₁ k w₂ w₃ u w₄ s u' v ms h₁ hk h₂ h₃ h h₄ hs =>
        have hlen' : 2 * u.length ≤ fuel := by simp at hlen; omega
        have hlen'' : 2 * u'.length + 1 ≤ fuel := by simp at hlen; omega
        simp only [List.append_assoc, List.cons_append, parseMembers, skipWs_append h₁]
        rw [skipWs_cons (by decide)]
        simp only [parseString_of_body hk, skipWs_append h₂]
        rw [skipWs_cons (by decide)]
        simp only [h.skipWs h₃]
        rw [ihv u v _ h (delim_append h₄ (delim_comma _)) hlen']
        simp only [skipWs_append h₄]
        rw [skipWs_cons (by decide)]
        simp only [ihm u' ms rest hs hlen'', Option.map_some]

/-- **The parser reads every text as the value it denotes.** -/
theorem parse_of_text {t : List Char} {v : Value} (h : JsonText fl t v) : parse fl t = some v := by
  obtain ⟨w₁, u, w₂, h₁, hu, h₂, rfl⟩ := h
  have hnil : Delim [] := by
    intro c hc
    cases hc
  have hd : Delim w₂ := by
    simpa using delim_append h₂ hnil
  have hp := (parse_complete (2 * (w₁ ++ (u ++ w₂)).length)).1 u v w₂ hu hd (by simp; omega)
  have hall : w₂.all isWs = Bool.true := List.all_eq_true.mpr h₂
  simp only [parse, hu.skipWs h₁ w₂, hp, hall, ↓reduceIte]

theorem parseBytes_of_text {b : Bytes} {t : List Char} {v : Json} (hb : utf8Decode b = some t)
    (h : JsonText fl t v.value) : parseBytes fl b = some v := by
  simp [parseBytes, hb, parse_of_text h, v.wf]

/-- A value text is a JSON text. -/
theorem ValueText.jsonText {t : List Char} {v : Value} (h : ValueText fl t v) : JsonText fl t v :=
  ⟨[], t, [], Ws.nil, h, Ws.nil, by simp⟩

/-- The text of a string denotes one string. -/
theorem StringBody.unique {t s s' : List Char} (h : StringBody t s) (h' : StringBody t s') :
    s = s' := by
  have heq := (parseString_of_body h []).symm.trans (parseString_of_body h' [])
  exact (Prod.mk.inj (Option.some.inj heq)).1

/-- A number literal denotes one number. -/
theorem NumberText.unique {t : List Char} {n m : Number} (hn : NumberText fl t n)
    (hm : NumberText fl t m) : n = m := by
  have hnil : Delim [] := by
    intro c hc
    cases hc
  have heq := (parseNumber_of_text hn hnil).symm.trans (parseNumber_of_text hm hnil)
  exact (Prod.mk.inj (Option.some.inj heq)).1

/-- A text denotes one value. -/
theorem JsonText.unique {t : List Char} {v w : Value} (hv : JsonText fl t v)
    (hw : JsonText fl t w) : v = w :=
  Option.some.inj ((parse_of_text hv).symm.trans (parse_of_text hw))

end Completeness

end Sealr.Lib.Rfc8259
