import Mathlib.Data.List.Sort
import Mathlib.Data.UInt
import Mathlib.Tactic.IntervalCases
import Sealr.Lib.Rfc8259

/-!
# Canonical JSON (RFC 8785, integers only)

A value is brought to canonical form (`canon`: members sorted by the UTF-16 code units of their
names, numbers spelled as integers in the safe range) and then printed without white space.

Two values have one canonical form exactly when they are equal up to member order and number
spelling (`canon_eq_iff`), and the printed text of a canonical form denotes that form
(`valueText_print`). Together: the printed text determines the value up to that equivalence.
-/

namespace Sealr.Lib.Rfc8785

open Rfc8259

/-! ## The order of property names -/

/-- The UTF-16 code units of a Unicode scalar value. -/
def utf16Char (c : Char) : List UInt16 :=
  if c.toNat < 0x10000 then [UInt16.ofNat c.toNat]
  else
    [UInt16.ofNat (0xD800 + (c.toNat - 0x10000) / 0x400),
      UInt16.ofNat (0xDC00 + (c.toNat - 0x10000) % 0x400)]

/-- The UTF-16 code units of a string. -/
def utf16 (s : String) : List UInt16 := (chars s).flatMap utf16Char

/-- A scalar value is below or above the surrogates. -/
theorem toNat_valid (c : Char) :
    c.toNat < 0xD800 ∨ (0xDFFF < c.toNat ∧ c.toNat < 0x110000) := c.valid

/-- No code is a proper beginning of another. -/
theorem utf16Char_append_inj {c d : Char} {t u : List UInt16}
    (h : utf16Char c ++ t = utf16Char d ++ u) : c = d ∧ t = u := by
  have hc := toNat_valid c
  have hd := toNat_valid d
  have hinj : c.toNat = d.toNat → c = d := Char.toNat_inj.mp
  simp only [utf16Char] at h
  split_ifs at h
  all_goals
    simp only [List.cons_append, List.nil_append, List.cons.injEq, ← UInt16.toNat_inj,
      UInt16.toNat_ofNat'] at h
  · exact ⟨hinj (by omega), h.2⟩
  · exact absurd h.1 (by omega)
  · exact absurd h.1 (by omega)
  · exact ⟨hinj (by omega), h.2.2⟩

theorem utf16_injective : Function.Injective utf16 := by
  suffices hgen : ∀ cs ds : List Char,
      cs.flatMap utf16Char = ds.flatMap utf16Char → cs = ds from
    fun s t h => String.toList_inj.mp (hgen _ _ (by simpa [utf16] using h))
  have hne : ∀ c t, [] ≠ utf16Char c ++ t := by
    intro c t
    unfold utf16Char
    split_ifs <;> simp
  intro cs
  induction cs with
  | nil =>
    intro ds h
    cases ds with
    | nil => rfl
    | cons d ds => exact absurd h (hne d _)
  | cons c cs ih =>
    intro ds h
    cases ds with
    | nil => exact absurd h.symm (hne c _)
    | cons d ds =>
      simp only [List.flatMap_cons] at h
      obtain ⟨rfl, htail⟩ := utf16Char_append_inj h
      rw [ih ds htail]

section Sorting

variable {α β : Type*}

/-- Members in the order of their names' UTF-16 code units. -/
def keyLe (m n : String × α) : Prop := utf16 m.1 ≤ utf16 n.1

instance : DecidableRel (keyLe (α := α)) := fun m n =>
  inferInstanceAs (Decidable (utf16 m.1 ≤ utf16 n.1))

instance : Std.Total (keyLe (α := α)) where
  total m n := List.le_total (utf16 m.1) (utf16 n.1)

instance : IsTrans (String × α) keyLe where
  trans _ _ _ h h' := List.le_trans h h'

/-- Sort the members of an object by name. -/
def sortMembers (ms : List (String × α)) : List (String × α) := ms.insertionSort keyLe

theorem sortMembers_perm (ms : List (String × α)) : (sortMembers ms).Perm ms :=
  List.perm_insertionSort keyLe ms

theorem sortMembers_pairwise (ms : List (String × α)) : (sortMembers ms).Pairwise keyLe :=
  List.pairwise_insertionSort keyLe ms

theorem sortMembers_nodup {ms : List (String × α)} (h : (ms.map Prod.fst).Nodup) :
    ((sortMembers ms).map Prod.fst).Nodup :=
  ((sortMembers_perm ms).map Prod.fst).nodup_iff.mpr h

/-- With distinct names, sorting forgets exactly the order. -/
theorem sortMembers_eq_iff {ms ns : List (String × α)} (h : (ms.map Prod.fst).Nodup) :
    sortMembers ms = sortMembers ns ↔ ms.Perm ns := by
  constructor
  · intro heq
    exact (sortMembers_perm ms).symm.trans (heq ▸ sortMembers_perm ns)
  · intro hp
    have hperm : (sortMembers ms).Perm (sortMembers ns) :=
      (sortMembers_perm ms).trans (hp.trans (sortMembers_perm ns).symm)
    refine hperm.eq_of_pairwise ?_ (sortMembers_pairwise ms) (sortMembers_pairwise ns)
    intro a b ha hb hab hba
    have hkey : a.1 = b.1 := utf16_injective (List.le_antisymm hab hba)
    have ha' : a ∈ ms := (sortMembers_perm ms).mem_iff.mp ha
    have hb' : b ∈ ms := hp.mem_iff.mpr ((sortMembers_perm ns).mem_iff.mp hb)
    exact List.inj_on_of_nodup_map h ha' hb' hkey

/-- Sorting moves related members together, when related members have one name. -/
theorem forall₂_sortMembers {R : String × α → String × β → Prop} (hR : ∀ m n, R m n → m.1 = n.1)
    {ms : List (String × α)} {ns : List (String × β)} (h : List.Forall₂ R ms ns) :
    List.Forall₂ R (sortMembers ms) (sortMembers ns) := by
  have hinsert : ∀ {m n ms ns}, R m n → List.Forall₂ R ms ns →
      List.Forall₂ R (ms.orderedInsert keyLe m) (ns.orderedInsert keyLe n) := by
    intro m n ms ns hmn hs
    induction hs with
    | nil => exact .cons hmn .nil
    | @cons m' n' ms ns hmn' hs ih =>
      have hiff : keyLe m m' ↔ keyLe n n' := by
        unfold keyLe
        rw [hR m n hmn, hR m' n' hmn']
      simp only [List.orderedInsert, hiff]
      split_ifs
      · exact .cons hmn (.cons hmn' hs)
      · exact .cons hmn' ih
  induction h with
  | nil => exact .nil
  | cons hmn _ ih => exact hinsert hmn ih

end Sorting

/-! ## Numbers -/

/-- The largest integer below which doubles have no gaps: 2^53 - 1. -/
def maxSafe : Nat := 2 ^ 53 - 1

/-- The integer a number stands for, when it is one in the safe range. -/
def safeInt (n : Number) : Option Int :=
  if n.toRat.den = 1 ∧ n.toRat.num.natAbs ≤ maxSafe then some n.toRat.num else none

/-- The plain spelling of a safe integer. -/
def ofInt (i : Int) : Number :=
  if h : -2 ^ 63 ≤ i ∧ i < 0 then .negInt i h else .posInt (UInt64.ofNat i.toNat)

/-- The text of an integer. -/
def printInt (i : Int) : List Char :=
  minus (decide (i < 0)) ++ Nat.toDigits 10 i.natAbs

theorem toList_toString_int (i : Int) : (toString i).toList = printInt i := by
  cases i with
  | ofNat n =>
    have h : toString (Int.ofNat n) = Nat.repr n := rfl
    rw [h, Nat.toList_repr]
    simp [printInt, minus]
  | negSucc n =>
    have h : toString (Int.negSucc n) = "-" ++ Nat.repr (n + 1) := rfl
    rw [h, String.toList_append, Nat.toList_repr]
    simp [printInt, minus]

theorem safeInt_eq_some {n : Number} {i : Int} (h : safeInt n = some i) :
    n.toRat = i ∧ i.natAbs ≤ maxSafe := by
  simp only [safeInt] at h
  split_ifs at h with hs
  cases h
  exact ⟨((Rat.den_eq_one_iff _).mp hs.1).symm, hs.2⟩

theorem toRat_ofInt {i : Int} (h : i.natAbs ≤ maxSafe) : (ofInt i).toRat = i := by
  have hm : maxSafe = 2 ^ 53 - 1 := rfl
  unfold ofInt
  split_ifs with hneg
  · rfl
  · have h0 : 0 ≤ i := by omega
    have hlt : i.toNat < 2 ^ 64 := by omega
    simp only [Number.toRat, UInt64.toNat_ofNat_of_lt' hlt]
    exact_mod_cast Int.toNat_of_nonneg h0

theorem safeInt_ofInt {i : Int} (h : i.natAbs ≤ maxSafe) : safeInt (ofInt i) = some i := by
  simp [safeInt, toRat_ofInt h, h]

theorem safeInt_posInt (n : UInt64) :
    safeInt (.posInt n) = if n.toNat ≤ maxSafe then some (n.toNat : Int) else none := by
  simp [safeInt, Number.toRat]

theorem safeInt_negInt (i : Int) (h : -2 ^ 63 ≤ i ∧ i < 0) :
    safeInt (.negInt i h) = if i.natAbs ≤ maxSafe then some i else none := by
  simp [safeInt, Number.toRat]

/-- A safe double is the integer it casts to. -/
theorem safeInt_float (f : F64) : safeInt (.float f) =
    if f.isIntegral ∧ |f.toRat| ≤ maxSafe then some f.toI64 else none := by
  have hm : maxSafe = 2 ^ 53 - 1 := rfl
  by_cases hi : f.isIntegral = true
  · have hden : f.toRat.den = 1 := by simpa [F64.isIntegral] using hi
    have hnum : f.toRat = f.toRat.num := ((Rat.den_eq_one_iff _).mp hden).symm
    have habs : |f.toRat| ≤ (maxSafe : ℚ) ↔ f.toRat.num.natAbs ≤ maxSafe := by
      rw [hnum, ← Int.cast_abs, Int.abs_eq_natAbs]
      simp only [Rat.num_intCast]
      norm_cast
    by_cases hle : f.toRat.num.natAbs ≤ maxSafe
    · have hbound : |f.toRat| ≤ 2 ^ 63 - 1 := by
        refine (habs.mpr hle).trans ?_
        rw [hm]
        norm_num
      have hcast : f.toRat.num = f.toI64 := by
        have heq := F64.toRat_eq_toI64 hi hbound
        rw [hnum] at heq
        exact_mod_cast heq
      simp [safeInt, Number.toRat, hden, hi, habs, hcast]
    · simp [safeInt, Number.toRat, hle, habs]
  · have hden : f.toRat.den ≠ 1 := by simpa [F64.isIntegral] using hi
    simp [safeInt, Number.toRat, hden, hi]

/-- Safe numbers are equal as rationals exactly when they are one integer. -/
theorem safeInt_eq_iff {n m : Number} {i j : Int} (hn : safeInt n = some i)
    (hm : safeInt m = some j) : i = j ↔ n.toRat = m.toRat := by
  rw [(safeInt_eq_some hn).1, (safeInt_eq_some hm).1]
  exact Int.cast_inj.symm

/-- A positive number is written without a leading zero. -/
theorem head_toDigits {n : Nat} (h : 0 < n) : (Nat.toDigits 10 n).head? ≠ some '0' := by
  induction n using Nat.strongRecOn with
  | _ n ih =>
    by_cases hn : n < 10
    · rw [Nat.toDigits_of_lt_base hn]
      interval_cases n <;> decide
    · obtain ⟨d, t, hdt⟩ := List.exists_cons_of_ne_nil (Nat.toDigits_ne_nil (n := n / 10) (b := 10))
      have hlead := ih (n / 10) (by omega) (by omega)
      rw [Nat.toDigits_of_base_le (by decide) (by omega)]
      simpa [hdt] using hlead

/-- The digits of a number are an `int` of the grammar. -/
theorem isInt_toDigits (n : Nat) : IsInt (Nat.toDigits 10 n) := by
  by_cases h : n = 0
  · subst h
    exact .inl (by decide)
  · refine .inr ⟨⟨Nat.toDigits_ne_nil, fun c hc => ?_⟩, head_toDigits (by omega)⟩
    exact Nat.isDigit_of_mem_toDigits (by decide) (by decide) hc

/-- A safe integer's text denotes its plain spelling, whatever reads other literals. -/
theorem numberText_printInt (fl : List Char → Option F64) {i : Int} (h : i.natAbs ≤ maxSafe) :
    NumberText fl (printInt i) (ofInt i) := by
  have hm : maxSafe = 2 ^ 53 - 1 := rfl
  refine ⟨decide (i < 0), Nat.toDigits 10 i.natAbs, [], [], isInt_toDigits _, .inl rfl, .inl rfl,
    by simp [printInt], ?_⟩
  simp only [numberOf, Nat.ofDigitChars_ten_toDigits, true_and, ofInt]
  by_cases hneg : i < 0
  · have hrange : 0 < i.natAbs ∧ i.natAbs ≤ 2 ^ 63 := by omega
    have hi : -2 ^ 63 ≤ i ∧ i < 0 := by omega
    have habs : -(i.natAbs : Int) = i := by omega
    rw [if_neg (by simp [hneg]), dif_pos ⟨by simp [hneg], hrange⟩, dif_pos hi]
    simp only [habs]
  · have hlt : i.natAbs < 2 ^ 64 := by omega
    have hi : ¬(-2 ^ 63 ≤ i ∧ i < 0) := by omega
    have habs : i.natAbs = i.toNat := by omega
    rw [if_pos ⟨by simp [hneg], hlt⟩, dif_neg hi, habs]

/-! ## Canonical form -/

mutual

/-- The canonical form of a value, if all its numbers are safe integers. -/
def canon : Value → Option Value
  | .number n => (safeInt n).map fun i => .number (ofInt i)
  | .array items => (canonItems items).map .array
  | .object members => (canonMembers members).map fun ms => .object (sortMembers ms)
  | v => some v

def canonItems : List Value → Option (List Value)
  | [] => some []
  | x :: xs =>
    match canon x, canonItems xs with
    | some y, some ys => some (y :: ys)
    | _, _ => none

def canonMembers : List (String × Value) → Option (List (String × Value))
  | [] => some []
  | (k, v) :: ms =>
    match canon v, canonMembers ms with
    | some w, some ns => some ((k, w) :: ns)
    | _, _ => none

end

/-- A member and its canonical form. -/
def CanonMember (m n : String × Value) : Prop := m.1 = n.1 ∧ canon m.2 = some n.2

theorem canonItems_eq_some {xs ys : List Value} :
    canonItems xs = some ys ↔ List.Forall₂ (fun x y => canon x = some y) xs ys := by
  induction xs generalizing ys with
  | nil => cases ys <;> simp [canonItems]
  | cons x xs ih =>
    simp only [canonItems, List.forall₂_cons_left_iff, ← ih]
    cases canon x <;> cases canonItems xs <;> simp [eq_comm]

theorem canonMembers_eq_some {ms ns : List (String × Value)} :
    canonMembers ms = some ns ↔ List.Forall₂ CanonMember ms ns := by
  induction ms generalizing ns with
  | nil => cases ns <;> simp [canonMembers]
  | cons m ms ih =>
    obtain ⟨k, v⟩ := m
    simp only [canonMembers, List.forall₂_cons_left_iff, ← ih, CanonMember]
    cases canon v <;> cases canonMembers ms <;> simp [eq_comm, and_assoc]

theorem canon_number {n : Number} {c : Value} :
    canon (.number n) = some c ↔ ∃ i, safeInt n = some i ∧ c = .number (ofInt i) := by
  simp [canon, eq_comm]

theorem canon_array {xs : List Value} {c : Value} :
    canon (.array xs) = some c ↔
      ∃ ys, List.Forall₂ (fun x y => canon x = some y) xs ys ∧ c = .array ys := by
  simp only [canon, Option.map_eq_some_iff, canonItems_eq_some, @eq_comm _ c]

theorem canon_object {ms : List (String × Value)} {c : Value} :
    canon (.object ms) = some c ↔
      ∃ ns, List.Forall₂ CanonMember ms ns ∧ c = .object (sortMembers ns) := by
  simp only [canon, Option.map_eq_some_iff, canonMembers_eq_some, @eq_comm _ c]

/-- Canonical members have the names of the members. -/
theorem keys_eq_of_canonMember {ms ns : List (String × Value)}
    (h : List.Forall₂ CanonMember ms ns) : ns.map Prod.fst = ms.map Prod.fst := by
  induction h with
  | nil => rfl
  | cons hmn _ ih => simp [ih, hmn.1]

/-- Lists are equal exactly when the lists they are computed from are related, if that holds of
their elements. -/
theorem eq_iff_forall₂ {α β : Type*} {R : α → β → Prop} {E : α → α → Prop} {xs zs : List α}
    {ys us : List β} (hxy : List.Forall₂ R xs ys) (hzu : List.Forall₂ R zs us)
    (h : ∀ x ∈ xs, ∀ z ∈ zs, ∀ y u, R x y → R z u → (y = u ↔ E x z)) :
    ys = us ↔ List.Forall₂ E xs zs := by
  induction hxy generalizing zs us with
  | nil => cases hzu <;> simp
  | @cons x y xs ys hxy _ ih =>
    cases hzu with
    | nil => simp
    | @cons z u zs us hzu hs =>
      have hhead := h x List.mem_cons_self z List.mem_cons_self y u hxy hzu
      have htail := ih hs fun x' hx' z' hz' =>
        h x' (List.mem_cons_of_mem x hx') z' (List.mem_cons_of_mem z hz')
      rw [List.cons.injEq, List.forall₂_cons, hhead, htail]

theorem exists_forall₂ {α β : Type*} {R : α → β → Prop} {xs : List α}
    (h : ∀ x ∈ xs, ∃ y, R x y) : ∃ ys, List.Forall₂ R xs ys := by
  induction xs with
  | nil => exact ⟨[], .nil⟩
  | cons x xs ih =>
    obtain ⟨y, hy⟩ := h x List.mem_cons_self
    obtain ⟨ys, hys⟩ := ih fun z hz => h z (List.mem_cons_of_mem x hz)
    exact ⟨y :: ys, .cons hy hys⟩

theorem exists_of_mem_forall₂ {α β : Type*} {R : α → β → Prop} {xs : List α} {ys : List β}
    (h : List.Forall₂ R xs ys) {y : β} (hy : y ∈ ys) : ∃ x ∈ xs, R x y := by
  induction h with
  | nil => cases hy
  | cons hxy _ ih =>
    rcases List.mem_cons.mp hy with rfl | hy
    · exact ⟨_, List.mem_cons_self, hxy⟩
    · obtain ⟨x, hx, hR⟩ := ih hy
      exact ⟨x, List.mem_cons_of_mem _ hx, hR⟩

/-- An array has a canonical form when its items have one. -/
theorem exists_canon_array {xs : List Value} :
    (∃ c, canon (.array xs) = some c) ↔ ∀ x ∈ xs, ∃ c, canon x = some c := by
  simp only [canon_array]
  constructor
  · intro h x hx
    obtain ⟨_, ys, hys, -⟩ := h
    obtain ⟨y, -, hxy⟩ := exists_of_mem_forall₂ hys.flip hx
    exact ⟨y, hxy⟩
  · intro h
    obtain ⟨ys, hys⟩ := exists_forall₂ h
    exact ⟨_, ys, hys, rfl⟩

/-- An object has a canonical form when its members have one. -/
theorem exists_canon_object {ms : List (String × Value)} :
    (∃ c, canon (.object ms) = some c) ↔ ∀ m ∈ ms, ∃ c, canon m.2 = some c := by
  simp only [canon_object]
  constructor
  · intro h m hm
    obtain ⟨_, ns, hns, -⟩ := h
    obtain ⟨n, -, hmn⟩ := exists_of_mem_forall₂ hns.flip hm
    exact ⟨n.2, hmn.2⟩
  · intro h
    have hmember : ∀ m ∈ ms, ∃ n, CanonMember m n := by
      intro m hm
      obtain ⟨c, hc⟩ := h m hm
      exact ⟨(m.1, c), rfl, hc⟩
    obtain ⟨ns, hns⟩ := exists_forall₂ hmember
    exact ⟨_, ns, hns, rfl⟩

/-- A record has a canonical form when its fields have one. -/
theorem exists_canon_ofFields {fields : List (String × Option Json)}
    {hnodup : (fields.map Prod.fst).Nodup}
    (h : ∀ f ∈ fields, ∀ j, f.2 = some j → ∃ c, canon j.value = some c) :
    ∃ c, canon (Json.ofFields fields hnodup).value = some c := by
  apply exists_canon_object.mpr
  intro m hm
  obtain ⟨f, hf, hfm⟩ := List.mem_filterMap.mp hm
  obtain ⟨j, hj, rfl⟩ := Option.map_eq_some_iff.mp hfm
  exact h f hf j hj

/-- The constructor of a value. -/
def kind : Value → Fin 6
  | .null => 0
  | .bool _ => 1
  | .number _ => 2
  | .string _ => 3
  | .array _ => 4
  | .object _ => 5

theorem kind_canon {v c : Value} (h : canon v = some c) : kind c = kind v := by
  cases v with
  | null | bool b | string s => cases h; rfl
  | number n => obtain ⟨i, -, rfl⟩ := canon_number.mp h; rfl
  | array xs => obtain ⟨ys, -, rfl⟩ := canon_array.mp h; rfl
  | object ms => obtain ⟨ns, -, rfl⟩ := canon_object.mp h; rfl

theorem kind_equiv {v w : Value} (h : v.Equiv w) : kind v = kind w := by
  cases v <;> cases w <;> first | rfl | exact False.elim h

theorem ofInt_inj {i j : Int} (hi : i.natAbs ≤ maxSafe) (hj : j.natAbs ≤ maxSafe) :
    ofInt i = ofInt j ↔ i = j := by
  refine ⟨fun h => ?_, fun h => h ▸ rfl⟩
  have hrat : (i : ℚ) = j := by rw [← toRat_ofInt hi, ← toRat_ofInt hj, h]
  exact_mod_cast hrat

/-- Canonical members are a permutation of each other exactly when some order of the second
members matches the first. -/
theorem perm_iff_of_canonMember {ms ns ms' ns' : List (String × Value)}
    (hm : List.Forall₂ CanonMember ms ms') (hn : List.Forall₂ CanonMember ns ns')
    (h : ∀ m ∈ ms, ∀ n ∈ ns, ∀ c d, canon m.2 = some c → canon n.2 = some d →
      (c = d ↔ m.2.Equiv n.2)) :
    ms'.Perm ns' ↔ (Value.object ms).Equiv (.object ns) := by
  rw [Value.equiv_object]
  have hiff : ∀ {ps qs}, ps.Perm ns → List.Forall₂ CanonMember ps qs →
      (ms' = qs ↔ List.Forall₂ (fun m n => m.1 = n.1 ∧ m.2.Equiv n.2) ms ps) := by
    intro ps qs hp hpq
    refine eq_iff_forall₂ hm hpq fun m hm n hn m' n' hmm' hnn' => ?_
    rw [Prod.ext_iff, ← hmm'.1, ← hnn'.1,
      h m hm n (hp.mem_iff.mp hn) m'.2 n'.2 hmm'.2 hnn'.2]
  constructor
  · intro hperm
    obtain ⟨ps, hps, hpn⟩ := List.perm_comp_forall₂ hperm hn.flip
    exact ⟨ps, hpn, (hiff hpn hps.flip).mp rfl⟩
  · rintro ⟨ps, hpn, hall⟩
    obtain ⟨qs, hqs, hqn⟩ := List.perm_comp_forall₂ hpn hn
    rw [(hiff hpn hqs).mpr hall]
    exact hqn

theorem canon_eq_iff_of_kind_ne {v w c d : Value} (hc : canon v = some c) (hd : canon w = some d)
    (hkind : kind v ≠ kind w) : c = d ↔ v.Equiv w := by
  refine iff_of_false ?_ fun h => hkind (kind_equiv h)
  rintro rfl
  exact hkind ((kind_canon hc).symm.trans (kind_canon hd))

/-- **Values have one canonical form exactly when they are equal up to member order and number
spelling.** -/
theorem canon_eq_iff {v w c d : Value} (hv : v.wf = true) (hw : w.wf = true)
    (hc : canon v = some c) (hd : canon w = some d) : c = d ↔ v.Equiv w := by
  induction v generalizing w c d with
  | null =>
    cases w with
    | null =>
      cases hc
      cases hd
      exact ⟨fun _ => trivial, fun _ => rfl⟩
    | _ => exact canon_eq_iff_of_kind_ne hc hd (by simp [kind])
  | bool a =>
    cases w with
    | bool b =>
      cases hc
      cases hd
      rw [Value.bool.injEq]
      exact Iff.rfl
    | _ => exact canon_eq_iff_of_kind_ne hc hd (by simp [kind])
  | string s =>
    cases w with
    | string t =>
      cases hc
      cases hd
      rw [Value.string.injEq]
      exact Iff.rfl
    | _ => exact canon_eq_iff_of_kind_ne hc hd (by simp [kind])
  | number n =>
    cases w with
    | number m =>
      obtain ⟨i, hi, rfl⟩ := canon_number.mp hc
      obtain ⟨j, hj, rfl⟩ := canon_number.mp hd
      rw [Value.number.injEq, ofInt_inj (safeInt_eq_some hi).2 (safeInt_eq_some hj).2,
        Value.Equiv, safeInt_eq_iff hi hj]
    | _ => exact canon_eq_iff_of_kind_ne hc hd (by simp [kind])
  | array xs ih =>
    cases w with
    | array zs =>
      obtain ⟨ys, hys, rfl⟩ := canon_array.mp hc
      obtain ⟨us, hus, rfl⟩ := canon_array.mp hd
      rw [Value.array.injEq, Value.equiv_array]
      refine eq_iff_forall₂ hys hus fun x hx z hz y u hxy hzu => ?_
      exact ih x hx (Value.wf_array.mp hv x hx) (Value.wf_array.mp hw z hz) hxy hzu
    | _ => exact canon_eq_iff_of_kind_ne hc hd (by simp [kind])
  | object ms ih =>
    cases w with
    | object ns =>
      obtain ⟨hnodup, hwf⟩ := Value.wf_object.mp hv
      obtain ⟨ms', hms, rfl⟩ := canon_object.mp hc
      obtain ⟨ns', hns, rfl⟩ := canon_object.mp hd
      rw [Value.object.injEq, sortMembers_eq_iff (keys_eq_of_canonMember hms ▸ hnodup)]
      refine perm_iff_of_canonMember hms hns fun m hm n hn x y hx hy => ?_
      exact ih m hm (hwf m hm) ((Value.wf_object.mp hw).2 n hn) hx hy
    | _ => exact canon_eq_iff_of_kind_ne hc hd (by simp [kind])

/-- The canonical form keeps the names distinct. -/
theorem wf_canon {v c : Value} (hv : v.wf = true) (hc : canon v = some c) : c.wf = true := by
  induction v generalizing c with
  | null | bool b | string s => cases hc; rfl
  | number n => obtain ⟨i, -, rfl⟩ := canon_number.mp hc; rfl
  | array xs ih =>
    obtain ⟨ys, hys, rfl⟩ := canon_array.mp hc
    rw [Value.wf_array] at hv ⊢
    intro y hy
    obtain ⟨x, hx, hxy⟩ := exists_of_mem_forall₂ hys hy
    exact ih x hx (hv x hx) hxy
  | object ms ih =>
    obtain ⟨ns, hns, rfl⟩ := canon_object.mp hc
    rw [Value.wf_object] at hv ⊢
    refine ⟨sortMembers_nodup (keys_eq_of_canonMember hns ▸ hv.1), fun n hn => ?_⟩
    obtain ⟨m, hm, hmn⟩ := exists_of_mem_forall₂ hns ((sortMembers_perm ns).mem_iff.mp hn)
    exact ih m hm (hv.2 m hm) hmn.2

/-- A canonical form is its own canonical form. -/
theorem canon_canon {v c : Value} (hv : v.wf = true) (hc : canon v = some c) :
    canon c = some c := by
  induction v generalizing c with
  | null | bool b | string s => cases hc; rfl
  | number n =>
    obtain ⟨i, hi, rfl⟩ := canon_number.mp hc
    exact canon_number.mpr ⟨i, safeInt_ofInt (safeInt_eq_some hi).2, rfl⟩
  | array xs ih =>
    obtain ⟨ys, hys, rfl⟩ := canon_array.mp hc
    refine canon_array.mpr ⟨ys, List.forall₂_same.mpr fun y hy => ?_, rfl⟩
    obtain ⟨x, hx, hxy⟩ := exists_of_mem_forall₂ hys hy
    exact ih x hx (Value.wf_array.mp hv x hx) hxy
  | object ms ih =>
    obtain ⟨ns, hns, rfl⟩ := canon_object.mp hc
    have hsorted : sortMembers (sortMembers ns) = sortMembers ns :=
      (sortMembers_pairwise ns).insertionSort_eq
    refine canon_object.mpr ⟨sortMembers ns, List.forall₂_same.mpr fun n hn => ⟨rfl, ?_⟩, by
      rw [hsorted]⟩
    obtain ⟨m, hm, hmn⟩ := exists_of_mem_forall₂ hns ((sortMembers_perm ns).mem_iff.mp hn)
    exact ih m hm ((Value.wf_object.mp hv).2 m hm) hmn.2

/-- The canonical form is the value, up to member order and number spelling. -/
theorem equiv_canon {v c : Value} (hv : v.wf = true) (hc : canon v = some c) : v.Equiv c :=
  (canon_eq_iff hv (wf_canon hv hc) hc (canon_canon hv hc)).mp rfl

/-- Under a key, the canonical form holds the canonical form. -/
theorem get_canon {v c : Value} (hv : v.wf = true) (hc : canon v = some c) {k : String} {x : Value}
    (hx : v.get k = some x) : ∃ y, c.get k = some y ∧ canon x = some y := by
  cases v with
  | object ms =>
    have hwf := wf_canon hv hc
    obtain ⟨ns, hns, rfl⟩ := canon_object.mp hc
    have hmem : (k, x) ∈ ms := (Value.lookup_eq_some_iff (Value.wf_object.mp hv).1).mp hx
    obtain ⟨⟨l, y⟩, hn, hl, hy⟩ := exists_of_mem_forall₂ hns.flip hmem
    obtain rfl : k = l := hl
    refine ⟨y, (Value.lookup_eq_some_iff (Value.wf_object.mp hwf).1).mpr ?_, hy⟩
    exact (sortMembers_perm ns).mem_iff.mpr hn
  | _ => simp [Value.get] at hx

theorem asStr_canon {x y : Value} (h : canon x = some y) {s : String} (hs : x.asStr = some s) :
    y.asStr = some s := by
  cases x with
  | string t => cases h; exact hs
  | _ => simp [Value.asStr] at hs

/-- A natural number keeps its spelling. -/
theorem asU64_canon {x y : Value} (h : canon x = some y) {n : UInt64} (hn : x.asU64 = some n) :
    y.asU64 = some n := by
  cases x with
  | number m =>
    cases m with
    | posInt m =>
      obtain ⟨i, hi, rfl⟩ := canon_number.mp h
      obtain rfl : m = n := by simpa [Value.asU64, Number.asU64] using hn
      rw [safeInt_posInt] at hi
      split_ifs at hi with hle
      obtain rfl : (m.toNat : Int) = i := Option.some.inj hi
      have hneg : ¬(-2 ^ 63 ≤ (m.toNat : Int) ∧ (m.toNat : Int) < 0) := by omega
      rw [ofInt, dif_neg hneg]
      simp [Value.asU64, Number.asU64]
    | _ => simp [Value.asU64, Number.asU64] at hn
  | _ => simp [Value.asU64] at hn

/-- The canonical form of an object without a member is that of its canonical form without it. -/
theorem canon_swapRemove {k : String} {x d : Value} {ms ns : List (String × Value)}
    (hv : (Value.object ms).wf = true) (hc : canon (.object ms) = some (.object ns))
    (hx : ms.lookup k = some x) (hd : canon (.object (Value.swapRemove k ms)) = some d) :
    canon (.object (Value.swapRemove k ns)) = some d := by
  obtain ⟨y, hy, hxy⟩ := get_canon hv hc hx
  obtain ⟨ns', hns', heq⟩ := canon_object.mp hc
  obtain rfl : ns = sortMembers ns' := Value.object.inj heq
  obtain ⟨rest, hrest, rfl⟩ := canon_object.mp hd
  -- both sides hold the canonical members other than `k`
  have hperm : (Value.swapRemove k (sortMembers ns')).Perm rest := by
    have hleft := Value.perm_swapRemove (show (sortMembers ns').lookup k = some y from hy)
    have hcons : List.Forall₂ CanonMember ((k, x) :: Value.swapRemove k ms) ((k, y) :: rest) :=
      .cons ⟨rfl, hxy⟩ hrest
    obtain ⟨us, hus, hp⟩ := List.perm_comp_forall₂ (Value.perm_swapRemove hx) hcons
    have hsame : us = ns' := Option.some.inj
      ((canonMembers_eq_some.mpr hus).symm.trans (canonMembers_eq_some.mpr hns'))
    exact (hleft.symm.trans ((sortMembers_perm ns').trans (hsame ▸ hp))).cons_inv
  have hself : List.Forall₂ CanonMember (Value.swapRemove k (sortMembers ns'))
      (Value.swapRemove k (sortMembers ns')) := by
    refine List.forall₂_same.mpr fun n hn => ⟨rfl, ?_⟩
    obtain ⟨m, hm, hmn⟩ := exists_of_mem_forall₂ hrest (hperm.mem_iff.mp hn)
    exact canon_canon ((Value.wf_object.mp (Value.wf_swapRemove hv)).2 m hm) hmn.2
  refine canon_object.mpr ⟨_, hself, ?_⟩
  have hnodup := (Value.wf_object.mp (Value.wf_swapRemove (k := k) (wf_canon hv hc))).1
  rw [(sortMembers_eq_iff hnodup).mpr hperm]

/-! ## Printing -/

/-- A character inside a string: the two-character escapes, four lower-case hexadecimal digits for
the other control characters, and everything else as it stands. -/
def escape (c : Char) : List Char :=
  if c = '\"' then ['\\', '\"']
  else if c = '\\' then ['\\', '\\']
  else if c = '\x08' then ['\\', 'b']
  else if c = '\t' then ['\\', 't']
  else if c = '\n' then ['\\', 'n']
  else if c = '\x0c' then ['\\', 'f']
  else if c = '\r' then ['\\', 'r']
  else if c.toNat < 0x20 then
    ['\\', 'u', hexChar (c.toNat / 0x1000 % 16), hexChar (c.toNat / 0x100 % 16),
      hexChar (c.toNat / 0x10 % 16), hexChar (c.toNat % 16)]
  else [c]

/-- The text between the quotes of a string. -/
def printBody (s : String) : List Char := (chars s).flatMap escape

/-- The integer spelled by a canonical number. -/
def intOf : Number → Int
  | .posInt n => n.toNat
  | .negInt i _ => i
  | .float f => f.toI64

mutual

/-- The text of a canonical value, without white space. -/
def print : Value → List Char
  | .null => ['n', 'u', 'l', 'l']
  | .bool true => ['t', 'r', 'u', 'e']
  | .bool false => ['f', 'a', 'l', 's', 'e']
  | .number n => printInt (intOf n)
  | .string s => '\"' :: (printBody s ++ ['\"'])
  | .array items => '[' :: (printItems items ++ [']'])
  | .object members => '\x7b' :: (printMembers members ++ ['\x7d'])

def printItems : List Value → List Char
  | [] => []
  | [x] => print x
  | x :: y :: ys => print x ++ ',' :: printItems (y :: ys)

def printMembers : List (String × Value) → List Char
  | [] => []
  | [(k, v)] => '\"' :: (printBody k ++ '\"' :: ':' :: print v)
  | (k, v) :: m :: ms =>
    '\"' :: (printBody k ++ '\"' :: ':' :: (print v ++ ',' :: printMembers (m :: ms)))

end

theorem intOf_ofInt {i : Int} (h : i.natAbs ≤ maxSafe) : intOf (ofInt i) = i := by
  have hm : maxSafe = 2 ^ 53 - 1 := rfl
  unfold ofInt
  split_ifs with hneg
  · rfl
  · have h0 : 0 ≤ i := by omega
    have hlt : i.toNat < 2 ^ 64 := by omega
    simp only [intOf, UInt64.toNat_ofNat_of_lt' hlt, Int.toNat_of_nonneg h0]

theorem hexDigit_hexChar {n : Nat} (h : n < 16) : hexDigit (hexChar n) = some n := by
  interval_cases n <;> decide

theorem hex4_hexChar {n : Nat} (h : n < 0x10000) :
    hex4 (hexChar (n / 0x1000 % 16)) (hexChar (n / 0x100 % 16)) (hexChar (n / 0x10 % 16))
      (hexChar (n % 16)) = some n := by
  have hmod : ∀ k, k % 16 < 16 := fun k => Nat.mod_lt k (by decide)
  simp only [hex4, hexDigit_hexChar (hmod _), Option.some.injEq]
  omega

/-- Every character is printed as a text that denotes it. -/
theorem stringBody_escape (c : Char) {t s : List Char} (hts : StringBody t s) :
    StringBody (escape c ++ t) (c :: s) := by
  unfold escape
  split_ifs with hq hb h8 h9 ha hc hd hctl
  all_goals try (subst_vars; exact .escape (by decide) hts)
  · have hn := hex4_hexChar (n := c.toNat) (by omega)
    have hbody := StringBody.unicode hn (by omega) hts
    rwa [Char.ofNat_toNat] at hbody
  · exact .plain (by omega) hq hb hts

theorem stringBody_print (s : String) : StringBody (printBody s) s.toList := by
  rw [printBody, chars_eq]
  induction s.toList with
  | nil => exact .nil
  | cons c cs ih => exact stringBody_escape c ih

theorem elementsText_printItems {fl : List Char → Option F64} {xs : List Value} (hne : xs ≠ [])
    (h : ∀ x ∈ xs, ValueText fl (print x) x) : ElementsText fl (printItems xs) xs := by
  induction xs with
  | nil => exact absurd rfl hne
  | cons x xs ih =>
    have hx := h x List.mem_cons_self
    cases xs with
    | nil => simpa [printItems] using ElementsText.one Ws.nil hx Ws.nil
    | cons y ys =>
      have hys := ih (by simp) fun z hz => h z (List.mem_cons_of_mem x hz)
      simpa [printItems] using ElementsText.cons Ws.nil hx Ws.nil hys

theorem membersText_printMembers {fl : List Char → Option F64} {ms : List (String × Value)}
    (hne : ms ≠ []) (h : ∀ m ∈ ms, ValueText fl (print m.2) m.2) :
    MembersText fl (printMembers ms) ms := by
  induction ms with
  | nil => exact absurd rfl hne
  | cons m ms ih =>
    obtain ⟨k, v⟩ := m
    have hv : ValueText fl (print v) v := h (k, v) List.mem_cons_self
    have hk := stringBody_print k
    cases ms with
    | nil => simpa [printMembers] using MembersText.one Ws.nil hk Ws.nil Ws.nil hv Ws.nil
    | cons n ns =>
      have hns := ih (by simp) fun p hp => h p (List.mem_cons_of_mem (k, v) hp)
      simpa [printMembers] using MembersText.cons Ws.nil hk Ws.nil Ws.nil hv Ws.nil hns

/-- **The printed canonical form is a JSON value text that denotes it**, whatever reads the
literals that are not integers. -/
theorem valueText_print (fl : List Char → Option F64) {v c : Value} (hv : v.wf = true)
    (hc : canon v = some c) : ValueText fl (print c) c := by
  induction v generalizing c with
  | null => cases hc; exact .null
  | bool b => cases hc; cases b; exacts [.false, .true]
  | string s =>
    cases hc
    simpa [print] using @ValueText.string fl _ _ (stringBody_print s)
  | number n =>
    obtain ⟨i, hi, rfl⟩ := canon_number.mp hc
    have hsafe := (safeInt_eq_some hi).2
    rw [print, intOf_ofInt hsafe]
    exact .number (numberText_printInt fl hsafe)
  | array xs ih =>
    obtain ⟨ys, hys, rfl⟩ := canon_array.mp hc
    by_cases hne : ys = []
    · subst hne
      exact .emptyArray Ws.nil
    · refine .array (elementsText_printItems hne fun y hy => ?_)
      obtain ⟨x, hx, hxy⟩ := exists_of_mem_forall₂ hys hy
      exact ih x hx (Value.wf_array.mp hv x hx) hxy
  | object ms ih =>
    obtain ⟨hnodup, hwf⟩ := Value.wf_object.mp hv
    obtain ⟨ns, hns, rfl⟩ := canon_object.mp hc
    by_cases hne : sortMembers ns = []
    · rw [hne]
      exact .emptyObject Ws.nil
    · have hmembers : MembersText fl (printMembers (sortMembers ns)) (sortMembers ns) := by
        refine membersText_printMembers hne fun n hn => ?_
        obtain ⟨m, hm, hmn⟩ := exists_of_mem_forall₂ hns ((sortMembers_perm ns).mem_iff.mp hn)
        exact ih m hm (hwf m hm) hmn.2
      -- the names are distinct, so no later member replaces an earlier one
      have hobject := ValueText.object hmembers
      rwa [ofMembers_of_nodup (sortMembers_nodup (keys_eq_of_canonMember hns ▸ hnodup))] at hobject

/-- The text determines the canonical form. -/
theorem print_inj {v w c d : Value} (hv : v.wf = true) (hw : w.wf = true) (hc : canon v = some c)
    (hd : canon w = some d) (h : print c = print d) : c = d := by
  have htext := (valueText_print (fun _ => none) hv hc).jsonText
  rw [h] at htext
  exact htext.unique (valueText_print (fun _ => none) hw hd).jsonText

/-! ### No control characters -/

theorem le_of_mem_escape {c d : Char} (h : d ∈ escape c) : 0x20 ≤ d.toNat := by
  have hhex : ∀ k, 0x20 ≤ (hexChar (k % 16)).toNat := by
    intro k
    have hk : k % 16 < 16 := Nat.mod_lt k (by decide)
    interval_cases k % 16 <;> decide
  unfold escape at h
  split_ifs at h <;>
    simp only [List.mem_cons, List.not_mem_nil, or_false] at h
  all_goals try (rcases h with rfl | rfl <;> decide)
  · rcases h with rfl | rfl | rfl | rfl | rfl | rfl
    · decide
    · decide
    all_goals exact hhex _
  · subst h
    omega

theorem le_of_mem_printBody {s : String} {c : Char} (h : c ∈ printBody s) : 0x20 ≤ c.toNat := by
  obtain ⟨d, -, hd⟩ := List.mem_flatMap.mp h
  exact le_of_mem_escape hd

theorem le_of_mem_printInt {i : Int} {c : Char} (h : c ∈ printInt i) : 0x20 ≤ c.toNat := by
  rcases List.mem_append.mp h with h | h
  · unfold minus at h
    split_ifs at h
    · cases List.mem_singleton.mp h
      decide
    · cases h
  · have hd := Nat.isDigit_of_mem_toDigits (by decide) (by decide) h
    simp only [Char.isDigit, Bool.and_eq_true, decide_eq_true_eq, ge_iff_le,
      UInt32.le_iff_toNat_le] at hd
    have h48 : '0'.val.toNat = 48 := rfl
    have hval : c.toNat = c.val.toNat := rfl
    omega

theorem le_of_mem_printItems {xs : List Value} (h : ∀ x ∈ xs, ∀ c ∈ print x, 0x20 ≤ c.toNat) :
    ∀ c ∈ printItems xs, 0x20 ≤ c.toNat := by
  induction xs with
  | nil => simp [printItems]
  | cons x xs ih =>
    have hx := h x List.mem_cons_self
    have hxs := ih fun y hy => h y (List.mem_cons_of_mem x hy)
    cases xs with
    | nil => simpa [printItems] using hx
    | cons y ys =>
      simp only [printItems, List.mem_append, List.mem_cons]
      rintro c (hc | rfl | hc)
      · exact hx c hc
      · decide
      · exact hxs c hc

theorem le_of_mem_printMembers {ms : List (String × Value)}
    (h : ∀ m ∈ ms, ∀ c ∈ print m.2, 0x20 ≤ c.toNat) :
    ∀ c ∈ printMembers ms, 0x20 ≤ c.toNat := by
  induction ms with
  | nil => simp [printMembers]
  | cons m ms ih =>
    obtain ⟨k, v⟩ := m
    have hv : ∀ c ∈ print v, 0x20 ≤ c.toNat := h (k, v) List.mem_cons_self
    have hms := ih fun n hn => h n (List.mem_cons_of_mem (k, v) hn)
    cases ms with
    | nil =>
      simp only [printMembers, List.mem_append, List.mem_cons]
      rintro c (rfl | hc | rfl | rfl | hc)
      exacts [by decide, le_of_mem_printBody hc, by decide, by decide, hv c hc]
    | cons n ns =>
      simp only [printMembers, List.mem_append, List.mem_cons]
      rintro c (rfl | hc | rfl | rfl | hc | rfl | hc)
      exacts [by decide, le_of_mem_printBody hc, by decide, by decide, hv c hc, by decide,
        hms c hc]

/-- A printed value has no control characters. -/
theorem le_of_mem_print (v : Value) : ∀ c ∈ print v, 0x20 ≤ c.toNat := by
  induction v with
  | null => simp [print]
  | bool b => cases b <;> simp [print]
  | number n => exact fun c hc => le_of_mem_printInt hc
  | string s =>
    simp only [print, List.mem_append, List.mem_cons, List.not_mem_nil, or_false]
    rintro c (rfl | hc | rfl)
    exacts [by decide, le_of_mem_printBody hc, by decide]
  | array xs ih =>
    simp only [print, List.mem_append, List.mem_cons, List.not_mem_nil, or_false]
    rintro c (rfl | hc | rfl)
    exacts [by decide, le_of_mem_printItems ih c hc, by decide]
  | object ms ih =>
    simp only [print, List.mem_append, List.mem_cons, List.not_mem_nil, or_false]
    rintro c (rfl | hc | rfl)
    exacts [by decide, le_of_mem_printMembers ih c hc, by decide]

end Sealr.Lib.Rfc8785
