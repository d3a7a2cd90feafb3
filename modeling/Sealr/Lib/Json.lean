import Mathlib.Data.List.Forall2
import Mathlib.Data.List.Nodup
import Mathlib.Data.List.Perm.Basic
import Mathlib.Data.Rat.Defs
import Mathlib.Data.Rat.Cast.Order
import Mathlib.Algebra.Order.Ring.Rat
import Sealr.Lib.Bytes

/-!
# JSON values

The value type of a JSON library that keeps object members in insertion order and reads numbers
as unsigned integers, negative integers or finite doubles. An object's keys are distinct: `Json`
carries that fact, hereditarily, with the value.

`Value.Equiv` is equality up to the order of object members at every level and up to the spelling
of numbers (an integer and an integral double of the same numeric value).
-/

namespace Sealr.Lib

/-! ## Finite doubles -/

/-- A finite IEEE 754 binary64 number: the biased exponent 2047 (infinities, NaNs) is left out. -/
structure F64 where
  sign : Bool
  exponent : Fin 2047
  fraction : Fin (2 ^ 52)
  deriving DecidableEq, Repr

namespace F64

/-- The integer significand, with the hidden bit of a normal number. -/
def significand (f : F64) : Int :=
  let m : Int := if f.exponent.val = 0 then f.fraction.val else 2 ^ 52 + f.fraction.val
  if f.sign then -m else m

/-- The number as an exact rational: the significand scaled by `2 ^ (exponent - 1075)`. -/
def toRat (f : F64) : ℚ :=
  if 1075 ≤ f.exponent.val then ((f.significand * 2 ^ (f.exponent.val - 1075) : Int) : ℚ)
  else mkRat f.significand (2 ^ (1075 - max f.exponent.val 1))

/-- `fract() == 0.0`. -/
def isIntegral (f : F64) : Bool := f.toRat.den = 1

/-- The cast to a signed 64-bit integer: towards zero, saturating. -/
def toI64 (f : F64) : Int :=
  max (-2 ^ 63) (min (2 ^ 63 - 1) (f.toRat.num.tdiv f.toRat.den))

/-- An integral double is the integer it casts to, as long as that is in range. -/
theorem toRat_eq_toI64 {f : F64} (h : f.isIntegral) (hle : |f.toRat| ≤ 2 ^ 63 - 1) :
    f.toRat = f.toI64 := by
  have hden : f.toRat.den = 1 := by simpa [isIntegral] using h
  have hnum : f.toRat = f.toRat.num := (Rat.den_eq_one_iff _).mp hden |>.symm
  have habs : |f.toRat.num| ≤ 2 ^ 63 - 1 := by
    rw [hnum] at hle
    exact_mod_cast hle
  have hcast : f.toI64 = f.toRat.num := by
    simp only [toI64, hden, Nat.cast_one, Int.tdiv_one]
    rw [abs_le] at habs
    omega
  rw [hcast]
  exact hnum

end F64

/-! ## Numbers -/

/-- A JSON number as read: a `u64`, a negative `i64`, or a finite double. -/
inductive Number where
  | posInt (n : UInt64)
  | negInt (i : Int) (range : -2 ^ 63 ≤ i ∧ i < 0)
  | float (f : F64)
  deriving DecidableEq

namespace Number

/-- `as_u64`. -/
def asU64 : Number → Option UInt64
  | posInt n => some n
  | _ => none

/-- `as_i64`. -/
def asI64 : Number → Option Int
  | posInt n => if n.toNat ≤ 2 ^ 63 - 1 then some n.toNat else none
  | negInt i _ => some i
  | float _ => none

/-- The double of a number that is neither a `u64` nor an `i64`. -/
def asFloat : Number → Option F64
  | float f => some f
  | _ => none

/-- The numeric value. -/
def toRat : Number → ℚ
  | posInt n => n.toNat
  | negInt i _ => i
  | float f => f.toRat

end Number

/-! ## Values -/

/-- A JSON value; object members are in insertion order. -/
inductive Value where
  | null
  | bool (b : Bool)
  | number (n : Number)
  | string (s : String)
  | array (items : List Value)
  | object (members : List (String × Value))

namespace Value

/-- Induction on a value, with the hypothesis for every item and every member's value. -/
@[elab_as_elim, induction_eliminator]
theorem ind {P : Value → Prop} (null : P null) (bool : ∀ b, P (bool b))
    (number : ∀ n, P (number n)) (string : ∀ s, P (string s))
    (array : ∀ items, (∀ x ∈ items, P x) → P (array items))
    (object : ∀ members, (∀ m ∈ members, P m.2) → P (object members)) (v : Value) : P v := by
  refine @Value.rec P (fun items => ∀ x ∈ items, P x) (fun members => ∀ m ∈ members, P m.2)
    (fun m => P m.2) null bool number string array object ?_ ?_ ?_ ?_ (fun _ _ h => h) v
  · intro x hx; cases hx
  · intro x xs hx hxs y hy
    rcases List.mem_cons.mp hy with rfl | hy
    · exact hx
    · exact hxs y hy
  · intro m hm; cases hm
  · intro m ms hm hms n hn
    rcases List.mem_cons.mp hn with rfl | hn
    · exact hm
    · exact hms n hn

/-! ### Distinct keys -/

mutual

/-- Every object in the value has distinct keys. -/
def wf : Value → Bool
  | array items => wfItems items
  | object members => decide (members.map Prod.fst).Nodup && wfMembers members
  | _ => true

def wfItems : List Value → Bool
  | [] => true
  | x :: xs => wf x && wfItems xs

def wfMembers : List (String × Value) → Bool
  | [] => true
  | (_, v) :: ms => wf v && wfMembers ms

end

theorem wfItems_iff (xs : List Value) : wfItems xs = true ↔ ∀ x ∈ xs, x.wf = true := by
  induction xs with
  | nil => exact ⟨fun _ => List.forall_mem_nil _, fun _ => rfl⟩
  | cons x xs ih =>
    have hcons : wfItems (x :: xs) = (wf x && wfItems xs) := rfl
    rw [hcons, Bool.and_eq_true, ih, List.forall_mem_cons]

theorem wfMembers_iff (ms : List (String × Value)) :
    wfMembers ms = true ↔ ∀ m ∈ ms, m.2.wf = true := by
  induction ms with
  | nil => exact ⟨fun _ => List.forall_mem_nil _, fun _ => rfl⟩
  | cons m ms ih =>
    have hcons : wfMembers (m :: ms) = (wf m.2 && wfMembers ms) := rfl
    rw [hcons, Bool.and_eq_true, ih, List.forall_mem_cons]

theorem wf_array {xs : List Value} : (array xs).wf = true ↔ ∀ x ∈ xs, x.wf = true :=
  wfItems_iff xs

theorem wf_object {ms : List (String × Value)} :
    (object ms).wf = true ↔ (ms.map Prod.fst).Nodup ∧ ∀ m ∈ ms, m.2.wf = true := by
  have hwf : (object ms).wf = (decide (ms.map Prod.fst).Nodup && wfMembers ms) := rfl
  rw [hwf, Bool.and_eq_true, decide_eq_true_iff, wfMembers_iff]

/-! ### Reading -/

/-- The members of an object. -/
def asObject : Value → Option (List (String × Value))
  | object members => some members
  | _ => none

/-- `as_str`. -/
def asStr : Value → Option String
  | string s => some s
  | _ => none

/-- `as_u64`. -/
def asU64 : Value → Option UInt64
  | number n => n.asU64
  | _ => none

/-- The member of an object under a key. -/
def get (v : Value) (key : String) : Option Value :=
  match v with
  | object members => members.lookup key
  | _ => none

/-! ### Equality up to member order and number spelling -/

mutual

/-- Equality up to the order of object members and the spelling of numbers, at every level. -/
def Equiv : Value → Value → Prop
  | null, null => True
  | bool a, bool b => a = b
  | number n, number m => n.toRat = m.toRat
  | string s, string t => s = t
  | array xs, array ys => EquivItems xs ys
  | object ms, object ns => ∃ ns', ns'.Perm ns ∧ EquivMembers ms ns'
  | _, _ => False

def EquivItems : List Value → List Value → Prop
  | [], [] => True
  | x :: xs, y :: ys => Equiv x y ∧ EquivItems xs ys
  | _, _ => False

def EquivMembers : List (String × Value) → List (String × Value) → Prop
  | [], [] => True
  | (k, v) :: ms, (l, w) :: ns => k = l ∧ Equiv v w ∧ EquivMembers ms ns
  | _, _ => False

end

theorem equivItems_iff (xs ys : List Value) : EquivItems xs ys ↔ List.Forall₂ Equiv xs ys := by
  induction xs generalizing ys with
  | nil =>
    cases ys with
    | nil => exact ⟨fun _ => .nil, fun _ => trivial⟩
    | cons y ys => exact ⟨fun h => False.elim h, fun h => by cases h⟩
  | cons x xs ih =>
    cases ys with
    | nil => exact ⟨fun h => False.elim h, fun h => by cases h⟩
    | cons y ys =>
      rw [List.forall₂_cons, ← ih]
      rfl

theorem equivMembers_iff (ms ns : List (String × Value)) :
    EquivMembers ms ns ↔ List.Forall₂ (fun m n => m.1 = n.1 ∧ Equiv m.2 n.2) ms ns := by
  induction ms generalizing ns with
  | nil =>
    cases ns with
    | nil => exact ⟨fun _ => .nil, fun _ => trivial⟩
    | cons n ns => exact ⟨fun h => False.elim h, fun h => by cases h⟩
  | cons m ms ih =>
    cases ns with
    | nil => exact ⟨fun h => False.elim h, fun h => by cases h⟩
    | cons n ns =>
      rw [List.forall₂_cons, ← ih, and_assoc]
      rfl

theorem equiv_array {xs ys : List Value} :
    Equiv (array xs) (array ys) ↔ List.Forall₂ Equiv xs ys :=
  equivItems_iff xs ys

theorem equiv_object {ms ns : List (String × Value)} :
    Equiv (object ms) (object ns) ↔
      ∃ ns', ns'.Perm ns ∧ List.Forall₂ (fun m n => m.1 = n.1 ∧ Equiv m.2 n.2) ms ns' :=
  exists_congr fun ns' => and_congr_right fun _ => equivMembers_iff ms ns'

/-- A value equivalent to an object is an object. -/
theorem Equiv.object_left {ms : List (String × Value)} {w : Value} (h : Equiv (object ms) w) :
    ∃ ns, w = object ns := by
  cases w with
  | object ns => exact ⟨ns, rfl⟩
  | _ => exact False.elim h

theorem Equiv.refl (v : Value) : Equiv v v := by
  induction v with
  | null => trivial
  | bool b => rfl
  | number n => rfl
  | string s => rfl
  | array xs ih => exact equiv_array.mpr (List.forall₂_same.mpr ih)
  | object ms ih =>
    exact equiv_object.mpr ⟨ms, .refl _, List.forall₂_same.mpr fun m hm => ⟨rfl, ih m hm⟩⟩

/-- Equivalent strings are equal. -/
theorem Equiv.asStr_eq {v w : Value} {s t : String} (h : Equiv v w) (hv : v.asStr = some s)
    (hw : w.asStr = some t) : s = t := by
  cases v with
  | string a =>
    cases w with
    | string b =>
      have hab : a = b := h
      exact Option.some.inj (hv.symm.trans ((congrArg some hab).trans hw))
    | _ => cases hw
  | _ => cases hv

/-- Equivalent integers are equal. -/
theorem Equiv.asU64_eq {v w : Value} {a b : UInt64} (h : Equiv v w) (hv : v.asU64 = some a)
    (hw : w.asU64 = some b) : a = b := by
  cases v with
  | number n =>
    cases w with
    | number m =>
      have hnm : n.toRat = m.toRat := h
      cases n <;> cases m <;> simp_all [asU64, Number.asU64, Number.toRat]
      exact UInt64.toNat_inj.mp hnm
    | _ => simp [asU64] at hw
  | _ => simp [asU64] at hv

/-- Looking a key up in a list with distinct keys finds exactly its member. -/
theorem lookup_eq_some_iff {α β : Type} [BEq α] [LawfulBEq α] {ms : List (α × β)}
    (hd : (ms.map Prod.fst).Nodup) {k : α} {v : β} : ms.lookup k = some v ↔ (k, v) ∈ ms := by
  induction ms with
  | nil => simp
  | cons m ms ih =>
    obtain ⟨l, w⟩ := m
    simp only [List.map_cons, List.nodup_cons] at hd
    by_cases hkl : k = l
    · subst hkl
      have hnot : (k, v) ∉ ms := fun hm => hd.1 (List.mem_map_of_mem (f := Prod.fst) hm)
      simp [hnot, eq_comm]
    · have hbeq : (k == l) = false := beq_false_of_ne hkl
      simp [List.lookup_cons, hbeq, hkl, ih hd.2]

/-- Equivalent objects hold equivalent values under one key. -/
theorem Equiv.get {v w : Value} (hv : v.wf = true) (hw : w.wf = true) (h : Equiv v w)
    {k : String} {x : Value} (hx : v.get k = some x) : ∃ y, w.get k = some y ∧ Equiv x y := by
  cases v with
  | object ms =>
    obtain ⟨ns, rfl⟩ := h.object_left
    obtain ⟨ns', hperm, hall⟩ := equiv_object.mp h
    have hmem : (k, x) ∈ ms := (lookup_eq_some_iff (wf_object.mp hv).1).mp hx
    obtain ⟨i, hi, hgi⟩ := List.getElem_of_mem hmem
    have hi' : i < ns'.length := hall.length_eq ▸ hi
    have hrel := hall.get hi hi'
    simp only [List.get_eq_getElem, hgi] at hrel
    refine ⟨ns'[i].2, (lookup_eq_some_iff (wf_object.mp hw).1).mpr ?_, hrel.2⟩
    have : (k, ns'[i].2) = ns'[i] := by rw [hrel.1]
    rw [this]
    exact hperm.subset (List.getElem_mem hi')
  | _ => simp [Value.get] at hx

/-- Equivalent objects have the same keys. -/
theorem Equiv.get_none {v w : Value} (h : Equiv v w) {k : String} (hk : v.get k = none) :
    w.get k = none := by
  cases v with
  | object ms =>
    obtain ⟨ns, rfl⟩ := h.object_left
    obtain ⟨ns', hperm, hall⟩ := equiv_object.mp h
    have hkeys : ns'.map Prod.fst = ms.map Prod.fst := by
      clear hk h hperm
      induction hall with
      | nil => rfl
      | cons hmn _ ih => rw [List.map_cons, List.map_cons, ih, hmn.1]
    apply List.lookup_eq_none_iff.mpr
    intro n hn
    rw [bne_iff_ne]
    intro heq
    have hmem : k ∈ ms.map Prod.fst := by
      rw [← hkeys, heq]
      exact List.mem_map_of_mem (hperm.mem_iff.mpr hn)
    obtain ⟨m, hm, rfl⟩ := List.mem_map.mp hmem
    have hnot := List.lookup_eq_none_iff.mp hk m hm
    simp at hnot
  | _ =>
    cases w with
    | object ns => exact False.elim h
    | _ => rfl

end Value

namespace Value

/-! ### Removing a member -/

/-- Remove a member as an index map does: the last member takes its place. -/
def swapRemove (k : String) : List (String × Value) → List (String × Value)
  | [] => []
  | m :: ms =>
    if m.1 = k then
      match ms.getLast? with
      | none => []
      | some l => l :: ms.dropLast
    else m :: swapRemove k ms

/-- The member removed and the rest are all members. -/
theorem perm_swapRemove {k : String} {v : Value} {ms : List (String × Value)}
    (h : ms.lookup k = some v) : ms.Perm ((k, v) :: swapRemove k ms) := by
  induction ms with
  | nil => simp at h
  | cons m ms ih =>
    obtain ⟨l, w⟩ := m
    by_cases hl : l = k
    · subst hl
      obtain rfl : w = v := by simpa using h
      simp only [swapRemove, ↓reduceIte]
      refine .cons _ ?_
      rcases ms.eq_nil_or_concat with rfl | ⟨ms, m, rfl⟩
      · simp
      · simp
    · have hbeq : (k == l) = false := beq_false_of_ne (Ne.symm hl)
      simp only [swapRemove, hl, ↓reduceIte]
      have hlookup : ms.lookup k = some v := by simpa [List.lookup_cons, hbeq] using h
      exact ((ih hlookup).cons (l, w)).trans (.swap _ _ _)

theorem swapRemove_of_lookup_none {k : String} {ms : List (String × Value)}
    (h : ms.lookup k = none) : swapRemove k ms = ms := by
  induction ms with
  | nil => rfl
  | cons m ms ih =>
    obtain ⟨l, w⟩ := m
    by_cases hl : k = l
    · subst hl
      simp at h
    · have hbeq : (k == l) = false := beq_false_of_ne hl
      have hlookup : ms.lookup k = none := by simpa [List.lookup_cons, hbeq] using h
      simp [swapRemove, Ne.symm hl, ih hlookup]

theorem swapRemove_concat {k : String} {v : Value} {ms : List (String × Value)}
    (h : k ∉ ms.map Prod.fst) : swapRemove k (ms ++ [(k, v)]) = ms := by
  induction ms with
  | nil => simp [swapRemove]
  | cons m ms ih =>
    simp only [List.map_cons, List.mem_cons, not_or] at h
    simp [swapRemove, Ne.symm h.1, ih h.2]

/-- What is left does not depend on the value of the member removed. -/
theorem swapRemove_middle {k : String} (v w : Value) {ms ns : List (String × Value)}
    (h : k ∉ ms.map Prod.fst) :
    swapRemove k (ms ++ (k, v) :: ns) = swapRemove k (ms ++ (k, w) :: ns) := by
  induction ms with
  | nil => simp [swapRemove]
  | cons m ms ih =>
    simp only [List.map_cons, List.mem_cons, not_or] at h
    simp [swapRemove, Ne.symm h.1, ih h.2]

theorem wf_swapRemove {k : String} {ms : List (String × Value)}
    (h : (object ms).wf = true) : (object (swapRemove k ms)).wf = true := by
  cases hl : ms.lookup k with
  | none => rwa [swapRemove_of_lookup_none hl]
  | some v =>
    obtain ⟨hnodup, hwf⟩ := wf_object.mp h
    have hperm := perm_swapRemove hl
    have hkeys := (hperm.map Prod.fst).nodup_iff.mp hnodup
    refine wf_object.mpr ⟨(List.nodup_cons.mp hkeys).2, fun m hm => hwf m ?_⟩
    exact hperm.mem_iff.mpr (List.mem_cons_of_mem _ hm)

/-- Removing one key leaves the others as they were. -/
theorem get_swapRemove {k l : String} {ms : List (String × Value)} (h : (object ms).wf = true)
    (hkl : l ≠ k) : (object (swapRemove k ms)).get l = (object ms).get l := by
  cases hlookup : ms.lookup k with
  | none => rw [swapRemove_of_lookup_none hlookup]
  | some v =>
    have hperm := perm_swapRemove hlookup
    have hiff : ∀ w, (l, w) ∈ swapRemove k ms ↔ (l, w) ∈ ms := by
      intro w
      rw [hperm.mem_iff, List.mem_cons, Prod.mk.injEq]
      simp [hkl]
    refine Option.ext fun w => ?_
    simp only [get]
    rw [lookup_eq_some_iff (wf_object.mp (wf_swapRemove h)).1,
      lookup_eq_some_iff (wf_object.mp h).1, hiff]

/-- Objects are equivalent when one member of each is and the rest are. -/
theorem equiv_of_swapRemove {k : String} {v w : Value} {ms ns : List (String × Value)}
    (hv : ms.lookup k = some v) (hw : ns.lookup k = some w) (h : Equiv v w)
    (hrest : Equiv (object (swapRemove k ms)) (object (swapRemove k ns))) :
    Equiv (object ms) (object ns) := by
  obtain ⟨rest, hperm, hall⟩ := equiv_object.mp hrest
  obtain ⟨ns', hns', hp⟩ := List.perm_comp_forall₂ (perm_swapRemove hv)
    (List.Forall₂.cons ⟨rfl, h⟩ hall : List.Forall₂ (fun m n => m.1 = n.1 ∧ Equiv m.2 n.2)
      ((k, v) :: swapRemove k ms) ((k, w) :: rest))
  exact equiv_object.mpr ⟨ns', hp.trans ((hperm.cons _).trans (perm_swapRemove hw).symm), hns'⟩

end Value

/-- A JSON value whose objects, at every level, have distinct keys. -/
@[ext]
structure Json where
  value : Value
  wf : value.wf = true

namespace Json

def str (s : String) : Json := ⟨.string s, rfl⟩

def u64 (n : UInt64) : Json := ⟨.number (.posInt n), rfl⟩

def bool (b : Bool) : Json := ⟨.bool b, rfl⟩

def array (items : List Json) : Json :=
  ⟨.array (items.map value), Value.wf_array.mpr (by
    simp only [List.mem_map, forall_exists_index, and_imp, forall_apply_eq_imp_iff₂]
    exact fun j _ => j.wf)⟩

/-- The members of a record: a field without a value is left out. -/
def members (fields : List (String × Option Json)) : List (String × Value) :=
  fields.filterMap fun f => f.2.map fun j => (f.1, j.value)

theorem members_append (fs gs : List (String × Option Json)) :
    members (fs ++ gs) = members fs ++ members gs := by
  simp [members, List.filterMap_append]

theorem keys_members_sublist (fields : List (String × Option Json)) :
    ((members fields).map Prod.fst).Sublist (fields.map Prod.fst) := by
  induction fields with
  | nil => exact .slnil
  | cons f fs ih =>
    obtain ⟨k, o⟩ := f
    cases o with
    | none => exact ih.cons k
    | some j => exact ih.cons_cons k

/-- A record as an object. -/
def ofFields (fields : List (String × Option Json)) (h : (fields.map Prod.fst).Nodup) : Json :=
  ⟨.object (members fields), Value.wf_object.mpr ⟨(keys_members_sublist fields).nodup h, by
    intro m hm
    obtain ⟨f, -, hf⟩ := List.mem_filterMap.mp hm
    obtain ⟨j, -, rfl⟩ := Option.map_eq_some_iff.mp hf
    exact j.wf⟩⟩

/-- A field is read back under its key. -/
theorem get_ofFields {fields : List (String × Option Json)} {h : (fields.map Prod.fst).Nodup}
    {k : String} {j : Json} (hk : (k, some j) ∈ fields) :
    (ofFields fields h).value.get k = some j.value := by
  refine (Value.lookup_eq_some_iff ((keys_members_sublist fields).nodup h)).mpr ?_
  exact List.mem_filterMap.mpr ⟨(k, some j), hk, rfl⟩

/-- A field without a value is not there. -/
theorem get_ofFields_none {fields : List (String × Option Json)}
    {h : (fields.map Prod.fst).Nodup} {k : String} (hk : (k, none) ∈ fields) :
    (ofFields fields h).value.get k = none := by
  apply List.lookup_eq_none_iff.mpr
  intro m hm
  rw [bne_iff_ne]
  intro heq
  obtain ⟨f, hf, hfm⟩ := List.mem_filterMap.mp hm
  obtain ⟨j, hj, rfl⟩ := Option.map_eq_some_iff.mp hfm
  have hsame : f = (k, none) := List.inj_on_of_nodup_map h hf hk heq.symm
  rw [hsame] at hj
  cases hj

/-- A name that no field has is not there. -/
theorem get_ofFields_absent {fields : List (String × Option Json)}
    {h : (fields.map Prod.fst).Nodup} {k : String} (hk : k ∉ fields.map Prod.fst) :
    (ofFields fields h).value.get k = none := by
  apply List.lookup_eq_none_iff.mpr
  intro m hm
  rw [bne_iff_ne]
  intro heq
  apply hk
  rw [heq]
  exact (keys_members_sublist fields).subset (List.mem_map_of_mem hm)

/-- Under one key, equivalent records hold equivalent values, or none. -/
theorem field_of_equiv {fs gs : List (String × Option Json)} {hf : (fs.map Prod.fst).Nodup}
    {hg : (gs.map Prod.fst).Nodup} (h : (ofFields fs hf).value.Equiv (ofFields gs hg).value)
    {k : String} {o p : Option Json} (ho : (k, o) ∈ fs) (hp : (k, p) ∈ gs) :
    (o = none ∧ p = none) ∨ ∃ i j, o = some i ∧ p = some j ∧ i.value.Equiv j.value := by
  cases o with
  | none =>
    have hnone := h.get_none (get_ofFields_none ho)
    cases p with
    | none => exact .inl ⟨rfl, rfl⟩
    | some j =>
      rw [get_ofFields hp] at hnone
      cases hnone
  | some i =>
    obtain ⟨y, hy, heq⟩ := h.get (ofFields fs hf).wf (ofFields gs hg).wf (get_ofFields ho)
    cases p with
    | none =>
      rw [get_ofFields_none hp] at hy
      cases hy
    | some j =>
      rw [get_ofFields hp] at hy
      cases hy
      exact .inr ⟨i, j, rfl, rfl, heq⟩

/-- Under one key, equivalent records hold the same string. -/
theorem str_of_equiv {fs gs : List (String × Option Json)} {hf : (fs.map Prod.fst).Nodup}
    {hg : (gs.map Prod.fst).Nodup} (h : (ofFields fs hf).value.Equiv (ofFields gs hg).value)
    {k s t : String} (hs : (k, some (str s)) ∈ fs) (ht : (k, some (str t)) ∈ gs) : s = t := by
  obtain ⟨hnone, -⟩ | ⟨_, _, hj, hj', heq⟩ := field_of_equiv h hs ht
  · cases hnone
  · cases hj
    cases hj'
    exact heq.asStr_eq rfl rfl

end Json

end Sealr.Lib
