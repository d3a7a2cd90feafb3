import Sealr.Lib.Rfc8785

/-!
# Decoders

Decoders that take the members of an object by name, optional ones among them, and may refuse any
other. What they read does not depend on the order of the members: from the canonical form of a value
a decoder reads what it reads from the value (`Stable`).
-/

namespace Sealr.Lib

open Rfc8785

abbrev Decoder (α : Type) := Value → Option α

namespace Decoder

variable {α β : Type}

def str : Decoder String := Value.asStr

def u64 : Decoder UInt64 := Value.asU64

/-- Any value. -/
def json : Decoder Json := fun v => if h : v.wf = true then some ⟨v, h⟩ else none

/-- A value of an enumeration, by its name. -/
def enum (values : List α) (name : α → String) : Decoder α := fun v => do
  let s ← str v
  values.find? fun a => name a = s

def list (d : Decoder α) : Decoder (List α)
  | .array items => items.mapM d
  | _ => none

/-- A member that has to be there. -/
def field (k : String) (d : Decoder α) : Decoder α := fun v => (v.get k).bind d

/-- A member that may be absent or null. -/
def optional (k : String) (d : Decoder α) : Decoder (Option α) := fun v =>
  match v.get k with
  | none | some .null => some none
  | some x => (d x).map some

/-- A member with a default. -/
def fieldOr (k : String) (d : Decoder α) (default : α) : Decoder α := fun v =>
  match v.get k with
  | none => some default
  | some x => d x

/-- Two decoders, told apart by a member that only the first knows. -/
def choice (k : String) (d e : Decoder α) : Decoder α := fun v =>
  if (v.get k).isSome then d v else e v

/-- An object that has no other members. -/
def strict (keys : List String) (d : Decoder α) : Decoder α
  | .object members => if ∀ m ∈ members, m.1 ∈ keys then d (.object members) else none
  | _ => none

/-! ## Reading the canonical form -/

/-- The canonical form of a value is decoded as the value. -/
def Stable (d : Decoder α) : Prop :=
  ∀ (v c : Value) (a : α), v.wf = true → canon v = some c → d v = some a → d c = some a

theorem stable_str : Stable str := fun _ _ _ _ hc hv => asStr_canon hc hv

theorem stable_u64 : Stable u64 := fun _ _ _ _ hc hv => asU64_canon hc hv

theorem stable_enum {values : List α} {name : α → String} : Stable (enum values name) := by
  intro v c a _ hc ha
  obtain ⟨s, hs, ha⟩ := Option.bind_eq_some_iff.mp ha
  exact Option.bind_eq_some_iff.mpr ⟨s, asStr_canon hc hs, ha⟩

theorem stable_pure (a : α) : Stable fun _ => pure a := fun _ _ _ _ _ h => h

/-- One member after another. -/
theorem stable_bind {d : Decoder α} {f : α → Decoder β} (hd : Stable d) (hf : ∀ a, Stable (f a)) :
    Stable fun v => d v >>= fun a => f a v := by
  intro v c b hv hc hb
  obtain ⟨a, ha, hb⟩ := Option.bind_eq_some_iff.mp hb
  exact Option.bind_eq_some_iff.mpr ⟨a, hd v c a hv hc ha, hf a v c b hv hc hb⟩

theorem stable_list {d : Decoder α} (hd : Stable d) : Stable (list d) := by
  intro v c as hv hc has
  cases v with
  | array xs =>
    obtain ⟨ys, hys, rfl⟩ := canon_array.mp hc
    rw [Value.wf_array] at hv
    change xs.mapM d = some as at has
    change ys.mapM d = some as
    clear hc
    induction hys generalizing as with
    | nil => exact has
    | cons hxy _ ih =>
      simp only [List.mapM_cons, Option.bind_eq_bind, Option.bind_eq_some_iff] at has ⊢
      obtain ⟨a, ha, as, hrest, heq⟩ := has
      refine ⟨a, hd _ _ a (hv _ List.mem_cons_self) hxy ha, as, ?_, heq⟩
      exact ih as (fun x hx => hv x (List.mem_cons_of_mem _ hx)) hrest
  | _ => cases has

/-- A name that is not there is not in the canonical form. -/
theorem get_canon_none {v c : Value} (hc : canon v = some c) {k : String} (hk : v.get k = none) :
    c.get k = none := by
  cases v with
  | object ms =>
    obtain ⟨ns, hns, rfl⟩ := canon_object.mp hc
    have hkeys : k ∉ ms.map Prod.fst := by
      intro hmem
      obtain ⟨m, hm, rfl⟩ := List.mem_map.mp hmem
      have := List.lookup_eq_none_iff.mp hk m hm
      simp at this
    apply List.lookup_eq_none_iff.mpr
    intro n hn
    rw [bne_iff_ne]
    intro heq
    apply hkeys
    rw [← keys_eq_of_canonMember hns, heq]
    exact List.mem_map_of_mem ((sortMembers_perm ns).mem_iff.mp hn)
  | number n =>
    obtain ⟨i, -, rfl⟩ := canon_number.mp hc
    rfl
  | array xs =>
    obtain ⟨ys, -, rfl⟩ := canon_array.mp hc
    rfl
  | null | bool b | string s =>
    cases hc
    rfl

theorem wf_of_get {v x : Value} (hv : v.wf = true) {k : String} (hx : v.get k = some x) :
    x.wf = true := by
  cases v with
  | object ms =>
    obtain ⟨hnodup, hwf⟩ := Value.wf_object.mp hv
    exact hwf (k, x) ((Value.lookup_eq_some_iff hnodup).mp hx)
  | _ => cases hx

theorem stable_field {k : String} {d : Decoder α} (hd : Stable d) : Stable (field k d) := by
  intro v c a hv hc ha
  obtain ⟨x, hx, ha⟩ := Option.bind_eq_some_iff.mp ha
  obtain ⟨y, hy, hxy⟩ := get_canon hv hc hx
  exact Option.bind_eq_some_iff.mpr ⟨y, hy, hd x y a (wf_of_get hv hx) hxy ha⟩

theorem stable_fieldOr {k : String} {d : Decoder α} {default : α} (hd : Stable d) :
    Stable (fieldOr k d default) := by
  intro v c a hv hc ha
  unfold fieldOr at ha ⊢
  cases hx : v.get k with
  | none =>
    rw [hx] at ha
    rw [get_canon_none hc hx]
    exact ha
  | some x =>
    rw [hx] at ha
    obtain ⟨y, hy, hxy⟩ := get_canon hv hc hx
    rw [hy]
    exact hd x y a (wf_of_get hv hx) hxy ha

/-- Only null is canonically null. -/
theorem canon_eq_null {x : Value} : canon x = some .null ↔ x = .null := by
  cases x with
  | null => simp [canon]
  | bool b => simp [canon]
  | string s => simp [canon]
  | number n => simp [canon]
  | array xs => simp [canon_array]
  | object ms => simp [canon_object]

theorem stable_optional {k : String} {d : Decoder α} (hd : Stable d) : Stable (optional k d) := by
  intro v c a hv hc ha
  unfold optional at ha ⊢
  cases hx : v.get k with
  | none =>
    rw [hx] at ha
    rw [get_canon_none hc hx]
    exact ha
  | some x =>
    obtain ⟨y, hy, hxy⟩ := get_canon hv hc hx
    rw [hx] at ha
    rw [hy]
    by_cases hnull : x = .null
    · subst hnull
      cases hxy
      exact ha
    · have hne : y ≠ .null := by
        intro heq
        exact hnull (canon_eq_null.mp (heq ▸ hxy))
      have hread : (d x).map some = some a := by
        split at ha
        · next heq => cases heq
        · next heq => exact absurd (Option.some.inj heq) hnull
        · next heq =>
          rw [Option.some.inj heq]
          exact ha
      obtain ⟨b, hb, rfl⟩ := Option.map_eq_some_iff.mp hread
      split
      · next heq => cases heq
      · next heq => exact absurd (Option.some.inj heq) hne
      · next heq =>
        rw [← Option.some.inj heq, hd x y b (wf_of_get hv hx) hxy hb]
        rfl

/-- The canonical form has no other members. -/
theorem strict_canon {keys : List String} {d : Decoder α} {ms : List (String × Value)} {c : Value}
    (hc : canon (.object ms) = some c) (hkeys : ∀ m ∈ ms, m.1 ∈ keys) : strict keys d c = d c := by
  obtain ⟨ns, hns, rfl⟩ := canon_object.mp hc
  refine if_pos fun n hn => ?_
  obtain ⟨m, hm, hmn⟩ := exists_of_mem_forall₂ hns ((sortMembers_perm ns).mem_iff.mp hn)
  rw [← hmn.1]
  exact hkeys m hm

theorem stable_strict {keys : List String} {d : Decoder α} (hd : Stable d) :
    Stable (strict keys d) := by
  intro v c a hv hc ha
  cases v with
  | object ms =>
    simp only [strict] at ha
    split_ifs at ha with hkeys
    rw [strict_canon hc hkeys]
    exact hd _ _ a hv hc ha
  | _ => cases ha

theorem stable_choice {k : String} {d e : Decoder α} (hd : Stable d) (he : Stable e) :
    Stable (choice k d e) := by
  intro v c a hv hc ha
  unfold choice at ha ⊢
  cases hx : v.get k with
  | none =>
    rw [hx] at ha
    rw [get_canon_none hc hx]
    exact he v c a hv hc ha
  | some x =>
    obtain ⟨y, hy, -⟩ := get_canon hv hc hx
    rw [hx] at ha
    rw [hy]
    exact hd v c a hv hc ha

/-- Values that a stable decoder reads are told apart by their canonical forms. -/
theorem Stable.eq_of_canon {d : Decoder α} (hd : Stable d) {v w c : Value} {a b : α}
    (hv : v.wf = true) (hw : w.wf = true) (hva : d v = some a) (hwb : d w = some b)
    (hvc : canon v = some c) (hwc : canon w = some c) : a = b := by
  have ha := hd v c a hv hvc hva
  have hb := hd w c b hw hwc hwb
  exact Option.some.inj (ha.symm.trans hb)

/-! ## Reading what was written -/

@[simp]
theorem str_str (s : String) : str (Json.str s).value = some s := rfl

@[simp]
theorem u64_u64 (n : UInt64) : u64 (Json.u64 n).value = some n := rfl

/-- A value of an enumeration is read back when the names differ. -/
theorem enum_name {α : Type} {values : List α} {name : α → String}
    (hnames : (values.map name).Nodup) {a : α} (ha : a ∈ values) :
    enum values name (Json.str (name a)).value = some a := by
  change (values.find? fun b => name b = name a) = some a
  cases hfind : values.find? fun b => name b = name a with
  | none =>
    have hnot := List.find?_eq_none.mp hfind a ha
    simp at hnot
  | some b =>
    have hname : name b = name a := by simpa using List.find?_some hfind
    rw [List.inj_on_of_nodup_map hnames (List.mem_of_find?_eq_some hfind) ha hname]

theorem list_array {toJson : α → Json} {d : Decoder α} (h : ∀ a, d (toJson a).value = some a)
    (as : List α) : list d (Json.array (as.map toJson)).value = some as := by
  change ((as.map toJson).map Json.value).mapM d = some as
  induction as with
  | nil => rfl
  | cons a as ih =>
    simp only [List.map_cons, List.mapM_cons, h, ih]
    rfl

section Fields

variable {fields : List (String × Option Json)} {h : (fields.map Prod.fst).Nodup} {k : String}
  {d : Decoder α}

theorem strict_ofFields {keys : List String} (hkeys : fields.map Prod.fst ⊆ keys) :
    strict keys d (Json.ofFields fields h).value = d (Json.ofFields fields h).value := by
  have hmem : ∀ m ∈ Json.members fields, m.1 ∈ keys := by
    intro m hm
    exact hkeys ((Json.keys_members_sublist fields).subset (List.mem_map_of_mem hm))
  exact if_pos hmem

theorem field_ofFields {j : Json} (hk : (k, some j) ∈ fields) :
    field k d (Json.ofFields fields h).value = d j.value := by
  unfold field
  rw [Json.get_ofFields hk]
  rfl

theorem choice_of_mem {e : Decoder α} {j : Json} (hk : (k, some j) ∈ fields) :
    choice k d e (Json.ofFields fields h).value = d (Json.ofFields fields h).value := by
  unfold choice
  rw [Json.get_ofFields hk]
  rfl

theorem choice_of_notMem {e : Decoder α} (hk : k ∉ fields.map Prod.fst) :
    choice k d e (Json.ofFields fields h).value = e (Json.ofFields fields h).value := by
  unfold choice
  rw [Json.get_ofFields_absent hk]
  rfl

theorem optional_ofFields {toJson : α → Json} {o : Option α} (hk : (k, o.map toJson) ∈ fields)
    (hd : ∀ a, d (toJson a).value = some a) (hnull : ∀ a, (toJson a).value ≠ .null) :
    optional k d (Json.ofFields fields h).value = some o := by
  unfold optional
  cases o with
  | none => rw [Json.get_ofFields_none hk]
  | some a =>
    rw [Json.get_ofFields hk]
    split
    · next heq => cases heq
    · next heq => exact absurd (Option.some.inj heq) (hnull a)
    · next heq =>
      rw [← Option.some.inj heq, hd]
      rfl

theorem optional_str {o : Option String} (hk : (k, o.map .str) ∈ fields) :
    optional k str (Json.ofFields fields h).value = some o :=
  optional_ofFields hk str_str fun _ => Value.noConfusion

theorem strict_canon_ofFields {keys : List String} {c : Value}
    (hc : canon (Json.ofFields fields h).value = some c) (hkeys : fields.map Prod.fst ⊆ keys) :
    strict keys d c = d c :=
  strict_canon hc fun _ hm =>
    hkeys ((Json.keys_members_sublist fields).subset (List.mem_map_of_mem hm))

end Fields

end Decoder

end Sealr.Lib
