import Sealr.Lib.Rfc8785
import Sealr.Evidence.Error

/-!
# JCS canonicalization

`to_jcs_bytes` and its helpers, over the bytes they push. The object case sorts the names first
and then writes the values in that order, so the first failing value in sorted order decides the
error; here every value is written with its name before the sort, which leaves both the bytes and
the error the same.

`toJcsBytes_eq_ok` connects it to the canonical form: the bytes are the UTF-8 of the printed
canonical form, and there are any exactly when there is one.
-/

namespace Sealr.Evidence

open Lib Lib.Rfc8785

/-! ## The encoder -/

/-- `MAX_SAFE_INTEGER`. -/
def MAX_SAFE_INTEGER : UInt64 := 9007199254740991

/-- `write_number`. -/
def writeNumber (n : Number) : Result Bytes :=
  match n.asU64 with
  | some u =>
    if u > MAX_SAFE_INTEGER then .error (.unsafeNumber n)
    else .ok (asBytes (toString u.toNat))
  | none =>
    match n.asI64 with
    | some i =>
      if i.natAbs > MAX_SAFE_INTEGER.toNat then .error (.unsafeNumber n)
      else .ok (asBytes (toString i))
    | none =>
      match n.asFloat with
      | some f =>
        if f.isIntegral ∧ |f.toRat| ≤ MAX_SAFE_INTEGER.toNat then
          .ok (asBytes (toString f.toI64))
        else .error (.unsafeNumber n)
      | none => .error (.unsafeNumber n)

/-- The bytes `write_string` pushes for one character. -/
def writeChar (c : Char) : Bytes :=
  if c = '\"' then utf8 ['\\', '\"']
  else if c = '\\' then utf8 ['\\', '\\']
  else if c = '\x08' then utf8 ['\\', 'b']
  else if c = '\t' then utf8 ['\\', 't']
  else if c = '\n' then utf8 ['\\', 'n']
  else if c = '\x0c' then utf8 ['\\', 'f']
  else if c = '\r' then utf8 ['\\', 'r']
  else if c.toNat < 0x20 then
    -- `format!("\\u{code:04x}")`
    utf8 ['\\', 'u', hexChar (c.toNat / 0x1000 % 16), hexChar (c.toNat / 0x100 % 16),
      hexChar (c.toNat / 0x10 % 16), hexChar (c.toNat % 16)]
  else String.utf8EncodeChar c

/-- `write_string`. -/
def writeString (s : String) : Bytes :=
  utf8 ['\"'] ++ (chars s).flatMap writeChar ++ utf8 ['\"']

/-- The members in the order given, separated by commas. -/
def joinMembers : List (String × Result Bytes) → Result Bytes
  | [] => .ok []
  | [(k, r)] => do
    let b ← r
    return writeString k ++ utf8 [':'] ++ b
  | (k, r) :: m :: ms => do
    let b ← r
    let rest ← joinMembers (m :: ms)
    return writeString k ++ utf8 [':'] ++ b ++ utf8 [','] ++ rest

mutual

/-- `write_value`. -/
def writeValue : Value → Result Bytes
  | .null => .ok (utf8 ['n', 'u', 'l', 'l'])
  | .bool true => .ok (utf8 ['t', 'r', 'u', 'e'])
  | .bool false => .ok (utf8 ['f', 'a', 'l', 's', 'e'])
  | .number n => writeNumber n
  | .string s => .ok (writeString s)
  | .array items => do
    let body ← writeItems items
    return utf8 ['['] ++ body ++ utf8 [']']
  | .object members => do
    -- sorted by the UTF-16 code units of the names
    let body ← joinMembers (sortMembers (writeMembers members))
    return utf8 ['\x7b'] ++ body ++ utf8 ['\x7d']

/-- The items of an array, separated by commas. -/
def writeItems : List Value → Result Bytes
  | [] => .ok []
  | [x] => writeValue x
  | x :: y :: ys => do
    let b ← writeValue x
    let rest ← writeItems (y :: ys)
    return b ++ utf8 [','] ++ rest

/-- Every member of an object with the bytes of its value. -/
def writeMembers : List (String × Value) → List (String × Result Bytes)
  | [] => []
  | (k, v) :: ms => (k, writeValue v) :: writeMembers ms

end

/-- `to_jcs_bytes`. -/
def toJcsBytes (v : Json) : Result Bytes := writeValue v.value

/-! ## The encoder prints the canonical form -/

/-- A number is written exactly when it is a safe integer. -/
theorem writeNumber_eq (n : Number) :
    writeNumber n = match safeInt n with
      | some i => .ok (utf8 (printInt i))
      | none => .error (.unsafeNumber n) := by
  have hm : MAX_SAFE_INTEGER.toNat = maxSafe := rfl
  cases n with
  | posInt n =>
    have hcmp : n > MAX_SAFE_INTEGER ↔ ¬n.toNat ≤ maxSafe := by
      rw [gt_iff_lt, UInt64.lt_iff_toNat_lt, hm, not_le]
    have hshow : (toString n.toNat).toList = printInt n.toNat := toList_toString_int n.toNat
    simp only [writeNumber, Number.asU64, hcmp, safeInt_posInt, asBytes_eq, hshow, ite_not]
    split_ifs <;> rfl
  | negInt i h =>
    have hcmp : i.natAbs > MAX_SAFE_INTEGER.toNat ↔ ¬i.natAbs ≤ maxSafe := by
      rw [hm, gt_iff_lt, not_le]
    simp only [writeNumber, Number.asU64, Number.asI64, hcmp, safeInt_negInt, asBytes_eq,
      toList_toString_int, ite_not]
    split_ifs <;> rfl
  | float f =>
    simp only [writeNumber, Number.asU64, Number.asI64, Number.asFloat, hm, safeInt_float,
      asBytes_eq, toList_toString_int]
    split_ifs <;> rfl

theorem writeChar_eq (c : Char) : writeChar c = utf8 (escape c) := by
  unfold writeChar escape
  split_ifs <;> simp

theorem writeString_eq (s : String) :
    writeString s = utf8 ('\"' :: (printBody s ++ ['\"'])) := by
  have hbody : s.toList.flatMap writeChar = utf8 (printBody s) := by
    rw [printBody, chars_eq]
    induction s.toList with
    | nil => rfl
    | cons c cs ih => simp [List.flatMap_cons, writeChar_eq, ih]
  simp [writeString, hbody]

theorem writeItems_ok {xs ys : List Value}
    (h : List.Forall₂ (fun x y => writeValue x = .ok (utf8 (print y))) xs ys) :
    writeItems xs = .ok (utf8 (printItems ys)) := by
  induction h with
  | nil => rfl
  | @cons x y xs ys hxy hs ih =>
    cases hs with
    | nil => simpa [writeItems, printItems] using hxy
    | cons hxy' hs =>
      rw [writeItems, hxy, ih]
      simp [printItems, bind, Except.bind, pure, Except.pure]

theorem ok_of_writeItems {xs : List Value} {b : Bytes} (h : writeItems xs = .ok b) :
    ∀ x ∈ xs, ∃ b', writeValue x = .ok b' := by
  induction xs generalizing b with
  | nil => simp
  | cons x xs ih =>
    cases xs with
    | nil =>
      intro y hy
      cases List.mem_singleton.mp hy
      exact ⟨b, h⟩
    | cons y ys =>
      rw [writeItems, bind_eq_ok] at h
      obtain ⟨bx, hx, h⟩ := h
      obtain ⟨bs, hs, -⟩ := bind_eq_ok.mp h
      intro z hz
      rcases List.mem_cons.mp hz with rfl | hz
      · exact ⟨bx, hx⟩
      · exact ih hs z hz

/-- A member whose value was written as the printed value of another member of that name. -/
def Writes (p : String × Result Bytes) (m : String × Value) : Prop :=
  p.1 = m.1 ∧ p.2 = .ok (utf8 (print m.2))

theorem joinMembers_ok {ps : List (String × Result Bytes)} {ms : List (String × Value)}
    (h : List.Forall₂ Writes ps ms) : joinMembers ps = .ok (utf8 (printMembers ms)) := by
  induction h with
  | nil => rfl
  | @cons p m ps ms hpm hs ih =>
    obtain ⟨k, r⟩ := p
    obtain ⟨l, v⟩ := m
    obtain ⟨rfl, rfl⟩ : k = l ∧ r = .ok (utf8 (print v)) := hpm
    cases hs with
    | nil => simp [joinMembers, printMembers, writeString_eq, bind, Except.bind, pure, Except.pure]
    | cons hpm' hs =>
      rw [joinMembers, ih]
      simp [printMembers, writeString_eq, bind, Except.bind, pure, Except.pure]

theorem ok_of_joinMembers {ps : List (String × Result Bytes)} {b : Bytes}
    (h : joinMembers ps = .ok b) : ∀ p ∈ ps, ∃ b', p.2 = .ok b' := by
  induction ps generalizing b with
  | nil => simp
  | cons p ps ih =>
    obtain ⟨k, r⟩ := p
    cases ps with
    | nil =>
      obtain ⟨bx, hx, -⟩ := bind_eq_ok.mp h
      intro q hq
      cases List.mem_singleton.mp hq
      exact ⟨bx, hx⟩
    | cons p' ps =>
      rw [joinMembers, bind_eq_ok] at h
      obtain ⟨bx, hx, h⟩ := h
      obtain ⟨bs, hs, -⟩ := bind_eq_ok.mp h
      intro q hq
      rcases List.mem_cons.mp hq with rfl | hq
      · exact ⟨bx, hx⟩
      · exact ih hs q hq

theorem writeMembers_eq_map (ms : List (String × Value)) :
    writeMembers ms = ms.map fun m => (m.1, writeValue m.2) := by
  induction ms with
  | nil => rfl
  | cons m ms ih => simp [writeMembers, ih]

/-- What has a canonical form is written as its text. -/
theorem writeValue_of_canon {v c : Value} (h : canon v = some c) :
    writeValue v = .ok (utf8 (print c)) := by
  induction v generalizing c with
  | null => cases h; rfl
  | bool b => cases h; cases b <;> rfl
  | string s => cases h; rw [writeValue, writeString_eq, print]
  | number n =>
    obtain ⟨i, hi, rfl⟩ := canon_number.mp h
    rw [writeValue, writeNumber_eq, hi, print, intOf_ofInt (safeInt_eq_some hi).2]
  | array xs ih =>
    obtain ⟨ys, hys, rfl⟩ := canon_array.mp h
    have hitems : List.Forall₂ (fun x y => writeValue x = .ok (utf8 (print y))) xs ys :=
      ((List.forall₂_and_left _ _).mpr ⟨ih, hys⟩).imp fun x y hxy => hxy.1 hxy.2
    rw [writeValue, writeItems_ok hitems]
    simp [print, bind, Except.bind, pure, Except.pure]
  | object ms ih =>
    obtain ⟨ns, hns, rfl⟩ := canon_object.mp h
    have hmembers : List.Forall₂ Writes (writeMembers ms) ns := by
      rw [writeMembers_eq_map, List.forall₂_map_left_iff]
      exact ((List.forall₂_and_left _ _).mpr ⟨ih, hns⟩).imp fun m n hmn =>
        ⟨hmn.2.1, hmn.1 hmn.2.2⟩
    rw [writeValue, joinMembers_ok (forall₂_sortMembers (fun _ _ hpm => hpm.1) hmembers)]
    simp [print, bind, Except.bind, pure, Except.pure]

/-- What is written has a canonical form. -/
theorem canon_of_writeValue {v : Value} {b : Bytes} (h : writeValue v = .ok b) :
    ∃ c, canon v = some c := by
  induction v generalizing b with
  | null | bool b | string s => exact ⟨_, rfl⟩
  | number n =>
    rw [writeValue, writeNumber_eq] at h
    cases hs : safeInt n with
    | none => simp [hs] at h
    | some i => exact ⟨_, canon_number.mpr ⟨i, hs, rfl⟩⟩
  | array xs ih =>
    obtain ⟨body, hbody, -⟩ := bind_eq_ok.mp h
    have hall : ∀ x ∈ xs, ∃ y, canon x = some y := fun x hx =>
      (ok_of_writeItems hbody x hx).elim fun b' hb' => ih x hx hb'
    obtain ⟨ys, hys⟩ := exists_forall₂ hall
    exact ⟨_, canon_array.mpr ⟨ys, hys, rfl⟩⟩
  | object ms ih =>
    obtain ⟨body, hbody, -⟩ := bind_eq_ok.mp h
    have hall : ∀ m ∈ ms, ∃ n, CanonMember m n := by
      intro m hm
      have hmem : (m.1, writeValue m.2) ∈ sortMembers (writeMembers ms) := by
        rw [(sortMembers_perm _).mem_iff, writeMembers_eq_map]
        exact List.mem_map_of_mem hm
      obtain ⟨b', hb'⟩ := ok_of_joinMembers hbody _ hmem
      obtain ⟨c, hc⟩ := ih m hm hb'
      exact ⟨(m.1, c), rfl, hc⟩
    obtain ⟨ns, hns⟩ := exists_forall₂ hall
    exact ⟨_, canon_object.mpr ⟨ns, hns, rfl⟩⟩

/-- **The bytes are the text of the canonical form.** -/
theorem toJcsBytes_eq_ok {v : Json} {b : Bytes} :
    toJcsBytes v = .ok b ↔ ∃ c, canon v.value = some c ∧ b = utf8 (print c) := by
  constructor
  · intro h
    obtain ⟨c, hc⟩ := canon_of_writeValue h
    exact ⟨c, hc, Except.ok.inj (h.symm.trans (writeValue_of_canon hc))⟩
  · rintro ⟨c, hc, rfl⟩
    exact writeValue_of_canon hc

/-- A number inside a written object is a safe integer. -/
theorem safeInt_of_toJcsBytes {v : Json} {b : Bytes} (h : toJcsBytes v = .ok b) {k : String}
    {n : Number} (hk : v.value.get k = some (.number n)) : ∃ i, safeInt n = some i := by
  obtain ⟨c, hc, -⟩ := toJcsBytes_eq_ok.mp h
  obtain ⟨value, wf⟩ := v
  cases value with
  | object ms =>
    obtain ⟨ns, hns, -⟩ := canon_object.mp hc
    have hmem : (k, Value.number n) ∈ ms := (Value.lookup_eq_some_iff (Value.wf_object.mp wf).1).mp hk
    obtain ⟨m, -, hm⟩ := exists_of_mem_forall₂ hns.flip hmem
    obtain ⟨i, hi, -⟩ := canon_number.mp hm.2
    exact ⟨i, hi⟩
  | _ => simp [Value.get] at hk

/-! ## Canonical, injective, and read back -/

/-- Values with one encoding are equal up to member order and number spelling. -/
theorem equiv_of_toJcsBytes_eq {v w : Json} {b : Bytes} (hv : toJcsBytes v = .ok b)
    (hw : toJcsBytes w = .ok b) : v.value.Equiv w.value := by
  obtain ⟨c, hc, rfl⟩ := toJcsBytes_eq_ok.mp hv
  obtain ⟨d, hd, heq⟩ := toJcsBytes_eq_ok.mp hw
  rw [← canon_eq_iff v.wf w.wf hc hd]
  exact print_inj v.wf w.wf hc hd (utf8_injective heq)

/-- **The bytes of two accepted values are equal exactly when the values are equal up to member
order and number spelling.** -/
theorem toJcsBytes_eq_iff_equiv {v w : Json} {a b : Bytes} (hv : toJcsBytes v = .ok a)
    (hw : toJcsBytes w = .ok b) : a = b ↔ v.value.Equiv w.value := by
  constructor
  · rintro rfl
    exact equiv_of_toJcsBytes_eq hv hw
  · intro h
    obtain ⟨c, hc, rfl⟩ := toJcsBytes_eq_ok.mp hv
    obtain ⟨d, hd, rfl⟩ := toJcsBytes_eq_ok.mp hw
    rw [(canon_eq_iff v.wf w.wf hc hd).mpr h]

/-- One record of two spellings: another member order, and `1.0` for `1`. -/
theorem toJcsBytes_eq_iff_equiv_spellings :
    (Value.object [("b", .number (.posInt 1)), ("é\n", .array [.null, .bool true])]).Equiv
      (.object [("é\n", .array [.null, .bool true]), ("b", .number (.float ⟨false, 1023, 0⟩))]) :=
  (toJcsBytes_eq_iff_equiv
    (v := ⟨.object [("b", .number (.posInt 1)), ("é\n", .array [.null, .bool true])], by decide⟩)
    (w := ⟨.object [("é\n", .array [.null, .bool true]),
      ("b", .number (.float ⟨false, 1023, 0⟩))], by decide⟩)
    (a := utf8 "\x7b\"b\":1,\"é\\n\":[null,true]\x7d".toList) rfl rfl).mp rfl

/-- Reading what was written gives the canonical form. -/
theorem fromSlice_toJcsBytes {E : Externals} (hE : E.ReadsJson) {v : Json} {b : Bytes}
    (h : toJcsBytes v = .ok b) : ∃ w, E.fromSlice b = .ok w ∧ canon v.value = some w.value := by
  obtain ⟨c, hc, rfl⟩ := toJcsBytes_eq_ok.mp h
  let w : Json := ⟨c, wf_canon v.wf hc⟩
  have htext : Rfc8259.JsonText E.readFloat (print c) w.value :=
    (valueText_print E.readFloat v.wf hc).jsonText
  exact ⟨w, hE _ _ w (utf8Decode_utf8 _) htext, hc⟩

/-- What is written has no control byte, so no line feed. -/
theorem le_of_mem_toJcsBytes {v : Json} {b : Bytes} (h : toJcsBytes v = .ok b) {x : UInt8}
    (hx : x ∈ b) : 0x20 ≤ x := by
  obtain ⟨c, -, rfl⟩ := toJcsBytes_eq_ok.mp h
  exact le_of_mem_utf8 (le_of_mem_print c) hx

/-- **The bytes are one JSON text in UTF-8 without control bytes, and reading them gives the value
back**, up to member order and number spelling; writing that value again changes nothing. -/
theorem toJcsBytes_reads_back {E : Externals} (hE : E.ReadsJson) {v : Json} {b : Bytes}
    (h : toJcsBytes v = .ok b) :
    b.toByteArray.IsValidUTF8 ∧ (∀ x ∈ b, 0x20 ≤ x) ∧
      (∃ t c, utf8Decode b = some t ∧ ∀ fl, Rfc8259.JsonText fl t c) ∧
      ∃ w, E.fromSlice b = .ok w ∧ v.value.Equiv w.value ∧ toJcsBytes w = .ok b := by
  obtain ⟨w, hread, hw⟩ := fromSlice_toJcsBytes hE h
  have hctl := fun x (hx : x ∈ b) => le_of_mem_toJcsBytes h hx
  obtain ⟨c, hc, rfl⟩ := toJcsBytes_eq_ok.mp h
  obtain rfl : w.value = c := Option.some.inj (hw.symm.trans hc)
  have htext : ∀ fl, Rfc8259.JsonText fl (print w.value) w.value := fun fl =>
    (valueText_print fl v.wf hc).jsonText
  refine ⟨isValidUTF8_utf8 _, hctl, ⟨print w.value, w.value, utf8Decode_utf8 _, htext⟩, w, hread,
    equiv_canon v.wf hc, ?_⟩
  exact toJcsBytes_eq_ok.mpr ⟨w.value, canon_canon v.wf hc, rfl⟩

theorem toJcsBytes_reads_back_controls :
    ∃ w, (Externals.recorded {}).fromSlice (utf8 "[\"\\u0001\\\\\",-7]".toList) = .ok w ∧
      (Value.array [.string "\x01\\", .number (.negInt (-7) (by decide))]).Equiv w.value := by
  obtain ⟨-, -, -, w, hw, hequiv, -⟩ := toJcsBytes_reads_back (Externals.readsJson_recorded {})
    (v := ⟨.array [.string "\x01\\", .number (.negInt (-7) (by decide))], by decide⟩)
    (b := utf8 "[\"\\u0001\\\\\",-7]".toList) rfl
  exact ⟨w, hw, hequiv⟩

end Sealr.Evidence
