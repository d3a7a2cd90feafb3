import Sealr.Lib.Rfc8785

/-!
# What is inside a value

The numbers of a value at every depth, and how deep it is nested. A value has a canonical form
exactly when each of its numbers is a safe integer (`exists_canon_iff`), and the canonical form is
nested as deep as the value (`depth_canon`).
-/

namespace Sealr.Lib

namespace Value

/-! ## Numbers -/

mutual

/-- The numbers of a value, at every depth. -/
def numbers : Value → List Number
  | .number n => [n]
  | .array items => numbersItems items
  | .object members => numbersMembers members
  | _ => []

def numbersItems : List Value → List Number
  | [] => []
  | x :: xs => numbers x ++ numbersItems xs

def numbersMembers : List (String × Value) → List Number
  | [] => []
  | (_, v) :: ms => numbers v ++ numbersMembers ms

end

theorem numbersItems_eq (xs : List Value) : numbersItems xs = xs.flatMap numbers := by
  induction xs with
  | nil => rfl
  | cons x xs ih => rw [numbersItems, ih, List.flatMap_cons]

theorem numbersMembers_eq (ms : List (String × Value)) :
    numbersMembers ms = ms.flatMap fun m => m.2.numbers := by
  induction ms with
  | nil => rfl
  | cons m ms ih => rw [numbersMembers, ih, List.flatMap_cons]

theorem mem_numbers_array {n : Number} {xs : List Value} :
    n ∈ (array xs).numbers ↔ ∃ x ∈ xs, n ∈ x.numbers := by
  rw [numbers, numbersItems_eq, List.mem_flatMap]

theorem mem_numbers_object {n : Number} {ms : List (String × Value)} :
    n ∈ (object ms).numbers ↔ ∃ m ∈ ms, n ∈ m.2.numbers := by
  rw [numbers, numbersMembers_eq, List.mem_flatMap]

/-! ## Nesting -/

mutual

/-- How deep arrays and objects are nested: a scalar is not. -/
def depth : Value → Nat
  | .array items => depthItems items + 1
  | .object members => depthMembers members + 1
  | _ => 0

def depthItems : List Value → Nat
  | [] => 0
  | x :: xs => max (depth x) (depthItems xs)

def depthMembers : List (String × Value) → Nat
  | [] => 0
  | (_, v) :: ms => max (depth v) (depthMembers ms)

end

theorem depthItems_le {d : Nat} {xs : List Value} : depthItems xs ≤ d ↔ ∀ x ∈ xs, x.depth ≤ d := by
  induction xs with
  | nil => simp [depthItems]
  | cons x xs ih => rw [depthItems, max_le_iff, ih, List.forall_mem_cons]

theorem depthMembers_le {d : Nat} {ms : List (String × Value)} :
    depthMembers ms ≤ d ↔ ∀ m ∈ ms, m.2.depth ≤ d := by
  induction ms with
  | nil => simp [depthMembers]
  | cons m ms ih => rw [depthMembers, max_le_iff, ih, List.forall_mem_cons]

end Value

/-- An integer that a double holds without doubt. -/
def Number.IsSafe (n : Number) : Prop := n.toRat.den = 1 ∧ |n.toRat| ≤ 2 ^ 53 - 1

namespace Rfc8785

/-! ## The canonical form -/

theorem exists_safeInt {n : Number} : (∃ i, safeInt n = some i) ↔ n.IsSafe := by
  have hm : maxSafe = 2 ^ 53 - 1 := rfl
  have habs : n.toRat.den = 1 → (n.toRat.num.natAbs ≤ maxSafe ↔ |n.toRat| ≤ 2 ^ 53 - 1) := by
    intro hden
    have hnum : n.toRat = n.toRat.num := ((Rat.den_eq_one_iff _).mp hden).symm
    have hbound : (2 ^ 53 - 1 : ℚ) = ((2 ^ 53 - 1 : Int) : ℚ) := by norm_num
    rw [hnum, hbound, ← Int.cast_abs, Int.cast_le, Int.abs_eq_natAbs, Rat.num_intCast, hm]
    omega
  unfold safeInt Number.IsSafe
  constructor
  · intro h
    obtain ⟨i, hi⟩ := h
    split_ifs at hi with hsafe
    exact ⟨hsafe.1, (habs hsafe.1).mp hsafe.2⟩
  · intro h
    exact ⟨n.toRat.num, if_pos ⟨h.1, (habs h.1).mpr h.2⟩⟩

/-- **A value has a canonical form exactly when every number in it is a safe integer.** -/
theorem exists_canon_iff {v : Value} : (∃ c, canon v = some c) ↔ ∀ n ∈ v.numbers, n.IsSafe := by
  induction v with
  | null | bool b | string s => simp [canon, Value.numbers]
  | number n =>
    simp only [canon_number, Value.numbers, List.forall_mem_singleton, ← exists_safeInt]
    constructor
    · rintro ⟨_, i, hi, -⟩
      exact ⟨i, hi⟩
    · rintro ⟨i, hi⟩
      exact ⟨_, i, hi, rfl⟩
  | array xs ih =>
    rw [exists_canon_array]
    constructor
    · intro h n hn
      obtain ⟨x, hx, hnx⟩ := Value.mem_numbers_array.mp hn
      exact (ih x hx).mp (h x hx) n hnx
    · intro h x hx
      exact (ih x hx).mpr fun n hn => h n (Value.mem_numbers_array.mpr ⟨x, hx, hn⟩)
  | object ms ih =>
    rw [exists_canon_object]
    constructor
    · intro h n hn
      obtain ⟨m, hm, hnm⟩ := Value.mem_numbers_object.mp hn
      exact (ih m hm).mp (h m hm) n hnm
    · intro h m hm
      exact (ih m hm).mpr fun n hn => h n (Value.mem_numbers_object.mpr ⟨m, hm, hn⟩)

/-- The canonical form is nested as deep as the value. -/
theorem depth_canon {v c : Value} (h : canon v = some c) : c.depth = v.depth := by
  induction v generalizing c with
  | null | bool b | string s => cases h; rfl
  | number n =>
    obtain ⟨i, -, rfl⟩ := canon_number.mp h
    rfl
  | array xs ih =>
    obtain ⟨ys, hys, rfl⟩ := canon_array.mp h
    refine congrArg Nat.succ (Nat.le_antisymm ?_ ?_)
    · refine Value.depthItems_le.mpr fun y hy => ?_
      obtain ⟨x, hx, hxy⟩ := exists_of_mem_forall₂ hys hy
      rw [ih x hx hxy]
      exact Value.depthItems_le.mp (Nat.le_refl _) x hx
    · refine Value.depthItems_le.mpr fun x hx => ?_
      obtain ⟨y, hy, hxy⟩ := exists_of_mem_forall₂ hys.flip hx
      rw [← ih x hx hxy]
      exact Value.depthItems_le.mp (Nat.le_refl _) y hy
  | object ms ih =>
    obtain ⟨ns, hns, rfl⟩ := canon_object.mp h
    refine congrArg Nat.succ (Nat.le_antisymm ?_ ?_)
    · refine Value.depthMembers_le.mpr fun n hn => ?_
      obtain ⟨m, hm, hmn⟩ := exists_of_mem_forall₂ hns ((sortMembers_perm ns).mem_iff.mp hn)
      rw [ih m hm hmn.2]
      exact Value.depthMembers_le.mp (Nat.le_refl _) m hm
    · refine Value.depthMembers_le.mpr fun m hm => ?_
      obtain ⟨n, hn, hmn⟩ := exists_of_mem_forall₂ hns.flip hm
      rw [← ih m hm hmn.2]
      exact Value.depthMembers_le.mp (Nat.le_refl _) n ((sortMembers_perm ns).mem_iff.mpr hn)

end Rfc8785

end Sealr.Lib
