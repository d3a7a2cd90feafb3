import Sealr.Lib.Halves
import Sealr.Evidence.Inclusion

/-!
# Splitting

The functions of `merkle.rs` once more, with all that may go wrong in them: the product of
`split_point` may leave the machine word, a part may be empty, an index may be out of range, and a
loop or a recursion may not come to its end. None of it happens, for as many leaves as a slice can
hold, and the recursions are as deep as the logarithm of their number (`splits_total`).
-/

namespace Sealr.Evidence

open Lib

/-! ## With faults -/

/-- The product of two `usize`. -/
def mulUsize (bits a b : Nat) : Option Nat := if a * b < 2 ^ bits then some (a * b) else none

/-- The loop of `split_point`, at most so many turns. -/
def splitLoopChecked (bits : Nat) : Nat → Nat → Nat → Option Nat
  | 0, _, _ => none
  | turns + 1, k, n => do
    let twice ← mulUsize bits k 2
    if twice < n then splitLoopChecked bits turns twice n else some k

/-- `split_point`, with its assertion. -/
def splitPointChecked (bits turns n : Nat) : Option Nat :=
  if n < 2 then none else splitLoopChecked bits turns 1 n

/-- `&leaves[..k]` and `&leaves[k..]`, neither of which may be empty. -/
def partsChecked (bits turns : Nat) (leaves : List Bytes) : Option (List Bytes × List Bytes) := do
  let k ← splitPointChecked bits turns leaves.length
  if 0 < k ∧ k < leaves.length then some (leaves.take k, leaves.drop k) else none

/-- `subtree_root`, at most so deep. -/
def subtreeRootChecked (E : Externals) (bits : Nat) : Nat → List Bytes → Option Digest
  | 0, _ => none
  | _ + 1, [leaf] => some (leafHash E leaf)
  | depth + 1, leaves => do
    let (left, right) ← partsChecked bits depth leaves
    let l ← subtreeRootChecked E bits depth left
    let r ← subtreeRootChecked E bits depth right
    some (nodeHash E l r)

/-- `path`, at most so deep, with an index that must be in range. -/
def pathChecked (E : Externals) (bits : Nat) : Nat → List Bytes → Nat → Option (List ProofStep)
  | 0, _, _ => none
  | depth + 1, leaves, index =>
    if leaves.length ≤ index then none
    else if leaves.length = 1 then some []
    else do
      let (left, right) ← partsChecked bits depth leaves
      if index < left.length then do
        let proof ← pathChecked E bits depth left index
        let sibling ← subtreeRootChecked E bits depth right
        some (proof ++ [⟨sibling, false⟩])
      else do
        let proof ← pathChecked E bits depth right (index - left.length)
        let sibling ← subtreeRootChecked E bits depth left
        some (proof ++ [⟨sibling, true⟩])

/-! ## Split points -/

section SplitPoint

variable {bits turns n : Nat}

/-- From a power of two below a number, the loop doubles up to the one that halves it. -/
theorem splitLoopChecked_pow {e : Nat} (hlt : 2 ^ e < n) (hbits : n ≤ 2 ^ (bits - 1))
    (hturns : Nat.clog 2 n ≤ e + turns) :
    splitLoopChecked bits turns (2 ^ e) n = some (2 ^ (Nat.clog 2 n - 1)) := by
  induction turns generalizing e with
  | zero =>
    have hclog := (Nat.lt_clog_iff_pow_lt Nat.one_lt_two).mpr hlt
    omega
  | succ turns ih =>
    have hword : 2 ^ e * 2 < 2 ^ bits := by
      cases bits with
      | zero =>
        have hpos := Nat.two_pow_pos e
        rw [Nat.zero_sub, Nat.pow_zero] at hbits
        omega
      | succ bits =>
        rw [Nat.add_sub_cancel] at hbits
        rw [Nat.pow_succ 2 bits]
        omega
    rw [splitLoopChecked, mulUsize, if_pos hword, Option.bind_eq_bind, Option.bind_some,
      ← Nat.pow_succ]
    split_ifs with hnext
    · exact ih hnext (by omega)
    · have hhalves : Halves (2 ^ e) n := ⟨⟨e, rfl⟩, hlt, by rw [Nat.pow_succ'] at hnext; omega⟩
      rw [halves_pow_iff.mp hhalves, Nat.add_sub_cancel]

/-- A loop that comes to its end without a fault is the loop. -/
theorem splitLoop_of_checked {k m : Nat} (h : splitLoopChecked bits turns k n = some m) :
    splitLoop turns k n = m := by
  induction turns generalizing k with
  | zero => cases h
  | succ turns ih =>
    obtain ⟨twice, htwice, h⟩ := Option.bind_eq_some_iff.mp h
    unfold mulUsize at htwice
    split_ifs at htwice with hword
    obtain rfl := Option.some.inj htwice
    rw [splitLoop]
    split_ifs at h ⊢ with hlt
    · exact ih h
    · exact Option.some.inj h

theorem splitPoint_eq (h : 2 ≤ n) : splitPoint n = 2 ^ (Nat.clog 2 n - 1) := by
  have hclog : Nat.clog 2 n ≤ n := Nat.clog_le_of_le_pow Nat.lt_two_pow_self.le
  have hchecked : splitLoopChecked (n + 1) n (2 ^ 0) n = some (2 ^ (Nat.clog 2 n - 1)) :=
    splitLoopChecked_pow h Nat.lt_two_pow_self.le (by omega)
  exact splitLoop_of_checked hchecked

theorem halves_splitPoint (h : 2 ≤ n) : Halves (splitPoint n) n :=
  (halves_iff h).mpr (splitPoint_eq h)

theorem splitPointChecked_eq (h : 2 ≤ n) (hbits : n ≤ 2 ^ (bits - 1))
    (hturns : Nat.clog 2 n ≤ turns) : splitPointChecked bits turns n = some (splitPoint n) := by
  rw [splitPointChecked, if_neg (not_lt.mpr h), splitPoint_eq h]
  exact splitLoopChecked_pow (e := 0) h hbits (by omega)

end SplitPoint

/-! ## Trees and paths -/

section Trees

variable {E : Externals} {bits fuel : Nat} {leaves : List Bytes} {index : Nat}

theorem partsChecked_eq (h : 2 ≤ leaves.length) (hbits : leaves.length ≤ 2 ^ (bits - 1))
    (hfuel : Nat.clog 2 leaves.length ≤ fuel) : partsChecked bits fuel leaves =
      some (leaves.take (splitPoint leaves.length), leaves.drop (splitPoint leaves.length)) := by
  rw [partsChecked, splitPointChecked_eq h hbits hfuel, Option.bind_eq_bind, Option.bind_some,
    if_pos (splitPoint_spec h)]

/-- More fuel than leaves changes nothing. -/
theorem subtreeRoot_fuel (hne : leaves ≠ []) (hfuel : leaves.length ≤ fuel) :
    subtreeRoot E fuel leaves = subtreeRoot E leaves.length leaves := by
  rw [(splitTree_spec E hne hfuel).1, (splitTree_spec E hne le_rfl).1, splitTree_fuel hfuel le_rfl]

theorem path_fuel (hi : index < leaves.length) (hfuel : leaves.length ≤ fuel) :
    path E fuel leaves index = path E leaves.length leaves index := by
  have h := @paths_splitTree E leaves fuel index hfuel hi
  rw [splitTree_fuel hfuel le_rfl, paths_splitTree le_rfl hi] at h
  have hmap : Function.Injective (List.map ProofStep.step) :=
    List.map_injective_iff.mpr ProofStep.step_injective
  exact (hmap (Prod.mk.inj (Option.some.inj h)).2).symm

/-- The root of two leaves or more is hashed over the roots of the parts. -/
theorem subtreeRoot_split (h : 2 ≤ leaves.length) : subtreeRoot E leaves.length leaves =
    nodeHash E
      (subtreeRoot E (splitPoint leaves.length) (leaves.take (splitPoint leaves.length)))
      (subtreeRoot E (leaves.length - splitPoint leaves.length)
        (leaves.drop (splitPoint leaves.length))) := by
  obtain ⟨htake, hdrop, hpos, hlt, hleft, hright⟩ := take_drop_spec h
  obtain ⟨n, hn⟩ := Nat.exists_eq_add_of_le' h
  have hunfold : subtreeRoot E (n + 1 + 1) leaves =
      nodeHash E (subtreeRoot E (n + 1) (leaves.take (splitPoint leaves.length)))
        (subtreeRoot E (n + 1) (leaves.drop (splitPoint leaves.length))) := by
    match leaves with
    | a :: b :: rest => rfl
  have hfirst : subtreeRoot E leaves.length leaves = subtreeRoot E (n + 1 + 1) leaves := by rw [hn]
  rw [hfirst, hunfold, subtreeRoot_fuel hleft (by omega), subtreeRoot_fuel hright (by omega), htake,
    hdrop]

/-- Both parts have a smaller logarithm. -/
theorem clog_parts (h : 2 ≤ leaves.length) :
    Nat.clog 2 (leaves.take (splitPoint leaves.length)).length + 1 = Nat.clog 2 leaves.length ∧
      Nat.clog 2 (leaves.drop (splitPoint leaves.length)).length + 1 ≤ Nat.clog 2 leaves.length := by
  obtain ⟨htake, hdrop, -⟩ := take_drop_spec h
  rw [htake, hdrop]
  exact ⟨(halves_splitPoint h).clog_left, (halves_splitPoint h).clog_right⟩

theorem subtreeRootChecked_eq (hne : leaves ≠ []) (hbits : leaves.length ≤ 2 ^ (bits - 1))
    (hfuel : Nat.clog 2 leaves.length < fuel) :
    subtreeRootChecked E bits fuel leaves = some (subtreeRoot E leaves.length leaves) := by
  induction fuel generalizing leaves with
  | zero => exact absurd hfuel (Nat.not_lt_zero _)
  | succ fuel ih =>
    match leaves with
    | [leaf] => rfl
    | a :: b :: rest =>
      generalize hall : a :: b :: rest = all at *
      have htwo : 2 ≤ all.length := by rw [← hall]; simp
      obtain ⟨htake, hdrop, hpos, hlt, hleft, hright⟩ := take_drop_spec htwo
      obtain ⟨hdepth, hdepth'⟩ := clog_parts htwo
      have hunfold : subtreeRootChecked E bits (fuel + 1) all = (do
          let (left, right) ← partsChecked bits fuel all
          let l ← subtreeRootChecked E bits fuel left
          let r ← subtreeRootChecked E bits fuel right
          some (nodeHash E l r)) := by
        rw [← hall, subtreeRootChecked]
        simp
      rw [hunfold, partsChecked_eq htwo hbits (by omega)]
      simp only [Option.bind_eq_bind, Option.bind_some]
      rw [ih hleft (by omega) (by omega), ih hright (by omega) (by omega),
        Option.bind_some, Option.bind_some, subtreeRoot_split htwo, htake, hdrop]

theorem pathChecked_eq (hi : index < leaves.length) (hbits : leaves.length ≤ 2 ^ (bits - 1))
    (hfuel : Nat.clog 2 leaves.length < fuel) :
    pathChecked E bits fuel leaves index = some (path E leaves.length leaves index) := by
  induction fuel generalizing leaves index with
  | zero => exact absurd hfuel (Nat.not_lt_zero _)
  | succ fuel ih =>
    rw [pathChecked, if_neg (not_le.mpr hi)]
    obtain ⟨n, hn⟩ := Nat.exists_eq_succ_of_ne_zero (Nat.ne_zero_of_lt hi)
    by_cases hone : leaves.length = 1
    · rw [if_pos hone, hone, path, if_pos hone]
    · have htwo : 2 ≤ leaves.length := by omega
      obtain ⟨htake, hdrop, hpos, hlt, hleft, hright⟩ := take_drop_spec htwo
      obtain ⟨hdepth, hdepth'⟩ := clog_parts htwo
      rw [if_neg hone, partsChecked_eq htwo hbits (by omega), Option.bind_eq_bind, Option.bind_some]
      have hpath : path E leaves.length leaves index = path E (n + 1) leaves index := by rw [hn]
      rw [hpath, path, if_neg hone]
      simp only [htake]
      split_ifs with hik
      · rw [ih (by omega) (by omega) (by omega),
          subtreeRootChecked_eq hright (by omega) (by omega),
          @path_fuel E n _ _ (by omega) (by omega),
          @subtreeRoot_fuel E leaves.length _ hright (by omega)]
        rfl
      · rw [ih (by omega) (by omega) (by omega),
          subtreeRootChecked_eq hleft (by omega) (by omega),
          @path_fuel E n _ _ (by omega) (by omega),
          @subtreeRoot_fuel E leaves.length _ hleft (by omega)]
        rfl

/-- A path has as many steps as the logarithm says, at most. -/
theorem length_path_le (hi : index < leaves.length) :
    (path E fuel leaves index).length ≤ Nat.clog 2 leaves.length := by
  induction fuel generalizing leaves index with
  | zero => exact Nat.zero_le _
  | succ fuel ih =>
    rw [path]
    by_cases hone : leaves.length = 1
    · simp [hone]
    · have htwo : 2 ≤ leaves.length := by omega
      obtain ⟨htake, hdrop, hpos, hlt, -, -⟩ := take_drop_spec htwo
      obtain ⟨hdepth, hdepth'⟩ := clog_parts htwo
      simp only [hone, ↓reduceIte]
      split_ifs with hik
      · have hle := @ih (leaves.take (splitPoint leaves.length)) index (by omega)
        rw [List.length_append, List.length_singleton]
        omega
      · have hle := @ih (leaves.drop (splitPoint leaves.length))
          (index - splitPoint leaves.length) (by omega)
        rw [List.length_append, List.length_singleton]
        omega

end Trees

/-- **Splitting is total and logarithmic**, with words of so many bits and up to half as many leaves
as there are words: `split_point` ends after as many turns as the logarithm says, at the one power of
two that halves its argument; the recursions over leaves go one deeper and meet no fault; and an
audit path has at most so many steps. -/
theorem splits_total (E : Externals) (bits : Nat) :
    (∀ n, 2 ≤ n → n ≤ 2 ^ (bits - 1) →
      (∀ turns, Nat.clog 2 n ≤ turns → splitPointChecked bits turns n = some (splitPoint n)) ∧
        Halves (splitPoint n) n ∧ ∀ k, Halves k n → k = splitPoint n) ∧
    (∀ leaves : List Bytes, leaves ≠ [] → leaves.length ≤ 2 ^ (bits - 1) →
      ∀ depth, Nat.clog 2 leaves.length < depth →
        subtreeRootChecked E bits depth leaves = some (subtreeRoot E leaves.length leaves) ∧
        ∀ index, index < leaves.length →
          pathChecked E bits depth leaves index = some (path E leaves.length leaves index)) ∧
    ∀ (leaves : List Bytes) (index : Nat) (proof : List ProofStep), index < leaves.length →
      inclusionProof E leaves index = .ok proof → proof.length ≤ Nat.clog 2 leaves.length := by
  refine ⟨?_, ?_, ?_⟩
  · intro n hn hbits
    refine ⟨fun turns hturns => splitPointChecked_eq hn hbits hturns, halves_splitPoint hn, ?_⟩
    intro k hk
    rw [(halves_iff hn).mp hk, splitPoint_eq hn]
  · intro leaves hne hbits depth hdepth
    refine ⟨subtreeRootChecked_eq hne hbits hdepth, ?_⟩
    exact fun index hi => pathChecked_eq hi hbits hdepth
  · intro leaves index proof hi hproof
    obtain ⟨-, rfl⟩ := inclusionProof_eq_ok.mp hproof
    exact length_path_le hi

end Sealr.Evidence
