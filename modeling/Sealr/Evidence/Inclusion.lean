import Sealr.Evidence.Merkle

/-!
# Inclusion proofs

What `merkle_root` and `verify_inclusion` hash, as lists of byte strings, and what follows from two
results being equal: the root binds the leaves, however many there are (`merkleRoot_determines`),
and the proofs that are accepted for a root are those that `inclusion_proof` makes
(`inclusion_generated`). The index is only compared with the tree size, so a proof that is accepted
may be the proof of another place (`positionFixed_iff`).
-/

namespace Sealr.Evidence

open Lib

/-! ## What is hashed -/

/-- Every byte string that `subtree_root` hashes. -/
def subtreeInputs (E : Externals) : Nat → List Bytes → List Bytes
  | 0, _ => [[]]
  | _, [] => [[]]
  | _, [leaf] => [0x00 :: leaf]
  | fuel + 1, leaves =>
    let k := splitPoint leaves.length
    (0x01 :: ((subtreeRoot E fuel (leaves.take k)).toList ++
        (subtreeRoot E fuel (leaves.drop k)).toList)) ::
      (subtreeInputs E fuel (leaves.take k) ++ subtreeInputs E fuel (leaves.drop k))

/-- Every byte string that `merkle_root` hashes. -/
def rootInputs (E : Externals) (leaves : List Bytes) : List Bytes :=
  match leaves.length with
  | 0 => [[]]
  | _ => subtreeInputs E leaves.length leaves

/-- Every byte string that the loop of `verify_inclusion` hashes. -/
def loopInputs (E : Externals) : Digest → List ProofStep → List Bytes
  | _, [] => []
  | hash, step :: proof =>
    (0x01 :: if step.siblingOnLeft then step.sibling.toList ++ hash.toList
      else hash.toList ++ step.sibling.toList) :: loopInputs E (climb E hash step) proof

/-- Every byte string that `verify_inclusion` hashes. -/
def proofInputs (E : Externals) (leafBytes : Bytes) (proof : List ProofStep) : List Bytes :=
  (0x00 :: leafBytes) :: loopInputs E (leafHash E leafBytes) proof

section Inputs

variable {E : Externals} {leaves : List Bytes} {fuel : Nat}

/-- A list of two leaves or more is split into two that are shorter and not empty. -/
theorem take_drop_spec (h : 2 ≤ leaves.length) :
    let k := splitPoint leaves.length
    (leaves.take k).length = k ∧ (leaves.drop k).length = leaves.length - k ∧ 0 < k ∧
      k < leaves.length ∧ leaves.take k ≠ [] ∧ leaves.drop k ≠ [] := by
  intro k
  obtain ⟨hpos, hlt⟩ := splitPoint_spec h
  have htake : (leaves.take k).length = k := by
    rw [List.length_take]
    omega
  have hdrop : (leaves.drop k).length = leaves.length - k := List.length_drop
  refine ⟨htake, hdrop, hpos, hlt, ?_, ?_⟩
  · exact List.ne_nil_of_length_pos (by omega)
  · exact List.ne_nil_of_length_pos (by omega)

/-- More fuel than leaves changes nothing. -/
theorem splitTree_fuel {fuel' : Nat} (h : leaves.length ≤ fuel) (h' : leaves.length ≤ fuel') :
    splitTree fuel leaves = splitTree fuel' leaves := by
  induction fuel generalizing fuel' leaves with
  | zero =>
    obtain rfl := List.length_eq_zero_iff.mp (Nat.le_zero.mp h)
    cases fuel' <;> rfl
  | succ fuel ih =>
    match leaves, fuel' with
    | [], fuel' => cases fuel' <;> rfl
    | [leaf], fuel' + 1 => rfl
    | a :: b :: rest, fuel' + 1 =>
      obtain ⟨htake, hdrop, hpos, hlt, -, -⟩ := @take_drop_spec (a :: b :: rest) (by simp)
      simp only [splitTree]
      rw [ih (by omega) (show _ ≤ fuel' by omega), ih (by omega) (show _ ≤ fuel' by omega)]

theorem subtreeInputs_eq (hne : leaves ≠ []) (hfuel : leaves.length ≤ fuel) :
    subtreeInputs E fuel leaves = (splitTree fuel leaves).inputs E.blake3 List.Vector.toList := by
  induction fuel generalizing leaves with
  | zero => exact absurd (List.length_eq_zero_iff.mp (Nat.le_zero.mp hfuel)) hne
  | succ fuel ih =>
    match leaves with
    | [leaf] => rfl
    | a :: b :: rest =>
      obtain ⟨htake, hdrop, hpos, hlt, hleft, hright⟩ := @take_drop_spec (a :: b :: rest) (by simp)
      simp only [subtreeInputs, splitTree, Tree.inputs]
      rw [ih hleft (by omega), ih hright (by omega), (splitTree_spec E hleft (by omega)).1,
        (splitTree_spec E hright (by omega)).1]
      rfl

theorem rootInputs_eq (hne : leaves ≠ []) : rootInputs E leaves = merkleInputs E leaves := by
  rw [merkleInputs, ← subtreeInputs_eq hne le_rfl, rootInputs]
  split
  · next h => exact absurd (List.length_eq_zero_iff.mp h) hne
  · rfl

/-- The root of leaves is hashed over something that is not empty. -/
theorem exists_rootInput (hne : leaves ≠ []) :
    ∃ x ∈ rootInputs E leaves, x ≠ [] ∧ merkleRoot E leaves = E.blake3 x := by
  rw [rootInputs_eq hne, merkleRoot_eq_root E hne, merkleInputs]
  cases splitTree leaves.length leaves with
  | leaf data => exact ⟨_, List.mem_cons_self, List.cons_ne_nil _ _, rfl⟩
  | node l r => exact ⟨_, List.mem_cons_self, List.cons_ne_nil _ _, rfl⟩

/-- **The root determines the leaves**, of which there may be any number, none included: two lists
with one root are equal, or two inputs hashed for the two roots collide. -/
theorem merkleRoot_determines {xs ys : List Bytes} (h : merkleRoot E xs = merkleRoot E ys) :
    xs = ys ∨ Collides E.blake3 (rootInputs E xs) (rootInputs E ys) := by
  by_cases hx : xs = []
  · by_cases hy : ys = []
    · exact .inl (hx.trans hy.symm)
    · -- the empty string against an input that has a prefix
      obtain ⟨y, hmem, hne, hroot⟩ := exists_rootInput (E := E) hy
      subst hx
      exact .inr ⟨[], List.mem_cons_self, y, hmem, hne.symm, h.trans hroot⟩
  · by_cases hy : ys = []
    · obtain ⟨x, hmem, hne, hroot⟩ := exists_rootInput (E := E) hx
      subst hy
      exact .inr ⟨x, hmem, [], List.mem_cons_self, hne, hroot.symm.trans h⟩
    · rw [rootInputs_eq hx, rootInputs_eq hy]
      exact merkleRoot_binds hx hy h

end Inputs

/-! A tree of three leaves, with the digests that were recorded for it. -/

namespace Sample

def leaves : List Bytes := [.replicate 32 0x11, .replicate 32 0x22, .replicate 32 0x33]

/-- The hashes of the three leaves. -/
def leafHashes : List Digest := [
  ofHex "54ae36309b7aad630bf4ae6c7ade960bad283d3545023747b84e36fb944b787c",
  ofHex "d070b2396a8956dd38e5150437f0587fc0bfda5a5db45891008b054098bb0807",
  ofHex "c998ac9e5b6fc08376ddbb311d14605d3ff1c4cfae2c196bf66433953d85d0ee"]

/-- The hash over the first two leaves. -/
def nodeDigest : Digest := ofHex "d207649b982cc41ba4049835542a7f8d74d65fd516e64c1e87b19d74f407c3bd"

def rootHex : String := "837c5b1d77b8bfb02d2cd23a50360cad6a76f18917f6cd6490629f5ea23eded9"

def treeExternals : Externals := .recorded {
  blake3 := (leaves.zip leafHashes).map (fun p => (0x00 :: p.1, p.2)) ++ [
    (0x01 :: ((leafHashes.take 2).flatMap List.Vector.toList), nodeDigest),
    (0x01 :: (nodeDigest.toList ++ (leafHashes.drop 2).flatMap List.Vector.toList),
      ofHex rootHex)] }

/-- The path from the first leaf. -/
def firstProof : List ProofStep := (leafHashes.drop 1).map (⟨·, false⟩)

end Sample

theorem merkleRoot_determines_sample : Sample.leaves = Sample.leaves ∨
    Collides Sample.treeExternals.blake3 (rootInputs Sample.treeExternals Sample.leaves)
      (rootInputs Sample.treeExternals Sample.leaves) :=
  merkleRoot_determines rfl

/-! ## Generated and accepted -/

/-- A step as the hash tree has it. -/
def ProofStep.step (s : ProofStep) : Tree.Step Digest := (s.sibling, s.siblingOnLeft)

section Proofs

variable {E : Externals} {leaves : List Bytes} {fuel i index treeSize : Nat} {leaf : Bytes}
  {proof : List ProofStep} {root : Digest}

theorem ProofStep.step_injective : Function.Injective ProofStep.step := by
  intro s t h
  obtain ⟨hsibling, hleft⟩ := Prod.mk.inj h
  cases s
  cases t
  simp_all

theorem climb_eq (hash : Digest) (s : ProofStep) :
    climb E hash s = E.blake3 (Tree.stepInput List.Vector.toList hash s.step) := by
  unfold climb Tree.stepInput ProofStep.step
  cases s.siblingOnLeft <;> rfl

theorem foldl_climb (hash : Digest) : proof.foldl (climb E) hash =
    Tree.climb E.blake3 List.Vector.toList hash (proof.map ProofStep.step) := by
  simp only [Tree.climb, List.foldl_map, ← climb_eq]

theorem loopInputs_eq (hash : Digest) : loopInputs E hash proof =
    Tree.climbInputs E.blake3 List.Vector.toList hash (proof.map ProofStep.step) := by
  induction proof generalizing hash with
  | nil => rfl
  | cons s proof ih =>
    rw [loopInputs, ih, climb_eq, List.map_cons, Tree.climbInputs]
    congr 1
    unfold Tree.stepInput ProofStep.step
    cases s.siblingOnLeft <;> rfl

theorem proofInputs_eq : proofInputs E leaf proof =
    Tree.ascendInputs E.blake3 List.Vector.toList leaf (proof.map ProofStep.step) := by
  rw [proofInputs, loopInputs_eq]
  rfl

/-- A proof is accepted when the index is in range and the leaf ascends to the root. -/
theorem verifyInclusion_eq_ok : verifyInclusion E leaf index treeSize proof root = .ok () ↔
    index < treeSize ∧
      Tree.ascend E.blake3 List.Vector.toList leaf (proof.map ProofStep.step) = root := by
  unfold verifyInclusion
  rw [foldl_climb]
  split_ifs with hrange hroot
  · simp only [false_iff, not_and]
    omega
  · exact ⟨fun _ => ⟨not_le.mp hrange, hroot⟩, fun _ => rfl⟩
  · simp only [false_iff, not_and]
    exact fun _ => hroot

/-- The path to a leaf is the audit path of the tree there. -/
theorem paths_splitTree (hfuel : leaves.length ≤ fuel) (hi : i < leaves.length) :
    ((splitTree fuel leaves).paths E.blake3 List.Vector.toList)[i]? =
      some (leaves[i], (path E fuel leaves i).map ProofStep.step) := by
  induction fuel generalizing leaves i with
  | zero => omega
  | succ fuel ih =>
    match leaves with
    | [leaf] =>
      obtain rfl := Nat.lt_one_iff.mp hi
      rfl
    | a :: b :: rest =>
      obtain ⟨htake, hdrop, hpos, hlt, hleft, hright⟩ := @take_drop_spec (a :: b :: rest) (by simp)
      generalize hall : a :: b :: rest = all at *
      have hsplit : splitTree (fuel + 1) all = .node
          (splitTree fuel (all.take (splitPoint all.length)))
          (splitTree fuel (all.drop (splitPoint all.length))) := by
        subst hall
        rfl
      have hlength : ∀ {ls : List Bytes}, ls ≠ [] → ls.length ≤ fuel →
          ((splitTree fuel ls).paths E.blake3 List.Vector.toList).length = ls.length := by
        intro ls hne hle
        rw [← List.length_map Prod.fst, Tree.map_fst_paths, (splitTree_spec E hne hle).2]
      have hroot : ∀ {ls : List Bytes}, ls ≠ [] → ls.length ≤ fuel → ls.length ≤ all.length →
          (splitTree fuel ls).root E.blake3 List.Vector.toList = subtreeRoot E all.length ls := by
        intro ls hne hle hle'
        rw [(splitTree_spec E hne hle').1, splitTree_fuel hle hle']
      rw [hsplit, Tree.paths, path]
      have hone : all.length ≠ 1 := by omega
      simp only [hone, ↓reduceIte]
      split_ifs with hik
      · rw [List.getElem?_append_left (by rw [List.length_map, hlength hleft (by omega)]; omega),
          List.getElem?_map, ih (by omega) (by omega), hroot hright (by omega) (by omega)]
        simp [ProofStep.step]
      · rw [List.getElem?_append_right (by rw [List.length_map, hlength hleft (by omega)]; omega),
          List.length_map, hlength hleft (by omega), htake, List.getElem?_map,
          ih (by omega) (by omega), hroot hleft (by omega) (by omega)]
        simp [ProofStep.step, Nat.add_sub_cancel' (not_lt.mp hik)]

theorem inclusionProof_eq_ok : inclusionProof E leaves i = .ok proof ↔
    i < leaves.length ∧ proof = path E leaves.length leaves i := by
  unfold inclusionProof
  split_ifs with hrange
  · simp only [false_iff, not_and]
    omega
  · simp [not_le.mp hrange, eq_comm]

/-- The generated proofs are the audit paths of the tree behind the root. -/
theorem mem_paths_iff (hne : leaves ≠ []) : (leaf, proof.map ProofStep.step) ∈
      (splitTree leaves.length leaves).paths E.blake3 List.Vector.toList ↔
    ∃ i, leaves[i]? = some leaf ∧ inclusionProof E leaves i = .ok proof := by
  have hmap : Function.Injective (List.map ProofStep.step) :=
    List.map_injective_iff.mpr ProofStep.step_injective
  constructor
  · intro h
    obtain ⟨i, hi⟩ := List.mem_iff_getElem?.mp h
    have hlt : i < leaves.length := by
      obtain ⟨hlt, -⟩ := List.getElem?_eq_some_iff.mp hi
      rwa [← List.length_map Prod.fst, Tree.map_fst_paths, (splitTree_spec E hne le_rfl).2] at hlt
    rw [paths_splitTree le_rfl hlt] at hi
    obtain ⟨hleaf, hproof⟩ := Prod.mk.inj (Option.some.inj hi)
    refine ⟨i, ?_, inclusionProof_eq_ok.mpr ⟨hlt, (hmap hproof).symm⟩⟩
    rw [List.getElem?_eq_getElem hlt, hleaf]
  · intro h
    obtain ⟨i, hleaf, hproof⟩ := h
    obtain ⟨hlt, rfl⟩ := inclusionProof_eq_ok.mp hproof
    obtain ⟨-, rfl⟩ := List.getElem?_eq_some_iff.mp hleaf
    exact List.mem_of_getElem? (paths_splitTree le_rfl hlt)

/-- **A generated proof is accepted**, at every index of the tree. -/
theorem verifyInclusion_of_generated (hleaf : leaves[i]? = some leaf)
    (hproof : inclusionProof E leaves i = .ok proof) (hindex : index < treeSize) :
    verifyInclusion E leaf index treeSize proof (merkleRoot E leaves) = .ok () := by
  have hne : leaves ≠ [] := by
    rintro rfl
    cases hleaf
  refine verifyInclusion_eq_ok.mpr ⟨hindex, ?_⟩
  rw [merkleRoot_eq_root E hne]
  exact Tree.ascend_of_mem_paths ((mem_paths_iff hne).mpr ⟨i, hleaf, hproof⟩)

/-- **An accepted proof is a generated one**, of a leaf that is really there, or an input hashed for
the proof and an input hashed for the root collide. -/
theorem inclusion_generated (hne : leaves ≠ [])
    (h : verifyInclusion E leaf index treeSize proof (merkleRoot E leaves) = .ok ()) :
    (∃ i, leaves[i]? = some leaf ∧ inclusionProof E leaves i = .ok proof) ∨
      Collides E.blake3 (proofInputs E leaf proof) (rootInputs E leaves) := by
  obtain ⟨-, hroot⟩ := verifyInclusion_eq_ok.mp h
  rw [merkleRoot_eq_root E hne] at hroot
  rw [proofInputs_eq, rootInputs_eq hne, ← mem_paths_iff hne]
  exact Tree.mem_paths_or_collides List.Vector.toList_injective (fun d => d.toList_length) hroot

end Proofs

theorem inclusion_generated_sample :
    (∃ i, Sample.leaves[i]? = some (.replicate 32 0x11) ∧
      inclusionProof Sample.treeExternals Sample.leaves i = .ok Sample.firstProof) ∨
    Collides Sample.treeExternals.blake3
      (proofInputs Sample.treeExternals (.replicate 32 0x11) Sample.firstProof)
      (rootInputs Sample.treeExternals Sample.leaves) :=
  have haccepted : verifyInclusion Sample.treeExternals (.replicate 32 0x11) 0 3 Sample.firstProof
      (merkleRoot Sample.treeExternals Sample.leaves) = .ok () := by decide +kernel
  inclusion_generated (by decide) haccepted

/-! ## The place of a proof -/

/-- What is accepted at an index is the leaf there, unless two inputs collide. -/
def PositionFixed (E : Externals) (leaves : List Bytes) (leaf : Bytes) (index : Nat)
    (proof : List ProofStep) : Prop :=
  verifyInclusion E leaf index leaves.length proof (merkleRoot E leaves) = .ok () →
    leaves[index]? = some leaf ∨
      Collides E.blake3 (proofInputs E leaf proof) (rootInputs E leaves)

/-- The leaf and its proof come from one place, the index points at another leaf. -/
def Misplaced (E : Externals) (leaves : List Bytes) (leaf : Bytes) (index : Nat)
    (proof : List ProofStep) : Prop :=
  (∃ i, leaves[i]? = some leaf ∧ inclusionProof E leaves i = .ok proof) ∧
    ∃ other, leaves[index]? = some other ∧ other ≠ leaf

section Place

variable {E : Externals} {leaves : List Bytes} {index : Nat} {leaf : Bytes}
  {proof : List ProofStep}

/-- **When a proof fixes the place**: exactly when leaf and proof are not those of another place. -/
theorem positionFixed_iff : PositionFixed E leaves leaf index proof ↔
    ¬Misplaced E leaves leaf index proof ∨
      Collides E.blake3 (proofInputs E leaf proof) (rootInputs E leaves) := by
  constructor
  · intro h
    by_cases hcol : Collides E.blake3 (proofInputs E leaf proof) (rootInputs E leaves)
    · exact .inr hcol
    · refine .inl fun hmis => ?_
      obtain ⟨⟨i, hleaf, hproof⟩, other, hother, hne⟩ := hmis
      obtain ⟨hindex, -⟩ := List.getElem?_eq_some_iff.mp hother
      rcases h (verifyInclusion_of_generated hleaf hproof hindex) with hat | hcol'
      · rw [hother] at hat
        exact hne (Option.some.inj hat)
      · exact hcol hcol'
  · intro h hok
    rcases h with hmis | hcol
    · obtain ⟨hindex, -⟩ := verifyInclusion_eq_ok.mp hok
      have hne : leaves ≠ [] := List.ne_nil_of_length_pos (Nat.zero_lt_of_lt hindex)
      refine (inclusion_generated hne hok).imp_left fun hgen => ?_
      by_contra hat
      rw [List.getElem?_eq_getElem hindex] at hat
      refine hmis ⟨hgen, _, List.getElem?_eq_getElem hindex, ?_⟩
      exact fun heq => hat (congrArg some heq)
    · exact .inr hcol

end Place

end Sealr.Evidence
