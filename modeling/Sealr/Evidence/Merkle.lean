import Sealr.Lib.HashTree
import Sealr.Evidence.Hash

/-!
# Merkle trees over record hashes

The tree hash of `merkle.rs`: the list of leaves is split at the largest power of two below its
length, and the two halves are hashed recursively. The recursions carry fuel; a list's length is
enough of it.

`subtreeRoot_eq_root` names the tree whose root is computed, so the root binds the leaves
(`merkleRoot_binds`).
-/

namespace Sealr.Evidence

open Lib

/-- A leaf is hashed behind a zero byte. -/
def leafHash (E : Externals) (leafBytes : Bytes) : Digest := E.blake3 (0x00 :: leafBytes)

def nodeHash (E : Externals) (left right : Digest) : Digest :=
  E.blake3 (0x01 :: (left.toList ++ right.toList))

/-- The loop of `split_point`: double `k` while twice `k` is below `n`. -/
def splitLoop : Nat → Nat → Nat → Nat
  | 0, k, _ => k
  | fuel + 1, k, n => if k * 2 < n then splitLoop fuel (k * 2) n else k

/-- `split_point`. -/
def splitPoint (n : Nat) : Nat := splitLoop n 1 n

/-- `subtree_root`. -/
def subtreeRoot (E : Externals) : Nat → List Bytes → Digest
  | 0, _ => E.blake3 []
  | _, [] => E.blake3 []
  | _, [leaf] => leafHash E leaf
  | fuel + 1, leaves =>
    let k := splitPoint leaves.length
    nodeHash E (subtreeRoot E fuel (leaves.take k)) (subtreeRoot E fuel (leaves.drop k))

/-- `merkle_root`: no leaves hash as the empty string. -/
def merkleRoot (E : Externals) (leaves : List Bytes) : Digest :=
  match leaves.length with
  | 0 => E.blake3 []
  | _ => subtreeRoot E leaves.length leaves

/-- One step of an audit path. -/
structure ProofStep where
  sibling : Digest
  siblingOnLeft : Bool
  deriving DecidableEq

/-- `path`, from the leaf up. -/
def path (E : Externals) : Nat → List Bytes → Nat → List ProofStep
  | 0, _, _ => []
  | fuel + 1, leaves, index =>
    let n := leaves.length
    if n = 1 then []
    else
      let k := splitPoint n
      if index < k then
        path E fuel (leaves.take k) index ++ [⟨subtreeRoot E n (leaves.drop k), false⟩]
      else
        path E fuel (leaves.drop k) (index - k) ++ [⟨subtreeRoot E n (leaves.take k), true⟩]

/-- `inclusion_proof`. -/
def inclusionProof (E : Externals) (leaves : List Bytes) (index : Nat) : Result (List ProofStep) :=
  if index ≥ leaves.length then
    .error (.merkleProof ("index " ++ toString index ++ " out of range for tree of " ++
      toString leaves.length ++ " leaves"))
  else .ok (path E leaves.length leaves index)

/-- One turn of the loop of `verify_inclusion`. -/
def climb (E : Externals) (hash : Digest) (step : ProofStep) : Digest :=
  if step.siblingOnLeft then nodeHash E step.sibling hash else nodeHash E hash step.sibling

/-- `verify_inclusion`. -/
def verifyInclusion (E : Externals) (leafBytes : Bytes) (index treeSize : Nat)
    (proof : List ProofStep) (root : Digest) : Result Unit :=
  if index ≥ treeSize then
    .error (.merkleProof ("index " ++ toString index ++ " out of range for tree_size " ++
      toString treeSize))
  else if proof.foldl (climb E) (leafHash E leafBytes) = root then .ok ()
  else .error (.merkleProof "recomputed root does not match")

/-! ## The tree behind the root -/

theorem splitLoop_spec {fuel k n : Nat} (hk : 0 < k) (hkn : k < n) (hfuel : n ≤ k + fuel) :
    0 < splitLoop fuel k n ∧ splitLoop fuel k n < n := by
  induction fuel generalizing k with
  | zero => omega
  | succ fuel ih =>
    unfold splitLoop
    split_ifs with hlt
    · exact ih (by omega) hlt (by omega)
    · exact ⟨hk, hkn⟩

/-- Both halves of a split are shorter and not empty. -/
theorem splitPoint_spec {n : Nat} (h : 2 ≤ n) : 0 < splitPoint n ∧ splitPoint n < n :=
  splitLoop_spec (by omega) (by omega) (by omega)

/-- The tree that `subtree_root` hashes. -/
def splitTree : Nat → List Bytes → Tree
  | 0, _ => .leaf []
  | _, [] => .leaf []
  | _, [leaf] => .leaf leaf
  | fuel + 1, leaves =>
    let k := splitPoint leaves.length
    .node (splitTree fuel (leaves.take k)) (splitTree fuel (leaves.drop k))

/-- A non-empty list of leaves, with enough fuel: hashed as the tree, and read off it again. -/
theorem splitTree_spec (E : Externals) {fuel : Nat} {leaves : List Bytes} (hne : leaves ≠ [])
    (hfuel : leaves.length ≤ fuel) :
    subtreeRoot E fuel leaves = (splitTree fuel leaves).root E.blake3 List.Vector.toList ∧
      (splitTree fuel leaves).leaves = leaves := by
  induction fuel generalizing leaves with
  | zero => exact absurd (List.length_eq_zero_iff.mp (by omega)) hne
  | succ fuel ih =>
    match leaves with
    | [leaf] => exact ⟨rfl, rfl⟩
    | a :: b :: rest =>
      have hlen : (a :: b :: rest).length = rest.length + 2 := rfl
      obtain ⟨hpos, hlt⟩ := splitPoint_spec (n := (a :: b :: rest).length) (by omega)
      have hleft := @ih ((a :: b :: rest).take (splitPoint (a :: b :: rest).length))
        (by simp only [ne_eq, List.take_eq_nil_iff, reduceCtorEq, or_false]; omega)
        (by rw [List.length_take]; omega)
      have hright := @ih ((a :: b :: rest).drop (splitPoint (a :: b :: rest).length))
        (by simp only [ne_eq, List.drop_eq_nil_iff]; omega) (by rw [List.length_drop]; omega)
      constructor
      · rw [subtreeRoot, splitTree, Tree.root, hleft.1, hright.1]
        · rfl
        all_goals simp
      · rw [splitTree, Tree.leaves, hleft.2, hright.2, List.take_append_drop]
        all_goals simp

/-- Everything hashed on the way to the root of a non-empty list. -/
def merkleInputs (E : Externals) (leaves : List Bytes) : List Bytes :=
  (splitTree leaves.length leaves).inputs E.blake3 List.Vector.toList

theorem merkleRoot_eq_root (E : Externals) {leaves : List Bytes} (hne : leaves ≠ []) :
    merkleRoot E leaves =
      (splitTree leaves.length leaves).root E.blake3 List.Vector.toList := by
  rw [← (splitTree_spec E hne le_rfl).1, merkleRoot]
  split
  · next h => exact absurd (List.length_eq_zero_iff.mp h) hne
  · rfl

/-- **The root binds the leaves**, however many there are. -/
theorem merkleRoot_binds {E : Externals} {xs ys : List Bytes} (hx : xs ≠ []) (hy : ys ≠ [])
    (h : merkleRoot E xs = merkleRoot E ys) :
    xs = ys ∨ Collides E.blake3 (merkleInputs E xs) (merkleInputs E ys) := by
  rw [merkleRoot_eq_root E hx, merkleRoot_eq_root E hy] at h
  rcases Tree.eq_or_collides List.Vector.toList_injective (fun d => d.toList_length) _ _ h with
    htree | hcol
  · left
    rw [← (splitTree_spec E hx le_rfl).2, ← (splitTree_spec E hy le_rfl).2, htree]
  · exact .inr hcol

end Sealr.Evidence
