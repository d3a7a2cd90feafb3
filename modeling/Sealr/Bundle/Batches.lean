import Sealr.Bundle.Anchors
import Sealr.Evidence.Inclusion

/-!
# Batches

What `build_batch` stores for a list of checkpoint digests, and what a stored inclusion that
verifies says. An inclusion carries its index next to its proof; only the proof is checked.
-/

namespace Sealr.Bundle

open Lib Evidence

/-! ## Stored proofs -/

section Stored

variable {E : Externals} {leaves : List Bytes} {inclusion : CheckpointInclusion}
  {rootHex : String} {leaf : Digest} {proof : List ProofStep}

/-- Steps that were written are read back. -/
theorem toSteps_fromStep (proof : List ProofStep) :
    toSteps E (proof.map .fromStep) = .ok proof := by
  induction proof with
  | nil => rfl
  | cons s proof ih =>
    simp only [List.map_cons, toSteps, StoredProofStep.toStep, StoredProofStep.fromStep,
      hexDecodeDigest_hexEncode, ih, bind, Except.bind]
    rfl

/-- What a stored inclusion and a root are read as, for the tree of these leaves. -/
structure StoredAs (E : Externals) (leaves : List Bytes) (inclusion : CheckpointInclusion)
    (rootHex : String) (leaf : Digest) (proof : List ProofStep) : Prop where
  leaf : hexDecodeDigest E "inclusion.leaf" inclusion.leaf = .ok leaf
  proof : toSteps E inclusion.proof = .ok proof
  root : hexDecodeDigest E "batch.root_blake3" rootHex = .ok (merkleRoot E leaves)
  treeSize : inclusion.treeSize.toNat = leaves.length

/-- The stored check is the check of what is stored. -/
theorem StoredAs.verify_eq (h : StoredAs E leaves inclusion rootHex leaf proof) :
    verifyStoredInclusion E inclusion rootHex = verifyInclusion E leaf.toList
      inclusion.leafIndex.toNat leaves.length proof (merkleRoot E leaves) := by
  simp only [verifyStoredInclusion, h.leaf, h.proof, h.root, h.treeSize, bind, Except.bind]

/-- What is accepted at a stored index is the leaf there, unless two inputs collide. -/
def StoredPositionFixed (E : Externals) (leaves : List Bytes) (inclusion : CheckpointInclusion)
    (rootHex : String) : Prop :=
  ∀ leaf proof, StoredAs E leaves inclusion rootHex leaf proof →
    verifyStoredInclusion E inclusion rootHex = .ok () →
      leaves[inclusion.leafIndex.toNat]? = some leaf.toList ∨
        Collides E.blake3 (proofInputs E leaf.toList proof) (rootInputs E leaves)

/-- **When an inclusion proof fixes the place**, given or stored: exactly when the leaf and its
proof are not those of a place other than the index, or two inputs collide. -/
theorem inclusion_place_iff (E : Externals) (leaves : List Bytes) :
    (∀ leaf index proof, PositionFixed E leaves leaf index proof ↔
      ¬Misplaced E leaves leaf index proof ∨
        Collides E.blake3 (proofInputs E leaf proof) (rootInputs E leaves)) ∧
    ∀ inclusion rootHex, StoredPositionFixed E leaves inclusion rootHex ↔
      ∀ leaf proof, StoredAs E leaves inclusion rootHex leaf proof →
        ¬Misplaced E leaves leaf.toList inclusion.leafIndex.toNat proof ∨
          Collides E.blake3 (proofInputs E leaf.toList proof) (rootInputs E leaves) := by
  refine ⟨fun leaf index proof => positionFixed_iff, fun inclusion rootHex => ?_⟩
  refine forall₂_congr fun leaf proof => forall_congr' fun hstored => ?_
  rw [hstored.verify_eq, ← positionFixed_iff]
  rfl

end Stored

/-! The proof of the first leaf, submitted for the second one. -/

namespace Sample

open Evidence.Sample

def misplaced : CheckpointInclusion where
  checkpointId := "01CHECKPOINT000000000000A1"
  leaf := hexEncode (.replicate 32 0x11)
  leafIndex := 1
  treeSize := 3
  proof := firstProof.map .fromStep

theorem stored_misplaced : StoredAs treeExternals leaves misplaced rootHex (.replicate 32 0x11)
    firstProof := by
  refine ⟨by decide, toSteps_fromStep firstProof, by decide, rfl⟩

/-- The inputs of the proof are among those of the root, so they collide with none of them. -/
theorem not_collides_firstProof : ¬Collides treeExternals.blake3
    (proofInputs treeExternals (.replicate 32 0x11) firstProof)
    (rootInputs treeExternals leaves) := by
  unfold Collides
  decide

end Sample

open Evidence.Sample in
theorem proof_misplaced :
    ¬PositionFixed treeExternals leaves (.replicate 32 0x11) 1 firstProof ∧
      ¬StoredPositionFixed treeExternals leaves Sample.misplaced rootHex := by
  constructor
  · intro h
    rcases h (by decide) with hat | hcol
    · exact absurd hat (by decide)
    · exact Sample.not_collides_firstProof hcol
  · intro h
    rcases h _ _ Sample.stored_misplaced (by decide) with hat | hcol
    · exact absurd hat (by decide)
    · exact Sample.not_collides_firstProof hcol

/-! ## Batches that are built -/

/-- The inclusion that is stored for the leaf at `i`. -/
structure IncludedAt (E : Externals) (leaves : List Bytes) (i : Nat) (c : String × Digest)
    (inclusion : CheckpointInclusion) : Prop where
  leafAt : leaves[i]? = some c.2.toList
  checkpointId : inclusion.checkpointId = c.1
  leaf : inclusion.leaf = hexEncode c.2.toList
  leafIndex : inclusion.leafIndex = UInt64.ofNat i
  treeSize : inclusion.treeSize = UInt64.ofNat leaves.length
  proof : inclusion.proof = (path E leaves.length leaves i).map .fromStep

/-- The inclusion of a checkpoint in a tree whose root is written as `rootHex`: the stored proof
verifies, and the stored leaf is the checkpoint's digest. -/
structure Included (E : Externals) (rootHex : String) (c : String × Digest)
    (inclusion : CheckpointInclusion) : Prop where
  checkpointId : inclusion.checkpointId = c.1
  verifies : verifyStoredInclusion E inclusion rootHex = .ok ()
  leaf : hexDecodeDigest E "inclusion.leaf" inclusion.leaf = .ok c.2

section Built

variable {E : Externals} {leaves : List Bytes} {c : String × Digest}
  {inclusion : CheckpointInclusion} {cs : List (String × Digest)}

theorem IncludedAt.included {i : Nat} (h : IncludedAt E leaves i c inclusion)
    (hsize : leaves.length < 2 ^ 64) :
    Included E (hexEncode (merkleRoot E leaves).toList) c inclusion := by
  obtain ⟨hlt, -⟩ := List.getElem?_eq_some_iff.mp h.leafAt
  have hleaf : hexDecodeDigest E "inclusion.leaf" inclusion.leaf = .ok c.2 := by
    rw [h.leaf, hexDecodeDigest_hexEncode]
  have hindex : inclusion.leafIndex.toNat = i := by
    rw [h.leafIndex, UInt64.toNat_ofNat']
    omega
  have hstored : StoredAs E leaves inclusion (hexEncode (merkleRoot E leaves).toList) c.2
      (path E leaves.length leaves i) := by
    refine ⟨hleaf, ?_, hexDecodeDigest_hexEncode E _ _, ?_⟩
    · rw [h.proof, toSteps_fromStep]
    · rw [h.treeSize, UInt64.toNat_ofNat']
      omega
  refine ⟨h.checkpointId, ?_, hleaf⟩
  rw [hstored.verify_eq, hindex]
  exact verifyInclusion_of_generated h.leafAt (inclusionProof_eq_ok.mpr ⟨hlt, rfl⟩) hlt

/-- The loop of `build_batch`, from the checkpoints `pre` on. -/
theorem buildInclusions_ok {pre : List (String × Digest)}
    (hleaves : leaves = (pre ++ cs).map fun c => c.2.toList) :
    ∃ inclusions, buildInclusions E leaves pre.length cs = .ok inclusions ∧
      List.Forall₂ (fun c inclusion => ∃ i, IncludedAt E leaves i c inclusion) cs inclusions := by
  induction cs generalizing pre with
  | nil => exact ⟨[], rfl, .nil⟩
  | cons c cs ih =>
    obtain ⟨inclusions, hrest, hall⟩ := @ih (pre ++ [c]) (by rw [hleaves]; simp)
    have hleaf : leaves[pre.length]? = some c.2.toList := by
      rw [hleaves]
      simp
    obtain ⟨hlt, -⟩ := List.getElem?_eq_some_iff.mp hleaf
    have hproof : inclusionProof E leaves pre.length =
        .ok (path E leaves.length leaves pre.length) :=
      inclusionProof_eq_ok.mpr ⟨hlt, rfl⟩
    rw [List.length_append, List.length_singleton] at hrest
    have hat : IncludedAt E leaves pre.length c {
        checkpointId := c.1
        leaf := hexEncode c.2.toList
        leafIndex := UInt64.ofNat pre.length
        treeSize := UInt64.ofNat leaves.length
        proof := (path E leaves.length leaves pre.length).map .fromStep } :=
      ⟨hleaf, rfl, rfl, rfl, rfl, rfl⟩
    refine ⟨_ :: inclusions, ?_, .cons ⟨pre.length, hat⟩ hall⟩
    simp only [buildInclusions, hproof, hrest, bind, Except.bind]
    rfl

/-- What `build_batch` makes of a list of digests. -/
structure BuiltFrom (E : Externals) (cs : List (String × Digest)) (batch : AnchorBatch) :
    Prop where
  included : List.Forall₂ (Included E batch.rootBlake3) cs batch.checkpoints
  roots : ∃ root, hexDecodeDigest E "root_blake3" batch.rootBlake3 = .ok root ∧
    batch.rootSha256 = sha256Hex E root.toList

/-- Building a batch never fails. -/
theorem buildBatch_ok (batchId createdAt : String) (qualified : Bool)
    (hsize : cs.length < 2 ^ 64) :
    ∃ batch, buildBatch E batchId createdAt cs qualified = .ok batch ∧ BuiltFrom E cs batch := by
  obtain ⟨inclusions, hbuilt, hall⟩ :=
    @buildInclusions_ok E (cs.map fun c => c.2.toList) cs [] rfl
  have hbatch : buildBatch E batchId createdAt cs qualified = .ok {
      batchId
      createdAt
      rootBlake3 := hexEncode (merkleRoot E (cs.map fun c => c.2.toList)).toList
      rootSha256 := sha256Hex E (merkleRoot E (cs.map fun c => c.2.toList)).toList
      tsrFile := none
      qualified
      checkpoints := inclusions } := by
    rw [List.length_nil] at hbuilt
    simp only [buildBatch, hbuilt, bind, Except.bind]
    rfl
  refine ⟨_, hbatch, ?_, _, hexDecodeDigest_hexEncode E _ _, rfl⟩
  refine hall.imp fun c inclusion hinc => ?_
  obtain ⟨i, hat⟩ := hinc
  exact hat.included (by rwa [List.length_map])

end Built

end Sealr.Bundle
