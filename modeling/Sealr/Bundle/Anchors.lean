import Sealr.Bundle.Types

/-!
# Anchor batches and daily roots

The documents of `anchors/proofs.json` and the check of a stored inclusion proof.
-/

namespace Sealr.Bundle

open Lib Evidence

structure StoredProofStep where
  sibling : String
  left : Bool
  deriving DecidableEq

namespace StoredProofStep

def toJson (s : StoredProofStep) : Json :=
  .ofFields [("sibling", some (.str s.sibling)), ("left", some (.bool s.left))] (by simp)

def toStep (E : Externals) (s : StoredProofStep) : Result ProofStep := do
  let sibling ← hexDecodeDigest E "proof.sibling" s.sibling
  return { sibling, siblingOnLeft := s.left }

def fromStep (s : ProofStep) : StoredProofStep := ⟨hexEncode s.sibling.toList, s.siblingOnLeft⟩

end StoredProofStep

structure CheckpointInclusion where
  checkpointId : String
  leaf : String
  leafIndex : UInt64
  treeSize : UInt64
  proof : List StoredProofStep
  deriving DecidableEq

def CheckpointInclusion.toJson (c : CheckpointInclusion) : Json :=
  .ofFields [("checkpoint_id", some (.str c.checkpointId)), ("leaf", some (.str c.leaf)),
    ("leaf_index", some (.u64 c.leafIndex)), ("tree_size", some (.u64 c.treeSize)),
    ("proof", some (.array (c.proof.map (·.toJson))))] (by simp)

structure AnchorBatch where
  batchId : String
  createdAt : String
  rootBlake3 : String
  rootSha256 : String
  tsrFile : Option String
  qualified : Bool
  checkpoints : List CheckpointInclusion
  deriving DecidableEq

def AnchorBatch.toJson (b : AnchorBatch) : Json :=
  .ofFields [("batch_id", some (.str b.batchId)), ("created_at", some (.str b.createdAt)),
    ("root_blake3", some (.str b.rootBlake3)), ("root_sha256", some (.str b.rootSha256)),
    ("tsr_file", b.tsrFile.map .str), ("qualified", some (.bool b.qualified)),
    ("checkpoints", some (.array (b.checkpoints.map (·.toJson))))] (by simp)

structure DailyRoot where
  day : String
  rootBlake3 : String
  rootSha256 : String
  prevDayHash : Option String
  batchRoots : List String
  qtsFile : Option String
  signature : Option String
  consoleKeyId : Option String
  deriving DecidableEq

def DailyRoot.toJson (d : DailyRoot) : Json :=
  .ofFields [("day", some (.str d.day)), ("root_blake3", some (.str d.rootBlake3)),
    ("root_sha256", some (.str d.rootSha256)), ("prev_day_hash", d.prevDayHash.map .str),
    ("batch_roots", some (.array (d.batchRoots.map .str))), ("qts_file", d.qtsFile.map .str),
    ("signature", d.signature.map .str), ("console_key_id", d.consoleKeyId.map .str)] (by simp)

structure AnchorProofs where
  batches : List AnchorBatch
  daily : List DailyRoot

def AnchorProofs.toJson (p : AnchorProofs) : Json :=
  .ofFields [("batches", some (.array (p.batches.map (·.toJson)))),
    ("daily", some (.array (p.daily.map (·.toJson))))] (by simp)

def AnchorProofs.default : AnchorProofs := ⟨[], []⟩

/-- The inclusions of `build_batch`, from index `i` on. -/
def buildInclusions (E : Externals) (leaves : List Bytes) :
    Nat → List (String × Digest) → Result (List CheckpointInclusion)
  | _, [] => .ok []
  | i, (id, digest) :: rest => do
    let proof ← inclusionProof E leaves i
    let others ← buildInclusions E leaves (i + 1) rest
    return {
      checkpointId := id
      leaf := hexEncode digest.toList
      leafIndex := UInt64.ofNat i
      treeSize := UInt64.ofNat leaves.length
      proof := proof.map .fromStep } :: others

/-- `build_batch`. -/
def buildBatch (E : Externals) (batchId createdAt : String)
    (checkpointLeaves : List (String × Digest)) (qualified : Bool) : Result AnchorBatch := do
  let leaves := checkpointLeaves.map fun c => c.2.toList
  let root := merkleRoot E leaves
  let checkpoints ← buildInclusions E leaves 0 checkpointLeaves
  return {
    batchId
    createdAt
    rootBlake3 := hexEncode root.toList
    rootSha256 := sha256Hex E root.toList
    tsrFile := none
    qualified
    checkpoints }

def toSteps (E : Externals) : List StoredProofStep → Result (List ProofStep)
  | [] => .ok []
  | s :: ss => do
    let step ← s.toStep E
    let steps ← toSteps E ss
    return step :: steps

/-- `anchors::verify_inclusion`. -/
def verifyStoredInclusion (E : Externals) (inclusion : CheckpointInclusion)
    (rootBlake3Hex : String) : Result Unit := do
  let leaf ← hexDecodeDigest E "inclusion.leaf" inclusion.leaf
  let root ← hexDecodeDigest E "batch.root_blake3" rootBlake3Hex
  let proof ← toSteps E inclusion.proof
  verifyInclusion E leaf.toList inclusion.leafIndex.toNat inclusion.treeSize.toNat proof root

end Sealr.Bundle
