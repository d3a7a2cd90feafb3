import Sealr.Evidence.Checkpoint
import Sealr.Verify.Identity
import Sealr.Verify.Stream

/-!
# Checkpoints and countersignatures of one stream

`verify_checkpoints`: a loop over the checkpoints of a stream whose turn is cut at the places where
the source says `continue`.
-/

namespace Sealr.Verify

open Lib Evidence Bundle

/-- The sequence numbers of an inclusive range, in order. -/
def seqList (from_ to_ : UInt64) : List UInt64 :=
  (List.range (to_.toNat + 1 - from_.toNat)).map fun i => UInt64.ofNat (from_.toNat + i)

/-- `(from..=to).map_while(|s| hashes_by_seq.get(&s))`. -/
def coveredHashes (hashes : Std.TreeMap UInt64 String) : List UInt64 → List String
  | [] => []
  | s :: ss =>
    match hashes[s]? with
    | some h => h :: coveredHashes hashes ss
    | none => []

/-- A range seen so far: its ends, its root and its checkpoint. -/
structure SeenRange where
  from_ : UInt64
  to_ : UInt64
  root : String
  id : String

structure CheckpointState where
  data : StreamData
  ranges : List SeenRange

/-- Two checkpoints over one range with different roots are a fork. -/
def forkFindings (streamId : String) (ranges : List SeenRange) (note : CheckpointNote) :
    List Finding :=
  ranges.filterMap fun r =>
    if (note.seqFrom ≤ r.to_ ∧ r.from_ ≤ note.seqTo) ∧
        (r.from_ = note.seqFrom ∧ r.to_ = note.seqTo) ∧ r.root ≠ note.merkleRoot then
      some (addAt .error .chainForkDetected ("checkpoints " ++ r.id ++ " and " ++
        note.checkpointId ++ " cover [" ++ toString r.from_.toNat ++ ", " ++
        toString r.to_.toNat ++ "] with different roots") streamId none)
    else none

/-- The revocation check: it needs a list and a time that parses. -/
def isRevoked (E : Externals) (revocations : Option SignedRevocationList)
    (note : CheckpointNote) : Bool :=
  match revocations, parseWall E note.tsWall with
  | some rev, .ok ts => rev.isRevokedAt E note.recorderCertFingerprint ts
  | _, _ => false

/-- Is every record of the range exported? The count wraps as in the source. -/
def fullyExported (covered : List String) (note : CheckpointNote) : Bool :=
  UInt64.ofNat covered.length = note.seqTo - note.seqFrom + 1

/-- The root recomputation: the data, the findings, and whether the turn goes on. -/
def rootStep (E : Externals) (streamId : String) (data : StreamData) (bc : BundleCheckpoint) :
    StreamData × List Finding × Bool :=
  let note := bc.checkpoint.note
  let covered := coveredHashes data.hashesBySeq (seqList note.seqFrom note.seqTo)
  if fullyExported covered note then
    match bc.checkpoint.verifyRoot E covered with
    | .error e =>
      (data, [addAt .error .checkpointRootMismatch (e.display E) streamId none], false)
    | .ok _ =>
      ({ data with
          attestedSeqs := data.attestedSeqs ∪ (seqList note.seqFrom note.seqTo).toFinset },
        [], true)
  else
    (data, [addAt .info .checkpointRangeNotFullyExported ("checkpoint " ++ note.checkpointId ++
      " covers [" ++ toString note.seqFrom.toNat ++ ", " ++ toString note.seqTo.toNat ++
      "] but the export does not contain the full range; root not recomputed") streamId none],
      true)

/-- Does a countersignature verify with some console key? -/
def countersigned (E : Externals) (consoleKeys : ConsoleKeys) (cs : Countersignature) : Bool :=
  consoleKeys.values.any fun k => succeeds (cs.verify E k)

/-- Fold a high-water mark into the highest so far. -/
def raiseHighWater (current : Option UInt64) (hw : UInt64) : Option UInt64 :=
  match current with
  | none => some hw
  | some c => if c < hw then some hw else some c

/-- What a verified countersignature leaves in the data. -/
def acceptCountersignature (cpId : String) (cs : Countersignature) (data : StreamData) :
    StreamData :=
  { data with
    countersignedCheckpoints := insert cpId data.countersignedCheckpoints
    countersignedHighWater :=
      match cs.note.streamHighWaterSeq with
      | some hw => raiseHighWater data.countersignedHighWater hw
      | none => data.countersignedHighWater }

/-- The countersignature: the data, the findings, and whether the turn goes on. -/
def countersignatureStep (E : Externals) (streamId : String) (consoleKeys : ConsoleKeys)
    (data : StreamData) (bc : BundleCheckpoint) : StreamData × List Finding × Bool :=
  let cpId := bc.checkpoint.note.checkpointId
  match bc.countersignature with
  | none =>
    (data, [addAt .info .notCountersigned ("checkpoint " ++ cpId ++
      " has no console countersignature") streamId none], true)
  | some cs =>
    if countersigned E consoleKeys cs then (acceptCountersignature cpId cs data, [], true)
    else if consoleKeys.isEmpty then
      (data, [addAt .warning .countersignatureUnverifiable ("checkpoint " ++ cpId ++
        ": countersignature present but no console key available") streamId none], true)
    else
      (data, [addAt .error .countersignatureInvalid ("checkpoint " ++ cpId ++
        ": console countersignature does not verify") streamId none], false)

/-- The bookkeeping at the end of a turn. -/
def acceptCheckpoint (E : Externals) (note : CheckpointNote) (data : StreamData) : StreamData :=
  let cpId := note.checkpointId
  { data with
    checkpointDigests :=
      match toJcsBytes note.toJson with
      | .ok jcs => data.checkpointDigests.insert cpId (blake3Raw E jcs)
      | .error _ => data.checkpointDigests
    checkpointNoteHashes :=
      match note.noteHash E with
      | .ok h => insert h data.checkpointNoteHashes
      | .error _ => data.checkpointNoteHashes
    checkpointLinks :=
      match note.prevCheckpointHash with
      | some prev => data.checkpointLinks ++ [(cpId, prev)]
      | none => data.checkpointLinks
    topCheckpoint :=
      match data.topCheckpoint with
      | some (id, s) => if s < note.seqTo then some (cpId, note.seqTo) else some (id, s)
      | none => some (cpId, note.seqTo)
    validCheckpointRanges :=
      data.validCheckpointRanges.insert cpId (note.seqFrom, note.seqTo) }

/-- The turn from the root recomputation on, for a checkpoint whose signature stands. -/
def signedStep (E : Externals) (streamId : String) (consoleKeys : ConsoleKeys)
    (data : StreamData) (bc : BundleCheckpoint) : StreamData × List Finding :=
  let (data₁, rootFindings, goOn₁) := rootStep E streamId data bc
  if goOn₁ then
    let (data₂, csFindings, goOn₂) := countersignatureStep E streamId consoleKeys data₁ bc
    if goOn₂ then (acceptCheckpoint E bc.checkpoint.note data₂, rootFindings ++ csFindings)
    else (data₂, rootFindings ++ csFindings)
  else (data₁, rootFindings)

/-- Why a checkpoint is passed over before its root is looked at. -/
def refuse (E : Externals) (streamId : String) (certMap : CertMap)
    (revocations : Option SignedRevocationList) (bc : BundleCheckpoint) : Option Finding :=
  let note := bc.checkpoint.note
  let cpId := note.checkpointId
  if note.streamId ≠ streamId then
    some (addAt .error .checkpointStreamMismatch ("checkpoint " ++ cpId ++ " is for stream " ++
      note.streamId) streamId none)
  else
    match certMap[note.recorderCertFingerprint]? with
    | none =>
      some (addAt .error .checkpointCertUnknown ("checkpoint " ++ cpId ++
        ": recorder certificate " ++ note.recorderCertFingerprint ++
        " not in validated identity set") streamId none)
    | some cert =>
      if succeeds (bc.checkpoint.verify E cert.publicKey) then
        if isRevoked E revocations note then
          some (addAt .error .checkpointAfterRevocation ("checkpoint " ++ cpId ++ " signed at " ++
            note.tsWall ++ " after certificate revocation") streamId none)
        else none
      else
        some (addAt .error .checkpointSignatureInvalid ("checkpoint " ++ cpId ++
          ": recorder signature does not verify") streamId none)

/-- One turn of the loop of `verify_checkpoints`. -/
def checkpointStep (E : Externals) (streamId : String) (certMap : CertMap)
    (revocations : Option SignedRevocationList) (consoleKeys : ConsoleKeys)
    (st : CheckpointState) (bc : BundleCheckpoint) : CheckpointState × List Finding :=
  match refuse E streamId certMap revocations bc with
  | some f => (st, [f])
  | none =>
    let note := bc.checkpoint.note
    let forks := forkFindings streamId st.ranges note
    let (data, findings) := signedStep E streamId consoleKeys st.data bc
    (⟨data, st.ranges ++ [⟨note.seqFrom, note.seqTo, note.merkleRoot, note.checkpointId⟩]⟩,
      forks ++ findings)

/-- `verify_checkpoints`. -/
def verifyCheckpoints (E : Externals) (streamId : String) (data : StreamData)
    (checkpoints : List BundleCheckpoint) (certMap : CertMap)
    (revocations : Option SignedRevocationList) (consoleKeys : ConsoleKeys) :
    StreamData × List Finding :=
  let (st, findings) :=
    foldLog (checkpointStep E streamId certMap revocations consoleKeys) ⟨data, []⟩ checkpoints
  (st.data, findings)

end Sealr.Verify
