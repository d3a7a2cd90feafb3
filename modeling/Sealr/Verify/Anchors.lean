import Sealr.Verify.Checkpoints
import Sealr.Verify.Tsa

/-!
# Timestamp anchors

`verify_anchors`: a loop over the batches, whose inclusions are matched against the checkpoints of
the exported streams, and a loop over the daily roots. The streams are visited in key order, as
the map that holds them is.
-/

namespace Sealr.Verify

open Lib Evidence Bundle

/-- The exported streams with their data, in key order. -/
abbrev Streams := List (String × StreamData)

structure AnchorState where
  earliest : Option String
  streams : Streams

/-- One inclusion of a batch: the stream and checkpoint it matches, if any. -/
def inclusionStep (E : Externals) (streams : Streams) (batch : AnchorBatch)
    (matched : List (String × String)) (inc : CheckpointInclusion) :
    List (String × String) × List Finding :=
  match verifyStoredInclusion E inc batch.rootBlake3 with
  | .error e =>
    (matched, [add .error .anchorInclusionInvalid ("batch " ++ batch.batchId ++ ": checkpoint " ++
      inc.checkpointId ++ ": " ++ e.display E)])
  | .ok _ =>
    -- the first stream that knows a checkpoint of this id decides
    match streams.findSome? fun s => (s.2.checkpointDigests[inc.checkpointId]?).map fun d => (s.1, d)
      with
    | none =>
      (matched, [add .info .anchorCheckpointNotInExport ("batch " ++ batch.batchId ++
        ": anchored checkpoint " ++ inc.checkpointId ++ " is not part of this export")])
    | some (streamId, digest) =>
      let leaf := (hexDecodeDigest E "inclusion.leaf" inc.leaf).toOption.getD (.replicate 32 0)
      if leaf = digest then (matched ++ [(streamId, inc.checkpointId)], [])
      else
        (matched, [add .error .anchorLeafMismatch ("batch " ++ batch.batchId ++
          ": leaf for checkpoint " ++ inc.checkpointId ++
          " does not match the checkpoint note digest")])

/-- Anchor the attested records in the range of one checkpoint. -/
def anchorRange (cpId : String) (data : StreamData) : StreamData :=
  match data.validCheckpointRanges[cpId]? with
  | none => data
  | some (from_, to_) =>
    { data with
      anchoredSeqs :=
        data.anchoredSeqs ∪ data.attestedSeqs.filter fun s => from_ ≤ s ∧ s ≤ to_ }

/-- `per_stream.get_mut(stream_id)`. -/
def modifyStream (streamId : String) (f : StreamData → StreamData) (streams : Streams) : Streams :=
  streams.map fun s => if s.1 = streamId then (s.1, f s.2) else s

/-- Anchor every matched checkpoint of a batch. -/
def anchorMatched (matched : List (String × String)) (streams : Streams) : Streams :=
  matched.foldl (fun ss m => modifyStream m.1 (anchorRange m.2) ss) streams

/-- Keep the smaller time, compared as text. -/
def lowerEarliest (earliest : Option String) (genTime : String) : Option String :=
  match earliest with
  | none => some genTime
  | some e => if genTime < e then some genTime else some e

/-- The token of a batch whose imprint is `sha`. -/
def batchToken (E : Externals) (reader : BundleReader) (batch : AnchorBatch) (sha : Digest)
    (path : String) : VerifiedToken ⊕ Finding :=
  match reader.entryBytes path with
  | .error e =>
    .inr (add .error .anchorTokenMissing ("batch " ++ batch.batchId ++ ": " ++ e.display E))
  | .ok bytes =>
    match verifyToken E bytes sha with
    | .error e =>
      .inr (add .error .anchorInvalid ("batch " ++ batch.batchId ++
        ": token verification failed: " ++ e.display))
    | .ok token => .inl token

/-- The check that the two roots of a batch belong together. -/
def checkBatch (E : Externals) (batch : AnchorBatch) : Option Finding :=
  match hexDecodeDigest E "root_blake3" batch.rootBlake3 with
  | .error _ => some (add .error .anchorInvalid ("batch " ++ batch.batchId ++ ": bad root_blake3"))
  | .ok rootRaw =>
    if sha256Hex E rootRaw.toList ≠ batch.rootSha256 then
      some (add .error .anchorDigestBindingBroken ("batch " ++ batch.batchId ++
        ": root_sha256 does not equal SHA-256(root_blake3)"))
    else none

/-- The token of a batch, applied to the checkpoints matched in it. -/
def tokenStep (E : Externals) (reader : BundleReader) (st : AnchorState) (batch : AnchorBatch)
    (matched : List (String × String)) : AnchorState × List Finding :=
  match batch.tsrFile with
  | none =>
    (st, [add .warning .anchorPending ("batch " ++ batch.batchId ++
      " has no timestamp token yet")])
  | some path =>
    match hexDecodeDigest E "root_sha256" batch.rootSha256 with
    | .error _ => (st, [])
    | .ok sha =>
      match batchToken E reader batch sha path with
      | .inr f => (st, [f])
      | .inl token =>
        (⟨lowerEarliest st.earliest token.genTime, anchorMatched matched st.streams⟩,
          [add .info .anchorVerified ("batch " ++ batch.batchId ++ " anchored at " ++
            token.genTime ++ " by " ++ token.signerSubject ++ " (" ++
            (if batch.qualified then "recorded as qualified" else "not qualified") ++ ")")])

/-- One turn of the loop over the batches. -/
def batchStep (E : Externals) (reader : BundleReader) (st : AnchorState) (batch : AnchorBatch) :
    AnchorState × List Finding :=
  match checkBatch E batch with
  | some f => (st, [f])
  | none =>
    let (matched, incFindings) := foldLog (inclusionStep E st.streams batch) [] batch.checkpoints
    let (st', tokenFindings) := tokenStep E reader st batch matched
    (st', incFindings ++ tokenFindings)

/-! ## Daily roots -/

/-- The leaves of a daily root. -/
def decodeBatchRoots (E : Externals) : List String → Result (List Digest)
  | [] => .ok []
  | h :: hs => do
    let d ← hexDecodeDigest E "batch_root" h
    let ds ← decodeBatchRoots E hs
    return d :: ds

/-- The signature of a daily root is checked when it names a key. -/
def dailySignatureFindings (E : Externals) (consoleKeys : ConsoleKeys) (day : DailyRoot) :
    List Finding :=
  match day.signature, day.consoleKeyId with
  | some sig, some _ =>
    let unsigned := { day with signature := none }
    let ok := consoleKeys.values.any fun k =>
      succeeds (k.verifyJcs E unsigned.toJson sig "daily root")
    if ¬ok ∧ ¬consoleKeys.isEmpty then
      [add .error .dailyRootSignatureInvalid ("day " ++ day.day ++
        ": signature does not verify")]
    else []
  | _, _ => []

/-- The qualified timestamp of a daily root. -/
def qtsStep (E : Externals) (reader : BundleReader) (earliest : Option String) (day : DailyRoot) :
    Option String × List Finding :=
  match day.qtsFile with
  | none => (earliest, [])
  | some qts =>
    match hexDecodeDigest E "daily.root_blake3" day.rootBlake3 with
    | .error _ => (earliest, [])
    | .ok rootRaw =>
      match reader.entryBytes qts with
      | .error e =>
        (earliest, [add .error .qtsTokenMissing ("day " ++ day.day ++ ": " ++ e.display E)])
      | .ok bytes =>
        match verifyToken E bytes (sha256Raw E rootRaw.toList) with
        | .error e =>
          (earliest, [add .error .qtsInvalid ("day " ++ day.day ++
            ": qualified timestamp verification failed: " ++ e.display)])
        | .ok token =>
          (lowerEarliest earliest token.genTime,
            [add .info .qtsVerified ("day " ++ day.day ++ " qualified timestamp at " ++
              token.genTime ++ " by " ++ token.signerSubject)])

/-- One turn of the loop over the daily roots. -/
def dailyStep (E : Externals) (reader : BundleReader) (consoleKeys : ConsoleKeys)
    (earliest : Option String) (day : DailyRoot) : Option String × List Finding :=
  match decodeBatchRoots E day.batchRoots with
  | .error _ =>
    (earliest, [add .error .dailyRootInvalid ("day " ++ day.day ++ ": bad batch root hex")])
  | .ok leaves =>
    if hexEncode (merkleRoot E (leaves.map List.Vector.toList)).toList ≠ day.rootBlake3 then
      (earliest, [add .error .dailyRootMismatch ("day " ++ day.day ++
        ": recomputed daily root does not match")])
    else
      let (earliest', qtsFindings) := qtsStep E reader earliest day
      (earliest', dailySignatureFindings E consoleKeys day ++ qtsFindings)

/-- `verify_anchors`. -/
def verifyAnchors (E : Externals) (reader : BundleReader) (proofs : AnchorProofs)
    (streams : Streams) (consoleKeys : ConsoleKeys) : AnchorState × List Finding :=
  let (st, batchFindings) := foldLog (batchStep E reader) ⟨none, streams⟩ proofs.batches
  let (earliest, dailyFindings) :=
    foldLog (dailyStep E reader consoleKeys) st.earliest proofs.daily
  ({ st with earliest }, batchFindings ++ dailyFindings)

end Sealr.Verify
