import Sealr.Verify.Anchors

/-!
# The verification engine

`verify_bundle`: container, identity, chains, checkpoints, anchors and coverage, in this order.
-/

namespace Sealr.Verify

open Lib Evidence Bundle

def VERIFIER_VERSION : String := "0.1.0"

/-! ## Coverage -/

/-- Records that no checkpoint attests. -/
def unattestedFindings (streamId : String) (data : StreamData) : List Finding :=
  let unattested := data.hashesBySeq.size - data.attestedSeqs.card
  if unattested > 0 then
    [addAt .warning .unattestedTail (toString unattested ++
      " record(s) not covered by any valid checkpoint") streamId none]
  else []

/-- Checkpoints whose predecessor is absent. -/
def linkChainFindings (streamId : String) (data : StreamData) : List Finding :=
  data.checkpointLinks.filterMap fun l =>
    if l.2 ∈ data.checkpointNoteHashes then none
    else some (addAt .error .checkpointChainBroken ("checkpoint " ++ l.1 ++
      " references predecessor " ++ l.2 ++ " which is absent from the bundle: an earlier checkpoint and the records it attested were removed") streamId none)

/-- The larger of two optional extents. -/
def maxExtent : Option UInt64 → Option UInt64 → Option UInt64
  | some a, some b => some (max a b)
  | some a, none => some a
  | none, b => b

/-- The last sequence number present. -/
def maxPresent (data : StreamData) : Option UInt64 := data.hashesBySeq.keys.getLast?

/-- An extent attested from outside that the records do not reach. -/
def truncationFindings (pinned : Option UInt64) (streamId : String) (data : StreamData) :
    List Finding :=
  match maxExtent pinned data.countersignedHighWater with
  | none => []
  | some hw =>
    if (maxPresent data).all fun m => m < hw then
      [addAt .error .truncationDetected
        ("the Console countersigned that this stream had reached seq " ++ toString hw.toNat ++
          ", but the bundle stops at seq " ++
          ((maxPresent data).elim "nothing" fun m => toString m.toNat) ++ ": " ++
          toString (hw - (maxPresent data).getD 0).toNat ++
          " record(s) were removed from the end") streamId none]
    else []

/-- Nothing outside the recorder bounds the stream's extent. -/
def tailFindings (pinned : Option UInt64) (streamId : String) (data : StreamData) : List Finding :=
  if pinned.isNone ∧ data.hashesBySeq.size > 0 ∧ data.countersignedHighWater.isNone then
    let detail := match data.topCheckpoint with
      | some (cpId, seqTo) => "the last checkpoint (" ++ cpId ++ ") covers up to seq " ++
          toString seqTo.toNat ++
          " but carries no console countersignature and no timestamp anchor"
      | none => "the stream has no valid checkpoint at all"
    [addAt .warning .tailCompletenessUnproven
      ("no external attestation bounds this stream's extent: " ++ detail ++
        ". Trailing records — together with the checkpoints attesting them — could have been removed leaving a self-consistent bundle. Re-run with --expect-high-water " ++
        streamId ++ "=<max_seq from GET /v1/streams/" ++ streamId ++
        "/integrity> to make the true extent decidable.") streamId none]
  else []

def gapFindings (streamId : String) (data : StreamData) : List Finding :=
  if data.coverageGapCount > 0 then
    [addAt .warning .coverageGapsRecorded ("stream contains " ++ toString data.coverageGapCount ++
      " coverage_gap record(s)") streamId none]
  else []

def segmentFindings (streamId : String) (data : StreamData) : List Finding :=
  data.segmentsWithoutEnd.map fun seg =>
    addAt .info .segmentNoCleanEnd ("segment " ++ seg ++
      " has no segment_end record (crash or still active at export)") streamId none

/-- What a stream adds to what is proven. -/
def addProven (proven : Proven) (data : StreamData) : Proven :=
  { proven with
    records := proven.records + data.hashesBySeq.size
    streams := proven.streams + 1
    attestedRecords := proven.attestedRecords + data.attestedSeqs.card
    anchoredRecords := proven.anchoredRecords + data.anchoredSeqs.card
    spanFrom := match data.tsMin, data.tsMax with
      | some lo, some _ => lowerEarliest proven.spanFrom lo
      | _, _ => proven.spanFrom
    spanTo := match data.tsMin, data.tsMax, proven.spanTo with
      | some _, some hi, some s => if s < hi then some hi else some s
      | some _, some hi, none => some hi
      | _, _, s => s }

/-- The cross-checks of one stream. -/
def coverageFindings (opts : VerifyOptions) (streamId : String) (data : StreamData) :
    List Finding :=
  let pinned := opts.expectedHighWater streamId
  unattestedFindings streamId data ++ linkChainFindings streamId data ++
    truncationFindings pinned streamId data ++ tailFindings pinned streamId data ++
    gapFindings streamId data ++ segmentFindings streamId data

/-! ## The passes -/

/-- Pass 1: schema and container. -/
def containerFindings (E : Externals) (reader : BundleReader) : List Finding :=
  (if reader.manifest.schemaVersion ≠ BUNDLE_SCHEMA_VERSION then
    [add .warning .schemaVersionUnknown ("bundle schema_version " ++
      E.debugStr reader.manifest.schemaVersion ++ " (verifier supports 1)")]
  else []) ++
  match reader.verifyContentHashes E with
  | .ok unlisted => unlisted.map fun path =>
      add .error .unlistedEntry ("entry " ++ E.debugStr path ++
        " present in container but not in manifest")
  | .error e => [add .error .contentHashMismatch (e.display E)]

/-- The revocation list is reported on and then used as it is. -/
def revocationFindings (E : Externals) (consoleKeys : ConsoleKeys)
    (revocations : Option SignedRevocationList) : List Finding :=
  match revocations with
  | none => []
  | some rev =>
    let verified := consoleKeys.values.any fun k => succeeds (rev.verify E k)
    if ¬verified ∧ ¬consoleKeys.isEmpty then
      [add .error .revocationListSignatureInvalid
        "revocation list signature does not verify with any known console key"]
    else if consoleKeys.isEmpty then
      [add .warning .revocationListUnverifiable
        "revocation list present but no console key available to verify it"]
    else []

/-- Pass 2: roots, certificates, console keys, revocations. -/
def identityPass (E : Externals) (S : Serde) (nowUnix : Int) (reader : BundleReader)
    (opts : VerifyOptions) : Identity × List Finding :=
  let identity := (reader.identity E S).toOption
  let bundleRoots := identity.map (·.roots)
  let ((rootPems, rootSource), rootFindings) := selectRoots E opts bundleRoots
  let (certMap, certFindings) := buildCertMap E (identity.map (·.certsPem)) rootPems nowUnix
  let (consoleKeys, keyFindings) := resolveConsoleKeys E opts bundleRoots rootPems
  let revocations := identity.bind (·.revocations)
  (⟨certMap, consoleKeys, revocations⟩,
    rootFindings ++ certFindings ++ keyFindings ++ revocationFindings E consoleKeys revocations ++
      if rootSource ≠ "" then [add .info .rootSource rootSource] else [])

/-- One turn of pass 3: the data of a stream replaces what an earlier scope entry left. -/
def chainStep (E : Externals) (S : Serde) (reader : BundleReader)
    (perStream : Std.TreeMap String StreamData) (scope : StreamScope) :
    Std.TreeMap String StreamData × List Finding :=
  let (data, findings) := verifyStreamChain E S reader scope.streamId
  (perStream.insert scope.streamId data, findings)

/-- Pass 3: the chains of the streams in scope. -/
def chainPass (E : Externals) (S : Serde) (reader : BundleReader) : Streams × List Finding :=
  let (perStream, findings) := foldLog (chainStep E S reader) {} reader.manifest.scope.streams
  (perStream.toList, findings)

/-- Pass 5 on one stream. -/
def checkpointTurn (E : Externals) (S : Serde) (reader : BundleReader) (identity : Identity)
    (s : String × StreamData) : (String × StreamData) × List Finding :=
  match reader.streamCheckpoints S s.1 with
  | .error _ =>
    (s, [addAt .warning .checkpointsMissing "no checkpoints exported for stream" s.1 none])
  | .ok file =>
    let (data, findings) := verifyCheckpoints E s.1 s.2 file.checkpoints identity.certMap
      identity.revocations identity.consoleKeys
    ((s.1, { data with checkpoints := file.checkpoints }), findings)

/-- Pass 5: the checkpoints of every stream. -/
def checkpointPass (E : Externals) (S : Serde) (reader : BundleReader) (identity : Identity)
    (streams : Streams) : Streams × List Finding :=
  (streams.map fun s => (checkpointTurn E S reader identity s).1,
    streams.flatMap fun s => (checkpointTurn E S reader identity s).2)

/-- Pass 7: coverage. -/
def coveragePass (opts : VerifyOptions) (streams : Streams) : Proven × List Finding :=
  (streams.foldl (fun p s => addProven p s.2) .default,
    streams.flatMap fun s => coverageFindings opts s.1 s.2)

/-- `verify_bundle`; `now` is the clock that is read when the options give no time. -/
def verifyBundle (E : Externals) (S : Serde) (now : Int) (reader : BundleReader)
    (opts : VerifyOptions) : Report :=
  let nowUnix := opts.nowUnix.getD now
  let manifestHash := match reader.manifestHash E with
    | .ok h => h
    | .error _ => "unavailable"
  let containerFs := containerFindings E reader
  let (identity, identityFs) := identityPass E S nowUnix reader opts
  let (chained, chainFs) := chainPass E S reader
  let (checked, checkpointFs) := checkpointPass E S reader identity chained
  let proofs := (reader.anchorProofs S).toOption.getD .default
  let (anchored, anchorFs) := verifyAnchors E reader proofs checked identity.consoleKeys
  let (proven, coverageFs) := coveragePass opts anchored.streams
  let findings := containerFs ++ identityFs ++ chainFs ++ checkpointFs ++ anchorFs ++ coverageFs
  { result := computeResult findings
    bundleId := reader.manifest.bundleId
    manifestHash
    tool := ⟨VERIFIER_VERSION, reader.manifest.schemaVersion⟩
    proven := { proven with earliestAnchor := anchored.earliest }
    findings }

end Sealr.Verify
