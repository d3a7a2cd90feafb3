import Sealr.Bundle.Read

/-!
# Reports

Findings, what a bundle proves, and the verdict over the findings. The verifier's context is an
append-only list of findings: a pass of the model returns those it adds.
-/

namespace Sealr.Verify

open Lib

inductive VerifyResult where
  | pass | passWithFindings | fail
  deriving DecidableEq, Repr

inductive Severity where
  | info | warning | error
  deriving DecidableEq, Repr

/-- The machine classes of findings. -/
inductive FindingClass where
  | schemaVersionUnknown | unlistedEntry | contentHashMismatch
  | revocationListSignatureInvalid | revocationListUnverifiable | rootSource
  | rootBundlePinned | noTrustRoot | identityMissing | identityUnparseable | certUnvalidated
  | consoleKeyInvalid | consoleKeyUnparseable | consoleKeyAttestationInvalid | consoleKeyUnattested
  | streamIdInvalid | recordParseError | recordInvalid | streamReadError
  | recordHashMismatch | chainLinkBroken | seqGap | seqNotMonotonic | monotonicRegression
  | wallClockRegression | genesisViolation | segmentBreak | streamMismatch | badWallTimestamp
  | checkpointsMissing | checkpointStreamMismatch | checkpointCertUnknown
  | checkpointSignatureInvalid | checkpointAfterRevocation | chainForkDetected
  | checkpointRootMismatch | checkpointRangeNotFullyExported | countersignatureUnverifiable
  | countersignatureInvalid | notCountersigned
  | anchorInvalid | anchorDigestBindingBroken | anchorInclusionInvalid | anchorLeafMismatch
  | anchorCheckpointNotInExport | anchorVerified | anchorTokenMissing | anchorPending
  | dailyRootInvalid | dailyRootMismatch | dailyRootSignatureInvalid | qtsVerified | qtsInvalid
  | qtsTokenMissing
  | unattestedTail | checkpointChainBroken | truncationDetected | tailCompletenessUnproven
  | coverageGapsRecorded | segmentNoCleanEnd
  deriving DecidableEq, Repr

def FindingClass.name : FindingClass → String
  | schemaVersionUnknown => "schema_version_unknown"
  | unlistedEntry => "unlisted_entry"
  | contentHashMismatch => "content_hash_mismatch"
  | revocationListSignatureInvalid => "revocation_list_signature_invalid"
  | revocationListUnverifiable => "revocation_list_unverifiable"
  | rootSource => "root_source"
  | rootBundlePinned => "root_bundle_pinned"
  | noTrustRoot => "no_trust_root"
  | identityMissing => "identity_missing"
  | identityUnparseable => "identity_unparseable"
  | certUnvalidated => "cert_unvalidated"
  | consoleKeyInvalid => "console_key_invalid"
  | consoleKeyUnparseable => "console_key_unparseable"
  | consoleKeyAttestationInvalid => "console_key_attestation_invalid"
  | consoleKeyUnattested => "console_key_unattested"
  | streamIdInvalid => "stream_id_invalid"
  | recordParseError => "record_parse_error"
  | recordInvalid => "record_invalid"
  | streamReadError => "stream_read_error"
  | recordHashMismatch => "record_hash_mismatch"
  | chainLinkBroken => "chain_link_broken"
  | seqGap => "seq_gap"
  | seqNotMonotonic => "seq_not_monotonic"
  | monotonicRegression => "monotonic_regression"
  | wallClockRegression => "wall_clock_regression"
  | genesisViolation => "genesis_violation"
  | segmentBreak => "segment_break"
  | streamMismatch => "stream_mismatch"
  | badWallTimestamp => "bad_wall_timestamp"
  | checkpointsMissing => "checkpoints_missing"
  | checkpointStreamMismatch => "checkpoint_stream_mismatch"
  | checkpointCertUnknown => "checkpoint_cert_unknown"
  | checkpointSignatureInvalid => "checkpoint_signature_invalid"
  | checkpointAfterRevocation => "checkpoint_after_revocation"
  | chainForkDetected => "chain_fork_detected"
  | checkpointRootMismatch => "checkpoint_root_mismatch"
  | checkpointRangeNotFullyExported => "checkpoint_range_not_fully_exported"
  | countersignatureUnverifiable => "countersignature_unverifiable"
  | countersignatureInvalid => "countersignature_invalid"
  | notCountersigned => "not_countersigned"
  | anchorInvalid => "anchor_invalid"
  | anchorDigestBindingBroken => "anchor_digest_binding_broken"
  | anchorInclusionInvalid => "anchor_inclusion_invalid"
  | anchorLeafMismatch => "anchor_leaf_mismatch"
  | anchorCheckpointNotInExport => "anchor_checkpoint_not_in_export"
  | anchorVerified => "anchor_verified"
  | anchorTokenMissing => "anchor_token_missing"
  | anchorPending => "anchor_pending"
  | dailyRootInvalid => "daily_root_invalid"
  | dailyRootMismatch => "daily_root_mismatch"
  | dailyRootSignatureInvalid => "daily_root_signature_invalid"
  | qtsVerified => "qts_verified"
  | qtsInvalid => "qts_invalid"
  | qtsTokenMissing => "qts_token_missing"
  | unattestedTail => "unattested_tail"
  | checkpointChainBroken => "checkpoint_chain_broken"
  | truncationDetected => "truncation_detected"
  | tailCompletenessUnproven => "tail_completeness_unproven"
  | coverageGapsRecorded => "coverage_gaps_recorded"
  | segmentNoCleanEnd => "segment_no_clean_end"

structure Finding where
  severity : Severity
  findingClass : FindingClass
  message : String
  streamId : Option String
  seq : Option UInt64
  deriving DecidableEq, Repr

/-- `Ctx::add`. -/
def add (severity : Severity) (findingClass : FindingClass) (message : String) : Finding :=
  ⟨severity, findingClass, message, none, none⟩

/-- `Ctx::add_at`. -/
def addAt (severity : Severity) (findingClass : FindingClass) (message stream : String)
    (seq : Option UInt64) : Finding :=
  ⟨severity, findingClass, message, some stream, seq⟩

/-- What the bundle proves, when it passes. -/
structure Proven where
  records : Nat
  streams : Nat
  spanFrom : Option String
  spanTo : Option String
  earliestAnchor : Option String
  attestedRecords : Nat
  anchoredRecords : Nat
  deriving DecidableEq

def Proven.default : Proven := ⟨0, 0, none, none, none, 0, 0⟩

structure ToolVersions where
  verifier : String
  bundleSchema : String

structure Report where
  result : VerifyResult
  bundleId : String
  manifestHash : String
  tool : ToolVersions
  proven : Proven
  findings : List Finding

/-- `compute_result`. -/
def computeResult (findings : List Finding) : VerifyResult :=
  if findings.any fun f => f.severity = .error then .fail
  else if findings.any fun f => f.severity = .warning then .passWithFindings
  else .pass

/-- `exit_code`. -/
def Report.exitCode (r : Report) : Int :=
  match r.result with
  | .pass => 0
  | .passWithFindings => 10
  | .fail => 11

/-- A verdict of `Pass` means that every finding is informational. -/
theorem computeResult_eq_pass {fs : List Finding} :
    computeResult fs = .pass ↔ ∀ f ∈ fs, f.severity = .info := by
  unfold computeResult
  split_ifs with herr hwarn
  · simp only [false_iff, not_forall]
    obtain ⟨f, hf, he⟩ := List.any_eq_true.mp herr
    exact ⟨f, hf, by simp [of_decide_eq_true he]⟩
  · simp only [false_iff, not_forall]
    obtain ⟨f, hf, he⟩ := List.any_eq_true.mp hwarn
    exact ⟨f, hf, by simp [of_decide_eq_true he]⟩
  · simp only [true_iff]
    intro f hf
    cases hs : f.severity with
    | info => rfl
    | warning => exact absurd (List.any_eq_true.mpr ⟨f, hf, by simp [hs]⟩) hwarn
    | error => exact absurd (List.any_eq_true.mpr ⟨f, hf, by simp [hs]⟩) herr

/-- A verdict of `Fail` means that some finding is an error. -/
theorem computeResult_eq_fail {fs : List Finding} :
    computeResult fs = .fail ↔ ∃ f ∈ fs, f.severity = .error := by
  unfold computeResult
  split_ifs with herr hwarn
  · simpa using herr
  · simpa using herr
  · simpa using herr

end Sealr.Verify
