import Sealr.Lib.FlippedLine
import Sealr.Lib.Text
import Sealr.Bundle.Documents
import Sealr.Verify.Engine

/-!
# Printed reports

A report is printed as indented JSON or as text. The JSON is read back by a decoder for its members,
so nothing that is reported is lost (`reportOfJson_toJson`); of the text the fourth line gives the
verdict, as long as what stands before it has no line feeds (`resultLine_renderText`).
-/

namespace Sealr.Verify

open Lib Decoder Evidence Bundle

/-- Printed with every report; `verify_bundle` copies them into `limits`. -/
def STANDING_LIMITS : List String := [
  "Tamper-evident, not tamper-proof: this report proves integrity, ordering, timing, and origin of the recorded stream; it cannot prove that unrecorded events did not happen.",
  "Coverage is a deployment property: only operations that passed through a recorder are in this stream.",
  "Proven time comes from timestamp anchors: records are proven to exist no later than their earliest anchor; 'no earlier than' is bounded by the previous anchor and monotonic clock deltas.",
  "Subject attribution quality is as recorded (see each record's attribution field); it is not independently proven.",
  "Tail completeness is bounded, not proven: removing trailing records together with the checkpoints attesting them leaves a shorter, self-consistent chain. This report proves the stream reached at least the highest externally attested point; pass --expect-high-water STREAM=SEQ (from the Console's stream integrity endpoint) to make the true extent decidable."]

/-! ## JSON -/

def VerifyResult.name : VerifyResult → String
  | pass => "pass"
  | passWithFindings => "pass_with_findings"
  | fail => "fail"

def Severity.name : Severity → String
  | info => "info"
  | warning => "warning"
  | error => "error"

def Finding.toJson (f : Finding) : Json :=
  .ofFields [("severity", some (.str f.severity.name)), ("class", some (.str f.findingClass.name)),
    ("message", some (.str f.message)), ("stream_id", f.streamId.map .str),
    ("seq", f.seq.map .u64)] (by simp)

def ToolVersions.toJson (t : ToolVersions) : Json :=
  .ofFields [("verifier", some (.str t.verifier)), ("bundle_schema", some (.str t.bundleSchema))]
    (by simp)

/-- A counter of the report, a `u64`. -/
def counter (n : Nat) : Json := .u64 (UInt64.ofNat n)

def Proven.toJson (p : Proven) : Json :=
  .ofFields [("records", some (counter p.records)), ("streams", some (counter p.streams)),
    ("span_from", p.spanFrom.map .str), ("span_to", p.spanTo.map .str),
    ("earliest_anchor", p.earliestAnchor.map .str),
    ("attested_records", some (counter p.attestedRecords)),
    ("anchored_records", some (counter p.anchoredRecords))] (by simp)

def Report.toJson (r : Report) : Json :=
  .ofFields [("result", some (.str r.result.name)), ("bundle_id", some (.str r.bundleId)),
    ("manifest_hash", some (.str r.manifestHash)), ("tool", some r.tool.toJson),
    ("proven", some r.proven.toJson), ("findings", some (.array (r.findings.map (·.toJson)))),
    ("limits", some (.array (STANDING_LIMITS.map .str)))] (by simp)

/-- `serde_json::to_string_pretty`. -/
def toStringPretty (K : Sink) (v : Json) : String :=
  String.ofList (Pretty.pretty K.formatFloat 0 v.value)

/-! ## Reading the JSON back -/

def VerifyResult.ofJson : Decoder VerifyResult := enum [pass, passWithFindings, fail] name

def Severity.ofJson : Decoder Severity := enum [info, warning, error] name

/-- The machine classes, in the order of the passes. -/
def FindingClass.all : List FindingClass := [schemaVersionUnknown, unlistedEntry,
  contentHashMismatch, revocationListSignatureInvalid, revocationListUnverifiable, rootSource,
  rootBundlePinned, noTrustRoot, identityMissing, identityUnparseable, certUnvalidated,
  consoleKeyInvalid, consoleKeyUnparseable, consoleKeyAttestationInvalid, consoleKeyUnattested,
  streamIdInvalid, recordParseError, recordInvalid, streamReadError, recordHashMismatch,
  chainLinkBroken, seqGap, seqNotMonotonic, monotonicRegression, wallClockRegression,
  genesisViolation, segmentBreak, streamMismatch, badWallTimestamp, checkpointsMissing,
  checkpointStreamMismatch, checkpointCertUnknown, checkpointSignatureInvalid,
  checkpointAfterRevocation, chainForkDetected, checkpointRootMismatch,
  checkpointRangeNotFullyExported, countersignatureUnverifiable, countersignatureInvalid,
  notCountersigned, anchorInvalid, anchorDigestBindingBroken, anchorInclusionInvalid,
  anchorLeafMismatch, anchorCheckpointNotInExport, anchorVerified, anchorTokenMissing,
  anchorPending, dailyRootInvalid, dailyRootMismatch, dailyRootSignatureInvalid, qtsVerified,
  qtsInvalid, qtsTokenMissing, unattestedTail, checkpointChainBroken, truncationDetected,
  tailCompletenessUnproven, coverageGapsRecorded, segmentNoCleanEnd]

def FindingClass.ofJson : Decoder FindingClass := enum all name

def Finding.ofJson : Decoder Finding :=
  strict ["severity", "class", "message", "stream_id", "seq"] fun v => do
    let severity ← field "severity" Severity.ofJson v
    let findingClass ← field "class" FindingClass.ofJson v
    let message ← field "message" str v
    let streamId ← optional "stream_id" str v
    let seq ← optional "seq" u64 v
    return { severity, findingClass, message, streamId, seq }

def ToolVersions.ofJson : Decoder ToolVersions :=
  strict ["verifier", "bundle_schema"] fun v => do
    let verifier ← field "verifier" str v
    let bundleSchema ← field "bundle_schema" str v
    return { verifier, bundleSchema }

def count : Decoder Nat := fun v => (u64 v).map UInt64.toNat

def Proven.ofJson : Decoder Proven :=
  strict ["records", "streams", "span_from", "span_to", "earliest_anchor", "attested_records",
      "anchored_records"] fun v => do
    let records ← field "records" count v
    let streams ← field "streams" count v
    let spanFrom ← optional "span_from" str v
    let spanTo ← optional "span_to" str v
    let earliestAnchor ← optional "earliest_anchor" str v
    let attestedRecords ← field "attested_records" count v
    let anchoredRecords ← field "anchored_records" count v
    return { records, streams, spanFrom, spanTo, earliestAnchor, attestedRecords, anchoredRecords }

/-- A report and its standing limits. -/
def reportOfJson : Decoder (Report × List String) :=
  strict ["result", "bundle_id", "manifest_hash", "tool", "proven", "findings",
      "limits"] fun v => do
    let result ← field "result" VerifyResult.ofJson v
    let bundleId ← field "bundle_id" str v
    let manifestHash ← field "manifest_hash" str v
    let tool ← field "tool" ToolVersions.ofJson v
    let proven ← field "proven" Proven.ofJson v
    let findings ← field "findings" (list Finding.ofJson) v
    let limits ← field "limits" (list str) v
    return ({ result, bundleId, manifestHash, tool, proven, findings }, limits)

theorem VerifyResult.ofJson_name (r : VerifyResult) : ofJson (Json.str r.name).value = some r :=
  enum_name (by decide) (by cases r <;> decide)

theorem Severity.ofJson_name (s : Severity) : ofJson (Json.str s.name).value = some s :=
  enum_name (by decide) (by cases s <;> decide)

theorem FindingClass.mem_all (c : FindingClass) : c ∈ all := by
  cases c <;> decide

/-- No two machine classes have one name. -/
theorem FindingClass.nodup_names : (all.map name).Nodup := by
  decide +kernel

theorem FindingClass.ofJson_name (c : FindingClass) : ofJson (Json.str c.name).value = some c :=
  enum_name nodup_names (mem_all c)

theorem Finding.ofJson_toJson (f : Finding) : ofJson f.toJson.value = some f := by
  have hnull : ∀ n, (Json.u64 n).value ≠ .null := fun _ => Value.noConfusion
  unfold ofJson toJson
  rw [strict_ofFields (by simp), field_ofFields (j := .str f.severity.name) (by simp),
    Severity.ofJson_name, field_ofFields (j := .str f.findingClass.name) (by simp),
    FindingClass.ofJson_name, field_ofFields (j := .str f.message) (by simp), str_str,
    @optional_str _ _ _ f.streamId (by simp),
    optional_ofFields (o := f.seq) (by simp) u64_u64 hnull]
  rfl

theorem ToolVersions.ofJson_toJson (t : ToolVersions) : ofJson t.toJson.value = some t := by
  unfold ofJson toJson
  rw [strict_ofFields (by simp)]
  simp [field_ofFields]

theorem count_counter {n : Nat} (h : n < 2 ^ 64) : count (counter n).value = some n := by
  unfold count counter
  rw [u64_u64, Option.map_some, UInt64.toNat_ofNat_of_lt' h]

/-- The counters are `u64`s. -/
structure Proven.Fits (p : Proven) : Prop where
  records : p.records < 2 ^ 64
  streams : p.streams < 2 ^ 64
  attested : p.attestedRecords < 2 ^ 64
  anchored : p.anchoredRecords < 2 ^ 64

theorem Proven.ofJson_toJson {p : Proven} (h : p.Fits) : ofJson p.toJson.value = some p := by
  unfold ofJson toJson
  rw [strict_ofFields (by simp), field_ofFields (j := counter p.records) (by simp),
    count_counter h.records, field_ofFields (j := counter p.streams) (by simp),
    count_counter h.streams, @optional_str _ _ _ p.spanFrom (by simp),
    @optional_str _ _ _ p.spanTo (by simp), @optional_str _ _ _ p.earliestAnchor (by simp),
    field_ofFields (j := counter p.attestedRecords) (by simp), count_counter h.attested,
    field_ofFields (j := counter p.anchoredRecords) (by simp), count_counter h.anchored]
  rfl

/-- **Nothing that is reported is lost.** -/
theorem reportOfJson_toJson {r : Report} (h : r.proven.Fits) :
    reportOfJson r.toJson.value = some (r, STANDING_LIMITS) := by
  unfold reportOfJson Report.toJson
  rw [strict_ofFields (by simp), field_ofFields (j := .str r.result.name) (by simp),
    VerifyResult.ofJson_name, field_ofFields (j := .str r.bundleId) (by simp), str_str,
    field_ofFields (j := .str r.manifestHash) (by simp), str_str,
    field_ofFields (j := r.tool.toJson) (by simp), ToolVersions.ofJson_toJson,
    field_ofFields (j := r.proven.toJson) (by simp), Proven.ofJson_toJson h,
    field_ofFields (j := .array (r.findings.map (·.toJson))) (by simp),
    list_array Finding.ofJson_toJson,
    field_ofFields (j := .array (STANDING_LIMITS.map .str)) (by simp), list_array str_str]
  rfl

theorem floatFree_finding (f : Finding) : Pretty.floatFree f.toJson.value = true := by
  apply Pretty.floatFree_ofFields
  simp

theorem floatFree_toolVersions (t : ToolVersions) : Pretty.floatFree t.toJson.value = true := by
  apply Pretty.floatFree_ofFields
  simp

theorem floatFree_proven (p : Proven) : Pretty.floatFree p.toJson.value = true := by
  apply Pretty.floatFree_ofFields
  simp [counter]

theorem floatFree_report (r : Report) : Pretty.floatFree r.toJson.value = true := by
  apply Pretty.floatFree_ofFields
  simp [floatFree_toolVersions, floatFree_proven, floatFree_list floatFree_finding,
    floatFree_list floatFree_str]

/-- A printed line of JSON is parsed and decoded. -/
theorem parsedBy_line {α : Type} {d : Decoder α} {K : Sink} {v : Json} {a : α}
    (hfloat : Pretty.floatFree v.value = true) (ha : d v.value = some a) :
    parsedBy d (asBytes (toStringPretty K v ++ "\n")) = .ok a := by
  have htext := Lexer.jsonText_line
    (@Pretty.valueText_pretty (fun _ => none) K.formatFloat 0 _ v.wf hfloat)
  have hbytes : utf8Decode (asBytes (toStringPretty K v ++ "\n")) =
      some (Pretty.pretty K.formatFloat 0 v.value ++ ['\n']) := by
    rw [asBytes_eq, utf8Decode_utf8, String.toList_append, toStringPretty, String.toList_ofList]
    rfl
  have hparse := Rfc8259.parseBytes_of_text hbytes htext
  simp only [parsedBy, hparse, Option.bind_some, ha, Option.elim_some]

/-! ## Text -/

def VerifyResult.verdict : VerifyResult → String
  | pass => "PASS"
  | passWithFindings => "PASS WITH FINDINGS"
  | fail => "FAIL"

def Severity.label : Severity → String
  | error => "ERROR"
  | warning => "WARN "
  | info => "INFO "

def Finding.location (f : Finding) : String :=
  match f.streamId, f.seq with
  | some s, some q => " [stream " ++ s ++ " seq " ++ toString q.toNat ++ "]"
  | some s, none => " [stream " ++ s ++ "]"
  | none, _ => ""

def Finding.line (f : Finding) : String :=
  "  " ++ f.severity.label ++ " " ++ f.findingClass.name ++ f.location ++ ": " ++ f.message ++ "\n"

/-- The lines on what is proven. -/
def Proven.lines (p : Proven) : String :=
  "Proven: " ++ toString p.records ++ " records across " ++ toString p.streams ++ " stream(s); " ++
    toString p.attestedRecords ++ " attested by checkpoints; " ++ toString p.anchoredRecords ++
    " anchored.\n" ++
  (match p.spanFrom, p.spanTo with
  | some lo, some hi => "Recorded span: " ++ lo ++ " .. " ++ hi ++ "\n"
  | _, _ => "") ++
  match p.earliestAnchor with
  | some anchor => "Earliest timestamp anchor: " ++ anchor ++ "\n"
  | none => ""

def findingLines (findings : List Finding) : String :=
  if findings.isEmpty then "\nFindings: none.\n"
  else "\nFindings (" ++ toString findings.length ++ "):\n" ++ String.join (findings.map (·.line))

/-- What follows the verdict. -/
def Report.body (r : Report) : String :=
  "\n" ++ r.proven.lines ++ findingLines r.findings ++
    "\nStanding limits:\n" ++ String.join (STANDING_LIMITS.map fun l => "  - " ++ l ++ "\n")

/-- `render_text`. -/
def Report.renderText (r : Report) : String :=
  "sealr-verify " ++ r.tool.verifier ++ " — bundle " ++ r.bundleId ++ "\n" ++
    "manifest hash (BLAKE3/JCS): " ++ r.manifestHash ++ "\n" ++
    "\nRESULT: " ++ r.result.verdict ++ "\n" ++ r.body

/-- The verdict is on the fourth line. -/
theorem resultLine_renderText {r : Report} (hverifier : '\n' ∉ r.tool.verifier.toList)
    (hid : '\n' ∉ r.bundleId.toList) (hhash : '\n' ∉ r.manifestHash.toList) :
    Text.lineAt '\n' 3 r.renderText.toList = ("RESULT: " ++ r.result.verdict).toList := by
  have htext : r.renderText.toList =
      ("sealr-verify " ++ r.tool.verifier ++ " — bundle " ++ r.bundleId).toList ++ '\n' ::
        (("manifest hash (BLAKE3/JCS): " ++ r.manifestHash).toList ++ '\n' :: ([] ++ '\n' ::
          (("RESULT: " ++ r.result.verdict).toList ++ '\n' :: r.body.toList))) := by
    have hfeed : "\n".toList = ['\n'] := rfl
    have hresult : "\nRESULT: ".toList = '\n' :: "RESULT: ".toList := by decide
    unfold Report.renderText
    simp only [String.toList_append, List.append_assoc, hfeed, hresult, List.cons_append,
      List.nil_append]
  have hverdict : '\n' ∉ r.result.verdict.toList := by
    cases r.result <;> decide
  rw [htext, Text.lineAt_succ (by simp [hverifier, hid]), Text.lineAt_succ (by simp [hhash]),
    Text.lineAt_succ (by simp), Text.lineAt_zero (by simp [hverdict])]

/-- A digest is printed on one line. -/
theorem newline_notMem_hexEncode (b : Bytes) : '\n' ∉ (hexEncode b).toList := by
  have hdigit : ∀ n < 16, hexChar n ≠ '\n' := by decide
  simp only [hexEncode, String.toList_ofList, List.mem_flatMap, List.mem_cons, List.not_mem_nil,
    or_false, not_exists, not_and, not_or]
  intro x _
  have hx := x.toNat_lt
  exact ⟨(hdigit _ (by omega)).symm, (hdigit _ (by omega)).symm⟩

/-- The lines above the verdict are the verifier's own, but for the id of the bundle. -/
theorem resultLine_verifyBundle {E : Externals} {S : Serde} {now : Int} {reader : BundleReader}
    {opts : VerifyOptions} (hid : '\n' ∉ reader.manifest.bundleId.toList) :
    Text.lineAt '\n' 3 (verifyBundle E S now reader opts).renderText.toList =
      ("RESULT: " ++ (verifyBundle E S now reader opts).result.verdict).toList := by
  apply resultLine_renderText _ hid
  · simp only [verifyBundle, BundleReader.manifestHash, Manifest.jcsHash]
    cases toJcsBytes reader.manifest.toJson with
    | error e =>
      have hnone : '\n' ∉ "unavailable".toList := by decide
      exact hnone
    | ok bytes => exact newline_notMem_hexEncode _
  · have hversion : '\n' ∉ VERIFIER_VERSION.toList := by decide
    exact hversion

end Sealr.Verify
