import Sealr.Bundle.Signed

/-!
# Reading the documents of a bundle

The decoders that serde derives for the checkpoint files, the anchor proofs, the revocation list and
the roots. Each reads back what was written, so a file that the writer added is the document it was
given (`streamCheckpoints_of_pretty` and its siblings).
-/

namespace Sealr.Bundle

open Lib Decoder Evidence

/-! ## Decoders -/

def bool : Decoder Bool
  | .bool b => some b
  | _ => none

def signedCheckpointOfJson : Decoder SignedCheckpoint :=
  strict ["note", "signature"] fun v => do
    let note ← field "note" noteOfJson v
    let signature ← field "signature" str v
    return { note, signature }

def signedCountersignatureOfJson : Decoder Countersignature :=
  strict ["note", "signature"] fun v => do
    let note ← field "note" countersignatureOfJson v
    let signature ← field "signature" str v
    return { note, signature }

def BundleCheckpoint.ofJson : Decoder BundleCheckpoint :=
  strict ["checkpoint", "countersignature"] fun v => do
    let checkpoint ← field "checkpoint" signedCheckpointOfJson v
    let countersignature ← optional "countersignature" signedCountersignatureOfJson v
    return { checkpoint, countersignature }

def StreamCheckpoints.ofJson : Decoder StreamCheckpoints :=
  strict ["stream_id", "checkpoints"] fun v => do
    let streamId ← field "stream_id" str v
    let checkpoints ← field "checkpoints" (list BundleCheckpoint.ofJson) v
    return { streamId, checkpoints }

def StoredProofStep.ofJson : Decoder StoredProofStep :=
  strict ["sibling", "left"] fun v => do
    let sibling ← field "sibling" str v
    let left ← field "left" bool v
    return { sibling, left }

def CheckpointInclusion.ofJson : Decoder CheckpointInclusion :=
  strict ["checkpoint_id", "leaf", "leaf_index", "tree_size", "proof"] fun v => do
    let checkpointId ← field "checkpoint_id" str v
    let leaf ← field "leaf" str v
    let leafIndex ← field "leaf_index" u64 v
    let treeSize ← field "tree_size" u64 v
    let proof ← field "proof" (list StoredProofStep.ofJson) v
    return { checkpointId, leaf, leafIndex, treeSize, proof }

def AnchorBatch.ofJson : Decoder AnchorBatch :=
  strict ["batch_id", "created_at", "root_blake3", "root_sha256", "tsr_file", "qualified",
      "checkpoints"] fun v => do
    let batchId ← field "batch_id" str v
    let createdAt ← field "created_at" str v
    let rootBlake3 ← field "root_blake3" str v
    let rootSha256 ← field "root_sha256" str v
    let tsrFile ← optional "tsr_file" str v
    let qualified ← field "qualified" bool v
    let checkpoints ← field "checkpoints" (list CheckpointInclusion.ofJson) v
    return { batchId, createdAt, rootBlake3, rootSha256, tsrFile, qualified, checkpoints }

def AnchorProofs.ofJson : Decoder AnchorProofs :=
  strict ["batches", "daily"] fun v => do
    let batches ← fieldOr "batches" (list AnchorBatch.ofJson) [] v
    let daily ← fieldOr "daily" (list DailyRoot.ofJson) [] v
    return { batches, daily }

def signedRevocationListOfJson : Decoder SignedRevocationList :=
  strict ["list", "console_key_id", "signature"] fun v => do
    let list ← field "list" revocationListOfJson v
    let consoleKeyId ← field "console_key_id" str v
    let signature ← field "signature" str v
    return { list, consoleKeyId, signature }

def TrustedRoot.ofJson : Decoder TrustedRoot :=
  strict ["name", "cert_pem"] fun v => do
    let name ← field "name" str v
    let certPem ← field "cert_pem" str v
    return { name, certPem }

def AttestedConsoleKey.ofJson : Decoder AttestedConsoleKey :=
  strict ["statement", "signature", "root_name"] fun v => do
    let statement ← field "statement" ConsoleKeyStatement.ofJson v
    let signature ← optional "signature" str v
    let rootName ← optional "root_name" str v
    return { statement, signature, rootName }

def RootsFile.ofJson : Decoder RootsFile :=
  strict ["roots", "console_keys"] fun v => do
    let roots ← field "roots" (list TrustedRoot.ofJson) v
    let consoleKeys ← fieldOr "console_keys" (list AttestedConsoleKey.ofJson) [] v
    return { roots, consoleKeys }

/-! ## Written and read -/

theorem bool_bool (b : Bool) : bool (Json.bool b).value = some b := rfl

/-- A member that is written as a list. -/
theorem fieldOr_ofFields {α : Type} {fields : List (String × Option Json)}
    {h : (fields.map Prod.fst).Nodup} {k : String} {d : Decoder α} {default : α} {j : Json}
    (hk : (k, some j) ∈ fields) :
    fieldOr k d default (Json.ofFields fields h).value = d j.value := by
  unfold fieldOr
  rw [Json.get_ofFields hk]

theorem fieldOr_absent {α : Type} {fields : List (String × Option Json)}
    {h : (fields.map Prod.fst).Nodup} {k : String} {d : Decoder α} {default : α}
    (hk : (k, none) ∈ fields) :
    fieldOr k d default (Json.ofFields fields h).value = some default := by
  unfold fieldOr
  rw [Json.get_ofFields_none hk]

theorem signedCheckpointOfJson_toJson (c : SignedCheckpoint) :
    signedCheckpointOfJson c.toJson.value = some c := by
  unfold signedCheckpointOfJson SignedCheckpoint.toJson
  rw [strict_ofFields (by simp), field_ofFields (j := c.note.toJson) (by simp),
    noteOfJson_toJson, field_ofFields (j := .str c.signature) (by simp), str_str]
  rfl

theorem signedCountersignatureOfJson_toJson (c : Countersignature) :
    signedCountersignatureOfJson c.toJson.value = some c := by
  unfold signedCountersignatureOfJson Countersignature.toJson
  rw [strict_ofFields (by simp), field_ofFields (j := c.note.toJson) (by simp),
    countersignatureOfJson_toJson, field_ofFields (j := .str c.signature) (by simp), str_str]
  rfl

theorem BundleCheckpoint.ofJson_toJson (c : BundleCheckpoint) : ofJson c.toJson.value = some c := by
  have hnull : ∀ s : Countersignature, s.toJson.value ≠ .null := fun _ => Value.noConfusion
  unfold ofJson toJson
  rw [strict_ofFields (by simp), field_ofFields (j := c.checkpoint.toJson) (by simp),
    signedCheckpointOfJson_toJson,
    optional_ofFields (o := c.countersignature) (by simp) signedCountersignatureOfJson_toJson hnull]
  rfl

theorem StreamCheckpoints.ofJson_toJson (s : StreamCheckpoints) :
    ofJson s.toJson.value = some s := by
  unfold ofJson toJson
  rw [strict_ofFields (by simp)]
  simp [field_ofFields, list_array BundleCheckpoint.ofJson_toJson]

theorem StoredProofStep.ofJson_toJson (s : StoredProofStep) : ofJson s.toJson.value = some s := by
  unfold ofJson toJson
  rw [strict_ofFields (by simp)]
  simp [field_ofFields, bool_bool]

theorem CheckpointInclusion.ofJson_toJson (c : CheckpointInclusion) :
    ofJson c.toJson.value = some c := by
  unfold ofJson toJson
  rw [strict_ofFields (by simp)]
  simp [field_ofFields, list_array StoredProofStep.ofJson_toJson]

theorem AnchorBatch.ofJson_toJson (b : AnchorBatch) : ofJson b.toJson.value = some b := by
  unfold ofJson toJson
  rw [strict_ofFields (by simp), @optional_str _ _ _ b.tsrFile (by simp)]
  simp [field_ofFields, bool_bool, list_array CheckpointInclusion.ofJson_toJson]

theorem AnchorProofs.ofJson_toJson (p : AnchorProofs) : ofJson p.toJson.value = some p := by
  unfold ofJson toJson
  rw [strict_ofFields (by simp)]
  simp [fieldOr_ofFields, list_array AnchorBatch.ofJson_toJson, list_array DailyRoot.ofJson_toJson]

theorem TrustedRoot.ofJson_toJson (r : TrustedRoot) : ofJson r.toJson.value = some r := by
  unfold ofJson toJson
  rw [strict_ofFields (by simp)]
  simp [field_ofFields]

theorem AttestedConsoleKey.ofJson_toJson (k : AttestedConsoleKey) :
    ofJson k.toJson.value = some k := by
  unfold ofJson toJson
  rw [strict_ofFields (by simp), @optional_str _ _ _ k.signature (by simp),
    @optional_str _ _ _ k.rootName (by simp)]
  simp [field_ofFields, ConsoleKeyStatement.ofJson_toJson]

/-- No console keys are written as no member at all. -/
theorem RootsFile.ofJson_toJson (f : RootsFile) : ofJson f.toJson.value = some f := by
  have hkeys : fieldOr "console_keys" (list AttestedConsoleKey.ofJson) [] f.toJson.value =
      some f.consoleKeys := by
    unfold toJson
    by_cases hempty : f.consoleKeys.isEmpty
    · rw [fieldOr_absent (by simp [hempty]), List.isEmpty_iff.mp hempty]
    · rw [fieldOr_ofFields (j := .array (f.consoleKeys.map (·.toJson))) (by simp [hempty]),
        list_array AttestedConsoleKey.ofJson_toJson]
  unfold toJson at hkeys
  unfold ofJson toJson
  rw [strict_ofFields (by simp), field_ofFields (j := .array (f.roots.map (·.toJson))) (by simp),
    list_array TrustedRoot.ofJson_toJson, hkeys]
  rfl

/-! ## No numbers but integers -/

section FloatFree

open Pretty

@[simp]
theorem floatFree_str (s : String) : floatFree (Json.str s).value = true := rfl

@[simp]
theorem floatFree_u64 (n : UInt64) : floatFree (Json.u64 n).value = true := rfl

@[simp]
theorem floatFree_bool (b : Bool) : floatFree (Json.bool b).value = true := rfl

theorem floatFree_list {α : Type} {toJson : α → Json} (h : ∀ a, floatFree (toJson a).value = true)
    (as : List α) : floatFree (Json.array (as.map toJson)).value = true := by
  apply floatFree_jsonArray
  intro j hj
  obtain ⟨a, -, rfl⟩ := List.mem_map.mp hj
  exact h a

theorem floatFree_proofStep (s : StoredProofStep) : floatFree s.toJson.value = true := by
  apply floatFree_ofFields
  simp

theorem floatFree_inclusion (c : CheckpointInclusion) : floatFree c.toJson.value = true := by
  apply floatFree_ofFields
  simp [floatFree_list floatFree_proofStep]

theorem floatFree_anchorBatch (b : AnchorBatch) : floatFree b.toJson.value = true := by
  apply floatFree_ofFields
  simp [floatFree_list floatFree_inclusion]

theorem floatFree_dailyRoot (d : DailyRoot) : floatFree d.toJson.value = true := by
  apply floatFree_ofFields
  simp [floatFree_list floatFree_str]

theorem floatFree_anchorProofs (p : AnchorProofs) : floatFree p.toJson.value = true := by
  apply floatFree_ofFields
  simp [floatFree_list floatFree_anchorBatch, floatFree_list floatFree_dailyRoot]

end FloatFree

/-! ## `serde_json::from_slice` -/

/-- The decoders of the four documents are those above: they are given what an indented text
denotes. -/
structure Serde.DerivedDocuments (S : Serde) (K : Sink) : Prop where
  streamCheckpoints : ∀ (v : Json) (s : StreamCheckpoints), Pretty.floatFree v.value = true →
    StreamCheckpoints.ofJson v.value = some s → S.streamCheckpoints (toVecPretty K v) = .ok s
  anchorProofs : ∀ (v : Json) (p : AnchorProofs), Pretty.floatFree v.value = true →
    AnchorProofs.ofJson v.value = some p → S.anchorProofs (toVecPretty K v) = .ok p
  revocationList : ∀ (v : Json) (l : SignedRevocationList), Pretty.floatFree v.value = true →
    signedRevocationListOfJson v.value = some l → S.revocationList (toVecPretty K v) = .ok l
  rootsFile : ∀ (v : Json) (f : RootsFile), Pretty.floatFree v.value = true →
    RootsFile.ofJson v.value = some f → S.rootsFile (toVecPretty K v) = .ok f

namespace Serde.DerivedDocuments

variable {S : Serde} {K : Sink}

theorem anchorProofs_of_pretty (h : S.DerivedDocuments K) (p : AnchorProofs) :
    S.anchorProofs (toVecPretty K p.toJson) = .ok p :=
  h.anchorProofs p.toJson p (floatFree_anchorProofs p) p.ofJson_toJson

end Serde.DerivedDocuments

/-- A document is parsed and decoded. -/
def parsedBy {α : Type} (d : Decoder α) (b : Bytes) : Except String α :=
  ((Rfc8259.parseBytes (fun _ => none) b).bind fun v => d v.value).elim (.error "invalid document")
    .ok

/-- Decoders of all documents. -/
def Serde.documents : Serde :=
  { Serde.parsed with
    streamCheckpoints := parsedBy StreamCheckpoints.ofJson
    anchorProofs := parsedBy AnchorProofs.ofJson
    revocationList := parsedBy signedRevocationListOfJson
    rootsFile := parsedBy RootsFile.ofJson }

end Sealr.Bundle
