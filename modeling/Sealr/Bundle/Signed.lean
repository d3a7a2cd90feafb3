import Sealr.Bundle.Decode

/-!
# Signed structures are told apart

`sign_jcs` signs the JCS bytes of a structure and no tag for its type. The decoders that serde derives
read each structure back from its canonical form, and one member of each is a member of no other: the
bytes determine the type and every field.
-/

namespace Sealr.Bundle

open Lib Decoder Evidence

/-! ## Decoders -/

def noteOfJson : Decoder CheckpointNote :=
  strict ["checkpoint_id", "stream_id", "segment_id", "seq_from", "seq_to", "chain_head_hash",
      "merkle_root", "tree_size", "ts_wall", "recorder_cert_fingerprint",
      "prev_checkpoint_hash"] fun v => do
    let checkpointId ← field "checkpoint_id" str v
    let streamId ← field "stream_id" str v
    let segmentId ← field "segment_id" str v
    let seqFrom ← field "seq_from" u64 v
    let seqTo ← field "seq_to" u64 v
    let chainHeadHash ← field "chain_head_hash" str v
    let merkleRoot ← field "merkle_root" str v
    let treeSize ← field "tree_size" u64 v
    let tsWall ← field "ts_wall" str v
    let recorderCertFingerprint ← field "recorder_cert_fingerprint" str v
    let prevCheckpointHash ← optional "prev_checkpoint_hash" str v
    return { checkpointId, streamId, segmentId, seqFrom, seqTo, chainHeadHash, merkleRoot, treeSize,
             tsWall, recorderCertFingerprint, prevCheckpointHash }

def countersignatureOfJson : Decoder CountersignatureNote :=
  strict ["checkpoint_id", "received_at", "console_key_id", "stream_high_water_seq"] fun v => do
    let checkpointId ← field "checkpoint_id" str v
    let receivedAt ← field "received_at" str v
    let consoleKeyId ← field "console_key_id" str v
    let streamHighWaterSeq ← optional "stream_high_water_seq" u64 v
    return { checkpointId, receivedAt, consoleKeyId, streamHighWaterSeq }

def revocationEntryOfJson : Decoder RevocationEntry :=
  strict ["cert_fingerprint", "effective_at", "reason"] fun v => do
    let certFingerprint ← field "cert_fingerprint" str v
    let effectiveAt ← field "effective_at" str v
    let reason ← field "reason" str v
    return { certFingerprint, effectiveAt, reason }

def revocationListOfJson : Decoder RevocationList :=
  strict ["updated_at", "revocations"] fun v => do
    let updatedAt ← field "updated_at" str v
    let revocations ← fieldOr "revocations" (list revocationEntryOfJson) [] v
    return { updatedAt, revocations }

def ConsoleKeyStatement.ofJson : Decoder ConsoleKeyStatement :=
  strict ["key_id", "public_key_pem", "not_before", "not_after"] fun v => do
    let keyId ← field "key_id" str v
    let publicKeyPem ← field "public_key_pem" str v
    let notBefore ← field "not_before" str v
    let notAfter ← field "not_after" str v
    return { keyId, publicKeyPem, notBefore, notAfter }

def DailyRoot.ofJson : Decoder DailyRoot :=
  strict ["day", "root_blake3", "root_sha256", "prev_day_hash", "batch_roots", "qts_file",
      "signature", "console_key_id"] fun v => do
    let day ← field "day" str v
    let rootBlake3 ← field "root_blake3" str v
    let rootSha256 ← field "root_sha256" str v
    let prevDayHash ← optional "prev_day_hash" str v
    let batchRoots ← field "batch_roots" (list str) v
    let qtsFile ← optional "qts_file" str v
    let signature ← optional "signature" str v
    let consoleKeyId ← optional "console_key_id" str v
    return { day, rootBlake3, rootSha256, prevDayHash, batchRoots, qtsFile, signature, consoleKeyId }

/-! ## Written and read -/

theorem noteOfJson_toJson (n : CheckpointNote) : noteOfJson n.toJson.value = some n := by
  have hstr : ∀ k s, (k, some (.str s)) ∈ n.fields → field k str n.toJson.value = some s :=
    fun _ _ h => field_ofFields h
  have hu64 : ∀ k m, (k, some (.u64 m)) ∈ n.fields → field k u64 n.toJson.value = some m :=
    fun _ _ h => field_ofFields h
  have hprev : Decoder.optional "prev_checkpoint_hash" str n.toJson.value =
      some n.prevCheckpointHash := optional_str (by simp [CheckpointNote.fields])
  have hkeys : ∀ keys (d : Decoder CheckpointNote), n.fields.map Prod.fst ⊆ keys →
      strict keys d n.toJson.value = d n.toJson.value := fun _ _ h => strict_ofFields h
  unfold noteOfJson
  rw [hkeys _ _ (by simp [CheckpointNote.fields]),
    hstr "checkpoint_id" n.checkpointId (by simp [CheckpointNote.fields]),
    hstr "stream_id" n.streamId (by simp [CheckpointNote.fields]),
    hstr "segment_id" n.segmentId (by simp [CheckpointNote.fields]),
    hu64 "seq_from" n.seqFrom (by simp [CheckpointNote.fields]),
    hu64 "seq_to" n.seqTo (by simp [CheckpointNote.fields]),
    hstr "chain_head_hash" n.chainHeadHash (by simp [CheckpointNote.fields]),
    hstr "merkle_root" n.merkleRoot (by simp [CheckpointNote.fields]),
    hu64 "tree_size" n.treeSize (by simp [CheckpointNote.fields]),
    hstr "ts_wall" n.tsWall (by simp [CheckpointNote.fields]),
    hstr "recorder_cert_fingerprint" n.recorderCertFingerprint (by simp [CheckpointNote.fields]),
    hprev]
  rfl

theorem countersignatureOfJson_toJson (n : CountersignatureNote) :
    countersignatureOfJson n.toJson.value = some n := by
  unfold countersignatureOfJson CountersignatureNote.toJson
  rw [strict_ofFields (by simp)]
  have hnull : ∀ m : UInt64, (Json.u64 m).value ≠ .null := fun _ => Value.noConfusion
  rw [optional_ofFields (o := n.streamHighWaterSeq) (by simp) u64_u64 hnull]
  simp [field_ofFields, str_str]

theorem revocationEntryOfJson_toJson (e : RevocationEntry) :
    revocationEntryOfJson e.toJson.value = some e := by
  unfold revocationEntryOfJson RevocationEntry.toJson
  rw [strict_ofFields (by simp)]
  simp [field_ofFields, str_str]

theorem revocationListOfJson_toJson (l : RevocationList) :
    revocationListOfJson l.toJson.value = some l := by
  have hlist : ∀ v : Value, v.get "revocations" =
      some (Json.array (l.revocations.map (·.toJson))).value →
      fieldOr "revocations" (list revocationEntryOfJson) [] v = some l.revocations := by
    intro v hv
    unfold fieldOr
    rw [hv]
    exact list_array revocationEntryOfJson_toJson l.revocations
  unfold revocationListOfJson RevocationList.toJson
  rw [strict_ofFields (by simp), field_ofFields (j := .str l.updatedAt) (by simp), str_str,
    hlist _ (Json.get_ofFields (by simp))]
  rfl

theorem ConsoleKeyStatement.ofJson_toJson (s : ConsoleKeyStatement) :
    ofJson s.toJson.value = some s := by
  unfold ofJson toJson
  rw [strict_ofFields (by simp)]
  simp [field_ofFields, str_str]

theorem DailyRoot.ofJson_toJson (d : DailyRoot) : ofJson d.toJson.value = some d := by
  unfold ofJson toJson
  rw [strict_ofFields (by simp), @optional_str _ _ _ d.prevDayHash (by simp),
    @optional_str _ _ _ d.qtsFile (by simp), @optional_str _ _ _ d.signature (by simp),
    @optional_str _ _ _ d.consoleKeyId (by simp)]
  simp [field_ofFields, str_str, list_array str_str]

/-! ## The order of the members -/

theorem stable_noteOfJson : Stable noteOfJson :=
  stable_strict <| stable_bind (stable_field stable_str) fun _ =>
    stable_bind (stable_field stable_str) fun _ => stable_bind (stable_field stable_str) fun _ =>
    stable_bind (stable_field stable_u64) fun _ => stable_bind (stable_field stable_u64) fun _ =>
    stable_bind (stable_field stable_str) fun _ => stable_bind (stable_field stable_str) fun _ =>
    stable_bind (stable_field stable_u64) fun _ => stable_bind (stable_field stable_str) fun _ =>
    stable_bind (stable_field stable_str) fun _ =>
    stable_bind (stable_optional stable_str) fun _ => stable_pure _

theorem stable_countersignatureOfJson : Stable countersignatureOfJson :=
  stable_strict <| stable_bind (stable_field stable_str) fun _ =>
    stable_bind (stable_field stable_str) fun _ => stable_bind (stable_field stable_str) fun _ =>
    stable_bind (stable_optional stable_u64) fun _ => stable_pure _

theorem stable_revocationEntryOfJson : Stable revocationEntryOfJson :=
  stable_strict <| stable_bind (stable_field stable_str) fun _ =>
    stable_bind (stable_field stable_str) fun _ => stable_bind (stable_field stable_str) fun _ =>
    stable_pure _

theorem stable_revocationListOfJson : Stable revocationListOfJson :=
  stable_strict <| stable_bind (stable_field stable_str) fun _ =>
    stable_bind (stable_fieldOr (stable_list stable_revocationEntryOfJson)) fun _ => stable_pure _

theorem ConsoleKeyStatement.stable_ofJson : Stable ofJson :=
  stable_strict <| stable_bind (stable_field stable_str) fun _ =>
    stable_bind (stable_field stable_str) fun _ => stable_bind (stable_field stable_str) fun _ =>
    stable_bind (stable_field stable_str) fun _ => stable_pure _

theorem DailyRoot.stable_ofJson : Stable ofJson :=
  stable_strict <| stable_bind (stable_field stable_str) fun _ =>
    stable_bind (stable_field stable_str) fun _ => stable_bind (stable_field stable_str) fun _ =>
    stable_bind (stable_optional stable_str) fun _ =>
    stable_bind (stable_field (stable_list stable_str)) fun _ =>
    stable_bind (stable_optional stable_str) fun _ =>
    stable_bind (stable_optional stable_str) fun _ =>
    stable_bind (stable_optional stable_str) fun _ => stable_pure _

/-! ## The structures that are signed or hashed -/

/-- What `sign_jcs`, `note_hash` or `jcs_hash` is given. A daily root is signed without its
signature. -/
inductive Signable where
  | checkpoint (note : CheckpointNote)
  | countersignature (note : CountersignatureNote)
  | revocations (list : RevocationList)
  | consoleKey (statement : ConsoleKeyStatement)
  | dailyRoot (day : DailyRoot) (unsigned : day.signature = none)
  | manifest (m : Manifest)

namespace Signable

def toJson : Signable → Json
  | checkpoint note => note.toJson
  | countersignature note => note.toJson
  | revocations list => list.toJson
  | consoleKey statement => statement.toJson
  | dailyRoot day _ => day.toJson
  | manifest m => m.toJson

def dailyOfJson : Decoder Signable := fun v => do
  let day ← DailyRoot.ofJson v
  if h : day.signature = none then some (.dailyRoot day h) else none

/-- Each of the structures but the manifest has a member that the ones after it have not. -/
def ofJson : Decoder Signable :=
  choice "merkle_root" (fun v => noteOfJson v >>= fun n => pure (checkpoint n)) <|
  choice "received_at" (fun v => countersignatureOfJson v >>= fun n => pure (countersignature n)) <|
  choice "revocations" (fun v => revocationListOfJson v >>= fun l => pure (revocations l)) <|
  choice "public_key_pem" (fun v => ConsoleKeyStatement.ofJson v >>= fun s => pure (consoleKey s)) <|
  choice "batch_roots" dailyOfJson fun v => Manifest.ofJson v >>= fun m => pure (manifest m)

theorem stable_dailyOfJson : Stable dailyOfJson := by
  refine stable_bind DailyRoot.stable_ofJson fun day => ?_
  intro _ _ _ _ _ h
  exact h

theorem stable_ofJson : Stable ofJson :=
  stable_choice (stable_bind stable_noteOfJson fun _ => stable_pure _) <|
  stable_choice (stable_bind stable_countersignatureOfJson fun _ => stable_pure _) <|
  stable_choice (stable_bind stable_revocationListOfJson fun _ => stable_pure _) <|
  stable_choice (stable_bind ConsoleKeyStatement.stable_ofJson fun _ => stable_pure _) <|
  stable_choice stable_dailyOfJson <|
  stable_bind Manifest.stable_ofJson fun _ => stable_pure _

theorem ofJson_toJson (x : Signable) : ofJson x.toJson.value = some x := by
  cases x with
  | checkpoint note =>
    have hread := noteOfJson_toJson note
    unfold CheckpointNote.toJson at hread
    unfold ofJson toJson CheckpointNote.toJson
    rw [choice_of_mem (j := .str note.merkleRoot) (by simp [CheckpointNote.fields]), hread]
    rfl
  | countersignature note =>
    have hread := countersignatureOfJson_toJson note
    unfold CountersignatureNote.toJson at hread
    unfold ofJson toJson CountersignatureNote.toJson
    rw [choice_of_notMem (by simp), choice_of_mem (j := .str note.receivedAt) (by simp), hread]
    rfl
  | revocations list =>
    have hread := revocationListOfJson_toJson list
    unfold RevocationList.toJson at hread
    unfold ofJson toJson RevocationList.toJson
    rw [choice_of_notMem (by simp), choice_of_notMem (by simp),
      choice_of_mem (j := .array (list.revocations.map (·.toJson))) (by simp), hread]
    rfl
  | consoleKey statement =>
    have hread := ConsoleKeyStatement.ofJson_toJson statement
    unfold ConsoleKeyStatement.toJson at hread
    unfold ofJson toJson ConsoleKeyStatement.toJson
    rw [choice_of_notMem (by simp), choice_of_notMem (by simp), choice_of_notMem (by simp),
      choice_of_mem (j := .str statement.publicKeyPem) (by simp), hread]
    rfl
  | dailyRoot day unsigned =>
    have hread : dailyOfJson day.toJson.value = some (.dailyRoot day unsigned) := by
      unfold dailyOfJson
      rw [DailyRoot.ofJson_toJson]
      exact dif_pos unsigned
    unfold DailyRoot.toJson at hread
    unfold ofJson toJson DailyRoot.toJson
    rw [choice_of_notMem (by simp), choice_of_notMem (by simp), choice_of_notMem (by simp),
      choice_of_notMem (by simp), choice_of_mem (j := .array (day.batchRoots.map .str)) (by simp),
      hread]
  | manifest m =>
    have hread := Manifest.ofJson_toJson m
    unfold Manifest.toJson at hread
    unfold ofJson toJson Manifest.toJson
    rw [choice_of_notMem (by simp), choice_of_notMem (by simp), choice_of_notMem (by simp),
      choice_of_notMem (by simp), choice_of_notMem (by simp), hread]
    rfl

/-- The JCS bytes determine the structure. -/
theorem eq_of_toJcsBytes {x y : Signable} {b : Bytes} (hx : toJcsBytes x.toJson = .ok b)
    (hy : toJcsBytes y.toJson = .ok b) : x = y :=
  eq_of_jcs stable_ofJson x.ofJson_toJson y.ofJson_toJson hx hy

end Signable

/-- **Signed structures cannot be confused**: the JCS bytes of two structures are the same only for
one structure of one type with the same fields. What is signed for the one and what a signature of
the other is checked against are the digests of these bytes, which are the same only then or where
BLAKE3 collides. -/
theorem signed_bytes_determine {x y : Signable} {b b' : Bytes} (hx : toJcsBytes x.toJson = .ok b)
    (hy : toJcsBytes y.toJson = .ok b') :
    (b = b' → x = y) ∧ ∀ E : Externals,
      (∀ key : SigningKey, key.signJcs E x.toJson = .ok (key.signDigest E (blake3Raw E b))) ∧
      (∀ (key : VerifyingKey) sig context, key.verifyJcs E y.toJson sig context =
        key.verifyDigest E (blake3Raw E b') sig context) ∧
      (blake3Raw E b = blake3Raw E b' → x = y ∨ Collides E.blake3 [b] [b']) := by
  have hinj : b = b' → x = y := by
    intro heq
    subst heq
    exact Signable.eq_of_toJcsBytes hx hy
  refine ⟨hinj, ?_⟩
  intro E
  refine ⟨?_, ?_, ?_⟩
  · intro key
    exact bind_eq_ok.mpr ⟨b, hx, rfl⟩
  · intro key sig context
    unfold VerifyingKey.verifyJcs
    rw [hy]
    rfl
  · intro hdigest
    obtain heq | hcollides := eq_or_collides List.mem_cons_self List.mem_cons_self hdigest
    · exact .inl (hinj heq)
    · exact .inr hcollides

namespace Sample

/-- A day without batches, and what it says of the day before. -/
def day (prevDayHash : Option String) : DailyRoot :=
  ⟨"2026-08-11", "", "", prevDayHash, [], none, none, some "console-1"⟩

end Sample

theorem empty_hash_is_not_absent :
    documentBytes (Sample.day none).toJson ≠ documentBytes (Sample.day (some "")).toJson := by
  intro heq
  have hx : toJcsBytes (Signable.dailyRoot (Sample.day none) rfl).toJson =
      .ok (documentBytes (Sample.day none).toJson) := by rfl
  have hy : toJcsBytes (Signable.dailyRoot (Sample.day (some "")) rfl).toJson =
      .ok (documentBytes (Sample.day (some "")).toJson) := by rfl
  have hsame := (signed_bytes_determine hx hy).1 heq
  simp [Sample.day] at hsame

end Sealr.Bundle
