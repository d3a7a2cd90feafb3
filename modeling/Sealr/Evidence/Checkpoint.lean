import Sealr.Evidence.Keys
import Sealr.Evidence.Merkle
import Sealr.Evidence.Record

/-!
# Checkpoints and countersignatures

A checkpoint note states the Merkle root and the chain head over a run of records; it is signed by
the recorder and may be countersigned by the Console.
-/

namespace Sealr.Evidence

open Lib

structure CheckpointNote where
  checkpointId : String
  streamId : String
  segmentId : String
  seqFrom : UInt64
  seqTo : UInt64
  chainHeadHash : String
  merkleRoot : String
  treeSize : UInt64
  tsWall : String
  recorderCertFingerprint : String
  prevCheckpointHash : Option String
  deriving DecidableEq

namespace CheckpointNote

def fields (n : CheckpointNote) : List (String × Option Json) :=
  [("checkpoint_id", some (.str n.checkpointId)), ("stream_id", some (.str n.streamId)),
    ("segment_id", some (.str n.segmentId)), ("seq_from", some (.u64 n.seqFrom)),
    ("seq_to", some (.u64 n.seqTo)), ("chain_head_hash", some (.str n.chainHeadHash)),
    ("merkle_root", some (.str n.merkleRoot)), ("tree_size", some (.u64 n.treeSize)),
    ("ts_wall", some (.str n.tsWall)),
    ("recorder_cert_fingerprint", some (.str n.recorderCertFingerprint)),
    ("prev_checkpoint_hash", n.prevCheckpointHash.map .str)]

def toJson (n : CheckpointNote) : Json := .ofFields n.fields (by simp [fields])

/-- `note_hash`. -/
def noteHash (E : Externals) (n : CheckpointNote) : Result String := do
  let bytes ← toJcsBytes n.toJson
  return blake3Hex E bytes

end CheckpointNote

structure SignedCheckpoint where
  note : CheckpointNote
  signature : String
  deriving DecidableEq

def SignedCheckpoint.toJson (c : SignedCheckpoint) : Json :=
  .ofFields [("note", some c.note.toJson), ("signature", some (.str c.signature))] (by simp)

structure CountersignatureNote where
  checkpointId : String
  receivedAt : String
  consoleKeyId : String
  streamHighWaterSeq : Option UInt64
  deriving DecidableEq

def CountersignatureNote.toJson (n : CountersignatureNote) : Json :=
  .ofFields [("checkpoint_id", some (.str n.checkpointId)), ("received_at", some (.str n.receivedAt)),
    ("console_key_id", some (.str n.consoleKeyId)),
    ("stream_high_water_seq", n.streamHighWaterSeq.map .u64)] (by simp)

structure Countersignature where
  note : CountersignatureNote
  signature : String
  deriving DecidableEq

def Countersignature.toJson (c : Countersignature) : Json :=
  .ofFields [("note", some c.note.toJson), ("signature", some (.str c.signature))] (by simp)

/-- Decode the record hashes, in order. -/
def decodeHashes (E : Externals) : List String → Result (List Digest)
  | [] => .ok []
  | h :: hs => do
    let d ← hexDecodeDigest E "record_hash" h
    let ds ← decodeHashes E hs
    return d :: ds

/-- `merkle_root_of_record_hashes`. -/
def merkleRootOfRecordHashes (E : Externals) (recordHashesHex : List String) : Result String := do
  let leaves ← decodeHashes E recordHashesHex
  return hexEncode (merkleRoot E (leaves.map List.Vector.toList)).toList

/-- `u64::try_from(records.len()).ok()`. -/
def tryFromLen (n : Nat) : Option UInt64 := if n < UInt64.size then some (UInt64.ofNat n) else none

/-- `last.checked_sub(first).map(|d| d + 1)`, where the sum wraps. -/
def seqSpan (first last : UInt64) : Option UInt64 :=
  if first ≤ last then some (last - first + 1) else none

/-- `build_note`. -/
def buildNote (E : Externals) (checkpointId : String) (records : List Record) (tsWall : String)
    (recorderCertFingerprint : String) : Result CheckpointNote :=
  match records.head?, records.getLast? with
  | some first, some last =>
    if tryFromLen records.length ≠ seqSpan first.seq last.seq then
      .error (.checkpoint ("records not contiguous: " ++ toString records.length ++
        " entries for seq range [" ++ toString first.seq.toNat ++ ", " ++
        toString last.seq.toNat ++ "]"))
    else do
      let hashes := records.map (·.recordHash)
      let root ← merkleRootOfRecordHashes E hashes
      return {
        checkpointId
        streamId := first.streamId
        segmentId := first.segmentId
        seqFrom := first.seq
        seqTo := last.seq
        chainHeadHash := last.recordHash
        merkleRoot := root
        treeSize := UInt64.ofNat hashes.length
        tsWall
        recorderCertFingerprint
        prevCheckpointHash := none }
  | _, _ => .error (.checkpoint "cannot checkpoint zero records")

/-- `build_note_linked`. -/
def buildNoteLinked (E : Externals) (checkpointId : String) (records : List Record)
    (tsWall recorderCertFingerprint : String) (prevCheckpointHash : Option String) :
    Result CheckpointNote := do
  let note ← buildNote E checkpointId records tsWall recorderCertFingerprint
  return { note with prevCheckpointHash }

/-- `sign_note`. -/
def signNote (E : Externals) (note : CheckpointNote) (key : SigningKey) :
    Result SignedCheckpoint := do
  let signature ← key.signJcs E note.toJson
  return { note, signature }

namespace SignedCheckpoint

def verify (E : Externals) (c : SignedCheckpoint) (recorderKey : VerifyingKey) : Result Unit :=
  recorderKey.verifyJcs E c.note.toJson c.signature ("checkpoint " ++ c.note.checkpointId)

/-- `verify_root`. -/
def verifyRoot (E : Externals) (c : SignedCheckpoint) (recordHashesHex : List String) :
    Result Unit :=
  if UInt64.ofNat recordHashesHex.length ≠ c.note.treeSize then
    .error (.checkpoint ("checkpoint " ++ c.note.checkpointId ++ " tree_size " ++
      toString c.note.treeSize.toNat ++ " but " ++ toString recordHashesHex.length ++
      " record hashes supplied"))
  else do
    let root ← merkleRootOfRecordHashes E recordHashesHex
    if root ≠ c.note.merkleRoot then
      .error (.checkpoint ("checkpoint " ++ c.note.checkpointId ++ ": recomputed merkle root " ++
        root ++ " != stored " ++ c.note.merkleRoot))
    else
      match recordHashesHex.getLast? with
      | some last =>
        if last = c.note.chainHeadHash then return ()
        else .error (.checkpoint ("checkpoint " ++ c.note.checkpointId ++ ": chain_head_hash " ++
          c.note.chainHeadHash ++ " != last covered record hash " ++ last))
      | none => .error (.checkpoint "empty record hash set")

end SignedCheckpoint

namespace Countersignature

def create (E : Externals) (checkpointId receivedAt consoleKeyId : String)
    (streamHighWaterSeq : Option UInt64) (key : SigningKey) : Result Countersignature := do
  let note : CountersignatureNote := { checkpointId, receivedAt, consoleKeyId, streamHighWaterSeq }
  let signature ← key.signJcs E note.toJson
  return { note, signature }

def verify (E : Externals) (c : Countersignature) (consoleKey : VerifyingKey) : Result Unit :=
  consoleKey.verifyJcs E c.note.toJson c.signature ("countersignature for " ++ c.note.checkpointId)

end Countersignature

/-! ## What a note says -/

/-- A note is built over records that are as many as their numbers span. -/
theorem buildNote_eq_ok {E : Externals} {checkpointId tsWall fingerprint : String}
    {records : List Record} {note : CheckpointNote} :
    buildNote E checkpointId records tsWall fingerprint = .ok note ↔
      ∃ first last root, records.head? = some first ∧ records.getLast? = some last ∧
        tryFromLen records.length = seqSpan first.seq last.seq ∧
        merkleRootOfRecordHashes E (records.map (·.recordHash)) = .ok root ∧
        note = { checkpointId := checkpointId
                 streamId := first.streamId
                 segmentId := first.segmentId
                 seqFrom := first.seq
                 seqTo := last.seq
                 chainHeadHash := last.recordHash
                 merkleRoot := root
                 treeSize := UInt64.ofNat records.length
                 tsWall := tsWall
                 recorderCertFingerprint := fingerprint
                 prevCheckpointHash := none } := by
  unfold buildNote
  cases hfirst : records.head? with
  | none => simp
  | some first =>
    cases hlast : records.getLast? with
    | none => simp
    | some last =>
      simp only [Option.some.injEq, exists_eq_left', exists_and_left]
      by_cases hspan : tryFromLen records.length = seqSpan first.seq last.seq
      · rw [if_neg (not_not.mpr hspan), bind_eq_ok]
        simp only [hspan, true_and, List.length_map]
        constructor
        · rintro ⟨root, hroot, heq⟩
          exact ⟨root, hroot, (Except.ok.inj heq).symm⟩
        · rintro ⟨root, hroot, rfl⟩
          exact ⟨root, hroot, rfl⟩
      · rw [if_pos hspan]
        simp [hspan]

/-! ## What a verified root says -/

theorem decodeHashes_eq_ok {E : Externals} {hs : List String} {ds : List Digest} :
    decodeHashes E hs = .ok ds ↔
      List.Forall₂ (fun h d => hexDecodeDigest E "record_hash" h = .ok d) hs ds := by
  induction hs generalizing ds with
  | nil => cases ds <;> simp [decodeHashes]
  | cons h hs ih =>
    simp only [decodeHashes, bind_eq_ok, List.forall₂_cons_left_iff, ← ih]
    constructor
    · rintro ⟨d, hd, ds', hds, heq⟩
      exact ⟨d, ds', hd, hds, (Except.ok.inj heq).symm⟩
    · rintro ⟨d, ds', hd, hds, rfl⟩
      exact ⟨d, hd, ds', hds, rfl⟩

/-- Hashes written by the crate are decoded as the digests they spell. -/
theorem decodeHashes_hexEncode (E : Externals) (ds : List Digest) :
    decodeHashes E (ds.map fun d => hexEncode d.toList) = .ok ds := by
  refine decodeHashes_eq_ok.mpr (List.forall₂_map_left_iff.mpr (List.forall₂_same.mpr ?_))
  exact fun d _ => hexDecodeDigest_hexEncode E _ d

/-- A root that verifies: the tree size, the root and the chain head are those of the hashes. -/
theorem verifyRoot_eq_ok {E : Externals} {c : SignedCheckpoint} {hs : List String} :
    c.verifyRoot E hs = .ok () ↔ UInt64.ofNat hs.length = c.note.treeSize ∧
      merkleRootOfRecordHashes E hs = .ok c.note.merkleRoot ∧
      hs.getLast? = some c.note.chainHeadHash := by
  unfold SignedCheckpoint.verifyRoot
  split_ifs with hsize
  · simp [hsize]
  · rw [not_not] at hsize
    simp only [hsize, true_and, bind_eq_ok]
    constructor
    · rintro ⟨root, hroot, h⟩
      split_ifs at h with hne
      rw [not_not] at hne
      cases hlast : hs.getLast? with
      | none => simp [hlast] at h
      | some last =>
        simp only [hlast] at h
        split_ifs at h with heq
        exact ⟨hne ▸ hroot, by rw [heq]⟩
    · rintro ⟨hroot, hlast⟩
      exact ⟨_, hroot, by simp [hlast, pure, Except.pure]⟩

end Sealr.Evidence
