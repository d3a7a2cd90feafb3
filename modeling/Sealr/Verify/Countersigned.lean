import Sealr.Verify.Attested

/-!
# Countersignatures and the checkpoints that carry them

A countersignature names the checkpoint it was made for, and the loop does not compare the name
with the checkpoint that carries it. `countersignatures_own_iff` says which countersignatures are
taken and when all of them were made for their own checkpoint.
-/

namespace Sealr.Verify

open Lib Evidence Bundle

/-- A countersignature that verifies with a console key and was made for the checkpoint that
carries it. -/
structure OwnCountersignature (E : Externals) (keys : ConsoleKeys) (bc : BundleCheckpoint)
    (cs : Countersignature) : Prop where
  attached : bc.countersignature = some cs
  verifies : ∃ k ∈ keys.values, cs.verify E k = .ok ()
  names : cs.note.checkpointId = bc.checkpoint.note.checkpointId

/-- **Which countersignatures are taken for which checkpoints**: the ids and the high-water mark
that the loop leaves are those of the countersignatures it takes, and these were all made for the
checkpoint that carries them exactly when no checkpoint that gets as far as its countersignature
carries one that verifies but names another checkpoint. -/
theorem countersignatures_own_iff (E : Externals) (streamId : String) (trust : Identity)
    (data : StreamData) (cps : List BundleCheckpoint) :
    let out := (verifyCheckpoints E streamId data cps trust.certMap trust.revocations
      trust.consoleKeys).1
    let taken := takenCountersignatures E streamId trust data.hashesBySeq cps
    out.countersignedCheckpoints = data.countersignedCheckpoints ∪
        (taken.map (·.1.checkpoint.note.checkpointId)).toFinset ∧
      out.countersignedHighWater = (taken.filterMap (·.2.note.streamHighWaterSeq)).foldl
        raiseHighWater data.countersignedHighWater ∧
      ((∀ p ∈ taken, OwnCountersignature E trust.consoleKeys p.1 p.2) ↔
        ∀ bc ∈ cps, ∀ cs, bc.countersignature = some cs → signed E streamId trust bc = true →
          rootStands E data.hashesBySeq bc = true →
          countersigned E trust.consoleKeys cs = true →
          cs.note.checkpointId = bc.checkpoint.note.checkpointId) := by
  intro out taken
  have hout : out = cps.foldl (turn E streamId trust data.hashesBySeq) data :=
    verifyCheckpoints_data cps
  rw [hout]
  refine ⟨turns_countersigned cps, turns_highWater cps, ?_⟩
  have hmem : ∀ p, p ∈ taken ↔ p.1 ∈ cps ∧
      takenCountersignature E streamId trust data.hashesBySeq p.1 = some p.2 := by
    rintro ⟨bc, cs⟩
    simp only [taken, takenCountersignatures, List.mem_filterMap, Option.map_eq_some_iff,
      Prod.mk.injEq]
    constructor
    · rintro ⟨bc', hbc', cs', hcs', rfl, rfl⟩
      exact ⟨hbc', hcs'⟩
    · rintro ⟨hbc, hcs⟩
      exact ⟨bc, hbc, cs, hcs, rfl, rfl⟩
  constructor
  · intro h bc hbc cs hcs hsigned hstands hver
    have htaken := takenCountersignature_eq_some.mpr ⟨hcs, hsigned, hstands, hver⟩
    exact (h (bc, cs) ((hmem _).mpr ⟨hbc, htaken⟩)).names
  · intro h p hp
    obtain ⟨hbc, htaken⟩ := (hmem p).mp hp
    obtain ⟨hcs, hsigned, hstands, hver⟩ := takenCountersignature_eq_some.mp htaken
    exact ⟨hcs, countersigned_iff.mp hver, h p.1 hbc p.2 hcs hsigned hstands hver⟩

namespace Sample

open Evidence.Sample

def fingerprint : String := "5f66ba836c425b1aadb34915178536a7b3af727e4fb896551bed9a76656aa8b3"

/-- The note over one record, its Merkle root being the hash of one leaf. -/
def noteOver (checkpointId merkleRoot : String) (r : Record) (prev : Option String) :
    CheckpointNote where
  checkpointId
  streamId := r.streamId
  segmentId := r.segmentId
  seqFrom := r.seq
  seqTo := r.seq
  chainHeadHash := r.recordHash
  merkleRoot
  treeSize := 1
  tsWall := r.tsWall
  recorderCertFingerprint := fingerprint
  prevCheckpointHash := prev

def firstNote : CheckpointNote :=
  noteOver "01CHECKPOINT000000000000A1" "52654e6193aacf3d5c93b0fe65fb4706a1eccef1dd6028154126ed885f4f3616" opened none

def firstHash : String := "3831a876645510783591b7fe93def15a940ce9484f073a9d20f64fb8fced0f3e"

def secondNote : CheckpointNote :=
  noteOver "01CHECKPOINT000000000000A2" "f5991b17e54bf261ed87aae263a5ee8a2b5ce069f8ef7536956ef742d32dd106"
    updated (some firstHash)

def secondHash : String := "9525a84f27bf5c5e0fc4d0da49a722a03bb82b8fc470af791adaf612055854d8"

def first : SignedCheckpoint := ⟨firstNote, "8a85731caee4075fee0e3b6d1f15c7a25fd7592748abe105894eaf098c9e9bbce2db527c3962195c01a54d61e67b2bbcf7a2a2af276a61eb34513b11acbda604"⟩

def second : SignedCheckpoint := ⟨secondNote, "a7a63e754645f03c9c43e9664a61f0e329a1d512a0fe31980adff731848915c63c8fcf76231846abf3896889490e5b8ab5ff48d155b396098e1b11360bc3c504"⟩

/-- The countersignature of the first checkpoint. -/
def countersignature : Countersignature where
  note := ⟨firstNote.checkpointId, "2026-08-11T12:10:00.000Z", "console-1", some 0⟩
  signature := "3bf6671aa75387d753da939374fcc86dd39422d15edeb6f57ea236c97304a9dd4c4b46bf77ffca81ac3e8272024c51d006b7c5bdedf384ce13022019b7249303"

def recorderKey : VerifyingKey := ⟨ofHex "8139770ea87d175f56a35466c34c7ecccb8d8a91b4ee37a25df60f5b8fc9b394"⟩
def consoleKey : VerifyingKey := ⟨ofHex "ed4928c628d1c2c6eae90338905995612959273a5c63f93636c14614ac8737d1"⟩

/-- What is hashed for a signed structure, with its digest. -/
def digested (v : Json) (hash : String) : Bytes × Digest := ((toJcsBytes v).toOption.getD [], ofHex hash)

def csHash : String := "2c21140e5ee311002170a1d474aab29ebe001e91d4a0e9c2c6cba4a5ae5ab781"

def recording : Externals.Recording :=
  { Evidence.Sample.recording with
    blake3 := Evidence.Sample.recording.blake3 ++ [
      (0x00 :: (ofHex opened.recordHash : Digest).toList, ofHex firstNote.merkleRoot),
      (0x00 :: (ofHex updated.recordHash : Digest).toList, ofHex secondNote.merkleRoot),
      digested firstNote.toJson firstHash, digested secondNote.toJson secondHash,
      digested countersignature.note.toJson csHash]
    signatures := [
      ((recorderKey.bytes, ofHex firstHash), ofHex first.signature),
      ((recorderKey.bytes, ofHex secondHash), ofHex second.signature),
      ((consoleKey.bytes, ofHex csHash), ofHex countersignature.signature)] }

def externals : Externals := .recorded recording

def trust : Identity where
  certMap := ({} : CertMap).insert fingerprint ⟨"rec-1", recorderKey, fingerprint, 1767225600, 2082758400⟩
  consoleKeys := ({} : ConsoleKeys).insert "override" consoleKey
  revocations := none

/-- The two records as the chain pass collects them. -/
def chained : StreamData := { StreamData.default with
  hashesBySeq := (({} : Std.TreeMap UInt64 String).insert 0 opened.recordHash).insert 1 updated.recordHash }

/-- The second checkpoint with the countersignature of the first. -/
def replayed : List BundleCheckpoint := [⟨first, some countersignature⟩, ⟨second, some countersignature⟩]
end Sample

theorem countersignature_replayed :
    let out := (verifyCheckpoints Sample.externals Sample.secondNote.streamId Sample.chained Sample.replayed Sample.trust.certMap
      Sample.trust.revocations Sample.trust.consoleKeys).1
    Sample.secondNote.checkpointId ∈ out.countersignedCheckpoints ∧
      ¬∃ bc ∈ Sample.replayed, bc.checkpoint.note.checkpointId = Sample.secondNote.checkpointId ∧
        ∃ cs, OwnCountersignature Sample.externals Sample.trust.consoleKeys bc cs := by
  refine ⟨by decide +kernel, ?_⟩
  rintro ⟨bc, hbc, hid, cs, hown⟩
  have hnames := hown.names
  have hne : Sample.firstNote.checkpointId ≠ Sample.secondNote.checkpointId := by decide
  have hcs : cs = Sample.countersignature := by
    have hatt := hown.attached
    simp only [Sample.replayed, List.mem_cons, List.not_mem_nil, or_false] at hbc
    rcases hbc with rfl | rfl <;> exact (Option.some.inj hatt).symm
  subst hcs
  exact hne (hnames.trans hid)

end Sealr.Verify
