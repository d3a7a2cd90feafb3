import Sealr.Verify.Unordered
import Sealr.Verify.Anchored

/-!
# Conflicting heads

Two accepted checkpoints that end at one number may name different chain heads. The verifier meets
the conflict in two ways: as a fork when the two ranges are equal and the roots differ, and by
recomputing the roots when both ranges are exported. Other conflicts stay hidden
(`heads_agree_iff`).
-/

namespace Sealr.Verify

open Lib Evidence Bundle

/-- The checkpoint loop emits no error. -/
def NoError (E : Externals) (streamId : String) (trust : Identity) (data : StreamData)
    (cps : List BundleCheckpoint) : Prop :=
  ∀ f ∈ (verifyCheckpoints E streamId data cps trust.certMap trust.revocations
    trust.consoleKeys).2, f.severity ≠ .error

/-- Accepted checkpoints that end at one number name one chain head. -/
def HeadsAgree (E : Externals) (streamId : String) (trust : Identity) (data : StreamData)
    (cps : List BundleCheckpoint) : Prop :=
  ∀ a ∈ cps, ∀ b ∈ cps, accepts E streamId trust data.hashesBySeq a = true →
    accepts E streamId trust data.hashesBySeq b = true →
    a.checkpoint.note.seqTo = b.checkpoint.note.seqTo →
    a.checkpoint.note.chainHeadHash = b.checkpoint.note.chainHeadHash

/-- Every checkpoint passes on its own and no two are a fork, but two that end at one number name
different heads, and the range of the first is not exported. -/
structure HiddenConflict (E : Externals) (streamId : String) (trust : Identity)
    (data : StreamData) (cps : List BundleCheckpoint) : Prop where
  accepted : ∀ bc ∈ cps, accepts E streamId trust data.hashesBySeq bc = true
  unforked : cps.Pairwise fun a b => ¬Forked a.checkpoint.note b.checkpoint.note
  conflict : ∃ a ∈ cps, ∃ b ∈ cps, a.checkpoint.note.seqTo = b.checkpoint.note.seqTo ∧
    a.checkpoint.note.chainHeadHash ≠ b.checkpoint.note.chainHeadHash ∧
    fullyExported (covered data.hashesBySeq a.checkpoint.note) a.checkpoint.note = false

section

variable {E : Externals} {streamId : String} {trust : Identity} {data : StreamData}
  {hashes : Std.TreeMap UInt64 String} {bc a b : BundleCheckpoint} {cps : List BundleCheckpoint}

theorem countersignatureStep_unfailed_iff {keys : ConsoleKeys} :
    (∀ f ∈ (countersignatureStep E streamId keys data bc).2.1, f.severity ≠ .error) ↔
      (bc.countersignature.all fun cs => countersigned E keys cs || keys.isEmpty) = true := by
  unfold countersignatureStep
  dsimp only
  cases bc.countersignature with
  | none => simp [addAt]
  | some cs =>
    by_cases hcs : countersigned E keys cs = true
    · simp [hcs]
    · by_cases hempty : keys.isEmpty = true
      · simp [hcs, hempty, addAt]
      · simp [hcs, hempty, addAt]

/-- When the checkpoints of a stream are reported on without an error. -/
theorem noError_iff : NoError E streamId trust data cps ↔
    (∀ bc ∈ cps, accepts E streamId trust data.hashesBySeq bc = true) ∧
      cps.Pairwise fun a b => ¬Forked a.checkpoint.note b.checkpoint.note := by
  have hP : Tolerates fun f => f.severity ≠ .error := by
    refine ⟨fun f hinfo => ?_, fun f herr hne => hne herr⟩
    rw [hinfo]
    decide
  unfold NoError
  rw [verifyCheckpoints_forall_iff hP fun _ _ => countersignatureStep_unfailed_iff]
  refine and_congr_left fun _ => forall₂_congr fun bc _ => ?_
  simp only [accepts, Bool.and_eq_true, and_assoc]

/-- An accepted checkpoint whose range is exported names the hash at its end. -/
theorem head_of_exported (h : accepts E streamId trust hashes bc = true)
    (hfull : fullyExported (covered hashes bc.checkpoint.note) bc.checkpoint.note = true) :
    hashes[bc.checkpoint.note.seqTo]? = some bc.checkpoint.note.chainHeadHash := by
  have hroot : rootVerified E hashes bc = true := by
    simp only [accepts, rootStands, hfull, Bool.not_true, Bool.false_or, Bool.and_eq_true] at h
    exact h.1.2
  obtain ⟨hs, hover⟩ := rootVerified_iff.mp hroot
  rw [← hover.exported.getLast? hover.le]
  exact hover.chainHead

/-- Exported ranges have no conflict. -/
theorem heads_eq_of_exported (ha : accepts E streamId trust hashes a = true)
    (hb : accepts E streamId trust hashes b = true)
    (hafull : fullyExported (covered hashes a.checkpoint.note) a.checkpoint.note = true)
    (hbfull : fullyExported (covered hashes b.checkpoint.note) b.checkpoint.note = true)
    (hseq : a.checkpoint.note.seqTo = b.checkpoint.note.seqTo) :
    a.checkpoint.note.chainHeadHash = b.checkpoint.note.chainHeadHash := by
  have hheadA := head_of_exported ha hafull
  have hheadB := head_of_exported hb hbfull
  rw [hseq] at hheadA
  exact Option.some.inj (hheadA.symm.trans hheadB)

/-- **When conflicting heads are always reported**: exactly when no conflict is hidden. -/
theorem heads_agree_iff (E : Externals) (streamId : String) (trust : Identity)
    (data : StreamData) (cps : List BundleCheckpoint) :
    (NoError E streamId trust data cps → HeadsAgree E streamId trust data cps) ↔
      ¬HiddenConflict E streamId trust data cps := by
  rw [noError_iff]
  constructor
  · intro h hhidden
    obtain ⟨a, ha, b, hb, hseq, hne, -⟩ := hhidden.conflict
    have hagree := h ⟨hhidden.accepted, hhidden.unforked⟩
    exact hne (hagree a ha b hb (hhidden.accepted a ha) (hhidden.accepted b hb) hseq)
  · intro hhidden hquiet a ha b hb hacca haccb hseq
    obtain ⟨hall, hpair⟩ := hquiet
    by_contra hne
    cases hafull : fullyExported (covered data.hashesBySeq a.checkpoint.note) a.checkpoint.note with
    | false => exact hhidden ⟨hall, hpair, a, ha, b, hb, hseq, hne, hafull⟩
    | true =>
      cases hbfull : fullyExported (covered data.hashesBySeq b.checkpoint.note)
          b.checkpoint.note with
      | false => exact hhidden ⟨hall, hpair, b, hb, a, ha, hseq.symm, Ne.symm hne, hbfull⟩
      | true => exact hne (heads_eq_of_exported hacca haccb hafull hbfull hseq)

end

/-! Two branches of a stream of which the first record is exported. -/

namespace Sample

open Evidence.Sample

/-- The second record, rewritten. -/
def rewritten : Record := {
  draft "000000002D000000000000003C" updated.tsWall 2000 .operation "delete" with
  seq := 1
  prevHash := opened.recordHash
  recordHash := "44fa3671925a1a458ab14fc96a5dc031bd5b5e7ea5ffdeff20a69f76c01c9b29" }

def branchNote : CheckpointNote :=
  noteOver "01CHECKPOINT000000000000C1"
    "b35cd1a8776f2db2e2bec6b0d8457527b0acc461955fd2c5381c98903470ed21" rewritten none

def branchHash : String := "a14f1a68375ab24f3242f0808bd0f0823f9834b11c0fa8ff42d0b1bd1f7141d2"

/-- A checkpoint over the rewritten record, signed by the recorder of the wide one. -/
def branch : BundleCheckpoint where
  checkpoint := ⟨branchNote, "8249aa6a2ee840197fa55e721e1dbcc95622e0d3ab2e3b91d469add0bc259c8d6727c5ea7c3c338a26df159f8d6309382a8e1662c8646b889a3c475f27398301"⟩
  countersignature := none

def branchExternals : Externals := .recorded { recording with
  blake3 := [digested wideNote.toJson wideHash, digested branchNote.toJson branchHash] ++
    recording.blake3
  signatures := [((recorderKey.bytes, ofHex wideHash), ofHex wide.checkpoint.signature),
      ((recorderKey.bytes, ofHex branchHash), ofHex branch.checkpoint.signature)] ++
    recording.signatures }

/-- The first record alone. -/
def firstOnly : StreamData := { StreamData.default with
  hashesBySeq := ({} : Std.TreeMap UInt64 String).insert 0 opened.recordHash }

end Sample

/-- Two branches of a stream, signed by one recorder, with different heads at number one: no error
is reported and both checkpoints are accepted. -/
theorem branches_unreported :
    NoError Sample.branchExternals Sample.wideNote.streamId Sample.trust Sample.firstOnly
        [Sample.wide, Sample.branch] ∧
      ¬HeadsAgree Sample.branchExternals Sample.wideNote.streamId Sample.trust Sample.firstOnly
        [Sample.wide, Sample.branch] := by
  have hwide : accepts Sample.branchExternals Sample.wideNote.streamId Sample.trust
      Sample.firstOnly.hashesBySeq Sample.wide = true := by decide +kernel
  have hbranch : accepts Sample.branchExternals Sample.wideNote.streamId Sample.trust
      Sample.firstOnly.hashesBySeq Sample.branch = true := by decide +kernel
  have hne : Sample.wideNote.chainHeadHash ≠ Sample.branchNote.chainHeadHash := by decide
  constructor
  · refine noError_iff.mpr ⟨by simp [hwide, hbranch], ?_⟩
    -- the ranges begin at different numbers
    refine List.pairwise_pair.mpr fun hfork => ?_
    exact absurd hfork.1.1 (by decide)
  · intro hagree
    exact hne (hagree Sample.wide (by simp) Sample.branch (by simp) hwide hbranch rfl)

end Sealr.Verify
