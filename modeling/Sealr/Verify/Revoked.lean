import Sealr.Verify.Countersigned

/-!
# What the revocation list keeps out

The revocation check compares two times that both have to parse. A checkpoint that is kept was made
before every revocation that names its certificate exactly when the times that are compared parse.
-/

namespace Sealr.Verify

open Lib Evidence Bundle

section Predicates

variable (E : Externals) (streamId : String) (trust : Identity)
  (hashes : Std.TreeMap UInt64 String) (bc : BundleCheckpoint)

/-- The turn of this checkpoint leaves its range, as valid or as attested. -/
def kept : Bool := accepts E streamId trust hashes bc || attests E streamId trust hashes bc

/-- The entries of the list that name a certificate. -/
def entriesNaming (revocations : Option SignedRevocationList) (fingerprint : String) :
    List RevocationEntry :=
  (revocations.elim [] (·.list.revocations)).filter (·.certFingerprint = fingerprint)

/-- The note was made before every revocation that names its certificate. -/
def BeforeRevocations (revocations : Option SignedRevocationList) (note : CheckpointNote) : Prop :=
  ∀ r ∈ entriesNaming revocations note.recorderCertFingerprint, ∃ eff ts,
    parseWall E r.effectiveAt = .ok eff ∧ parseWall E note.tsWall = .ok ts ∧ ts.lt eff

/-- The identity material without its revocation list. -/
def Identity.unrevoked : Identity := { trust with revocations := none }

end Predicates

section Revocation

variable {E : Externals} {streamId : String} {trust : Identity}
  {hashes : Std.TreeMap UInt64 String} {data : StreamData} {bc : BundleCheckpoint}

theorem mem_entriesNaming {revocations : Option SignedRevocationList} {fp : String}
    {r : RevocationEntry} : r ∈ entriesNaming revocations fp ↔
      ∃ rev, revocations = some rev ∧ r ∈ rev.list.revocations ∧ r.certFingerprint = fp := by
  cases revocations with
  | none => simp [entriesNaming]
  | some rev => simp [entriesNaming]

/-- A note is revoked when its time parses and an entry's time that parses has come. -/
theorem isRevoked_eq_true {revocations : Option SignedRevocationList} {note : CheckpointNote} :
    isRevoked E revocations note = true ↔ ∃ ts, parseWall E note.tsWall = .ok ts ∧
      ∃ r ∈ entriesNaming revocations note.recorderCertFingerprint, ∃ eff,
        parseWall E r.effectiveAt = .ok eff ∧ eff.le ts = true := by
  unfold isRevoked
  cases revocations with
  | none => simp [entriesNaming]
  | some rev =>
    cases hts : parseWall E note.tsWall with
    | error e => simp
    | ok ts =>
      simp only [SignedRevocationList.isRevokedAt_eq_true, mem_entriesNaming, Option.some.injEq,
        Except.ok.injEq, exists_eq_left', and_assoc]

/-- The revocation check is the last that a checkpoint has to pass. -/
theorem signed_iff_unrevoked : signed E streamId trust bc = true ↔
    signed E streamId trust.unrevoked bc = true ∧
      isRevoked E trust.revocations bc.checkpoint.note = false := by
  have hnone : isRevoked E none bc.checkpoint.note = false := rfl
  rw [signed_iff, signed_iff]
  simp only [Identity.unrevoked, hnone, and_true]
  constructor
  · intro h
    obtain ⟨hstream, cert, hcert, hsig, hrev⟩ := h
    exact ⟨⟨hstream, cert, hcert, hsig⟩, hrev⟩
  · intro h
    obtain ⟨⟨hstream, cert, hcert, hsig⟩, hrev⟩ := h
    exact ⟨hstream, cert, hcert, hsig, hrev⟩

theorem kept_iff_unrevoked : kept E streamId trust hashes bc = true ↔
    kept E streamId trust.unrevoked hashes bc = true ∧
      isRevoked E trust.revocations bc.checkpoint.note = false := by
  have hkeys : trust.unrevoked.consoleKeys = trust.consoleKeys := rfl
  simp only [kept, accepts, attests, hkeys, Bool.or_eq_true, Bool.and_eq_true,
    @signed_iff_unrevoked E streamId trust bc]
  tauto

theorem mem_turns_ranges (cps : List BundleCheckpoint) {cpId : String} :
    cpId ∈ (cps.foldl (turn E streamId trust hashes) data).validCheckpointRanges ↔
      cpId ∈ data.validCheckpointRanges ∨ ∃ bc ∈ cps, accepts E streamId trust hashes bc = true ∧
        bc.checkpoint.note.checkpointId = cpId := by
  induction cps generalizing data with
  | nil => simp
  | cons bc cps ih =>
    rw [List.foldl_cons, ih, turn_ranges]
    by_cases hacc : accepts E streamId trust hashes bc = true
    · simp only [hacc, ↓reduceIte, Std.TreeMap.mem_insert, Std.LawfulEqCmp.compare_eq_iff_eq,
        List.mem_cons, exists_eq_or_imp, true_and]
      tauto
    · simp [hacc]

/-- **When revocation fails closed**: the checkpoints that the loop keeps were all made before the
revocations of their certificates exactly when, for every checkpoint that passes the other checks
and whose certificate is named, the time of the note parses, and either one entry's time has come or
the times of all the entries parse. -/
theorem revocation_closed_iff (E : Externals) (streamId : String) (trust : Identity)
    (data : StreamData) (cps : List BundleCheckpoint) :
    let out := (verifyCheckpoints E streamId data cps trust.certMap trust.revocations
      trust.consoleKeys).1
    (∀ cpId, cpId ∈ out.validCheckpointRanges ↔ cpId ∈ data.validCheckpointRanges ∨
        ∃ bc ∈ cps, accepts E streamId trust data.hashesBySeq bc = true ∧
          bc.checkpoint.note.checkpointId = cpId) ∧
      (∀ s, s ∈ out.attestedSeqs ↔ s ∈ data.attestedSeqs ∨
        ∃ bc ∈ cps, attests E streamId trust data.hashesBySeq bc = true ∧
          bc.checkpoint.note.seqFrom ≤ s ∧ s ≤ bc.checkpoint.note.seqTo) ∧
      ((∀ bc ∈ cps, kept E streamId trust data.hashesBySeq bc = true →
          BeforeRevocations E trust.revocations bc.checkpoint.note) ↔
        ∀ bc ∈ cps, kept E streamId trust.unrevoked data.hashesBySeq bc = true →
          let named := entriesNaming trust.revocations bc.checkpoint.note.recorderCertFingerprint
          named ≠ [] → ∃ ts, parseWall E bc.checkpoint.note.tsWall = .ok ts ∧
            ((∃ r ∈ named, ∃ eff, parseWall E r.effectiveAt = .ok eff ∧ eff.le ts = true) ∨
              ∀ r ∈ named, ∃ eff, parseWall E r.effectiveAt = .ok eff)) := by
  intro out
  have hout : out = cps.foldl (turn E streamId trust data.hashesBySeq) data :=
    verifyCheckpoints_data cps
  rw [hout]
  refine ⟨fun cpId => mem_turns_ranges cps, fun s => mem_turns_attestedSeqs cps, ?_⟩
  constructor
  · intro h bc hbc hkept named hnamed
    by_cases hrev : isRevoked E trust.revocations bc.checkpoint.note = true
    · obtain ⟨ts, hts, hcome⟩ := isRevoked_eq_true.mp hrev
      exact ⟨ts, hts, .inl hcome⟩
    · have hbefore := h bc hbc (kept_iff_unrevoked.mpr ⟨hkept, by simpa using hrev⟩)
      obtain ⟨r, hr⟩ := List.exists_mem_of_ne_nil named hnamed
      obtain ⟨-, ts, -, hts, -⟩ := hbefore r hr
      refine ⟨ts, hts, .inr ?_⟩
      intro r hr
      obtain ⟨eff, -, heff, -⟩ := hbefore r hr
      exact ⟨eff, heff⟩
  · intro h bc hbc hkept r hr
    obtain ⟨hunrevoked, hrev⟩ := kept_iff_unrevoked.mp hkept
    obtain ⟨ts, hts, hcome | hparse⟩ := h bc hbc hunrevoked (List.ne_nil_of_mem hr)
    · -- an entry whose time has come revokes the checkpoint
      rw [isRevoked_eq_true.mpr ⟨ts, hts, hcome⟩] at hrev
      cases hrev
    · obtain ⟨eff, heff⟩ := hparse r hr
      refine ⟨eff, ts, heff, hts, ?_⟩
      rw [← DateTime.le_eq_false]
      by_contra hle
      have hcome : eff.le ts = true := by simpa using hle
      rw [isRevoked_eq_true.mpr ⟨ts, hts, r, hr, eff, heff, hcome⟩] at hrev
      cases hrev

end Revocation

/-! The certificate was revoked ten days before, and the note gives a day without a time. -/

namespace Sample

open Evidence.Sample

def undatedNote : CheckpointNote :=
  { firstNote with checkpointId := "01CHECKPOINT000000000000A3", tsWall := "2026-08-11" }

def undatedHash : String := "8055169c0b93da1a32785fe8c1bdb51cc0d87cc025b82661b3d38d8de40afdf8"

def undated : BundleCheckpoint where
  checkpoint := ⟨undatedNote, "f47fabef83cea18908e9f506a41bc87e14239cec103810d2061068b979438f9caaeb433226dec24311a619dc405726974944eb1af492b24c0f0c3d8974dda107"⟩
  countersignature := none

def revocationEntry : RevocationEntry :=
  ⟨fingerprint, "2026-08-01T00:00:00.000Z", "key_compromise"⟩

def revokedTrust : Identity :=
  { trust with revocations := some ⟨⟨"2026-08-01T00:00:00.000Z", [revocationEntry]⟩, "console-1",
    "8987e502b39d51897c9ff35102970e0f00c4a1d9b51f7bca18b07cc99dff44345ad9dcd4bae04703073199bd45abeaa366a339dbc544691662650dfc5f79320d"⟩ }

def undatedExternals : Externals := .recorded { recording with
  blake3 := digested undatedNote.toJson undatedHash :: recording.blake3
  signatures := [((recorderKey.bytes, ofHex undatedHash), ofHex undated.checkpoint.signature)]
  times := (revocationEntry.effectiveAt, ⟨1785542400, 0⟩) :: recording.times }

end Sample

/-- The checkpoint that gives no time is kept, and attests the record. -/
theorem revoked_kept_undated :
    let out := (verifyCheckpoints Sample.undatedExternals Sample.undatedNote.streamId Sample.chained
      [Sample.undated] Sample.revokedTrust.certMap Sample.revokedTrust.revocations
      Sample.revokedTrust.consoleKeys).1
    Sample.undatedNote.checkpointId ∈ out.validCheckpointRanges ∧ (0 : UInt64) ∈ out.attestedSeqs ∧
      Sample.revocationEntry ∈ entriesNaming Sample.revokedTrust.revocations
        Sample.undatedNote.recorderCertFingerprint ∧
      ¬BeforeRevocations Sample.undatedExternals Sample.revokedTrust.revocations
        Sample.undatedNote := by
  have hnamed : Sample.revocationEntry ∈ entriesNaming Sample.revokedTrust.revocations
      Sample.undatedNote.recorderCertFingerprint := by
    rw [mem_entriesNaming]
    exact ⟨_, rfl, List.mem_singleton_self _, rfl⟩
  refine ⟨by decide +kernel, by decide +kernel, hnamed, ?_⟩
  intro h
  obtain ⟨eff, ts, -, hts, -⟩ := h _ hnamed
  have herr : (parseWall Sample.undatedExternals Sample.undatedNote.tsWall).toOption = none := by
    decide
  rw [hts] at herr
  cases herr

end Sealr.Verify
