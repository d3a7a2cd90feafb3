import Sealr.Bundle.Signed
import Sealr.Lib.Linked
import Sealr.Verify.Extent
import Sealr.Verify.Windows

/-!
# Checkpoints that were removed

Each checkpoint of a stream names the hash of the note before it. Of a linked list of checkpoints, a
prefix may be kept without a trace; whatever else is kept leaves a link to a note that is absent.
-/

namespace Sealr.Verify

open Lib Evidence Bundle

/-! ## The pass a finding comes from -/

inductive EnginePass where
  | container | identity | chain | checkpoints | anchors | coverage
  deriving DecidableEq

/-- The pass that reports a class of findings. -/
def FindingClass.pass : FindingClass → EnginePass
  | schemaVersionUnknown | unlistedEntry | contentHashMismatch => .container
  | revocationListSignatureInvalid | revocationListUnverifiable | rootSource
  | rootBundlePinned | noTrustRoot | identityMissing | identityUnparseable | certUnvalidated
  | consoleKeyInvalid | consoleKeyUnparseable | consoleKeyAttestationInvalid
  | consoleKeyUnattested => .identity
  | streamIdInvalid | recordParseError | recordInvalid | streamReadError
  | recordHashMismatch | chainLinkBroken | seqGap | seqNotMonotonic | monotonicRegression
  | wallClockRegression | genesisViolation | segmentBreak | streamMismatch
  | badWallTimestamp => .chain
  | checkpointsMissing | checkpointStreamMismatch | checkpointCertUnknown
  | checkpointSignatureInvalid | checkpointAfterRevocation | chainForkDetected
  | checkpointRootMismatch | checkpointRangeNotFullyExported | countersignatureUnverifiable
  | countersignatureInvalid | notCountersigned => .checkpoints
  | anchorInvalid | anchorDigestBindingBroken | anchorInclusionInvalid | anchorLeafMismatch
  | anchorCheckpointNotInExport | anchorVerified | anchorTokenMissing | anchorPending
  | dailyRootInvalid | dailyRootMismatch | dailyRootSignatureInvalid | qtsVerified | qtsInvalid
  | qtsTokenMissing => .anchors
  | unattestedTail | checkpointChainBroken | truncationDetected | tailCompletenessUnproven
  | coverageGapsRecorded | segmentNoCleanEnd => .coverage

section Passes

variable {E : Externals} {S : Serde} {reader : BundleReader} {trust : Identity}
  {streamId : String} {data : StreamData}

theorem verifyStreamChain_pass :
    ∀ f ∈ (verifyStreamChain E S reader streamId).2, f.findingClass.pass = .chain := by
  unfold verifyStreamChain
  cases StreamVerifier.new E streamId with
  | error e => simp [addAt, FindingClass.pass]
  | ok verifier =>
    have hlines : ∀ f ∈ (foldLog (onLine E streamId) (chainStart verifier)
        (reader.readStreamRecords E S streamId).1).2, f.findingClass.pass = .chain := by
      refine foldLog_all ?_ _ _
      intro st line
      unfold onLine
      cases E.fromSlice line with
      | error e => simp [addAt, FindingClass.pass]
      | ok value =>
        cases hnext : st.verifier.verifyNext E value with
        | error e => simp [hnext, addAt, FindingClass.pass]
        | ok r =>
          intro f hf
          simp only [hnext, List.mem_map] at hf
          obtain ⟨c, -, rfl⟩ := hf
          cases c <;> rfl
    intro f hf
    rcases List.mem_append.mp hf with hf | hf
    · exact hlines f hf
    · split at hf
      · cases hf
      · rw [List.mem_singleton.mp hf]
        rfl

theorem verifyCheckpoints_pass {cps : List BundleCheckpoint} :
    ∀ f ∈ (verifyCheckpoints E streamId data cps trust.certMap trust.revocations
      trust.consoleKeys).2, f.findingClass.pass = .checkpoints := by
  suffices hloop : ∀ f ∈ (foldLog (checkpointStep E streamId trust.certMap trust.revocations
      trust.consoleKeys) ⟨data, []⟩ cps).2, f.findingClass.pass = .checkpoints from hloop
  refine foldLog_all ?_ _ _
  intro st bc
  unfold checkpointStep
  cases hrefuse : refuse E streamId trust.certMap trust.revocations bc with
  | some f =>
    intro g hg
    obtain ⟨-, -, hclass⟩ := refuse_eq_some hrefuse
    rw [List.mem_singleton.mp hg]
    simp only [List.mem_cons, List.not_mem_nil, or_false] at hclass
    rcases hclass with h | h | h | h <;> rw [h] <;> rfl
  | none =>
    intro f hf
    rcases List.mem_append.mp hf with hf | hf
    · rw [(mem_forkFindings hf).2.2]
      rfl
    · have hclass := signedStep_class f hf
      simp only [List.mem_cons, List.not_mem_nil, or_false] at hclass
      rcases hclass with h | h | h | h | h <;> rw [h] <;> rfl

theorem checkpointTurn_pass :
    ∀ f ∈ (checkpointTurn E S reader trust (streamId, data)).2,
      f.findingClass.pass = .checkpoints := by
  unfold checkpointTurn
  cases reader.streamCheckpoints S streamId with
  | error e => simp [addAt, FindingClass.pass]
  | ok file => exact verifyCheckpoints_pass

/-- The cross-checks report a broken chain of checkpoints in one place. -/
theorem mem_linkChainFindings {opts : VerifyOptions} {f : Finding}
    (hf : f ∈ coverageFindings opts streamId data) (hclass : f.findingClass = .checkpointChainBroken) :
    f ∈ linkChainFindings streamId data := by
  simp only [coverageFindings, List.mem_append] at hf
  rcases hf with ((((hf | hf) | hf) | hf) | hf) | hf
  · unfold unattestedFindings at hf
    dsimp only at hf
    split_ifs at hf
    · rw [List.mem_singleton.mp hf] at hclass
      cases hclass
    · cases hf
  · exact hf
  · unfold truncationFindings at hf
    split at hf
    · cases hf
    · split_ifs at hf
      · rw [List.mem_singleton.mp hf] at hclass
        cases hclass
      · cases hf
  · unfold tailFindings at hf
    split_ifs at hf
    · rw [List.mem_singleton.mp hf] at hclass
      cases hclass
    · cases hf
  · unfold gapFindings at hf
    split_ifs at hf
    · rw [List.mem_singleton.mp hf] at hclass
      cases hclass
    · cases hf
  · obtain ⟨seg, -, rfl⟩ := List.mem_map.mp hf
    cases hclass

end Passes

/-! ## Links of a stream -/

section Links

variable {E : Externals} {S : Serde} {now : Int} {reader : BundleReader} {opts : VerifyOptions}
  {streamId : String} {data : StreamData}

/-- A broken chain of checkpoints is reported when a link leads nowhere. -/
theorem chain_broken_iff (hscope : streamId ∈ scopeIds reader) :
    (∃ f ∈ (verifyBundle E S now reader opts).findings,
        f.findingClass = .checkpointChainBroken ∧ f.streamId = some streamId) ↔
      ¬∀ l ∈ (checkedData E S reader (trustOf E S now reader opts) streamId).checkpointLinks,
        l.2 ∈ (checkedData E S reader (trustOf E S now reader opts)
          streamId).checkpointNoteHashes := by
  constructor
  · intro h hresolved
    obtain ⟨f, hf, hclass, hid⟩ := h
    have hpass : f.findingClass.pass = .coverage := by
      rw [hclass]
      rfl
    obtain ⟨-, hchain | hcheckpoints | ⟨anchored, hcoverage⟩⟩ := mem_findings_of_stream hf hid
    · rw [verifyStreamChain_pass f hchain] at hpass
      cases hpass
    · rw [checkpointTurn_pass f hcheckpoints] at hpass
      cases hpass
    · obtain ⟨l, hl, hloose⟩ := List.mem_filterMap.mp (mem_linkChainFindings hcoverage hclass)
      rw [if_pos (hresolved l hl)] at hloose
      cases hloose
  · intro h
    push Not at h
    obtain ⟨l, hl, hloose⟩ := h
    obtain ⟨anchored, hs⟩ := @exists_final E S now reader opts streamId hscope
    have hfound : ∃ f ∈ linkChainFindings streamId
        { checkedData E S reader (trustOf E S now reader opts) streamId with
          anchoredSeqs := anchored },
        f.findingClass = .checkpointChainBroken ∧ f.streamId = some streamId :=
      ⟨_, List.mem_filterMap.mpr ⟨l, hl, if_neg hloose⟩, rfl, rfl⟩
    obtain ⟨f, hf, hclass, hid⟩ := hfound
    refine ⟨f, mem_findings_of_coverage hs ?_, hclass, hid⟩
    simp [coverageFindings, hf]

end Links

/-! ## Honest links -/

/-- Checkpoints as they were linked: each note names the hash of the one before, the first one
names `prev`. -/
inductive HonestLinks (E : Externals) : Option String → List BundleCheckpoint → Prop where
  | nil {prev : Option String} : HonestLinks E prev []
  | cons {prev : Option String} {bc : BundleCheckpoint} {cps : List BundleCheckpoint} {h : String}
      (hprev : bc.checkpoint.note.prevCheckpointHash = prev)
      (hhash : bc.checkpoint.note.noteHash E = .ok h) (hrest : HonestLinks E (some h) cps) :
      HonestLinks E prev (bc :: cps)

/-- The JCS bytes of a note. -/
def noteBytes (bc : BundleCheckpoint) : Bytes := documentBytes bc.checkpoint.note.toJson

section Removed

variable {E : Externals} {S : Serde} {now : Int} {reader : BundleReader} {opts : VerifyOptions}
  {streamId : String} {cps : List BundleCheckpoint} {prev : Option String}

theorem noteHash_eq_ok {bc : BundleCheckpoint} {h : String}
    (hhash : bc.checkpoint.note.noteHash E = .ok h) :
    toJcsBytes bc.checkpoint.note.toJson = .ok (noteBytes bc) ∧
      h = hexEncode (noteDigest E bc.checkpoint.note).toList := by
  obtain ⟨jcs, hjcs, heq⟩ := bind_eq_ok.mp hhash
  obtain rfl := Except.ok.inj heq
  rw [noteBytes, documentBytes, noteDigest, hjcs]
  exact ⟨rfl, rfl⟩

theorem HonestLinks.linkedFrom (h : HonestLinks E prev cps) :
    LinkedFrom (fun bc : BundleCheckpoint => hexEncode (noteDigest E bc.checkpoint.note).toList)
      (fun bc => bc.checkpoint.note.prevCheckpointHash) prev cps := by
  induction h with
  | nil => exact .nil
  | cons hprev hhash _ ih =>
    obtain ⟨-, rfl⟩ := noteHash_eq_ok hhash
    exact .cons hprev ih

theorem HonestLinks.hashed (h : HonestLinks E prev cps) :
    ∀ bc ∈ cps, ∃ x, bc.checkpoint.note.noteHash E = .ok x := by
  induction h with
  | nil => simp
  | cons _ hhash _ ih =>
    rw [List.forall_mem_cons]
    exact ⟨⟨_, hhash⟩, ih⟩

/-- Notes with one hash have one link, or BLAKE3 collides. -/
theorem HonestLinks.determined (h : HonestLinks E prev cps)
    (hcollides : ¬Collides E.blake3 (cps.map noteBytes) (cps.map noteBytes)) :
    ∀ a ∈ cps, ∀ b ∈ cps, hexEncode (noteDigest E a.checkpoint.note).toList =
      hexEncode (noteDigest E b.checkpoint.note).toList →
        a.checkpoint.note.prevCheckpointHash = b.checkpoint.note.prevCheckpointHash := by
  intro a ha b hb heq
  obtain ⟨x, hx⟩ := h.hashed a ha
  obtain ⟨y, hy⟩ := h.hashed b hb
  obtain ⟨hbytes, -⟩ := noteHash_eq_ok hx
  obtain ⟨hbytes', -⟩ := noteHash_eq_ok hy
  have hdigest : E.blake3 (noteBytes a) = E.blake3 (noteBytes b) := blake3Hex_inj.mp heq
  obtain hsame | hcol := eq_or_collides (List.mem_map_of_mem ha) (List.mem_map_of_mem hb) hdigest
  · rw [hsame] at hbytes
    have hnote : Signable.checkpoint a.checkpoint.note = .checkpoint b.checkpoint.note :=
      Signable.eq_of_toJcsBytes hbytes hbytes'
    rw [Signable.checkpoint.inj hnote]
  · exact absurd hcol hcollides

/-- **Removed checkpoints are noticed exactly when they are no tail**: of a stream's linked
checkpoints some are kept in the bundle, in any order, and pass the other checks; a broken chain is
reported for the stream if and only if those kept are not a prefix, or BLAKE3 collides on two
notes. -/
theorem chain_broken_iff_not_prefix (hlinks : HonestLinks E none cps)
    (hscope : streamId ∈ scopeIds reader)
    (hkept : ∀ bc ∈ checkpointsOf S reader streamId, bc ∈ cps)
    (haccepts : ∀ bc ∈ checkpointsOf S reader streamId,
      accepts E streamId (trustOf E S now reader opts)
        (verifyStreamChain E S reader streamId).1.hashesBySeq bc = true) :
    ((∃ f ∈ (verifyBundle E S now reader opts).findings,
        f.findingClass = .checkpointChainBroken ∧ f.streamId = some streamId) ↔
      ¬∃ k, ∀ bc, bc ∈ checkpointsOf S reader streamId ↔ bc ∈ cps.take k) ∨
      Collides E.blake3 (cps.map noteBytes) (cps.map noteBytes) := by
  by_cases hcollides : Collides E.blake3 (cps.map noteBytes) (cps.map noteBytes)
  · exact .inr hcollides
  · left
    rw [chain_broken_iff hscope, links_resolved_iff haccepts,
      hlinks.linkedFrom.resolved_iff (hlinks.determined hcollides) hkept]

end Removed

namespace Sample

/-- The two checkpoints of the stream, the second without a countersignature. -/
def linked : List BundleCheckpoint := [exported, ⟨second, none⟩]

theorem linked_honest : HonestLinks bundleExternals none linked := by
  have hfirst : exported.checkpoint.note.noteHash bundleExternals = .ok firstHash := by
    decide +kernel
  have hsecond : second.note.noteHash bundleExternals = .ok secondHash := by
    decide +kernel
  exact .cons rfl hfirst (.cons rfl hsecond .nil)

theorem bundle_accepts : ∀ bc ∈ checkpointsOf bundleDocuments.serde bundle
    Evidence.Sample.opened.streamId,
    accepts bundleExternals Evidence.Sample.opened.streamId
      (trustOf bundleExternals bundleDocuments.serde 0 bundle options)
      (verifyStreamChain bundleExternals bundleDocuments.serde bundle
        Evidence.Sample.opened.streamId).1.hashesBySeq bc = true := by
  have htrust : trustOf bundleExternals bundleDocuments.serde 0 bundle options = trust :=
    trustOf_of_identity bundle_identity rfl
  intro bc hbc
  rw [bundle_checkpoints, List.mem_singleton] at hbc
  rw [hbc, htrust]
  decide +kernel

end Sample

theorem chain_broken_sample :
    let kept := checkpointsOf Sample.bundleDocuments.serde Sample.bundle
      Evidence.Sample.opened.streamId
    kept = Sample.linked.take 1 ∧
      ((¬∃ f ∈ (verifyBundle Sample.bundleExternals Sample.bundleDocuments.serde 0 Sample.bundle
          Sample.options).findings, f.findingClass = .checkpointChainBroken ∧
            f.streamId = some Evidence.Sample.opened.streamId) ∨
        Collides Sample.bundleExternals.blake3 (Sample.linked.map noteBytes)
          (Sample.linked.map noteBytes)) := by
  intro kept
  have hkept : kept = Sample.linked.take 1 := Sample.bundle_checkpoints
  have hscope : Evidence.Sample.opened.streamId ∈ scopeIds Sample.bundle :=
    List.mem_singleton_self _
  have hmem : ∀ bc ∈ kept, bc ∈ Sample.linked := by
    intro bc hbc
    rw [hkept] at hbc
    exact List.mem_of_mem_take hbc
  refine ⟨hkept, ?_⟩
  obtain hiff | hcollides :=
    chain_broken_iff_not_prefix Sample.linked_honest hscope hmem Sample.bundle_accepts
  · left
    rw [hiff, not_not]
    refine ⟨1, ?_⟩
    intro bc
    rw [← hkept]
  · exact .inr hcollides


end Sealr.Verify
