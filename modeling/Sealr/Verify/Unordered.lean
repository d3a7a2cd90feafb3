import Sealr.Lib.Pairs
import Sealr.Verify.Quiet

/-!
# The order of the checkpoints does not matter

What the loop of `verify_checkpoints` leaves behind is a set and a maximum over the list, and the
forks it reports are the pairs of checkpoints over one range with different roots: none of them
depends on the order in which the checkpoints are listed.
-/

namespace Sealr.Verify

open Lib Evidence Bundle

/-! ## Attestation and the high-water mark -/

/-- A checkpoint that attests a number: every record of its range is exported, and its tree size,
root and chain head are those of the exported hashes. -/
structure AttestsSeq (E : Externals) (streamId : String) (trust : Identity)
    (hashes : Std.TreeMap UInt64 String) (bc : BundleCheckpoint) (s : UInt64) : Prop where
  stream : bc.checkpoint.note.streamId = streamId
  signature : ∃ cert, trust.certMap[bc.checkpoint.note.recorderCertFingerprint]? = some cert ∧
    bc.checkpoint.verify E cert.publicKey = .ok ()
  unrevoked : isRevoked E trust.revocations bc.checkpoint.note = false
  from_ : bc.checkpoint.note.seqFrom ≤ s
  to_ : s ≤ bc.checkpoint.note.seqTo
  exported : ∀ t, bc.checkpoint.note.seqFrom ≤ t → t ≤ bc.checkpoint.note.seqTo → t ∈ hashes
  treeSize : bc.checkpoint.note.treeSize = bc.checkpoint.note.seqTo - bc.checkpoint.note.seqFrom + 1
  merkleRoot : merkleRootOfRecordHashes E
    ((seqList bc.checkpoint.note.seqFrom bc.checkpoint.note.seqTo).filterMap (hashes[·]?)) =
      .ok bc.checkpoint.note.merkleRoot
  chainHead : hashes[bc.checkpoint.note.seqTo]? = some bc.checkpoint.note.chainHeadHash

/-- A checkpoint that gets as far as its countersignature, which a console key accepts and which
gives a high-water mark. -/
structure Marks (E : Externals) (streamId : String) (trust : Identity)
    (hashes : Std.TreeMap UInt64 String) (bc : BundleCheckpoint) (hw : UInt64) : Prop where
  signed : signed E streamId trust bc = true
  stands : rootStands E hashes bc = true
  mark : ∃ cs, bc.countersignature = some cs ∧
    (∃ k ∈ trust.consoleKeys.values, cs.verify E k = .ok ()) ∧ cs.note.streamHighWaterSeq = some hw

section Attestation

variable {E : Externals} {streamId : String} {trust : Identity}
  {hashes : Std.TreeMap UInt64 String} {data : StreamData} {bc : BundleCheckpoint}
  {cps : List BundleCheckpoint}

/-- The hashes of numbers that are all exported. -/
theorem exported_iff {seqs : List UInt64} {hs : List String} : Exported hashes seqs hs ↔
    (∀ t ∈ seqs, t ∈ hashes) ∧ hs = seqs.filterMap (hashes[·]?) := by
  induction seqs generalizing hs with
  | nil => simp [Exported]
  | cons t seqs ih =>
    rw [Exported, List.forall₂_cons_left_iff, List.forall_mem_cons, List.filterMap_cons]
    constructor
    · intro h
      obtain ⟨x, rest, hx, hrest, rfl⟩ := h
      obtain ⟨hall, rfl⟩ := ih.mp hrest
      refine ⟨⟨?_, hall⟩, ?_⟩
      · rw [Std.TreeMap.mem_iff_isSome_getElem?, hx]
        rfl
      · rw [hx]
    · intro h
      obtain ⟨⟨ht, hall⟩, rfl⟩ := h
      obtain ⟨x, hx⟩ := Option.isSome_iff_exists.mp (Std.TreeMap.mem_iff_isSome_getElem?.mp ht)
      exact ⟨x, _, hx, ih.mpr ⟨hall, rfl⟩, by rw [hx]⟩

/-- The last hash of an exported range is the one at its end. -/
theorem Exported.getLast? {a b : UInt64} {hs : List String} (h : Exported hashes (seqList a b) hs)
    (hle : a ≤ b) : hs.getLast? = hashes[b]? := by
  have hnat := UInt64.le_iff_toNat_le.mp hle
  obtain ⟨init, hinit⟩ : ∃ init, seqList a b = init ++ [b] := by
    refine ⟨(List.range (b.toNat - a.toNat)).map fun i => UInt64.ofNat (a.toNat + i), ?_⟩
    have hlen : b.toNat + 1 - a.toNat = (b.toNat - a.toNat) + 1 := by omega
    rw [seqList, hlen, List.range_succ, List.map_append, List.map_singleton,
      Nat.add_sub_cancel' hnat, UInt64.ofNat_toNat]
  rw [hinit] at h
  obtain ⟨ys, y, -, hy, rfl⟩ := forall₂_concat_left h
  rw [List.getLast?_concat, hy]

theorem attestsSeq_iff {s : UInt64} : AttestsSeq E streamId trust hashes bc s ↔
    attests E streamId trust hashes bc = true ∧ bc.checkpoint.note.seqFrom ≤ s ∧
      s ≤ bc.checkpoint.note.seqTo := by
  rw [attests, Bool.and_eq_true, signed_iff, rootVerified_iff]
  constructor
  · intro h
    obtain ⟨cert, hcert, hsig⟩ := h.signature
    have hle := UInt64.le_trans h.from_ h.to_
    have hexported : Exported hashes (seqList bc.checkpoint.note.seqFrom bc.checkpoint.note.seqTo)
        ((seqList bc.checkpoint.note.seqFrom bc.checkpoint.note.seqTo).filterMap (hashes[·]?)) := by
      refine exported_iff.mpr ⟨?_, rfl⟩
      intro t ht
      obtain ⟨hfrom, hto⟩ := mem_seqList.mp ht
      exact h.exported t hfrom hto
    refine ⟨⟨⟨h.stream, cert, hcert, hsig, h.unrevoked⟩, _, hexported, ?_, h.merkleRoot, ?_⟩,
      h.from_, h.to_⟩
    · rw [h.treeSize, ← hexported.length_eq]
      exact ofNat_length_seqList hle
    · rw [hexported.getLast? hle]
      exact h.chainHead
  · intro h
    obtain ⟨⟨⟨hstream, cert, hcert, hsig, hrev⟩, hs, hroot⟩, hfrom, hto⟩ := h
    obtain ⟨hall, hhs⟩ := exported_iff.mp hroot.exported
    refine ⟨hstream, ⟨cert, hcert, hsig⟩, hrev, hfrom, hto, ?_, ?_, ?_, ?_⟩
    · intro t hfrom hto
      exact hall t (mem_seqList.mpr ⟨hfrom, hto⟩)
    · rw [← hroot.treeSize, ← hroot.exported.length_eq]
      exact ofNat_length_seqList hroot.le
    · rw [← hhs]
      exact hroot.merkleRoot
    · rw [← hroot.exported.getLast? hroot.le]
      exact hroot.chainHead

theorem mem_marks {hw : UInt64} :
    hw ∈ (takenCountersignatures E streamId trust hashes cps).filterMap
        (·.2.note.streamHighWaterSeq) ↔
      ∃ bc ∈ cps, Marks E streamId trust hashes bc hw := by
  simp only [takenCountersignatures, List.mem_filterMap, Option.map_eq_some_iff]
  constructor
  · intro h
    obtain ⟨p, ⟨bc, hbc, cs, htaken, rfl⟩, hmark⟩ := h
    obtain ⟨hcs, hsigned, hstands, hver⟩ := takenCountersignature_eq_some.mp htaken
    exact ⟨bc, hbc, hsigned, hstands, cs, hcs, countersigned_iff.mp hver, hmark⟩
  · intro h
    obtain ⟨bc, hbc, hsigned, hstands, cs, hcs, hver, hmark⟩ := h
    have htaken := takenCountersignature_eq_some.mpr
      ⟨hcs, hsigned, hstands, countersigned_iff.mpr hver⟩
    exact ⟨(bc, cs), ⟨bc, hbc, cs, htaken, rfl⟩, hmark⟩

/-- **What attestation means**: over data that nothing was attested in yet, the loop attests the
numbers that some checkpoint attests, and leaves the highest of the marks; both are the same for
every order of the checkpoints. -/
theorem attestation_exact (E : Externals) (streamId : String) (trust : Identity)
    (data : StreamData) (hattested : data.attestedSeqs = ∅)
    (hmark : data.countersignedHighWater = none) (cps : List BundleCheckpoint) :
    let loop := fun cps => (verifyCheckpoints E streamId data cps trust.certMap trust.revocations
      trust.consoleKeys).1
    (∀ s, s ∈ (loop cps).attestedSeqs ↔
        ∃ bc ∈ cps, AttestsSeq E streamId trust data.hashesBySeq bc s) ∧
      ((loop cps).countersignedHighWater = none ↔
        ∀ bc ∈ cps, ∀ hw, ¬Marks E streamId trust data.hashesBySeq bc hw) ∧
      (∀ m, (loop cps).countersignedHighWater = some m ↔
        (∃ bc ∈ cps, Marks E streamId trust data.hashesBySeq bc m) ∧
          ∀ bc ∈ cps, ∀ hw, Marks E streamId trust data.hashesBySeq bc hw → hw ≤ m) ∧
      ∀ cps', cps.Perm cps' → (loop cps').attestedSeqs = (loop cps).attestedSeqs ∧
        (loop cps').countersignedHighWater = (loop cps).countersignedHighWater := by
  intro loop
  have hloop : ∀ cps, loop cps = cps.foldl (turn E streamId trust data.hashesBySeq) data :=
    fun cps => verifyCheckpoints_data cps
  have hseqs : ∀ cps s, s ∈ (loop cps).attestedSeqs ↔
      ∃ bc ∈ cps, AttestsSeq E streamId trust data.hashesBySeq bc s := by
    intro cps s
    rw [hloop, mem_turns_attestedSeqs, hattested]
    simp only [Finset.notMem_empty, false_or, attestsSeq_iff]
  have hsome : ∀ cps m, (loop cps).countersignedHighWater = some m ↔
      (∃ bc ∈ cps, Marks E streamId trust data.hashesBySeq bc m) ∧
        ∀ bc ∈ cps, ∀ hw, Marks E streamId trust data.hashesBySeq bc hw → hw ≤ m := by
    intro cps m
    rw [hloop, turns_highWater, hmark, foldl_raiseHighWater_eq_some]
    simp only [mem_marks, reduceCtorEq, or_false, false_implies, implies_true, and_true,
      forall_exists_index, and_imp]
    refine and_congr_right fun _ => ⟨?_, ?_⟩
    · exact fun h bc hbc hw hmarks => h hw bc hbc hmarks
    · exact fun h hw bc hbc hmarks => h bc hbc hw hmarks
  refine ⟨hseqs cps, ?_, hsome cps, ?_⟩
  · rw [hloop, turns_highWater, hmark, foldl_raiseHighWater_eq_none, and_iff_left rfl,
      List.eq_nil_iff_forall_not_mem]
    simp only [mem_marks, not_exists, not_and]
    exact ⟨fun h bc hbc hw => h hw bc hbc, fun h hw bc hbc => h bc hbc hw⟩
  · intro cps' hperm
    constructor
    · ext s
      rw [hseqs, hseqs]
      exact exists_congr fun bc => and_congr_left' hperm.mem_iff.symm
    · ext m
      rw [hsome, hsome]
      simp only [hperm.mem_iff]

end Attestation

theorem attestation_exact_sample :
    (∃ bc ∈ Sample.replayed, AttestsSeq Sample.externals Sample.firstNote.streamId Sample.trust
        Sample.chained.hashesBySeq bc 1) ∧
      ∃ bc ∈ Sample.replayed, Marks Sample.externals Sample.firstNote.streamId Sample.trust
        Sample.chained.hashesBySeq bc 0 := by
  obtain ⟨hseqs, -, hmarks, -⟩ := attestation_exact Sample.externals Sample.firstNote.streamId
    Sample.trust Sample.chained rfl rfl Sample.replayed
  exact ⟨(hseqs 1).mp (by decide +kernel), ((hmarks 0).mp (by decide +kernel)).1⟩

/-! ## Forks -/

/-- Two checkpoints that pass the checks before fork detection, over one range with different
roots. -/
def forkedPair (E : Externals) (streamId : String) (trust : Identity) (a b : BundleCheckpoint) :
    Bool :=
  signed E streamId trust a && signed E streamId trust b &&
    decide (a.checkpoint.note.seqFrom = b.checkpoint.note.seqFrom) &&
    decide (a.checkpoint.note.seqTo = b.checkpoint.note.seqTo) &&
    decide (a.checkpoint.note.merkleRoot ≠ b.checkpoint.note.merkleRoot)

/-- How many forks are reported. -/
def forkCount (findings : List Finding) : Nat :=
  findings.countP fun f => f.findingClass = .chainForkDetected

section Forks

variable {E : Externals} {streamId : String} {trust : Identity} {data : StreamData}
  {bc : BundleCheckpoint}

theorem forkedPair_comm (a b : BundleCheckpoint) :
    forkedPair E streamId trust a b = forkedPair E streamId trust b a := by
  rw [Bool.eq_iff_iff]
  simp only [forkedPair, Bool.and_eq_true, decide_eq_true_eq]
  grind

theorem forkCount_append (fs gs : List Finding) :
    forkCount (fs ++ gs) = forkCount fs + forkCount gs := List.countP_append

theorem forkCount_eq_zero {fs : List Finding}
    (h : ∀ f ∈ fs, f.findingClass ≠ .chainForkDetected) : forkCount fs = 0 := by
  apply List.countP_eq_zero.mpr
  intro f hf
  simpa using h f hf

/-- A turn reports a fork with each checkpoint seen before that is one. -/
theorem forkCount_forkFindings {pre : List BundleCheckpoint}
    (hle : bc.checkpoint.note.seqFrom ≤ bc.checkpoint.note.seqTo)
    (hsigned : signed E streamId trust bc = true) :
    forkCount (forkFindings streamId ((pre.filter (signed E streamId trust)).map seenRange)
      bc.checkpoint.note) = pre.countP (forkedPair E streamId trust · bc) := by
  induction pre with
  | nil => rfl
  | cons a pre ih =>
    by_cases ha : signed E streamId trust a = true
    · have hcond : (bc.checkpoint.note.seqFrom ≤ (seenRange a).to_ ∧
          (seenRange a).from_ ≤ bc.checkpoint.note.seqTo) ∧
          ((seenRange a).from_ = bc.checkpoint.note.seqFrom ∧
            (seenRange a).to_ = bc.checkpoint.note.seqTo) ∧
          (seenRange a).root ≠ bc.checkpoint.note.merkleRoot ↔
            forkedPair E streamId trust a bc = true := by
        simp only [forkedPair, seenRange, ha, hsigned, Bool.and_eq_true, decide_eq_true_eq]
        grind
      rw [List.filter_cons_of_pos ha, List.map_cons, forkFindings, List.filterMap_cons,
        List.countP_cons, ← ih]
      by_cases hfork : forkedPair E streamId trust a bc = true
      · rw [if_pos (hcond.mpr hfork), if_pos hfork]
        exact List.countP_cons_of_pos rfl
      · rw [if_neg (mt hcond.mp hfork), if_neg hfork]
        rfl
    · have hnot : forkedPair E streamId trust a bc = false := by
        simp [forkedPair, ha]
      rw [List.filter_cons_of_neg ha, ih, List.countP_cons_of_neg (by simp [hnot])]

/-- Along the loop the ranges seen are those of the checkpoints that are signed, and the forks
reported are the pairs so far. -/
theorem foldLog_forks {cps : List BundleCheckpoint}
    (hle : ∀ bc ∈ cps, bc.checkpoint.note.seqFrom ≤ bc.checkpoint.note.seqTo) :
    let run := foldLog (checkpointStep E streamId trust.certMap trust.revocations
      trust.consoleKeys) ⟨data, []⟩ cps
    run.1.ranges = (cps.filter (signed E streamId trust)).map seenRange ∧
      forkCount run.2 = pairCount (forkedPair E streamId trust) cps := by
  induction cps using List.reverseRecOn with
  | nil => exact ⟨rfl, rfl⟩
  | append_singleton cps bc ih =>
    obtain ⟨hranges, hcount⟩ := ih fun b hb => hle b (List.mem_append_left _ hb)
    rw [foldLog_append, pairCount_concat]
    dsimp only
    rw [forkCount_append, hcount]
    simp only [foldLog, List.append_nil, List.filter_append, List.map_append]
    generalize hst : (foldLog (checkpointStep E streamId trust.certMap trust.revocations
      trust.consoleKeys) ⟨data, []⟩ cps).1 = st at hranges ⊢
    by_cases hsigned : signed E streamId trust bc = true
    · have hnone := hsigned
      simp only [signed, Option.isNone_iff_eq_none] at hnone
      refine ⟨?_, ?_⟩
      · rw [checkpointStep_ranges st hsigned, hranges, List.filter_cons_of_pos hsigned]
        rfl
      · simp only [checkpointStep, hnone, forkCount_append]
        have hlater : forkCount (signedStep E streamId trust.consoleKeys st.data bc).2 = 0 := by
          apply forkCount_eq_zero
          intro f hf hclass
          have hsome := signedStep_class f hf
          simp [hclass] at hsome
        rw [hlater, hranges,
          forkCount_forkFindings (hle bc (by simp)) hsigned, Nat.add_zero]
    · obtain ⟨f, hf⟩ : ∃ f, refuse E streamId trust.certMap trust.revocations bc = some f := by
        rw [signed, Option.isNone_iff_eq_none] at hsigned
        exact Option.ne_none_iff_exists'.mp hsigned
      have hzero : cps.countP (forkedPair E streamId trust · bc) = 0 := by
        apply List.countP_eq_zero.mpr
        intro a _
        simp [forkedPair, hsigned]
      have hquiet : forkCount [f] = 0 := by
        apply forkCount_eq_zero
        intro g hg hclass
        rw [List.mem_singleton.mp hg] at hclass
        have hrefused := (refuse_eq_some hf).2.2
        simp [hclass] at hrefused
      simp only [checkpointStep, hf, List.filter_cons_of_neg hsigned, List.filter_nil, List.map_nil,
        List.append_nil, hzero, hquiet]
      exact ⟨hranges, trivial⟩

/-- **Forks are counted exactly**: over ranges that are not inverted, the forks reported are as many
as the pairs of checkpoints that pass the earlier checks and have one range and different roots,
whatever the order of the checkpoints and the records that are exported. -/
theorem fork_count_exact (E : Externals) (streamId : String) (trust : Identity)
    (data : StreamData) (cps : List BundleCheckpoint)
    (hle : ∀ bc ∈ cps, bc.checkpoint.note.seqFrom ≤ bc.checkpoint.note.seqTo) :
    let forks := fun data cps => forkCount (verifyCheckpoints E streamId data cps trust.certMap
      trust.revocations trust.consoleKeys).2
    forks data cps = (Finset.univ.filter fun p : Fin cps.length × Fin cps.length =>
        p.1 < p.2 ∧ forkedPair E streamId trust cps[p.1] cps[p.2] = true).card ∧
      ∀ data' cps', cps.Perm cps' → forks data' cps' = forks data cps := by
  intro forks
  have hforks : ∀ data cps', cps.Perm cps' →
      forks data cps' = pairCount (forkedPair E streamId trust) cps := by
    intro data cps' hperm
    rw [pairCount_perm forkedPair_comm hperm]
    exact (foldLog_forks fun bc hbc => hle bc (hperm.mem_iff.mpr hbc)).2
  constructor
  · rw [card_pairs]
    exact hforks data cps (.refl cps)
  · intro data' cps' hperm
    rw [hforks data' cps' hperm, hforks data cps (.refl cps)]

end Forks

/-! A second checkpoint over the first record, with another root. -/

namespace Sample

def forkedNote : CheckpointNote :=
  { firstNote with
    checkpointId := "01CHECKPOINT000000000000A5", merkleRoot := secondNote.merkleRoot }

def forkedHash : String := "3a0df76defc2ceb4e8db96a3dbbedfa3cd8af8332ac414cd57b6b8219830edfd"

def forked : BundleCheckpoint where
  checkpoint := ⟨forkedNote, "02a953d42aaead1a62202d9b41bbf5d0783fdd3d409eeef2d68dad580e7ce33ce31cebd47d24566229f403e811bf37a0c51516e9932e389d945582353076300f"⟩
  countersignature := none

def forkedExternals : Externals := .recorded { recording with
  blake3 := digested forkedNote.toJson forkedHash :: recording.blake3
  signatures := ((recorderKey.bytes, ofHex forkedHash), ofHex forked.checkpoint.signature) ::
    recording.signatures }

end Sample

theorem fork_count_sample :
    forkCount (verifyCheckpoints Sample.forkedExternals Sample.firstNote.streamId Sample.chained
      [Sample.forked, ⟨Sample.second, none⟩, ⟨Sample.first, none⟩] Sample.trust.certMap
      Sample.trust.revocations Sample.trust.consoleKeys).2 = 1 := by
  have hcount := (fork_count_exact Sample.forkedExternals Sample.firstNote.streamId Sample.trust
    Sample.chained [Sample.forked, ⟨Sample.second, none⟩, ⟨Sample.first, none⟩] (by decide)).1
  exact hcount.trans (by decide +kernel)

end Sealr.Verify
