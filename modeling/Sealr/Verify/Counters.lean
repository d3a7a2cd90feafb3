import Mathlib.Algebra.Order.BigOperators.Group.List
import Sealr.Verify.Accumulate
import Sealr.Verify.Extent
import Sealr.Verify.Unordered

/-!
# The counters of a report

What is anchored of a stream is attested, and what is attested was collected, whatever the bundle
holds; so the counters of the report are nested. The subtraction behind `unattested_tail` never
saturates: the finding is there exactly when a collected record lies in no attesting checkpoint.
-/

namespace Sealr.Verify

open Lib Evidence Bundle

/-! ## Which pass reports what -/

/-- The classes of the coverage pass. -/
def FindingClass.isCoverage : FindingClass → Bool
  | unattestedTail | checkpointChainBroken | truncationDetected | tailCompletenessUnproven
  | coverageGapsRecorded | segmentNoCleanEnd => true
  | _ => false

/-- Findings of other passes. -/
def Uncovering (fs : List Finding) : Prop := ∀ f ∈ fs, f.findingClass.isCoverage = false

section Classes

variable {E : Externals} {S : Serde} {reader : BundleReader} {opts : VerifyOptions}

theorem uncovering_nil : Uncovering [] := List.forall_mem_nil _

theorem uncovering_append {fs gs : List Finding} (hf : Uncovering fs) (hg : Uncovering gs) :
    Uncovering (fs ++ gs) := fun f h => (List.mem_append.mp h).elim (hf f) (hg f)

theorem uncovering_add (severity : Severity) (cls : FindingClass) (message : String)
    (h : cls.isCoverage = false) : Uncovering [add severity cls message] :=
  List.forall_mem_singleton.mpr h

theorem uncovering_addAt (severity : Severity) (cls : FindingClass) (message streamId : String)
    (seq : Option UInt64) (h : cls.isCoverage = false) :
    Uncovering [addAt severity cls message streamId seq] :=
  List.forall_mem_singleton.mpr h

theorem uncovering_container : Uncovering (containerFindings E reader) := by
  unfold containerFindings
  refine uncovering_append ?_ ?_
  · split_ifs
    exacts [uncovering_add _ _ _ rfl, uncovering_nil]
  · split
    · intro f hf
      obtain ⟨path, -, rfl⟩ := List.mem_map.mp hf
      rfl
    · exact uncovering_add _ _ _ rfl

theorem uncovering_selectRoots (roots : Option RootsFile) :
    Uncovering (selectRoots E opts roots).2 := by
  unfold selectRoots
  split
  · exact uncovering_nil
  · split_ifs
    · exact uncovering_nil
    · dsimp only
      split
      · split_ifs
        exacts [uncovering_add _ _ _ rfl, uncovering_add _ _ _ rfl]
      · exact uncovering_add _ _ _ rfl

theorem uncovering_buildCertMap (certs : Option String) (roots : List String) (t : Int) :
    Uncovering (buildCertMap E certs roots t).2 := by
  unfold buildCertMap
  split
  · exact uncovering_add _ _ _ rfl
  · split_ifs
    · exact uncovering_nil
    · split
      · exact uncovering_add _ _ _ rfl
      · refine foldLog_all (fun map pem => ?_) _ _
        unfold certStep
        split
        exacts [uncovering_nil, uncovering_add _ _ _ rfl]

theorem uncovering_resolveConsoleKeys (roots : Option RootsFile) (pems : List String) :
    Uncovering (resolveConsoleKeys E opts roots pems).2 := by
  unfold resolveConsoleKeys
  split
  · split
    exacts [uncovering_nil, uncovering_add _ _ _ rfl]
  · split
    · exact uncovering_nil
    · refine foldLog_all (fun keys entry => ?_) _ _
      unfold consoleKeyStep
      dsimp only
      split
      · exact uncovering_add _ _ _ rfl
      · split
        · split_ifs
          exacts [uncovering_nil, uncovering_add _ _ _ rfl]
        · exact uncovering_add _ _ _ rfl

theorem uncovering_revocations (keys : ConsoleKeys) (revocations : Option SignedRevocationList) :
    Uncovering (revocationFindings E keys revocations) := by
  unfold revocationFindings
  split
  · exact uncovering_nil
  · dsimp only
    split_ifs
    exacts [uncovering_add _ _ _ rfl, uncovering_add _ _ _ rfl, uncovering_nil]

theorem uncovering_identity (t : Int) : Uncovering (identityPass E S t reader opts).2 := by
  unfold identityPass
  refine uncovering_append (uncovering_append (uncovering_append (uncovering_append
    (uncovering_selectRoots _) (uncovering_buildCertMap _ _ _))
    (uncovering_resolveConsoleKeys _ _)) (uncovering_revocations _ _)) ?_
  split_ifs
  exacts [uncovering_add _ _ _ rfl, uncovering_nil]

theorem uncovering_onLine (streamId : String) (st : ChainState) (line : Bytes) :
    Uncovering (onLine E streamId st line).2 := by
  unfold onLine
  split
  · exact uncovering_addAt _ _ _ _ _ rfl
  · split
    · exact uncovering_addAt _ _ _ _ _ rfl
    · intro f hf
      obtain ⟨found, -, rfl⟩ := List.mem_map.mp hf
      cases found <;> rfl

theorem uncovering_chain (streamId : String) :
    Uncovering (verifyStreamChain E S reader streamId).2 := by
  unfold verifyStreamChain
  split
  · exact uncovering_addAt _ _ _ _ _ rfl
  · dsimp only
    refine uncovering_append (foldLog_all (uncovering_onLine streamId) _ _) ?_
    split
    exacts [uncovering_nil, uncovering_addAt _ _ _ _ _ rfl]

theorem uncovering_rootStep (streamId : String) (data : StreamData) (bc : BundleCheckpoint) :
    Uncovering (rootStep E streamId data bc).2.1 := by
  unfold rootStep
  dsimp only
  split_ifs
  · split
    exacts [uncovering_addAt _ _ _ _ _ rfl, uncovering_nil]
  · exact uncovering_addAt _ _ _ _ _ rfl

theorem uncovering_countersignatureStep (streamId : String) (keys : ConsoleKeys)
    (data : StreamData) (bc : BundleCheckpoint) :
    Uncovering (countersignatureStep E streamId keys data bc).2.1 := by
  unfold countersignatureStep
  dsimp only
  split
  · exact uncovering_addAt _ _ _ _ _ rfl
  · split_ifs
    exacts [uncovering_nil, uncovering_addAt _ _ _ _ _ rfl, uncovering_addAt _ _ _ _ _ rfl]

theorem uncovering_refuse {streamId : String} {certMap : CertMap}
    {revocations : Option SignedRevocationList} {bc : BundleCheckpoint} {f : Finding}
    (h : refuse E streamId certMap revocations bc = some f) :
    f.findingClass.isCoverage = false := by
  unfold refuse at h
  dsimp only at h
  split at h
  · obtain rfl := Option.some.inj h
    rfl
  · split at h
    · obtain rfl := Option.some.inj h
      rfl
    · split_ifs at h
      all_goals
        obtain rfl := Option.some.inj h
        rfl

theorem uncovering_checkpointStep (streamId : String) (certMap : CertMap)
    (revocations : Option SignedRevocationList) (keys : ConsoleKeys) (st : CheckpointState)
    (bc : BundleCheckpoint) :
    Uncovering (checkpointStep E streamId certMap revocations keys st bc).2 := by
  unfold checkpointStep
  split
  · next f hf => exact List.forall_mem_singleton.mpr (uncovering_refuse hf)
  · refine uncovering_append ?_ ?_
    · intro f hf
      obtain ⟨r, -, hr⟩ := List.mem_filterMap.mp hf
      split_ifs at hr
      obtain rfl := Option.some.inj hr
      rfl
    · have hroot := @uncovering_rootStep E streamId st.data bc
      have hcs := @uncovering_countersignatureStep E streamId keys
        (rootStep E streamId st.data bc).1 bc
      unfold signedStep
      dsimp only
      split_ifs
      exacts [uncovering_append hroot hcs, uncovering_append hroot hcs, hroot]

theorem uncovering_checkpoints (trust : Identity) (streams : Streams) :
    Uncovering (checkpointPass E S reader trust streams).2 := by
  intro f hf
  obtain ⟨s, -, hf⟩ := List.mem_flatMap.mp hf
  unfold checkpointTurn at hf
  split at hf
  · exact uncovering_addAt _ _ _ _ _ rfl f hf
  · exact foldLog_all (uncovering_checkpointStep _ _ _ _) _ _ f hf

theorem uncovering_batch (streams : Streams) (batch : AnchorBatch) :
    Uncovering (batchFindings E reader streams batch) := by
  unfold batchFindings batchStep
  split
  · next f hf =>
    unfold checkBatch at hf
    split at hf
    · obtain rfl := Option.some.inj hf
      exact uncovering_add _ _ _ rfl
    · split_ifs at hf
      obtain rfl := Option.some.inj hf
      exact uncovering_add _ _ _ rfl
  · refine uncovering_append (foldLog_all (fun matched inc => ?_) _ _) fun f hf => ?_
    · unfold inclusionStep
      split
      · exact uncovering_add _ _ _ rfl
      · split
        · exact uncovering_add _ _ _ rfl
        · dsimp only
          split_ifs
          exacts [uncovering_nil, uncovering_add _ _ _ rfl]
    · rcases mem_tokenStep hf with hclass | ⟨path, sha, -, htoken⟩
      · rcases List.mem_pair.mp hclass with h | h <;> rw [h] <;> rfl
      · rcases List.mem_pair.mp (batchToken_class htoken) with h | h <;> rw [h] <;> rfl

theorem uncovering_daily (keys : ConsoleKeys) (day : DailyRoot) :
    Uncovering (dailyFindings E reader keys day) := by
  intro f hf
  have hclass := dailyFindings_class day f hf
  simp only [List.mem_cons, List.not_mem_nil, or_false] at hclass
  rcases hclass with h | h | h | h | h | h <;> rw [h] <;> rfl

theorem uncovering_anchors (proofs : AnchorProofs) (streams : Streams) (keys : ConsoleKeys) :
    Uncovering (verifyAnchors E reader proofs streams keys).2 := by
  rw [verifyAnchors_findings]
  refine uncovering_append (fun f hf => ?_) fun f hf => ?_
  · obtain ⟨batch, -, hf⟩ := List.mem_flatMap.mp hf
    exact uncovering_batch _ batch f hf
  · obtain ⟨day, -, hf⟩ := List.mem_flatMap.mp hf
    exact uncovering_daily _ day f hf

end Classes

/-! ## One stream -/

section Stream

variable {streamId : String} {data : StreamData} {opts : VerifyOptions}

/-- A coverage finding names its stream. -/
theorem streamId_of_coverage {f : Finding} (h : f ∈ coverageFindings opts streamId data) :
    f.streamId = some streamId := by
  simp only [coverageFindings, List.mem_append] at h
  rcases h with ((((h | h) | h) | h) | h) | h
  · unfold unattestedFindings at h
    dsimp only at h
    split_ifs at h
    · rw [List.mem_singleton.mp h]
      rfl
    · cases h
  · obtain ⟨l, -, hl⟩ := List.mem_filterMap.mp h
    split_ifs at hl
    obtain rfl := Option.some.inj hl
    rfl
  · unfold truncationFindings at h
    split at h
    · cases h
    · split_ifs at h
      · rw [List.mem_singleton.mp h]
        rfl
      · cases h
  · unfold tailFindings at h
    split_ifs at h
    · rw [List.mem_singleton.mp h]
      rfl
    · cases h
  · unfold gapFindings at h
    split_ifs at h
    · rw [List.mem_singleton.mp h]
      rfl
    · cases h
  · obtain ⟨seg, -, rfl⟩ := List.mem_map.mp h
    rfl

/-- Only the count of unattested records is reported under its class. -/
theorem mem_coverageFindings_unattested {f : Finding}
    (h : f ∈ coverageFindings opts streamId data) (hclass : f.findingClass = .unattestedTail) :
    f ∈ unattestedFindings streamId data := by
  simp only [coverageFindings, List.mem_append] at h
  rcases h with ((((h | h) | h) | h) | h) | h
  · exact h
  · obtain ⟨l, -, hl⟩ := List.mem_filterMap.mp h
    split_ifs at hl
    obtain rfl := Option.some.inj hl
    cases hclass
  · unfold truncationFindings at h
    split at h
    · cases h
    · split_ifs at h
      · rw [List.mem_singleton.mp h] at hclass
        cases hclass
      · cases h
  · unfold tailFindings at h
    split_ifs at h
    · rw [List.mem_singleton.mp h] at hclass
      cases hclass
    · cases h
  · unfold gapFindings at h
    split_ifs at h
    · rw [List.mem_singleton.mp h] at hclass
      cases hclass
    · cases h
  · obtain ⟨seg, -, rfl⟩ := List.mem_map.mp h
    cases hclass

/-- With the attested numbers among the collected ones, the difference of the counts is positive
exactly when a collected number is not attested. -/
theorem exists_unattested_iff (hsub : data.attestedSeqs ⊆ data.hashesBySeq.keys.toFinset) :
    (∃ f ∈ unattestedFindings streamId data, f.findingClass = .unattestedTail) ↔
      ∃ seq ∈ data.hashesBySeq, seq ∉ data.attestedSeqs := by
  have hcard : data.hashesBySeq.keys.toFinset.card = data.hashesBySeq.size := by
    rw [List.toFinset_card_of_nodup Std.TreeMap.nodup_keys, Std.TreeMap.length_keys]
  unfold unattestedFindings
  dsimp only
  split_ifs with hpos
  · refine iff_of_true ⟨_, List.mem_cons_self, rfl⟩ ?_
    obtain ⟨seq, hseq, hnot⟩ := Finset.exists_mem_notMem_of_card_lt_card
      (s := data.attestedSeqs) (t := data.hashesBySeq.keys.toFinset) (by omega)
    exact ⟨seq, by simpa using hseq, hnot⟩
  · refine iff_of_false (by simp) ?_
    rintro ⟨seq, hseq, hnot⟩
    have heq := attested_eq_keys hsub (by omega)
    rw [heq] at hnot
    exact hnot (by simpa using hseq)

end Stream

/-! ## The whole report -/

section Report

variable {E : Externals} {S : Serde} {now : Int} {reader : BundleReader} {opts : VerifyOptions}

/-- A coverage finding of the report is one of a stream of the final state. -/
theorem coverage_of_mem {f : Finding} (h : f ∈ (verifyBundle E S now reader opts).findings)
    (hclass : f.findingClass.isCoverage = true) :
    ∃ s ∈ (anchoredState E S now reader opts).streams, f ∈ coverageFindings opts s.1 s.2 := by
  have hother : ∀ {fs : List Finding}, Uncovering fs → f ∉ fs := by
    intro fs hfs hf
    rw [hfs f hf] at hclass
    cases hclass
  have hchain : Uncovering (chainPass E S reader).2 := by
    intro g hg
    obtain ⟨sid, -, hg⟩ := mem_chainPass_findings.mp hg
    exact uncovering_chain sid g hg
  rw [findings_verifyBundle] at h
  simp only [List.mem_append] at h
  rcases h with ((((h | h) | h) | h) | h) | h
  · exact absurd h (hother uncovering_container)
  · exact absurd h (hother (uncovering_identity _))
  · exact absurd h (hother hchain)
  · exact absurd h (hother (uncovering_checkpoints _ _))
  · exact absurd h (hother (uncovering_anchors _ _ _))
  · exact List.mem_flatMap.mp h

/-- What is anchored is attested. -/
theorem anchored_subset {s : String × StreamData}
    (h : s ∈ (anchoredState E S now reader opts).streams) :
    s.2.anchoredSeqs ⊆ s.2.attestedSeqs := by
  rw [anchoredState, verifyAnchors_streams, anchorMatched_eq_map] at h
  obtain ⟨t, ht, rfl⟩ := List.mem_map.mp h
  have hunanchored : t.2.anchoredSeqs = ∅ := by
    obtain ⟨data, hdata, -, heq⟩ := checkedStreams_data ht
    rw [heq]
    exact (turns_anchoredSeqs _).trans hdata.anchoredSeqs
  have hattested : ∀ matched, (anchorAll t.1 matched t.2).attestedSeqs = t.2.attestedSeqs := by
    intro matched
    rw [anchorAll_unanchored]
  intro seq hseq
  rw [mem_anchorAll, hunanchored] at hseq
  rcases hseq with hseq | ⟨hseq, -⟩
  · simp at hseq
  · rw [hattested]
    exact hseq

/-- What is attested was collected, and is what some checkpoint of the stream's file attests. -/
theorem attested_final {s : String × StreamData}
    (h : s ∈ (anchoredState E S now reader opts).streams) :
    s.2.attestedSeqs ⊆ s.2.hashesBySeq.keys.toFinset ∧ ∀ seq, seq ∈ s.2.attestedSeqs ↔
      ∃ bc ∈ checkpointsOf S reader s.1, AttestsSeq E s.1 (trustOf E S now reader opts)
        s.2.hashesBySeq bc seq := by
  obtain ⟨-, anchored, hdata⟩ := final_data h
  have hunchecked := verifyStreamChain_unchecked E S reader s.1
  have hhashes : s.2.hashesBySeq = (verifyStreamChain E S reader s.1).1.hashesBySeq := by
    rw [hdata]
    exact hashes_checkedData
  have hattested : s.2.attestedSeqs = ((checkpointsOf S reader s.1).foldl
      (turn E s.1 (trustOf E S now reader opts) (verifyStreamChain E S reader s.1).1.hashesBySeq)
      (verifyStreamChain E S reader s.1).1).attestedSeqs := by
    rw [hdata]
    rfl
  rw [hattested, hhashes]
  refine ⟨attested_subset hunchecked.attestedSeqs, fun seq => ?_⟩
  rw [mem_turns_attestedSeqs, hunchecked.attestedSeqs]
  simp only [Finset.notMem_empty, false_or, attestsSeq_iff]

theorem anchoredRecords_addProven (streams : Streams) (p : Proven) :
    (streams.foldl (fun p s => addProven p s.2) p).anchoredRecords =
      p.anchoredRecords + (streams.map fun s => s.2.anchoredSeqs.card).sum := by
  induction streams generalizing p with
  | nil => simp
  | cons s streams ih =>
    rw [List.foldl_cons, ih]
    simp only [addProven, List.map_cons, List.sum_cons]
    omega

/-- **The counters of a report are nested**, for every bundle: what is anchored is attested, what is
attested was collected, and a stream has an `unattested_tail` finding exactly when one of its
collected records lies in no checkpoint that attests its range. -/
theorem counters_nested (E : Externals) (S : Serde) (now : Int) (reader : BundleReader)
    (opts : VerifyOptions) :
    (∀ s ∈ (anchoredState E S now reader opts).streams,
        s.2.anchoredSeqs ⊆ s.2.attestedSeqs ∧
          s.2.attestedSeqs ⊆ s.2.hashesBySeq.keys.toFinset ∧
          ((∃ f ∈ (verifyBundle E S now reader opts).findings,
              f.findingClass = .unattestedTail ∧ f.streamId = some s.1) ↔
            ∃ seq ∈ s.2.hashesBySeq, ∀ bc ∈ checkpointsOf S reader s.1,
              ¬AttestsSeq E s.1 (trustOf E S now reader opts) s.2.hashesBySeq bc seq)) ∧
      (verifyBundle E S now reader opts).proven.anchoredRecords ≤
        (verifyBundle E S now reader opts).proven.attestedRecords ∧
      (verifyBundle E S now reader opts).proven.attestedRecords ≤
        (verifyBundle E S now reader opts).proven.records := by
  obtain ⟨hrecords, hattested⟩ := foldl_addProven (anchoredState E S now reader opts).streams .default
  have hanchored := anchoredRecords_addProven (anchoredState E S now reader opts).streams .default
  refine ⟨fun s hs => ?_, ?_, ?_⟩
  · obtain ⟨hsub, hmem⟩ := attested_final hs
    refine ⟨anchored_subset hs, hsub, ?_⟩
    have hiff : (∃ seq ∈ s.2.hashesBySeq, ∀ bc ∈ checkpointsOf S reader s.1,
        ¬AttestsSeq E s.1 (trustOf E S now reader opts) s.2.hashesBySeq bc seq) ↔
        ∃ seq ∈ s.2.hashesBySeq, seq ∉ s.2.attestedSeqs := by
      simp only [hmem, not_exists, not_and]
    rw [hiff, ← @exists_unattested_iff s.1 s.2 hsub]
    constructor
    · rintro ⟨f, hf, hclass, hstream⟩
      obtain ⟨t, ht, hcov⟩ := coverage_of_mem hf (by rw [hclass]; rfl)
      have hid : t.1 = s.1 :=
        Option.some.inj ((streamId_of_coverage hcov).symm.trans hstream)
      -- a stream is visited once
      obtain rfl : t = s := List.inj_on_of_nodup_map (fst_anchoredState ▸ chainPass_nodup) ht hs hid
      exact ⟨f, mem_coverageFindings_unattested hcov hclass, hclass⟩
    · rintro ⟨f, hf, hclass⟩
      have hcov : f ∈ coverageFindings opts s.1 s.2 := by
        simp only [coverageFindings, List.mem_append]
        exact .inl (.inl (.inl (.inl (.inl hf))))
      exact ⟨f, mem_findings_of_coverage hs hcov, hclass, streamId_of_coverage hcov⟩
  · change ((anchoredState E S now reader opts).streams.foldl (fun p s => addProven p s.2)
      .default).anchoredRecords ≤ ((anchoredState E S now reader opts).streams.foldl
      (fun p s => addProven p s.2) .default).attestedRecords
    rw [hanchored, hattested]
    exact Nat.add_le_add_left (List.sum_le_sum fun s hs =>
      Finset.card_le_card (anchored_subset hs)) 0
  · change ((anchoredState E S now reader opts).streams.foldl (fun p s => addProven p s.2)
      .default).attestedRecords ≤ ((anchoredState E S now reader opts).streams.foldl
      (fun p s => addProven p s.2) .default).records
    rw [hattested, hrecords]
    refine Nat.add_le_add_left (List.sum_le_sum fun s hs => ?_) 0
    have hle := Finset.card_le_card (attested_final hs).1
    rwa [List.toFinset_card_of_nodup Std.TreeMap.nodup_keys, Std.TreeMap.length_keys] at hle

end Report

end Sealr.Verify
