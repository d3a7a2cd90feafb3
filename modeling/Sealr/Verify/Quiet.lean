import Sealr.Verify.Passes

/-!
# Findings by stream

Which findings name a stream, and what it takes for the checkpoints of a stream to be reported on
without a warning or an error.
-/

namespace Sealr.Verify

open Lib Evidence Bundle

/-! ## The stream a finding names -/

section Named

variable {E : Externals} {S : Serde} {reader : BundleReader} {trust : Identity}
  {streamId : String} {data : StreamData}

theorem verifyStreamChain_named :
    ∀ f ∈ (verifyStreamChain E S reader streamId).2, f.streamId = some streamId := by
  unfold verifyStreamChain
  cases StreamVerifier.new E streamId with
  | error e => simp [addAt]
  | ok verifier =>
    have hlines : ∀ f ∈ (foldLog (onLine E streamId) (chainStart verifier)
        (reader.readStreamRecords E S streamId).1).2, f.streamId = some streamId := by
      refine foldLog_all ?_ _ _
      intro st line
      unfold onLine
      cases E.fromSlice line with
      | error e => simp [addAt]
      | ok value =>
        cases hnext : st.verifier.verifyNext E value with
        | error e => simp [hnext, addAt]
        | ok r => simp [hnext, reportChainFinding, addAt]
    intro f hf
    rcases List.mem_append.mp hf with hf | hf
    · exact hlines f hf
    · split at hf
      · cases hf
      · rw [List.mem_singleton.mp hf]
        rfl

theorem refuse_eq_some {bc : BundleCheckpoint} {f : Finding}
    (h : refuse E streamId trust.certMap trust.revocations bc = some f) :
    f.severity = .error ∧ f.streamId = some streamId ∧ f.findingClass ∈ [.checkpointStreamMismatch,
      .checkpointCertUnknown, .checkpointSignatureInvalid, .checkpointAfterRevocation] := by
  by_cases hstream : bc.checkpoint.note.streamId = streamId
  · cases hcert : trust.certMap[bc.checkpoint.note.recorderCertFingerprint]? with
    | none =>
      simp only [refuse, hstream, ne_eq, not_true_eq_false, ↓reduceIte, hcert,
        Option.some.injEq] at h
      rw [← h]
      exact ⟨rfl, rfl, by simp [addAt]⟩
    | some cert =>
      simp only [refuse, hstream, ne_eq, not_true_eq_false, ↓reduceIte, hcert] at h
      split_ifs at h
      · rw [← Option.some.inj h]
        exact ⟨rfl, rfl, by simp [addAt]⟩
      · rw [← Option.some.inj h]
        exact ⟨rfl, rfl, by simp [addAt]⟩
  · simp only [refuse, hstream, ne_eq, not_false_eq_true, ↓reduceIte, Option.some.injEq] at h
    rw [← h]
    exact ⟨rfl, rfl, by simp [addAt]⟩

theorem mem_forkFindings {ranges : List SeenRange} {note : CheckpointNote} {f : Finding}
    (h : f ∈ forkFindings streamId ranges note) :
    f.severity = .error ∧ f.streamId = some streamId ∧ f.findingClass = .chainForkDetected := by
  obtain ⟨r, -, hr⟩ := List.mem_filterMap.mp h
  split_ifs at hr
  rw [← Option.some.inj hr]
  exact ⟨rfl, rfl, rfl⟩

theorem rootStep_named {bc : BundleCheckpoint} :
    ∀ f ∈ (rootStep E streamId data bc).2.1, f.streamId = some streamId := by
  unfold rootStep
  dsimp only
  split_ifs
  · split <;> simp [addAt]
  · simp [addAt]

theorem countersignatureStep_named {keys : ConsoleKeys} {bc : BundleCheckpoint} :
    ∀ f ∈ (countersignatureStep E streamId keys data bc).2.1, f.streamId = some streamId := by
  unfold countersignatureStep
  dsimp only
  split
  · simp [addAt]
  · split_ifs <;> simp [addAt]

/-- What is reported on a checkpoint from the root recomputation on. -/
theorem signedStep_class {keys : ConsoleKeys} {bc : BundleCheckpoint} :
    ∀ f ∈ (signedStep E streamId keys data bc).2, f.findingClass ∈ [.checkpointRootMismatch,
      .checkpointRangeNotFullyExported, .notCountersigned, .countersignatureUnverifiable,
      .countersignatureInvalid] := by
  have hroot : ∀ f ∈ (rootStep E streamId data bc).2.1, f.findingClass ∈ [.checkpointRootMismatch,
      .checkpointRangeNotFullyExported, .notCountersigned, .countersignatureUnverifiable,
      .countersignatureInvalid] := by
    unfold rootStep
    dsimp only
    split_ifs
    · split <;> simp [addAt]
    · simp [addAt]
  have hcs : ∀ data, ∀ f ∈ (countersignatureStep E streamId keys data bc).2.1,
      f.findingClass ∈ [.checkpointRootMismatch, .checkpointRangeNotFullyExported,
        .notCountersigned, .countersignatureUnverifiable, .countersignatureInvalid] := by
    intro data
    unfold countersignatureStep
    dsimp only
    split
    · simp [addAt]
    · split_ifs <;> simp [addAt]
  intro f hf
  unfold signedStep at hf
  dsimp only at hf
  split_ifs at hf
  · exact (List.mem_append.mp hf).elim (hroot f) (hcs _ f)
  · exact (List.mem_append.mp hf).elim (hroot f) (hcs _ f)
  · exact hroot f hf

theorem verifyCheckpoints_named {cps : List BundleCheckpoint} :
    ∀ f ∈ (verifyCheckpoints E streamId data cps trust.certMap trust.revocations
      trust.consoleKeys).2, f.streamId = some streamId := by
  suffices hloop : ∀ f ∈ (foldLog (checkpointStep E streamId trust.certMap trust.revocations
      trust.consoleKeys) ⟨data, []⟩ cps).2, f.streamId = some streamId from hloop
  refine foldLog_all ?_ _ _
  intro st bc
  unfold checkpointStep
  cases hrefuse : refuse E streamId trust.certMap trust.revocations bc with
  | some f =>
    intro g hg
    rw [List.mem_singleton.mp hg]
    exact (refuse_eq_some hrefuse).2.1
  | none =>
    intro f hf
    rcases List.mem_append.mp hf with hf | hf
    · exact (mem_forkFindings hf).2.1
    · unfold signedStep at hf
      dsimp only at hf
      split_ifs at hf
      · rcases List.mem_append.mp hf with hf | hf
        · exact rootStep_named f hf
        · exact countersignatureStep_named f hf
      · rcases List.mem_append.mp hf with hf | hf
        · exact rootStep_named f hf
        · exact countersignatureStep_named f hf
      · exact rootStep_named f hf

theorem checkpointTurn_named :
    ∀ f ∈ (checkpointTurn E S reader trust (streamId, data)).2, f.streamId = some streamId := by
  unfold checkpointTurn
  cases reader.streamCheckpoints S streamId with
  | error e => simp [addAt]
  | ok file => exact verifyCheckpoints_named

theorem coverageFindings_named {opts : VerifyOptions} :
    ∀ f ∈ coverageFindings opts streamId data, f.streamId = some streamId := by
  intro f hf
  simp only [coverageFindings, List.mem_append] at hf
  rcases hf with ((((hf | hf) | hf) | hf) | hf) | hf
  · unfold unattestedFindings at hf
    dsimp only at hf
    split_ifs at hf
    · rw [List.mem_singleton.mp hf]
      rfl
    · cases hf
  · obtain ⟨l, -, hl⟩ := List.mem_filterMap.mp hf
    split_ifs at hl
    rw [← Option.some.inj hl]
    rfl
  · unfold truncationFindings at hf
    split at hf
    · cases hf
    · split_ifs at hf
      · rw [List.mem_singleton.mp hf]
        rfl
      · cases hf
  · unfold tailFindings at hf
    split_ifs at hf
    · rw [List.mem_singleton.mp hf]
      rfl
    · cases hf
  · unfold gapFindings at hf
    split_ifs at hf
    · rw [List.mem_singleton.mp hf]
      rfl
    · cases hf
  · obtain ⟨seg, -, rfl⟩ := List.mem_map.mp hf
    rfl

theorem containerFindings_unnamed : ∀ f ∈ containerFindings E reader, f.streamId = none := by
  intro f hf
  rcases List.mem_append.mp hf with hf | hf
  · split_ifs at hf
    · rw [List.mem_singleton.mp hf]
      rfl
    · cases hf
  · split at hf
    · obtain ⟨path, -, rfl⟩ := List.mem_map.mp hf
      rfl
    · rw [List.mem_singleton.mp hf]
      rfl

theorem selectRoots_unnamed {opts : VerifyOptions} {roots : Option RootsFile} :
    ∀ f ∈ (selectRoots E opts roots).2, f.streamId = none := by
  unfold selectRoots
  split
  · simp
  · split_ifs
    · simp
    · dsimp only
      split
      · split_ifs <;> simp [add]
      · simp [add]

theorem buildCertMap_unnamed {certsPem : Option String} {rootPems : List String} {nowUnix : Int} :
    ∀ f ∈ (buildCertMap E certsPem rootPems nowUnix).2, f.streamId = none := by
  unfold buildCertMap
  split
  · simp [add]
  · split_ifs
    · simp
    · split
      · simp [add]
      · refine foldLog_all ?_ _ _
        intro map pem
        unfold certStep
        split <;> simp [add]

theorem resolveConsoleKeys_unnamed {opts : VerifyOptions} {roots : Option RootsFile}
    {rootPems : List String} :
    ∀ f ∈ (resolveConsoleKeys E opts roots rootPems).2, f.streamId = none := by
  unfold resolveConsoleKeys
  split
  · split <;> simp [add]
  · split
    · simp
    · refine foldLog_all ?_ _ _
      intro keys entry
      unfold consoleKeyStep
      dsimp only
      split
      · simp [add]
      · split
        · split_ifs <;> simp [add]
        · simp [add]

theorem identityPass_unnamed {nowUnix : Int} {opts : VerifyOptions} :
    ∀ f ∈ (identityPass E S nowUnix reader opts).2, f.streamId = none := by
  intro f hf
  simp only [identityPass, List.mem_append] at hf
  rcases hf with (((hf | hf) | hf) | hf) | hf
  · exact selectRoots_unnamed f hf
  · exact buildCertMap_unnamed f hf
  · exact resolveConsoleKeys_unnamed f hf
  · unfold revocationFindings at hf
    split at hf
    · cases hf
    · dsimp only at hf
      split_ifs at hf
      · rw [List.mem_singleton.mp hf]
        rfl
      · rw [List.mem_singleton.mp hf]
        rfl
      · cases hf
  · split_ifs at hf
    · rw [List.mem_singleton.mp hf]
      rfl
    · cases hf

theorem batchStep_unnamed (st : AnchorState) (batch : AnchorBatch) :
    ∀ f ∈ (batchStep E reader st batch).2, f.streamId = none := by
  unfold batchStep
  cases hcheck : checkBatch E batch with
  | some f =>
    intro g hg
    rw [List.mem_singleton.mp hg]
    unfold checkBatch at hcheck
    split at hcheck
    · rw [← Option.some.inj hcheck]
      rfl
    · split_ifs at hcheck
      rw [← Option.some.inj hcheck]
      rfl
  | none =>
    intro f hf
    rcases List.mem_append.mp hf with hf | hf
    · refine foldLog_all (Q := fun f : Finding => f.streamId = none) ?_ _ _ f hf
      intro matched inc
      unfold inclusionStep
      split
      · simp [add]
      · split
        · simp [add]
        · dsimp only
          split_ifs <;> simp [add]
    · unfold tokenStep batchToken at hf
      split at hf
      · rw [List.mem_singleton.mp hf]
        rfl
      · split at hf
        · cases hf
        · split at hf
          · next heq =>
            rw [List.mem_singleton.mp hf]
            split at heq
            · rw [← Sum.inr.inj heq]
              rfl
            · split at heq
              · rw [← Sum.inr.inj heq]
                rfl
              · cases heq
          · rw [List.mem_singleton.mp hf]
            rfl

theorem qtsStep_unnamed {earliest : Option String} {day : DailyRoot} :
    ∀ f ∈ (qtsStep E reader earliest day).2, f.streamId = none := by
  unfold qtsStep
  split
  · simp
  · split
    · simp
    · split
      · simp [add]
      · split <;> simp [add]

theorem dailyStep_unnamed (keys : ConsoleKeys) (earliest : Option String) (day : DailyRoot) :
    ∀ f ∈ (dailyStep E reader keys earliest day).2, f.streamId = none := by
  unfold dailyStep
  split
  · simp [add]
  · split_ifs
    · simp [add]
    · intro f hf
      rcases List.mem_append.mp hf with hf | hf
      · unfold dailySignatureFindings at hf
        split at hf
        · dsimp only at hf
          split_ifs at hf
          · rw [List.mem_singleton.mp hf]
            rfl
          · cases hf
        · cases hf
      · exact qtsStep_unnamed f hf

theorem verifyAnchors_unnamed {proofs : AnchorProofs} {streams : Streams} {keys : ConsoleKeys} :
    ∀ f ∈ (verifyAnchors E reader proofs streams keys).2, f.streamId = none := by
  intro f hf
  rcases List.mem_append.mp hf with hf | hf
  · exact foldLog_all batchStep_unnamed _ _ f hf
  · exact foldLog_all (dailyStep_unnamed keys) _ _ f hf

end Named

/-! ## Quiet checkpoints -/

/-- Two notes over one range with different roots. -/
def Forked (a b : CheckpointNote) : Prop :=
  (a.seqFrom = b.seqFrom ∧ a.seqTo = b.seqTo) ∧ a.seqFrom ≤ a.seqTo ∧ a.merkleRoot ≠ b.merkleRoot

/-- A checkpoint whose turn reports nothing beyond information, forks apart. -/
structure QuietTurn (E : Externals) (streamId : String) (trust : Identity)
    (hashes : Std.TreeMap UInt64 String) (bc : BundleCheckpoint) : Prop where
  signed : signed E streamId trust bc = true
  stands : rootStands E hashes bc = true
  countersigned : ∀ cs, bc.countersignature = some cs →
    countersigned E trust.consoleKeys cs = true

section Quiet

variable {E : Externals} {streamId : String} {trust : Identity} {data : StreamData}
  {bc : BundleCheckpoint}

theorem countersignatureStep_quiet_iff {keys : ConsoleKeys} :
    (∀ f ∈ (countersignatureStep E streamId keys data bc).2.1, f.severity = .info) ↔
      ∀ cs, bc.countersignature = some cs → countersigned E keys cs = true := by
  unfold countersignatureStep
  dsimp only
  cases bc.countersignature with
  | none => simp [addAt]
  | some cs =>
    by_cases hcs : countersigned E keys cs = true
    · simp [hcs]
    · by_cases hempty : keys.isEmpty = true
      · simp [hcs, hempty, addAt]
      · simp [hcs, hempty, addAt]

/-- What reports are held against: information passes and errors do not. -/
structure Tolerates (P : Finding → Prop) : Prop where
  info : ∀ f, f.severity = .info → P f
  error : ∀ f, f.severity = .error → ¬P f

section Tolerates

variable {P : Finding → Prop}

theorem rootStep_forall_iff (hP : Tolerates P) :
    (∀ f ∈ (rootStep E streamId data bc).2.1, P f) ↔ rootStands E data.hashesBySeq bc = true := by
  rw [← (@rootStep_data E streamId data bc).2]
  have herror : ∀ cls msg, ¬P (addAt .error cls msg streamId none) := fun _ _ => hP.error _ rfl
  have hinfo : ∀ cls msg, P (addAt .info cls msg streamId none) := fun _ _ => hP.info _ rfl
  unfold rootStep
  dsimp only
  split_ifs
  · split <;> simp [herror]
  · simp [hinfo]

/-- From the root recomputation on. -/
theorem signedStep_forall_iff (hP : Tolerates P) {keys : ConsoleKeys} :
    (∀ f ∈ (signedStep E streamId keys data bc).2, P f) ↔
      rootStands E data.hashesBySeq bc = true ∧
        ∀ f ∈ (countersignatureStep E streamId keys (rootStep E streamId data bc).1 bc).2.1,
          P f := by
  have hgo := (@rootStep_data E streamId data bc).2
  have hroot := @rootStep_forall_iff E streamId data bc P hP
  unfold signedStep
  dsimp only
  by_cases hstands : rootStands E data.hashesBySeq bc = true
  · rw [hgo, hstands]
    simp only [↓reduceIte, true_and]
    have hboth : ∀ fs, (∀ f ∈ (rootStep E streamId data bc).2.1 ++ fs, P f) ↔ ∀ f ∈ fs, P f := by
      intro fs
      simp only [List.mem_append, or_imp, forall_and]
      exact ⟨fun h => h.2, fun h => ⟨hroot.mpr hstands, h⟩⟩
    split_ifs
    · exact hboth _
    · exact hboth _
  · have hstop : (rootStep E streamId data bc).2.2 = false := by
      rw [hgo]
      simpa using hstands
    rw [hstop]
    simp only [Bool.false_eq_true, ↓reduceIte]
    rw [hroot]
    exact ⟨fun h => absurd h hstands, fun h => h.1⟩

theorem forkFindings_forall_iff (hP : Tolerates P) {ranges : List SeenRange}
    {note : CheckpointNote} :
    (∀ f ∈ forkFindings streamId ranges note, P f) ↔ forkFindings streamId ranges note = [] := by
  constructor
  · intro h
    apply List.eq_nil_iff_forall_not_mem.mpr
    intro f hf
    exact hP.error f (mem_forkFindings hf).1 (h f hf)
  · intro h f hf
    rw [h] at hf
    cases hf

/-- What a turn reports on a checkpoint. -/
theorem checkpointStep_forall_iff (hP : Tolerates P) (st : CheckpointState) :
    (∀ f ∈ (checkpointStep E streamId trust.certMap trust.revocations trust.consoleKeys st bc).2,
        P f) ↔
      (signed E streamId trust bc = true ∧ rootStands E st.data.hashesBySeq bc = true ∧
        ∀ f ∈ (countersignatureStep E streamId trust.consoleKeys
          (rootStep E streamId st.data bc).1 bc).2.1, P f) ∧
        forkFindings streamId st.ranges bc.checkpoint.note = [] := by
  unfold checkpointStep
  cases hrefuse : refuse E streamId trust.certMap trust.revocations bc with
  | some f =>
    constructor
    · intro h
      exact absurd (h f (List.mem_singleton_self f)) (hP.error f (refuse_eq_some hrefuse).1)
    · intro h
      have hsigned := h.1.1
      simp [signed, hrefuse] at hsigned
  | none =>
    have hsigned : signed E streamId trust bc = true := by simp [signed, hrefuse]
    simp only [List.mem_append, or_imp, forall_and]
    rw [forkFindings_forall_iff hP, signedStep_forall_iff hP, and_comm]
    simp only [hsigned, true_and]

end Tolerates

/-- The range that a turn remembers. -/
def seenRange (bc : BundleCheckpoint) : SeenRange :=
  ⟨bc.checkpoint.note.seqFrom, bc.checkpoint.note.seqTo, bc.checkpoint.note.merkleRoot,
    bc.checkpoint.note.checkpointId⟩

theorem forkFindings_eq_nil {pre : List BundleCheckpoint} :
    forkFindings streamId (pre.map seenRange) bc.checkpoint.note = [] ↔
      ∀ a ∈ pre, ¬Forked a.checkpoint.note bc.checkpoint.note := by
  unfold forkFindings
  rw [List.filterMap_eq_nil_iff]
  simp only [List.mem_map, forall_exists_index, and_imp, forall_apply_eq_imp_iff₂]
  refine forall₂_congr fun a _ => ?_
  have hcond : ((bc.checkpoint.note.seqFrom ≤ (seenRange a).to_ ∧
      (seenRange a).from_ ≤ bc.checkpoint.note.seqTo) ∧
      ((seenRange a).from_ = bc.checkpoint.note.seqFrom ∧
        (seenRange a).to_ = bc.checkpoint.note.seqTo) ∧
      (seenRange a).root ≠ bc.checkpoint.note.merkleRoot) ↔
        Forked a.checkpoint.note bc.checkpoint.note := by
    simp only [Forked, seenRange]
    constructor
    · intro h
      obtain ⟨⟨-, hle⟩, ⟨hfrom, hto⟩, hroot⟩ := h
      exact ⟨⟨hfrom, hto⟩, hto ▸ hle, hroot⟩
    · intro h
      obtain ⟨⟨hfrom, hto⟩, hle, hroot⟩ := h
      exact ⟨⟨hfrom ▸ hle, hto ▸ hle⟩, ⟨hfrom, hto⟩, hroot⟩
  by_cases hfork : Forked a.checkpoint.note bc.checkpoint.note
  · rw [if_pos (hcond.mpr hfork)]
    simp [hfork]
  · rw [if_neg fun h => hfork (hcond.mp h)]
    simp [hfork]

/-- What the loop reports passes exactly when every checkpoint passes on its own, and no two are a
fork. -/
theorem verifyCheckpoints_forall_iff {P : Finding → Prop} (hP : Tolerates P)
    {C : BundleCheckpoint → Prop} (hC : ∀ data bc, (∀ f ∈ (countersignatureStep E streamId
      trust.consoleKeys data bc).2.1, P f) ↔ C bc) {cps : List BundleCheckpoint} :
    (∀ f ∈ (verifyCheckpoints E streamId data cps trust.certMap trust.revocations
        trust.consoleKeys).2, P f) ↔
      (∀ bc ∈ cps, signed E streamId trust bc = true ∧
        rootStands E data.hashesBySeq bc = true ∧ C bc) ∧
        cps.Pairwise fun a b => ¬Forked a.checkpoint.note b.checkpoint.note := by
  -- along the loop, the ranges seen are those of the checkpoints passed
  have hstep : ∀ {pre : List BundleCheckpoint} {bc : BundleCheckpoint} {st : CheckpointState},
      st.ranges = pre.map seenRange → st.data.hashesBySeq = data.hashesBySeq →
      signed E streamId trust bc = true →
      (checkpointStep E streamId trust.certMap trust.revocations trust.consoleKeys st
          bc).1.ranges = (pre ++ [bc]).map seenRange ∧
        (checkpointStep E streamId trust.certMap trust.revocations trust.consoleKeys st
          bc).1.data.hashesBySeq = data.hashesBySeq := by
    intro pre bc st hranges hhashes hsigned
    constructor
    · rw [checkpointStep_ranges st hsigned, hranges, List.map_append]
      rfl
    · rw [checkpointStep_data, turn_hashes, hhashes]
  constructor
  · intro h
    have hrun := foldLog_induction (I := fun pre (st : CheckpointState) =>
      st.ranges = pre.map seenRange ∧ st.data.hashesBySeq = data.hashesBySeq ∧
        (∀ bc ∈ pre, signed E streamId trust bc = true ∧
          rootStands E data.hashesBySeq bc = true ∧ C bc) ∧
        pre.Pairwise fun a b => ¬Forked a.checkpoint.note b.checkpoint.note)
      (s := ⟨data, []⟩) ⟨rfl, rfl, by simp, .nil⟩ ?_ h
    · exact hrun.2.2
    · intro pre bc st hinv _ hpass
      obtain ⟨hranges, hhashes, hclean, hpair⟩ := hinv
      obtain ⟨hturn, hfork⟩ := (checkpointStep_forall_iff hP st).mp hpass
      rw [hhashes, hC] at hturn
      rw [hranges, forkFindings_eq_nil] at hfork
      obtain ⟨hranges', hhashes'⟩ := hstep hranges hhashes hturn.1
      refine ⟨hranges', hhashes', ?_, ?_⟩
      · intro b hb
        rcases List.mem_append.mp hb with hb | hb
        · exact hclean b hb
        · rw [List.mem_singleton.mp hb]
          exact hturn
      · rw [List.pairwise_append]
        refine ⟨hpair, List.pairwise_singleton _ _, ?_⟩
        intro a ha b hb
        rw [List.mem_singleton.mp hb]
        exact hfork a ha
  · intro h
    obtain ⟨hclean, hpair⟩ := h
    refine foldLog_forall (I := fun pre (st : CheckpointState) =>
      st.ranges = pre.map seenRange ∧ st.data.hashesBySeq = data.hashesBySeq) _ ⟨rfl, rfl⟩ ?_
    intro pre bc st hinv hpre
    obtain ⟨hranges, hhashes⟩ := hinv
    have hturn := hclean bc (hpre.subset (by simp))
    refine ⟨hstep hranges hhashes hturn.1, ?_⟩
    rw [checkpointStep_forall_iff hP, hranges, forkFindings_eq_nil, hhashes, hC]
    refine ⟨hturn, ?_⟩
    intro a ha
    have hpair' := hpair.sublist hpre.sublist
    rw [List.pairwise_append] at hpair'
    exact hpair'.2.2 a ha bc (List.mem_singleton_self bc)

/-- **When the checkpoints of a stream are reported on without a warning or an error**: each of
them has a quiet turn, and no two are a fork. -/
theorem verifyCheckpoints_quiet_iff {cps : List BundleCheckpoint} :
    (∀ f ∈ (verifyCheckpoints E streamId data cps trust.certMap trust.revocations
        trust.consoleKeys).2, f.severity = .info) ↔
      (∀ bc ∈ cps, QuietTurn E streamId trust data.hashesBySeq bc) ∧
        cps.Pairwise fun a b => ¬Forked a.checkpoint.note b.checkpoint.note := by
  have hP : Tolerates fun f => f.severity = .info := by
    refine ⟨fun _ h => h, fun f herr hinfo => ?_⟩
    rw [herr] at hinfo
    cases hinfo
  rw [verifyCheckpoints_forall_iff hP fun _ _ => countersignatureStep_quiet_iff]
  refine and_congr_left fun _ => forall₂_congr fun bc _ => ?_
  constructor
  · intro h
    exact ⟨h.1, h.2.1, h.2.2⟩
  · intro h
    exact ⟨h.signed, h.stands, h.countersigned⟩

end Quiet

end Sealr.Verify
