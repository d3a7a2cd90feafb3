import Sealr.Verify.Quiet
import Sealr.Verify.Soundness

/-!
# How far a stream has to reach

The end of a hash chain can be cut. Three things bound the extent of a stream from outside: a mark
pinned in the options, a mark that the Console countersigned, and the warning that neither is there.
Each is looked at while the streams in scope are visited.
-/

namespace Sealr.Verify

open Lib Evidence Bundle

/-- Every record that the bundle yields for the stream comes before `hw`. -/
def Unreached (E : Externals) (S : Serde) (reader : BundleReader) (streamId : String)
    (hw : UInt64) : Prop :=
  ∀ line ∈ (reader.readStreamRecords E S streamId).1, ∀ v, E.fromSlice line = .ok v →
    ∀ s, seqOf v = some s → s < hw

section Final

variable {E : Externals} {S : Serde} {now : Int} {reader : BundleReader} {opts : VerifyOptions}
  {streamId : String}

/-- The numbers that the chain pass collects are those of record lines. -/
theorem exists_line_of_mem {s : UInt64}
    (h : s ∈ (verifyStreamChain E S reader streamId).1.hashesBySeq) :
    ∃ line ∈ (reader.readStreamRecords E S streamId).1, ∃ v, E.fromSlice line = .ok v ∧
      seqOf v = some s := by
  unfold verifyStreamChain at h
  cases hnew : StreamVerifier.new E streamId with
  | error e => simp [hnew, StreamData.default] at h
  | ok verifier =>
    simp only [hnew] at h
    have hrun := @foldLog_invariant _ _ _ (onLine E streamId) (fun pre (st : ChainState) =>
      ∀ s ∈ st.data.hashesBySeq, ∃ line ∈ pre, ∃ v, E.fromSlice line = .ok v ∧ seqOf v = some s)
      (chainStart verifier) (reader.readStreamRecords E S streamId).1 ?_ ?_
    · exact hrun s h
    · simp [chainStart, StreamData.default]
    · intro pre line st hinv _ s hs
      have hold : s ∈ st.data.hashesBySeq → ∃ l ∈ pre ++ [line], ∃ v, E.fromSlice l = .ok v ∧
          seqOf v = some s := by
        intro hmem
        obtain ⟨l, hl, hv⟩ := hinv s hmem
        exact ⟨l, List.mem_append_left _ hl, hv⟩
      unfold onLine at hs
      cases hparse : E.fromSlice line with
      | error e =>
        simp only [hparse] at hs
        exact hold hs
      | ok value =>
        cases hnext : st.verifier.verifyNext E value with
        | error e =>
          simp only [hparse, hnext] at hs
          exact hold hs
        | ok r =>
          obtain ⟨findings, advanced⟩ := r
          simp only [hparse, hnext] at hs
          obtain ⟨view, -, hview, -⟩ := StreamVerifier.verifyNext_eq_ok.mp hnext
          rw [collect_hashes hview, Std.TreeMap.mem_insert,
            Std.LawfulEqCmp.compare_eq_iff_eq] at hs
          rcases hs with hs | hs
          · refine ⟨line, by simp, value, hparse, ?_⟩
            rw [← hs]
            exact hview.seq
          · exact hold hs

/-- A stream of the final state is in scope and has its checked data, up to what is anchored. -/
theorem final_data {s : String × StreamData} (hs : s ∈ (anchoredState E S now reader opts).streams) :
    s.1 ∈ scopeIds reader ∧ ∃ anchored, s.2 =
      { checkedData E S reader (trustOf E S now reader opts) s.1 with anchoredSeqs := anchored } := by
  obtain ⟨t, ht, hid, hdata⟩ := mem_anchoredState hs
  obtain ⟨hscope, hchecked⟩ := mem_checkpointPass.mp ht
  rw [hid] at hscope hchecked
  refine ⟨hscope, s.2.anchoredSeqs, ?_⟩
  have hself : s.2 = { s.2.unanchored with anchoredSeqs := s.2.anchoredSeqs } := rfl
  rw [hself, ← hdata, hchecked]
  rfl

theorem exists_final (h : streamId ∈ scopeIds reader) :
    ∃ anchored, (streamId, { checkedData E S reader (trustOf E S now reader opts) streamId with
      anchoredSeqs := anchored }) ∈ (anchoredState E S now reader opts).streams := by
  have hmem : streamId ∈ (anchoredState E S now reader opts).streams.map Prod.fst :=
    mem_fst_anchoredState.mpr h
  obtain ⟨⟨sid, data⟩, hs, rfl⟩ := List.mem_map.mp hmem
  obtain ⟨-, anchored, hdata⟩ := final_data hs
  exact ⟨anchored, hdata ▸ hs⟩

theorem hashes_checkedData {trust : Identity} :
    (checkedData E S reader trust streamId).hashesBySeq =
      (verifyStreamChain E S reader streamId).1.hashesBySeq :=
  turns_hashes _

theorem mem_findings_of_coverage {data : StreamData} {f : Finding}
    (hs : (streamId, data) ∈ (anchoredState E S now reader opts).streams)
    (hf : f ∈ coverageFindings opts streamId data) :
    f ∈ (verifyBundle E S now reader opts).findings := by
  rw [findings_verifyBundle]
  apply List.mem_append_right
  exact List.mem_flatMap.mpr ⟨_, hs, hf⟩

end Final

/-! ## Pins -/

section Pins

variable {E : Externals} {S : Serde} {now : Int} {reader : BundleReader} {opts : VerifyOptions}
  {streamId : String} {hw : UInt64}

theorem le_maxExtent (a : UInt64) (b : Option UInt64) : ∃ m, maxExtent (some a) b = some m ∧ a ≤ m := by
  cases b with
  | none => exact ⟨a, rfl, UInt64.le_refl a⟩
  | some b =>
    refine ⟨max a b, rfl, ?_⟩
    rw [UInt64.max_def]
    split_ifs with hle
    · exact hle
    · exact UInt64.le_refl a

/-- A pin that the records do not reach is an error, for a stream that is visited. -/
theorem truncationFindings_of_pin {data : StreamData}
    (h : ∀ s ∈ data.hashesBySeq, s < hw) :
    ∃ f ∈ truncationFindings (some hw) streamId data, f.severity = .error := by
  obtain ⟨m, hm, hle⟩ := le_maxExtent hw data.countersignedHighWater
  have hshort : (maxPresent data).all (fun s => decide (s < m)) = true := by
    cases hmax : maxPresent data with
    | none => rfl
    | some s =>
      have hmem : s ∈ data.hashesBySeq := by
        rw [← Std.TreeMap.mem_keys]
        exact List.mem_of_getLast? hmax
      have hlt : s < m := UInt64.lt_of_lt_of_le (h s hmem) hle
      simpa using hlt
  unfold truncationFindings
  rw [hm]
  simp only [hshort, ↓reduceIte]
  exact ⟨_, List.mem_singleton_self _, rfl⟩

theorem fail_of_unreached (hscope : streamId ∈ scopeIds reader)
    (hpin : opts.expectedHighWater streamId = some hw) (hshort : Unreached E S reader streamId hw) :
    (verifyBundle E S now reader opts).result = .fail := by
  obtain ⟨anchored, hs⟩ := @exists_final E S now reader opts streamId hscope
  have hbefore : ∀ s ∈ (checkedData E S reader (trustOf E S now reader opts) streamId).hashesBySeq,
      s < hw := by
    intro s hmem
    rw [hashes_checkedData] at hmem
    obtain ⟨line, hline, v, hv, hseq⟩ := exists_line_of_mem hmem
    exact hshort line hline v hv s hseq
  obtain ⟨f, hf, herr⟩ := @truncationFindings_of_pin streamId hw
    { checkedData E S reader (trustOf E S now reader opts) streamId with anchoredSeqs := anchored }
    hbefore
  rw [result_verifyBundle, computeResult_eq_fail]
  refine ⟨f, mem_findings_of_coverage hs ?_, herr⟩
  simp [coverageFindings, hpin, hf]

end Pins

/-! A pin for a stream that the manifest leaves out of scope. -/

namespace Sample

def absentStream : String := "000000002D000000000000002F"

end Sample

/-- Nothing is left of a stream but checkpoints that no record contradicts: it is read to its end
without a line, and its checkpoint file holds only checkpoints that are signed, not forked, linked
to one another and wherever countersigned, verified. -/
structure Vanished (E : Externals) (S : Serde) (reader : BundleReader) (trust : Identity)
    (streamId : String) : Prop where
  valid : ∃ verifier, StreamVerifier.new E streamId = .ok verifier
  empty : reader.readStreamRecords E S streamId = ([], none)
  file : ∃ file, reader.streamCheckpoints S streamId = .ok file
  quiet : ∀ bc ∈ checkpointsOf S reader streamId, QuietTurn E streamId trust {} bc
  unforked : (checkpointsOf S reader streamId).Pairwise fun a b =>
    ¬Forked a.checkpoint.note b.checkpoint.note
  linked : ∀ bc ∈ checkpointsOf S reader streamId, ∀ prev,
    bc.checkpoint.note.prevCheckpointHash = some prev →
      ∃ bc' ∈ checkpointsOf S reader streamId,
        prev = hexEncode (noteDigest E bc'.checkpoint.note).toList

section Floor

variable {E : Externals} {S : Serde} {now : Int} {reader : BundleReader} {opts : VerifyOptions}
  {streamId : String} {trust : Identity} {data : StreamData}

theorem QuietTurn.accepts {hashes : Std.TreeMap UInt64 String} {bc : BundleCheckpoint}
    (h : QuietTurn E streamId trust hashes bc) : accepts E streamId trust hashes bc = true := by
  unfold Verify.accepts
  rw [h.signed, h.stands, Bool.true_and, Bool.true_and, Option.all_eq_true]
  intro cs hcs
  rw [h.countersigned cs hcs, Bool.true_or]

/-- The checkpoint pass on one stream is quiet when its file is read and its checkpoints are. -/
theorem checkpointTurn_quiet_iff :
    (∀ f ∈ (checkpointTurn E S reader trust (streamId, data)).2, f.severity = .info) ↔
      (∃ file, reader.streamCheckpoints S streamId = .ok file) ∧
        (∀ bc ∈ checkpointsOf S reader streamId, QuietTurn E streamId trust data.hashesBySeq bc) ∧
        (checkpointsOf S reader streamId).Pairwise fun a b =>
          ¬Forked a.checkpoint.note b.checkpoint.note := by
  unfold checkpointTurn checkpointsOf
  cases hfile : reader.streamCheckpoints S streamId with
  | error e => simp [addAt]
  | ok file =>
    simp only [Except.toOption, Option.elim_some, Except.ok.injEq, exists_eq', true_and]
    exact verifyCheckpoints_quiet_iff

/-- The chain pass is quiet on a stream with no records only when there was nothing to read. -/
theorem verifyStreamChain_empty_iff :
    ((∀ f ∈ (verifyStreamChain E S reader streamId).2, f.severity = .info) ∧
        (verifyStreamChain E S reader streamId).1.hashesBySeq.size = 0) ↔
      (∃ verifier, StreamVerifier.new E streamId = .ok verifier) ∧
        reader.readStreamRecords E S streamId = ([], none) := by
  constructor
  · intro h
    obtain ⟨hinfo, hsize⟩ := h
    obtain ⟨hparses, -, -, hholds⟩ := verifyStreamChain_quiet (fun f hf => by simp [hf]) hinfo
    rw [hholds.size, length_recordValues hparses] at hsize
    have hlines := List.eq_nil_of_length_eq_zero hsize
    unfold verifyStreamChain at hinfo
    cases hnew : StreamVerifier.new E streamId with
    | error e => simp [hnew, addAt] at hinfo
    | ok verifier =>
      refine ⟨⟨verifier, rfl⟩, ?_⟩
      cases herr : (reader.readStreamRecords E S streamId).2 with
      | none => exact Prod.ext hlines herr
      | some e =>
        simp only [hnew, herr, List.mem_append, List.mem_singleton] at hinfo
        cases hinfo _ (.inr rfl)
  · intro h
    obtain ⟨⟨verifier, hnew⟩, hread⟩ := h
    simp [verifyStreamChain, hnew, hread, foldLog, chainStart, StreamData.default]

theorem linkChainFindings_quiet_iff :
    (∀ f ∈ linkChainFindings streamId data, f.severity = .info) ↔
      ∀ l ∈ data.checkpointLinks, l.2 ∈ data.checkpointNoteHashes := by
  constructor
  · intro h l hl
    by_contra habsent
    simp only [linkChainFindings, List.mem_filterMap, forall_exists_index, and_imp] at h
    cases h _ l hl (if_neg habsent)
  · intro h f hf
    obtain ⟨l, hl, hfound⟩ := List.mem_filterMap.mp hf
    rw [if_pos (h l hl)] at hfound
    cases hfound

/-- Links are resolved when every checkpoint that is accepted links to one that is. -/
theorem links_resolved_iff
    (hacc : ∀ bc ∈ checkpointsOf S reader streamId, accepts E streamId trust
      (verifyStreamChain E S reader streamId).1.hashesBySeq bc = true) :
    (∀ l ∈ (checkedData E S reader trust streamId).checkpointLinks,
        l.2 ∈ (checkedData E S reader trust streamId).checkpointNoteHashes) ↔
      ∀ bc ∈ checkpointsOf S reader streamId, ∀ prev,
        bc.checkpoint.note.prevCheckpointHash = some prev →
          ∃ bc' ∈ checkpointsOf S reader streamId,
            prev = hexEncode (noteDigest E bc'.checkpoint.note).toList := by
  have hunchecked := verifyStreamChain_unchecked E S reader streamId
  have hlinks : (checkedData E S reader trust streamId).checkpointLinks =
      (checkpointsOf S reader streamId).flatMap fun bc =>
        (bc.checkpoint.note.prevCheckpointHash.map
          (bc.checkpoint.note.checkpointId, ·)).toList := by
    refine (turns_links _).trans ?_
    rw [hunchecked.checkpointLinks, List.nil_append, List.filter_eq_self.mpr hacc]
  have hhashes : ∀ x, x ∈ (checkedData E S reader trust streamId).checkpointNoteHashes ↔
      ∃ bc ∈ checkpointsOf S reader streamId,
        x = hexEncode (noteDigest E bc.checkpoint.note).toList := by
    intro x
    refine (mem_turns_noteHashes _).trans ?_
    rw [hunchecked.checkpointNoteHashes]
    constructor
    · intro h
      rcases h with h | ⟨bc, hbc, -, hx⟩
      · simp at h
      · exact ⟨bc, hbc, hx⟩
    · intro h
      obtain ⟨bc, hbc, hx⟩ := h
      exact .inr ⟨bc, hbc, hacc bc hbc, hx⟩
  simp only [hlinks, hhashes, List.mem_flatMap, Option.mem_toList, Option.map_eq_some_iff]
  constructor
  · intro h bc hbc prev hprev
    exact h _ ⟨bc, hbc, prev, hprev, rfl⟩
  · intro h l hl
    obtain ⟨bc, hbc, prev, hprev, rfl⟩ := hl
    exact h bc hbc prev hprev

/-- What the engine reports on a stream, pass by pass. -/
theorem mem_findings_of_stream {f : Finding}
    (hf : f ∈ (verifyBundle E S now reader opts).findings) (hid : f.streamId = some streamId) :
    streamId ∈ scopeIds reader ∧
      (f ∈ (verifyStreamChain E S reader streamId).2 ∨
        f ∈ (checkpointTurn E S reader (trustOf E S now reader opts)
          (streamId, (verifyStreamChain E S reader streamId).1)).2 ∨
        ∃ anchored, f ∈ coverageFindings opts streamId
          { checkedData E S reader (trustOf E S now reader opts) streamId with
            anchoredSeqs := anchored }) := by
  -- findings of the other passes name no stream
  have hsome : f.streamId ≠ none := by simp [hid]
  rw [findings_verifyBundle] at hf
  simp only [List.mem_append] at hf
  rcases hf with ((((hf | hf) | hf) | hf) | hf) | hf
  · exact absurd (containerFindings_unnamed f hf) hsome
  · exact absurd (identityPass_unnamed f hf) hsome
  · obtain ⟨sid, hsid, hf⟩ := mem_chainPass_findings.mp hf
    obtain rfl : sid = streamId := Option.some.inj ((verifyStreamChain_named f hf).symm.trans hid)
    exact ⟨hsid, .inl hf⟩
  · obtain ⟨⟨sid, chained⟩, hmem, hf⟩ := List.mem_flatMap.mp hf
    obtain ⟨hsid, rfl⟩ := mem_chainPass.mp hmem
    obtain rfl : sid = streamId := Option.some.inj ((checkpointTurn_named f hf).symm.trans hid)
    exact ⟨hsid, .inr (.inl hf)⟩
  · exact absurd (verifyAnchors_unnamed f hf) hsome
  · obtain ⟨⟨sid, data⟩, hmem, hf⟩ := List.mem_flatMap.mp hf
    obtain rfl : sid = streamId := Option.some.inj ((coverageFindings_named f hf).symm.trans hid)
    obtain ⟨hsid, anchored, hdata⟩ := final_data hmem
    exact ⟨hsid, .inr (.inr ⟨anchored, hdata ▸ hf⟩)⟩

/-- Without a pin and a countersigned mark, the coverage of a stream is quiet only when it has no
records and no gaps, and its links are resolved. -/
theorem coverageFindings_quiet (hpin : opts.expectedHighWater streamId = none)
    (hfloor : data.countersignedHighWater = none) (hsize : data.hashesBySeq.size = 0)
    (hgaps : data.coverageGapCount = 0)
    (hlinks : ∀ l ∈ data.checkpointLinks, l.2 ∈ data.checkpointNoteHashes) :
    ∀ f ∈ coverageFindings opts streamId data, f.severity = .info := by
  intro f hf
  simp only [coverageFindings, List.mem_append] at hf
  rcases hf with ((((hf | hf) | hf) | hf) | hf) | hf
  · simp [unattestedFindings, hsize] at hf
  · exact linkChainFindings_quiet_iff.mpr hlinks f hf
  · simp [truncationFindings, hpin, hfloor, maxExtent] at hf
  · simp [tailFindings, hsize] at hf
  · simp [gapFindings, hgaps] at hf
  · obtain ⟨seg, -, rfl⟩ := List.mem_map.mp hf
    rfl

/-- No countersignature that is taken asserts a high-water mark. -/
def NoCountersignedFloor (E : Externals) (S : Serde) (reader : BundleReader) (trust : Identity)
    (streamId : String) : Prop :=
  ∀ p ∈ takenCountersignatures E streamId trust
    (verifyStreamChain E S reader streamId).1.hashesBySeq (checkpointsOf S reader streamId),
    p.2.note.streamHighWaterSeq = none

theorem highWater_checkedData (h : NoCountersignedFloor E S reader trust streamId) :
    (checkedData E S reader trust streamId).countersignedHighWater = none := by
  have hmarks : (takenCountersignatures E streamId trust
      (verifyStreamChain E S reader streamId).1.hashesBySeq
      (checkpointsOf S reader streamId)).filterMap (·.2.note.streamHighWaterSeq) = [] :=
    List.filterMap_eq_nil_iff.mpr h
  refine (turns_highWater _).trans ?_
  rw [hmarks]
  exact (verifyStreamChain_unchecked E S reader streamId).countersignedHighWater

theorem quiet_of_vanished (hpin : opts.expectedHighWater streamId = none)
    (hfloor : NoCountersignedFloor E S reader (trustOf E S now reader opts) streamId)
    (h : Vanished E S reader (trustOf E S now reader opts) streamId) {f : Finding}
    (hf : f ∈ (verifyBundle E S now reader opts).findings) (hid : f.streamId = some streamId) :
    f.severity = .info := by
  obtain ⟨hinfo, hsize⟩ := verifyStreamChain_empty_iff.mpr ⟨h.valid, h.empty⟩
  have hnone : (verifyStreamChain E S reader streamId).1.hashesBySeq = {} ∧
      (verifyStreamChain E S reader streamId).1.coverageGapCount = 0 := by
    obtain ⟨verifier, hnew⟩ := h.valid
    simp [verifyStreamChain, hnew, h.empty, foldLog, chainStart, StreamData.default]
  obtain ⟨-, hchain | hcheck | ⟨anchored, hcover⟩⟩ := mem_findings_of_stream hf hid
  · exact hinfo f hchain
  · refine checkpointTurn_quiet_iff.mpr ⟨h.file, ?_, h.unforked⟩ f hcheck
    rw [hnone.1]
    exact h.quiet
  · refine coverageFindings_quiet hpin (highWater_checkedData hfloor) ?_ ?_ ?_ f hcover
    · rw [← hsize]
      exact congrArg Std.TreeMap.size hashes_checkedData
    · rw [← hnone.2]
      exact turns_gapCount _
    · refine (links_resolved_iff ?_).mpr h.linked
      intro bc hbc
      rw [hnone.1]
      exact (h.quiet bc hbc).accepts

theorem vanished_of_quiet (hscope : streamId ∈ scopeIds reader)
    (hpin : opts.expectedHighWater streamId = none)
    (hfloor : NoCountersignedFloor E S reader (trustOf E S now reader opts) streamId)
    (h : ∀ f ∈ (verifyBundle E S now reader opts).findings, f.streamId = some streamId →
      f.severity = .info) :
    Vanished E S reader (trustOf E S now reader opts) streamId := by
  obtain ⟨anchored, hs⟩ := @exists_final E S now reader opts streamId hscope
  have hcover : ∀ f ∈ coverageFindings opts streamId
      { checkedData E S reader (trustOf E S now reader opts) streamId with
        anchoredSeqs := anchored }, f.severity = .info := by
    intro f hf
    exact h f (mem_findings_of_coverage hs hf) (coverageFindings_named f hf)
  have hchain : ∀ f ∈ (verifyStreamChain E S reader streamId).2, f.severity = .info := by
    intro f hf
    refine h f ?_ (verifyStreamChain_named f hf)
    rw [findings_verifyBundle]
    simp only [List.mem_append]
    exact .inl (.inl (.inl (.inr (mem_chainPass_findings.mpr ⟨_, hscope, hf⟩))))
  have hcheck : ∀ f ∈ (checkpointTurn E S reader (trustOf E S now reader opts)
      (streamId, (verifyStreamChain E S reader streamId).1)).2, f.severity = .info := by
    intro f hf
    refine h f ?_ (checkpointTurn_named f hf)
    rw [findings_verifyBundle]
    simp only [List.mem_append]
    exact .inl (.inl (.inr (List.mem_flatMap.mpr ⟨_, mem_chainPass.mpr ⟨hscope, rfl⟩, hf⟩)))
  -- nothing warns of the missing floor, so there are no records
  have hsize : (verifyStreamChain E S reader streamId).1.hashesBySeq.size = 0 := by
    rw [← @hashes_checkedData E S reader streamId (trustOf E S now reader opts)]
    by_contra hne
    have htail : ∃ f ∈ tailFindings none streamId
        { checkedData E S reader (trustOf E S now reader opts) streamId with
          anchoredSeqs := anchored }, f.severity = .warning := by
      unfold tailFindings
      rw [if_pos ⟨rfl, Nat.pos_of_ne_zero hne, by rw [highWater_checkedData hfloor]; rfl⟩]
      exact ⟨_, List.mem_singleton_self _, rfl⟩
    obtain ⟨f, hf, hwarn⟩ := htail
    have hinfo := hcover f (by simp [coverageFindings, hpin, hf])
    rw [hwarn] at hinfo
    cases hinfo
  obtain ⟨hvalid, hempty⟩ := verifyStreamChain_empty_iff.mp ⟨hchain, hsize⟩
  obtain ⟨hfile, hquiet, hunforked⟩ := checkpointTurn_quiet_iff.mp hcheck
  have hnone : (verifyStreamChain E S reader streamId).1.hashesBySeq = {} := by
    obtain ⟨verifier, hnew⟩ := hvalid
    simp [verifyStreamChain, hnew, hempty, foldLog, chainStart, StreamData.default]
  refine ⟨hvalid, hempty, hfile, hnone ▸ hquiet, hunforked, ?_⟩
  refine (links_resolved_iff fun bc hbc => (hquiet bc hbc).accepts).mp ?_
  apply (@linkChainFindings_quiet_iff streamId
    { checkedData E S reader (trustOf E S now reader opts) streamId with
      anchoredSeqs := anchored }).mp
  intro f hf
  exact hcover f (by simp [coverageFindings, hf])

/-- **When a stream without a floor is reported**: a stream in scope that is neither pinned nor
countersigned gets a warning or an error of its own, and the verdict is not `Pass`, exactly when it
has not vanished. -/
theorem floorless_reported_iff (hscope : streamId ∈ scopeIds reader)
    (hpin : opts.expectedHighWater streamId = none)
    (hfloor : NoCountersignedFloor E S reader (trustOf E S now reader opts) streamId) :
    ((∃ f ∈ (verifyBundle E S now reader opts).findings, f.streamId = some streamId ∧
        f.severity ≠ .info) ∧ (verifyBundle E S now reader opts).result ≠ .pass) ↔
      ¬Vanished E S reader (trustOf E S now reader opts) streamId := by
  constructor
  · intro h hvanished
    obtain ⟨⟨f, hf, hid, hsev⟩, -⟩ := h
    exact hsev (quiet_of_vanished hpin hfloor hvanished hf hid)
  · intro h
    have hexists : ∃ f ∈ (verifyBundle E S now reader opts).findings,
        f.streamId = some streamId ∧ f.severity ≠ .info := by
      by_contra hnone
      push Not at hnone
      exact h (vanished_of_quiet hscope hpin hfloor hnone)
    refine ⟨hexists, ?_⟩
    obtain ⟨f, hf, -, hsev⟩ := hexists
    intro hpass
    exact hsev (computeResult_eq_pass.mp hpass f hf)

end Floor

/-! A bundle whose one stream lost its record and its checkpoint. -/

namespace Sample

open Evidence.Sample

def vanishedIndex : RecordIndex := ⟨[⟨opened.streamId, [], 0, 0, 1⟩]⟩

def vanishedFile : StreamCheckpoints := ⟨opened.streamId, []⟩

def vanishedEntries : List (ZipEntry × String) := [
  (file "records/index.json" (documentBytes vanishedIndex.toJson),
    "e52c343dd611e80aae096d5fe0425feb8116ef510eaea6fb07a10321d6d68a36"),
  (file "checkpoints/000000002D000000000000002D.json" (documentBytes vanishedFile.toJson),
    "e7dcb6e439bab61bce90a330b8a19b4b46aa873aa6e0250383561d98f9483a9f"),
  (file "identity/certs.pem" (asBytes (derToPem leafDer)),
    "c12da398cd2def0b988061f054f722dd209090775516b9afa98e6bbaa3e0c71f"),
  (file "identity/roots.json" (documentBytes roots.toJson),
    "08924c00795b2493026020a117ca2759778d403ba82b4f850f9900019a28be8e")]

def vanished : BundleReader where
  zip := ⟨vanishedEntries.map Prod.fst ++
      [file "manifest.json" (documentBytes (manifestFor vanishedEntries).toJson)],
    by simp [vanishedEntries, file]⟩
  manifest := manifestFor vanishedEntries

def vanishedRecording : Externals.Recording := { bundleRecording with
  blake3 := (leafDer, ofHex fingerprint) :: hashesOf vanishedEntries ++
    [(documentBytes (manifestFor vanishedEntries).toJson,
      ofHex "89bd7b22753d973fb1883cd65af55a83695100601d71e62ddc25996738a13070")] }

def vanishedExternals : Externals := .recorded vanishedRecording

def vanishedDocuments : Documents where
  manifests := [manifestFor vanishedEntries]
  indexes := [vanishedIndex]
  checkpoints := [vanishedFile]
  roots := [roots]

theorem vanished_identity : identityPass vanishedExternals vanishedDocuments.serde 1786453200
    vanished options = (trust, [add .info .rootSource "root source: --root override"]) :=
  identityPass_eq rfl rfl rfl rfl rfl (by decide)
    (identity_eq rfl rfl rfl (by simp only [vanishedDocuments, Documents.serde, readsBack_self]))

theorem vanished_pass :
    (verifyBundle vanishedExternals vanishedDocuments.serde 0 vanished options).result = .pass := by
  rw [result_of_identity vanished_identity rfl]
  decide +kernel

theorem vanished_floorless :
    NoCountersignedFloor vanishedExternals vanishedDocuments.serde vanished
      (trustOf vanishedExternals vanishedDocuments.serde 0 vanished options) opened.streamId := by
  have hnone : checkpointsOf vanishedDocuments.serde vanished opened.streamId = [] := by
    decide
  intro p hp
  rw [hnone] at hp
  cases hp

end Sample

theorem vanished_unreported :
    Evidence.Sample.opened.streamId ∈ scopeIds Sample.vanished ∧
      Sample.options.expectedHighWater Evidence.Sample.opened.streamId = none ∧
      NoCountersignedFloor Sample.vanishedExternals Sample.vanishedDocuments.serde Sample.vanished
        (trustOf Sample.vanishedExternals Sample.vanishedDocuments.serde 0 Sample.vanished
          Sample.options) Evidence.Sample.opened.streamId ∧
      ¬((∃ f ∈ (verifyBundle Sample.vanishedExternals Sample.vanishedDocuments.serde 0
            Sample.vanished Sample.options).findings,
            f.streamId = some Evidence.Sample.opened.streamId ∧ f.severity ≠ .info) ∧
          (verifyBundle Sample.vanishedExternals Sample.vanishedDocuments.serde 0 Sample.vanished
            Sample.options).result ≠ .pass) := by
  refine ⟨List.mem_singleton_self _, rfl, Sample.vanished_floorless, ?_⟩
  intro h
  exact h.2 Sample.vanished_pass

theorem floorless_reported_vanished :
    Vanished Sample.vanishedExternals Sample.vanishedDocuments.serde Sample.vanished
      (trustOf Sample.vanishedExternals Sample.vanishedDocuments.serde 0 Sample.vanished
        Sample.options) Evidence.Sample.opened.streamId := by
  have hscope : Evidence.Sample.opened.streamId ∈ scopeIds Sample.vanished :=
    List.mem_singleton_self _
  have hiff := floorless_reported_iff hscope rfl Sample.vanished_floorless
  by_contra h
  exact (hiff.mpr h).2 Sample.vanished_pass

end Sealr.Verify
