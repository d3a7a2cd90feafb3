import Mathlib.Algebra.BigOperators.Group.Finset.Basic
import Sealr.Verify.Binding
import Sealr.Verify.Engine

/-!
# The passes of the engine over the streams

Which streams the passes visit, what each leaves in their data, and what a report of findings that
are all informational says about each stream.
-/

namespace Sealr.Verify

open Lib Evidence Bundle

section Passes

variable {E : Externals} {S : Serde} {reader : BundleReader} {trust : Identity}
  {streamId : String} {data : StreamData}

/-- The ids of the streams in scope. -/
def scopeIds (reader : BundleReader) : List String := reader.manifest.scope.streams.map (·.streamId)

/-! ## Chains -/

theorem chainPass_lookup (scopes : List StreamScope) (streamId : String) :
    (foldLog (chainStep E S reader) {} scopes).1[streamId]? =
      if streamId ∈ scopes.map (·.streamId) then some (verifyStreamChain E S reader streamId).1
      else none := by
  refine foldLog_invariant (I := fun scopes (perStream : Std.TreeMap String StreamData) =>
    perStream[streamId]? = if streamId ∈ scopes.map (·.streamId) then
      some (verifyStreamChain E S reader streamId).1 else none) scopes ?_ ?_
  · simp
  intro pre scope perStream h _
  simp only [chainStep, Std.TreeMap.getElem?_insert, Std.LawfulEqCmp.compare_eq_iff_eq, h,
    List.map_append, List.map_cons, List.map_nil, List.mem_append, List.mem_singleton]
  by_cases hid : scope.streamId = streamId
  · simp [hid]
  · simp [hid, Ne.symm hid]

/-- The chain pass visits the streams in scope. -/
theorem mem_chainPass : (streamId, data) ∈ (chainPass E S reader).1 ↔
    streamId ∈ scopeIds reader ∧ data = (verifyStreamChain E S reader streamId).1 := by
  have hmem : (streamId, data) ∈ (chainPass E S reader).1 ↔
      (foldLog (chainStep E S reader) {} reader.manifest.scope.streams).1[streamId]? =
        some data := Std.TreeMap.mem_toList_iff_getElem?_eq_some
  rw [hmem, chainPass_lookup]
  change (if streamId ∈ scopeIds reader then _ else _) = _ ↔ _
  by_cases hid : streamId ∈ scopeIds reader
  · rw [if_pos hid, Option.some_inj]
    exact ⟨fun h => ⟨hid, h.symm⟩, fun h => h.2.symm⟩
  · rw [if_neg hid]
    simp [hid]

theorem chainPass_nodup : ((chainPass E S reader).1.map Prod.fst).Nodup := by
  have hkeys : (chainPass E S reader).1.map Prod.fst =
      (foldLog (chainStep E S reader) {} reader.manifest.scope.streams).1.keys :=
    Std.TreeMap.map_fst_toList_eq_keys
  rw [hkeys]
  exact Std.TreeMap.nodup_keys

/-- The chain pass reports on every entry of the scope. -/
theorem mem_chainPass_findings {f : Finding} : f ∈ (chainPass E S reader).2 ↔
    ∃ sid ∈ scopeIds reader, f ∈ (verifyStreamChain E S reader sid).2 := by
  have hall : (chainPass E S reader).2 = reader.manifest.scope.streams.flatMap fun scope =>
      (verifyStreamChain E S reader scope.streamId).2 :=
    @foldLog_reports _ _ _ (chainStep E S reader) _ (fun _ _ => rfl) _ _
  rw [hall, List.mem_flatMap]
  simp only [scopeIds, List.mem_map, exists_exists_and_eq_and]

/-! ## Checkpoints -/

theorem checkpointTurn_fst (s : String × StreamData) :
    (checkpointTurn E S reader trust s).1.1 = s.1 := by
  unfold checkpointTurn
  split <;> rfl

/-- The checkpoints of a stream, none when its file cannot be read. -/
def checkpointsOf (S : Serde) (reader : BundleReader) (streamId : String) :
    List BundleCheckpoint :=
  (reader.streamCheckpoints S streamId).toOption.elim [] (·.checkpoints)

/-- The data of a stream after its chain and its checkpoints. -/
def checkedData (E : Externals) (S : Serde) (reader : BundleReader) (trust : Identity)
    (streamId : String) : StreamData :=
  let chained := (verifyStreamChain E S reader streamId).1
  { (checkpointsOf S reader streamId).foldl (turn E streamId trust chained.hashesBySeq) chained with
    checkpoints := checkpointsOf S reader streamId }

theorem checkpointTurn_data :
    (checkpointTurn E S reader trust (streamId, (verifyStreamChain E S reader streamId).1)).1 =
      (streamId, checkedData E S reader trust streamId) := by
  have hunchecked := verifyStreamChain_unchecked E S reader streamId
  unfold checkpointTurn checkedData checkpointsOf
  cases hfile : reader.streamCheckpoints S streamId with
  | error e =>
    simp only [Except.toOption, Option.elim_none, List.foldl_nil]
    rw [← hunchecked.checkpoints]
  | ok file =>
    simp only [Except.toOption, Option.elim_some]
    rw [verifyCheckpoints_data]

/-- The checkpoint pass leaves the checked data of the streams in scope. -/
theorem mem_checkpointPass {s : String × StreamData} :
    s ∈ (checkpointPass E S reader trust (chainPass E S reader).1).1 ↔
      s.1 ∈ scopeIds reader ∧ s.2 = checkedData E S reader trust s.1 := by
  unfold checkpointPass
  simp only [List.mem_map]
  constructor
  · intro h
    obtain ⟨⟨sid, chained⟩, hmem, rfl⟩ := h
    obtain ⟨hscope, rfl⟩ := mem_chainPass.mp hmem
    rw [checkpointTurn_data]
    exact ⟨hscope, rfl⟩
  · intro h
    refine ⟨(s.1, _), mem_chainPass.mpr ⟨h.1, rfl⟩, ?_⟩
    rw [checkpointTurn_data, ← h.2]

/-- A stream whose checkpoints could not be read is reported with a warning. -/
theorem checkpointTurn_quiet {s : String × StreamData}
    (h : ∀ f ∈ (checkpointTurn E S reader trust s).2, f.severity = .info) :
    ∃ file, reader.streamCheckpoints S s.1 = .ok file ∧
      (checkpointTurn E S reader trust s).1.2 =
        { file.checkpoints.foldl (turn E s.1 trust s.2.hashesBySeq) s.2 with
          checkpoints := file.checkpoints } := by
  unfold checkpointTurn at h ⊢
  cases hfile : reader.streamCheckpoints S s.1 with
  | error e =>
    rw [hfile] at h
    exact absurd (h _ List.mem_cons_self) (by simp [addAt])
  | ok file => exact ⟨file, rfl, by rw [← verifyCheckpoints_data]⟩

/-! ## Anchors -/

/-- Stream data up to what is anchored. -/
def StreamData.unanchored (data : StreamData) : StreamData := { data with anchoredSeqs := ∅ }

/-- The streams up to what is anchored. -/
def unanchored (streams : Streams) : Streams := streams.map fun s => (s.1, s.2.unanchored)

theorem unanchored_modifyStream (streamId cpId : String) (streams : Streams) :
    unanchored (modifyStream streamId (anchorRange cpId) streams) = unanchored streams := by
  simp only [unanchored, modifyStream, List.map_map]
  refine List.map_congr_left fun s _ => ?_
  simp only [Function.comp]
  split_ifs
  · unfold anchorRange
    split <;> rfl
  · rfl

theorem unanchored_anchorMatched (matched : List (String × String)) (streams : Streams) :
    unanchored (anchorMatched matched streams) = unanchored streams := by
  unfold anchorMatched
  induction matched generalizing streams with
  | nil => rfl
  | cons m matched ih => rw [List.foldl_cons, ih, unanchored_modifyStream]

theorem unanchored_batchStep (st : AnchorState) (batch : AnchorBatch) :
    unanchored (batchStep E reader st batch).1.streams = unanchored st.streams := by
  unfold batchStep
  split
  · rfl
  · dsimp only
    unfold tokenStep
    split
    · rfl
    · split
      · rfl
      · split
        · rfl
        · exact unanchored_anchorMatched _ _

/-- Anchors change nothing but what is anchored. -/
theorem unanchored_verifyAnchors (proofs : AnchorProofs) (streams : Streams)
    (keys : ConsoleKeys) :
    unanchored (verifyAnchors E reader proofs streams keys).1.streams = unanchored streams := by
  refine foldLog_invariant (I := fun _ (st : AnchorState) =>
    unanchored st.streams = unanchored streams) proofs.batches rfl ?_
  intro _ batch st h _
  rw [unanchored_batchStep, h]

end Passes

end Sealr.Verify
