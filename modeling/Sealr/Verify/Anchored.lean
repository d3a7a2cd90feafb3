import Mathlib.Data.Finset.Max
import Mathlib.Data.String.Basic
import Sealr.Verify.Soundness

/-!
# What is anchored, and since when

Which tokens verify, which checkpoints a batch matches, and what the two loops of `verify_anchors`
leave: the anchored numbers of every stream and the earliest time. Then two conditions, each exact:
when every anchored record is anchored through a verified root, and when the earliest anchor covers
exported evidence.
-/

namespace Sealr.Verify

open Lib Evidence Bundle

/-! ## Tokens and matches -/

/-- The token of a batch, when the batch gets as far and the token verifies. -/
def verifiedBatchToken (E : Externals) (reader : BundleReader) (batch : AnchorBatch) :
    Option VerifiedToken :=
  match checkBatch E batch, batch.tsrFile, hexDecodeDigest E "root_sha256" batch.rootSha256 with
  | none, some path, .ok sha => (batchToken E reader batch sha path).getLeft?
  | _, _, _ => none

/-- The token of a daily root, when the root is the recomputed one and the token verifies. -/
def verifiedDailyToken (E : Externals) (reader : BundleReader) (day : DailyRoot) :
    Option VerifiedToken := do
  let leaves ← (decodeBatchRoots E day.batchRoots).toOption
  guard (hexEncode (merkleRoot E (leaves.map List.Vector.toList)).toList = day.rootBlake3)
  let qts ← day.qtsFile
  let rootRaw ← (hexDecodeDigest E "daily.root_blake3" day.rootBlake3).toOption
  let bytes ← (reader.entryBytes qts).toOption
  (verifyToken E bytes (sha256Raw E rootRaw.toList)).toOption

/-- The stream and checkpoint that an inclusion matches. -/
def inclusionMatch (E : Externals) (streams : Streams) (batch : AnchorBatch)
    (inc : CheckpointInclusion) : Option (String × String) :=
  match verifyStoredInclusion E inc batch.rootBlake3 with
  | .error _ => none
  | .ok _ =>
    match streams.findSome? fun s => (s.2.checkpointDigests[inc.checkpointId]?).map fun d => (s.1, d)
      with
    | none => none
    | some (streamId, digest) =>
      if (hexDecodeDigest E "inclusion.leaf" inc.leaf).toOption.getD (.replicate 32 0) = digest then
        some (streamId, inc.checkpointId)
      else none

/-- The streams and checkpoints matched in a batch. -/
def batchMatches (E : Externals) (streams : Streams) (batch : AnchorBatch) :
    List (String × String) :=
  batch.checkpoints.filterMap (inclusionMatch E streams batch)

section Steps

variable {E : Externals} {reader : BundleReader} {streams : Streams}

theorem inclusionStep_fst (batch : AnchorBatch) (matched : List (String × String))
    (inc : CheckpointInclusion) :
    (inclusionStep E streams batch matched inc).1 =
      matched ++ (inclusionMatch E streams batch inc).toList := by
  unfold inclusionStep inclusionMatch
  cases verifyStoredInclusion E inc batch.rootBlake3 with
  | error e => exact (List.append_nil matched).symm
  | ok u =>
    dsimp only
    cases streams.findSome? fun s =>
        (s.2.checkpointDigests[inc.checkpointId]?).map fun d => (s.1, d) with
    | none => exact (List.append_nil matched).symm
    | some found =>
      dsimp only
      split_ifs
      · rfl
      · exact (List.append_nil matched).symm

theorem foldLog_inclusionStep (batch : AnchorBatch) :
    (foldLog (inclusionStep E streams batch) [] batch.checkpoints).1 =
      batchMatches E streams batch := by
  refine foldLog_invariant (I := fun incs (matched : List (String × String)) =>
    matched = incs.filterMap (inclusionMatch E streams batch)) batch.checkpoints rfl ?_
  intro pre inc matched h _
  rw [inclusionStep_fst, h, List.filterMap_append]
  cases hmatch : inclusionMatch E streams batch inc <;> simp [hmatch]

/-- One turn over a batch: only a token that verifies changes anything. -/
theorem batchStep_fst (st : AnchorState) (batch : AnchorBatch) :
    (batchStep E reader st batch).1 = match verifiedBatchToken E reader batch with
      | none => st
      | some token => ⟨lowerEarliest st.earliest token.genTime,
          anchorMatched (batchMatches E st.streams batch) st.streams⟩ := by
  unfold batchStep verifiedBatchToken
  cases checkBatch E batch with
  | some f => rfl
  | none =>
    dsimp only
    unfold tokenStep
    cases batch.tsrFile with
    | none => rfl
    | some path =>
      dsimp only
      cases hexDecodeDigest E "root_sha256" batch.rootSha256 with
      | error e => rfl
      | ok sha =>
        dsimp only
        cases batchToken E reader batch sha path with
        | inr f => rfl
        | inl token =>
          rw [foldLog_inclusionStep]
          rfl

theorem dailyStep_fst (keys : ConsoleKeys) (earliest : Option String) (day : DailyRoot) :
    (dailyStep E reader keys earliest day).1 = match verifiedDailyToken E reader day with
      | none => earliest
      | some token => lowerEarliest earliest token.genTime := by
  unfold dailyStep verifiedDailyToken
  cases decodeBatchRoots E day.batchRoots with
  | error e => rfl
  | ok leaves =>
    simp only [Except.toOption, Option.bind_eq_bind, Option.bind_some]
    by_cases hroot : hexEncode (merkleRoot E (leaves.map List.Vector.toList)).toList =
        day.rootBlake3
    · simp only [hroot, ne_eq, not_true_eq_false, ↓reduceIte, guard_true, pure, Option.bind_some]
      unfold qtsStep
      cases day.qtsFile with
      | none => rfl
      | some qts =>
        simp only [Option.bind_some]
        cases hexDecodeDigest E "daily.root_blake3" day.rootBlake3 with
        | error e => rfl
        | ok rootRaw =>
          simp only [Option.bind_some]
          cases reader.entryBytes qts with
          | error e => rfl
          | ok bytes =>
            simp only [Option.bind_some]
            cases verifyToken E bytes (sha256Raw E rootRaw.toList) <;> rfl
    · simp [hroot, failure]

/-- What a batch matches does not depend on what is anchored. -/
theorem batchMatches_unanchored (batch : AnchorBatch) :
    batchMatches E (unanchored streams) batch = batchMatches E streams batch := by
  unfold batchMatches inclusionMatch unanchored
  simp only [List.findSome?_map]
  rfl

end Steps

/-! ## The loops -/

/-- The matches of all batches whose token verifies. -/
def allMatches (E : Externals) (reader : BundleReader) (streams : Streams)
    (batches : List AnchorBatch) : List (String × String) :=
  batches.flatMap fun batch =>
    if (verifiedBatchToken E reader batch).isSome then batchMatches E streams batch else []

/-- The times of all tokens that verify. -/
def genTimes (E : Externals) (reader : BundleReader) (proofs : AnchorProofs) : List String :=
  (proofs.batches.filterMap (verifiedBatchToken E reader)).map (·.genTime) ++
    (proofs.daily.filterMap (verifiedDailyToken E reader)).map (·.genTime)

/-- What a list of matches does to the data of one stream. -/
def anchorAll (streamId : String) (matched : List (String × String)) (data : StreamData) :
    StreamData :=
  matched.foldl (fun d m => if m.1 = streamId then anchorRange m.2 d else d) data

section Loops

variable {E : Externals} {reader : BundleReader}

theorem anchorMatched_eq_map (matched : List (String × String)) (streams : Streams) :
    anchorMatched matched streams = streams.map fun s => (s.1, anchorAll s.1 matched s.2) := by
  induction matched generalizing streams with
  | nil => simp [anchorMatched, anchorAll]
  | cons m matched ih =>
    have hcons : anchorMatched (m :: matched) streams =
        anchorMatched matched (modifyStream m.1 (anchorRange m.2) streams) := rfl
    rw [hcons, ih, modifyStream, List.map_map]
    refine List.map_congr_left fun s _ => ?_
    by_cases hid : s.1 = m.1
    · simp [anchorAll, hid]
    · simp [anchorAll, hid, Ne.symm hid]

theorem anchorAll_frame (streamId : String) (matched : List (String × String))
    (data : StreamData) : (anchorAll streamId matched data).checkpoints = data.checkpoints ∧
      (anchorAll streamId matched data).hashesBySeq = data.hashesBySeq := by
  unfold anchorAll
  induction matched generalizing data with
  | nil => exact ⟨rfl, rfl⟩
  | cons m matched ih =>
    rw [List.foldl_cons]
    refine ⟨(ih _).1.trans ?_, (ih _).2.trans ?_⟩
    all_goals
      split_ifs
      · unfold anchorRange
        split <;> rfl
      · rfl

/-- A number is anchored when a matched checkpoint's recorded range holds it and it is attested,
by whichever checkpoint. -/
theorem mem_anchorAll {streamId : String} {matched : List (String × String)} {data : StreamData}
    {seq : UInt64} : seq ∈ (anchorAll streamId matched data).anchoredSeqs ↔
      seq ∈ data.anchoredSeqs ∨ seq ∈ data.attestedSeqs ∧
        ∃ cpId from_ to_, (streamId, cpId) ∈ matched ∧
          data.validCheckpointRanges[cpId]? = some (from_, to_) ∧ from_ ≤ seq ∧ seq ≤ to_ := by
  unfold anchorAll
  induction matched generalizing data with
  | nil => simp
  | cons m matched ih =>
    obtain ⟨sid, cpId⟩ := m
    rw [List.foldl_cons]
    by_cases hid : sid = streamId
    · subst hid
      rw [if_pos rfl, ih]
      unfold anchorRange
      cases hrange : data.validCheckpointRanges[cpId]? with
      | none =>
        refine or_congr_right (and_congr_right fun _ => ?_)
        constructor
        · rintro ⟨id, lo, hi, hmem, hget⟩
          exact ⟨id, lo, hi, List.mem_cons_of_mem _ hmem, hget⟩
        · rintro ⟨id, lo, hi, hmem, hget, hle⟩
          rcases List.mem_cons.mp hmem with heq | hmem
          · rw [(Prod.mk.inj heq).2, hrange] at hget
            cases hget
          · exact ⟨id, lo, hi, hmem, hget, hle⟩
      | some range =>
        obtain ⟨lo, hi⟩ := range
        simp only [Finset.mem_union, Finset.mem_filter, or_assoc]
        refine or_congr_right ?_
        rw [← and_or_left]
        refine and_congr_right fun _ => ?_
        constructor
        · rintro (hle | ⟨id, lo', hi', hmem, hget⟩)
          · exact ⟨cpId, lo, hi, List.mem_cons_self, hrange, hle⟩
          · exact ⟨id, lo', hi', List.mem_cons_of_mem _ hmem, hget⟩
        · rintro ⟨id, lo', hi', hmem, hget, hle⟩
          rcases List.mem_cons.mp hmem with heq | hmem
          · rw [(Prod.mk.inj heq).2, hrange] at hget
            obtain ⟨rfl, rfl⟩ := Prod.mk.inj (Option.some.inj hget)
            exact .inl hle
          · exact .inr ⟨id, lo', hi', hmem, hget, hle⟩
    · rw [if_neg hid, ih]
      refine or_congr_right (and_congr_right fun _ => ?_)
      simp [Ne.symm hid]

theorem batchMatches_congr {streams streams' : Streams}
    (h : unanchored streams = unanchored streams') (batch : AnchorBatch) :
    batchMatches E streams batch = batchMatches E streams' batch := by
  rw [← batchMatches_unanchored, h, batchMatches_unanchored]

/-- **The streams after the batches**: every match of a batch whose token verifies is applied to
the streams as they were. -/
theorem verifyAnchors_streams (proofs : AnchorProofs) (streams : Streams) (keys : ConsoleKeys) :
    (verifyAnchors E reader proofs streams keys).1.streams =
      anchorMatched (allMatches E reader streams proofs.batches) streams := by
  refine foldLog_invariant (I := fun batches (st : AnchorState) =>
    st.streams = anchorMatched (allMatches E reader streams batches) streams) proofs.batches rfl ?_
  intro pre batch st h _
  have hsame : unanchored st.streams = unanchored streams := by
    rw [h, unanchored_anchorMatched]
  rw [batchStep_fst]
  simp only [allMatches, List.flatMap_append, List.flatMap_cons, List.flatMap_nil,
    List.append_nil]
  cases htoken : verifiedBatchToken E reader batch with
  | none => simpa [allMatches] using h
  | some token =>
    simp only [Option.isSome_some, ↓reduceIte, batchMatches_congr hsame]
    rw [h]
    exact (List.foldl_append).symm

/-- **The earliest anchor is the smallest of all times**, whatever the tokens cover. -/
theorem verifyAnchors_earliest (proofs : AnchorProofs) (streams : Streams) (keys : ConsoleKeys) :
    (verifyAnchors E reader proofs streams keys).1.earliest =
      (genTimes E reader proofs).foldl lowerEarliest none := by
  have hbatches : (foldLog (batchStep E reader) ⟨none, streams⟩ proofs.batches).1.earliest =
      ((proofs.batches.filterMap (verifiedBatchToken E reader)).map (·.genTime)).foldl
        lowerEarliest none := by
    refine foldLog_invariant (I := fun batches (st : AnchorState) => st.earliest =
      ((batches.filterMap (verifiedBatchToken E reader)).map (·.genTime)).foldl
        lowerEarliest none) proofs.batches rfl ?_
    intro pre batch st h _
    rw [batchStep_fst, List.filterMap_append]
    cases htoken : verifiedBatchToken E reader batch <;> simp [htoken, h]
  have hdaily : ∀ earliest, (foldLog (dailyStep E reader keys) earliest proofs.daily).1 =
      ((proofs.daily.filterMap (verifiedDailyToken E reader)).map (·.genTime)).foldl
        lowerEarliest earliest := by
    intro earliest
    refine foldLog_invariant (I := fun daily (e : Option String) => e =
      ((daily.filterMap (verifiedDailyToken E reader)).map (·.genTime)).foldl
        lowerEarliest earliest) proofs.daily rfl ?_
    intro pre day e h _
    rw [dailyStep_fst, List.filterMap_append]
    cases htoken : verifiedDailyToken E reader day <;> simp [htoken, h]
  rw [genTimes, List.foldl_append, ← hbatches, ← hdaily]
  rfl

/-- The smallest of some times: one of them, and none is below it. -/
theorem foldl_lowerEarliest {times : List String} {e : Option String} {t : String} :
    times.foldl lowerEarliest e = some t ↔
      (t ∈ times ∨ e = some t) ∧ (∀ u ∈ times, t ≤ u) ∧ ∀ u, e = some u → t ≤ u := by
  induction times generalizing e with
  | nil =>
    simp only [List.foldl_nil, List.not_mem_nil, false_or, false_implies, implies_true, true_and]
    constructor
    · rintro rfl
      exact ⟨rfl, fun u hu => (Option.some.inj hu).le⟩
    · exact fun h => h.1
  | cons x times ih =>
    rw [List.foldl_cons, ih]
    cases e with
    | none =>
      simp only [lowerEarliest, List.mem_cons, Option.some.injEq, forall_eq_or_imp]
      grind
    | some c =>
      simp only [lowerEarliest]
      split_ifs with hlt
      · simp only [List.mem_cons, Option.some.injEq, forall_eq_or_imp]
        grind
      · simp only [List.mem_cons, Option.some.injEq, forall_eq_or_imp]
        grind

end Loops

/-! ## Anchored through a verified root -/

/-- The digest is proven included in a batch whose token verifies. -/
def Timestamped (E : Externals) (reader : BundleReader) (proofs : AnchorProofs)
    (digest : Digest) : Prop :=
  ∃ batch ∈ proofs.batches, (∃ token, verifiedBatchToken E reader batch = some token) ∧
    ∃ inc ∈ batch.checkpoints, verifyStoredInclusion E inc batch.rootBlake3 = .ok () ∧
      hexDecodeDigest E "inclusion.leaf" inc.leaf = .ok digest

/-- One checkpoint of a stream that covers a number, whose root was recomputed over the exported
records of its whole range, and whose note is timestamped. -/
structure AnchoredThrough (E : Externals) (reader : BundleReader) (proofs : AnchorProofs)
    (trust : Identity) (streamId : String) (data : StreamData) (bc : BundleCheckpoint)
    (seq : UInt64) : Prop where
  mem : bc ∈ data.checkpoints
  signed : signed E streamId trust bc = true
  covers : bc.checkpoint.note.seqFrom ≤ seq ∧ seq ≤ bc.checkpoint.note.seqTo
  root : ∃ hs, RootOver E data.hashesBySeq bc.checkpoint.note hs
  timestamped : Timestamped E reader proofs (noteDigest E bc.checkpoint.note)

section Anchored

variable {E : Externals} {S : Serde} {now : Int} {reader : BundleReader} {opts : VerifyOptions}

/-- A stream after the checkpoint pass: the turns of its checkpoints over its unchecked data. -/
theorem checkedStreams_data {s : String × StreamData}
    (h : s ∈ checkedStreams E S now reader opts) :
    ∃ data, Unchecked data ∧ data.hashesBySeq = s.2.hashesBySeq ∧
      s.2 = { s.2.checkpoints.foldl (turn E s.1 (trustOf E S now reader opts) s.2.hashesBySeq)
        data with checkpoints := s.2.checkpoints } := by
  obtain ⟨⟨sid, chained⟩, hchained, rfl⟩ := List.mem_map.mp h
  obtain ⟨-, rfl⟩ := mem_chainPass.mp hchained
  have hdata := verifyStreamChain_unchecked E S reader sid
  refine ⟨_, hdata, ?_⟩
  unfold checkpointTurn
  cases hfile : reader.streamCheckpoints S sid with
  | error e =>
    simp only [hdata.checkpoints, List.foldl_nil, true_and]
    rw [← hdata.checkpoints]
  | ok file =>
    have hturns := @verifyCheckpoints_data E sid (trustOf E S now reader opts)
      (verifyStreamChain E S reader sid).1 file.checkpoints
    simp only [hturns, turns_hashes, true_and]

theorem checkedStreams_nodup : ((checkedStreams E S now reader opts).map Prod.fst).Nodup := by
  have hids : (checkedStreams E S now reader opts).map Prod.fst =
      (chainPass E S reader).1.map Prod.fst := by
    rw [checkedStreams, checkpointPass, List.map_map]
    exact List.map_congr_left fun s _ => checkpointTurn_fst s
  rw [hids]
  exact chainPass_nodup

/-- A match comes from a timestamped inclusion of the checkpoint last accepted under its id. -/
theorem timestamped_of_match {proofs : AnchorProofs} {s : String × StreamData} {cpId : String}
    (hs : s ∈ checkedStreams E S now reader opts)
    (h : (s.1, cpId) ∈ allMatches E reader (checkedStreams E S now reader opts) proofs.batches) :
    ∃ bc, lastAccepted E s.1 (trustOf E S now reader opts) s.2.hashesBySeq s.2.checkpoints cpId =
        some bc ∧ Timestamped E reader proofs (noteDigest E bc.checkpoint.note) := by
  obtain ⟨batch, hbatch, hmem⟩ := List.mem_flatMap.mp h
  split_ifs at hmem with htoken
  · obtain ⟨inc, hinc, hmatch⟩ := List.mem_filterMap.mp hmem
    unfold inclusionMatch at hmatch
    cases hver : verifyStoredInclusion E inc batch.rootBlake3 with
    | error e => simp [hver] at hmatch
    | ok u =>
      simp only [hver] at hmatch
      split at hmatch
      · cases hmatch
      · next sid digest hfind =>
        split_ifs at hmatch with hleaf
        obtain ⟨rfl, rfl⟩ := Prod.mk.inj (Option.some.inj hmatch)
        obtain ⟨t, ht, hdigest⟩ := List.exists_of_findSome?_eq_some hfind
        obtain ⟨d, hd, heq⟩ := Option.map_eq_some_iff.mp hdigest
        obtain ⟨hid, rfl⟩ := Prod.mk.inj heq
        -- the stream that was found is the stream itself
        obtain rfl : t = s := List.inj_on_of_nodup_map checkedStreams_nodup ht hs hid
        obtain ⟨data, hunchecked, -, hdata⟩ := checkedStreams_data hs
        have hlookup := (@turns_lookup E t.1 (trustOf E S now reader opts) t.2.hashesBySeq data
          t.2.checkpoints hunchecked.validCheckpointRanges hunchecked.checkpointDigests
          inc.checkpointId).2
        rw [hdata] at hd
        obtain ⟨bc, hbc, hnote⟩ := Option.map_eq_some_iff.mp (hlookup.symm.trans hd)
        refine ⟨bc, hbc, batch, hbatch, Option.isSome_iff_exists.mp htoken, inc, hinc, hver, ?_⟩
        obtain ⟨leaf, hdec, -⟩ := bind_eq_ok.mp hver
        rw [hdec] at hleaf ⊢
        rw [hnote, ← hleaf]
        rfl
  · cases hmem

/-- **When what is anchored is anchored through a verified root**: exactly when every attested
number in the range of a matched checkpoint that is not fully exported is also covered by a
timestamped checkpoint whose root was recomputed. -/
theorem anchored_through_root_iff :
    (∀ s ∈ (anchoredState E S now reader opts).streams, ∀ seq ∈ s.2.anchoredSeqs,
      ∃ bc, AnchoredThrough E reader (proofsOf S reader) (trustOf E S now reader opts) s.1 s.2 bc
        seq) ↔
    ∀ s ∈ checkedStreams E S now reader opts, ∀ cpId bc,
      (s.1, cpId) ∈ allMatches E reader (checkedStreams E S now reader opts)
        (proofsOf S reader).batches →
      lastAccepted E s.1 (trustOf E S now reader opts) s.2.hashesBySeq s.2.checkpoints cpId =
        some bc →
      fullyExported (covered s.2.hashesBySeq bc.checkpoint.note) bc.checkpoint.note = false →
      ∀ seq ∈ s.2.attestedSeqs, bc.checkpoint.note.seqFrom ≤ seq → seq ≤ bc.checkpoint.note.seqTo →
        ∃ bc', AnchoredThrough E reader (proofsOf S reader) (trustOf E S now reader opts) s.1 s.2
          bc' seq := by
  have hstreams : (anchoredState E S now reader opts).streams =
      (checkedStreams E S now reader opts).map fun s => (s.1, anchorAll s.1
        (allMatches E reader (checkedStreams E S now reader opts) (proofsOf S reader).batches)
        s.2) := by
    rw [anchoredState, verifyAnchors_streams, anchorMatched_eq_map]
  -- anchoring leaves the checkpoints and the hashes of a stream alone
  have hkeep : ∀ sid matched data seq bc, AnchoredThrough E reader (proofsOf S reader)
      (trustOf E S now reader opts) sid (anchorAll sid matched data) bc seq ↔
        AnchoredThrough E reader (proofsOf S reader) (trustOf E S now reader opts) sid data bc
          seq := by
    intro sid matched data seq bc
    obtain ⟨hcps, hhashes⟩ := anchorAll_frame sid matched data
    constructor
    · rintro ⟨h1, h2, h3, h4, h5⟩
      exact ⟨hcps ▸ h1, h2, h3, hhashes ▸ h4, h5⟩
    · rintro ⟨h1, h2, h3, h4, h5⟩
      exact ⟨hcps.symm ▸ h1, h2, h3, hhashes.symm ▸ h4, h5⟩
  rw [hstreams]
  simp only [List.mem_map, forall_exists_index, and_imp, forall_apply_eq_imp_iff₂, hkeep]
  refine forall₂_congr fun s hs => ?_
  obtain ⟨data, hunchecked, -, hdata⟩ := checkedStreams_data hs
  have hrange : ∀ cpId, s.2.validCheckpointRanges[cpId]? =
      (lastAccepted E s.1 (trustOf E S now reader opts) s.2.hashesBySeq s.2.checkpoints cpId).map
        fun bc => (bc.checkpoint.note.seqFrom, bc.checkpoint.note.seqTo) := by
    intro cpId
    have hlookup := (@turns_lookup E s.1 (trustOf E S now reader opts) s.2.hashesBySeq data
      s.2.checkpoints hunchecked.validCheckpointRanges hunchecked.checkpointDigests cpId).1
    exact (congrArg (fun d : StreamData => d.validCheckpointRanges[cpId]?) hdata).trans hlookup
  have hnone : s.2.anchoredSeqs = ∅ :=
    (congrArg StreamData.anchoredSeqs hdata).trans
      ((turns_anchoredSeqs _).trans hunchecked.anchoredSeqs)
  simp only [mem_anchorAll, hnone, Finset.notMem_empty, false_or, hrange]
  constructor
  · intro h cpId bc hmatch hlast _ seq hseq hfrom hto
    exact h seq ⟨hseq, cpId, _, _, hmatch, by rw [hlast]; rfl, hfrom, hto⟩
  · rintro h seq ⟨hseq, cpId, lo, hi, hmatch, hget, hle⟩
    obtain ⟨bc, hlast, hstamp⟩ := timestamped_of_match hs hmatch
    rw [hlast] at hget
    obtain ⟨rfl, rfl⟩ := Prod.mk.inj (Option.some.inj hget)
    cases hfull : fullyExported (covered s.2.hashesBySeq bc.checkpoint.note) bc.checkpoint.note with
    | false => exact h cpId bc hmatch hlast hfull seq hseq hle.1 hle.2
    | true =>
      obtain ⟨hmem, hacc, -⟩ := lastAccepted_spec _ hlast
      have hsigned := signed_of_accepts hacc
      simp only [accepts, rootStands, hfull, Bool.not_true, Bool.false_or, Bool.and_eq_true] at hacc
      exact ⟨bc, hmem, hsigned, hle, rootVerified_iff.mp hacc.1.2, hstamp⟩

end Anchored

/-! One record is exported of a stream of two, and the token is over a checkpoint of both. -/

namespace Sample

open Evidence.Sample

/-- A checkpoint over both records of the stream, of which one is exported. -/
def wideNote : CheckpointNote where
  checkpointId := "01CHECKPOINT000000000000B1"
  streamId := opened.streamId
  segmentId := opened.segmentId
  seqFrom := 0
  seqTo := 1
  chainHeadHash := updated.recordHash
  merkleRoot := "2a937fb114d57126abbf3b6d7cbe13520370fcd37f9eef9984e7352e193c8e30"
  treeSize := 2
  tsWall := updated.tsWall
  recorderCertFingerprint := fingerprint
  prevCheckpointHash := none

def wideHash : String := "286d739c6974bc9985d914bdacc1dc16c85e04f657a35713eead673fcaf62db8"

def wide : BundleCheckpoint where
  checkpoint := ⟨wideNote, "3daa107259481a859f224783d36baeab9a3aed7a8e20ada276bdf90993095ee98f20b72849890283d31939ae1cc2653bcc863d9dc73a0c9603601ce1bc7b3504"⟩
  countersignature := none

/-- The batch that holds the wide checkpoint alone. -/
def batch : AnchorBatch where
  batchId := "01BATCH"
  createdAt := "2026-08-11T12:15:00.000Z"
  rootBlake3 := "efd3c031ae76aec19f43c2bb7ef0a0934d446a6e5e97fbf0f4eaa2884310f29d"
  rootSha256 := "e431c786934c951d484966f84cdafdb9a95f0a113ba2753d520a115aa4812200"
  tsrFile := some "anchors/rfc3161/01BATCH.tsr"
  qualified := false
  checkpoints := [⟨wideNote.checkpointId, wideHash, 0, 1, []⟩]

def proofs : AnchorProofs := ⟨[batch], []⟩

/-- An RFC 3161 response over the root of the batch, signed with a 512-bit RSA key. -/
def token : Bytes :=
  [0x3082030d30030201003082030406092a864886f70d010702a08202f5308202f1,
    0x020103310f300d060960864801650304020105003067060b2a864886f70d0109,
    0x100104a0580456305402010106032a03043031300d0609608648016503040201,
    0x05000420e431c786934c951d484966f84cdafdb9a95f0a113ba2753d520a115a,
    0xa4812200020102180f32303236313131383034323131355a3003020101a08201,
    0x49308201453081f0a003020102020103300d06092a864886f70d01010b050030,
    0x0e310c300a06035504030c03545341301e170d3236313131383034303031375a,
    0x170d3336313131353034303031375a300e310c300a06035504030c0354534130,
    0x5c300d06092a864886f70d0101010500034b003048024100d6ed5f1b0d7c7198,
    0xcd429f67d902f707a28cde4be201fe8eebb1d642be8998487935225c348622fb,
    0x4c05807942f9fd70391a5446f5497406d8e569e6e9701dd10203010001a33930,
    0x3730160603551d250101ff040c300a06082b06010505070308301d0603551d0e,
    0x041604144c8f9cbe8ee020d37d0fb678467cfe33e832ab0a300d06092a864886,
    0xf70d01010b050003410056bfd4a2ef4e24656d8b5ba965a613bbc5ec0157dd71,
    0x975571e650431692954e36795a9520c8f06b1358b6a70c67d2b1a7eb5f25d80c,
    0xd2da35b6e2dfb87adcfc318201233082011f0201013013300e310c300a060355,
    0x04030c03545341020103300d06096086480165030402010500a081a4301a0609,
    0x2a864886f70d010903310d060b2a864886f70d0109100104301c06092a864886,
    0xf70d010905310f170d3236313131383034323131355a302f06092a864886f70d,
    0x01090431220420b754c0b8173d515396d69d196e4b83af01702e8648c2b83af4,
    0xb7d85d89ce88363037060b2a864886f70d010910022f31283026302430220420,
    0x820e647235d283c7a026e41cb67c987976235cae1cedb312b74115f1b621dd8b,
    0x300d06092a864886f70d0101010500044046a215b4a6ea1bbaa548ab8e27cee0,
    0xfef4c18d57dbddc146fe9b12717977862620fe7e5850f621d984b761d00a01bb].flatMap (bytesBE 32) ++
    bytesBE 17 0x5a2f361c435b06427b44f9d45b0e2b9418

def tokenPart (start length : Nat) : Bytes := (token.drop start).take length

def spki : Bytes := tokenPart 255 94

def signedAttributes : Bytes := 0x31 :: tokenPart 538 166

def signerInfo : SignerInfo where
  sid := .issuerAndSerialNumber (tokenPart 503 16) [3]
  digestAlg := OID_SHA256
  signedAttrs := some [⟨"1.2.840.113549.1.9.3", [tokenPart 555 13]⟩,
    ⟨"1.2.840.113549.1.9.5", [tokenPart 583 15]⟩, ⟨OID_MESSAGE_DIGEST, [tokenPart 613 34]⟩,
    ⟨"1.2.840.113549.1.9.16.2.47", [tokenPart 664 40]⟩]
  signedAttrsDer := .ok signedAttributes
  signatureAlgorithm := OID_RSA_ENCRYPTION
  signature := tokenPart 721 64

def anchorEntries : List (ZipEntry × String) := [
  (file "anchors/rfc3161/01BATCH.tsr" token,
    "2bccd73b771fdc378c7eefd19c56f14c56c7ce55f968aa16f1816e9683c4b20b"),
  (file "anchors/proofs.json" (documentBytes proofs.toJson),
    "1bdc1f88728de9b19903fc0808118f3a90f2766944cec21ffcdd8dc9f082ae9d")]

/-- The bundle with the batch, and the wide checkpoint left out. -/
def unrelated : List (ZipEntry × String) := entries ++ anchorEntries

def wideFile : StreamCheckpoints := ⟨opened.streamId, [exported, wide]⟩

/-- The bundle with the batch and the wide checkpoint. -/
def overlapping : List (ZipEntry × String) :=
  entriesAround wideFile "9c015a98ff4b8c0f3bae4036ee9ad21716471e6eacb44914a14e3cccdaed6cc1" ++
    anchorEntries

def anchorRecording : Externals.Recording := { bundleRecording with
  blake3 := [(leafDer, ofHex fingerprint), digested wideNote.toJson wideHash,
      (0x00 :: bytesOfHex wideHash, ofHex batch.rootBlake3)] ++
    recording.blake3 ++ hashesOf overlapping ++ hashesOf unrelated ++
    [(documentBytes (manifestFor overlapping).toJson,
        ofHex "cca2adfd543cac30440eb21b9ae7d03b0c09879288e793ac9dec643c0a4088eb"),
      (documentBytes (manifestFor unrelated).toJson,
        ofHex "65f6ef09381ccb773fa59a94ce9a91e540a3f64baae1a9566bd093fb6d7ab568")]
  sha256 := [(bytesOfHex batch.rootBlake3, ofHex batch.rootSha256),
    (tokenPart 71 86, ofHex "b754c0b8173d515396d69d196e4b83af01702e8648c2b83af4b7d85d89ce8836"),
    (signedAttributes, ofHex "a7dabb2b383e6c647471d08621c01bdf9c353902d9a2a7b646a6f3de49072781")]
  signatures := bundleRecording.signatures ++
    [((recorderKey.bytes, ofHex wideHash), ofHex wide.checkpoint.signature)]
  timestamps := [((1794975675, 0), "2026-11-18T04:21:15.000Z")]
  responses := [(token, ⟨0, some ⟨OID_SIGNED_DATA, token.drop 28⟩⟩)]
  signedData := [(token.drop 28, ⟨some (tokenPart 69 88), some [.certificate
    ⟨[3], tokenPart 191 16, "CN=TSA", .ok spki⟩], [signerInfo]⟩)]
  octetStrings := [(tokenPart 69 88, tokenPart 71 86), (tokenPart 613 34, tokenPart 615 32)]
  tstInfos := [(tokenPart 71 86, ⟨OID_SHA256, bytesOfHex batch.rootSha256, 1794975675, 0⟩)]
  rsaKeys := [(spki, spki)]
  rsaSignatures := [(spki, .sha256,
    bytesBE 32 0xa7dabb2b383e6c647471d08621c01bdf9c353902d9a2a7b646a6f3de49072781,
    tokenPart 721 64)] }

def anchorExternals : Externals := .recorded anchorRecording

def anchorDocuments : Documents where
  manifests := [manifestFor unrelated, manifestFor overlapping]
  indexes := [index]
  checkpoints := [checkpointFile, wideFile]
  proofs := [proofs]
  roots := [roots]

def overlappingBundle : BundleReader where
  zip := ⟨overlapping.map Prod.fst ++
    [file "manifest.json" (documentBytes (manifestFor overlapping).toJson)],
    by simp [overlapping, entriesAround, anchorEntries, file, shardPath]⟩
  manifest := manifestFor overlapping

def unrelatedBundle : BundleReader where
  zip := ⟨unrelated.map Prod.fst ++
    [file "manifest.json" (documentBytes (manifestFor unrelated).toJson)],
    by simp [unrelated, entries, entriesAround, anchorEntries, file, shardPath]⟩
  manifest := manifestFor unrelated

theorem proofsOf_eq {reader : BundleReader} (h : readEntry reader.zip "anchors/proofs.json" =
    .ok (documentBytes proofs.toJson)) : proofsOf anchorDocuments.serde reader = proofs := by
  have hread : anchorDocuments.serde.anchorProofs (documentBytes proofs.toJson) = .ok proofs := by
    simp only [anchorDocuments, Documents.serde, readsBack_self]
  rw [proofsOf, BundleReader.anchorProofs_of_read h hread]
  rfl

end Sample

/-- The record is attested by its own checkpoint and anchored by the wide one. -/
theorem anchored_by_overlapping :
    ¬∀ s ∈ (anchoredState Sample.anchorExternals Sample.anchorDocuments.serde 0
        Sample.overlappingBundle Sample.options).streams, ∀ seq ∈ s.2.anchoredSeqs,
      ∃ bc, AnchoredThrough Sample.anchorExternals Sample.overlappingBundle
        (proofsOf Sample.anchorDocuments.serde Sample.overlappingBundle)
        (trustOf Sample.anchorExternals Sample.anchorDocuments.serde 0 Sample.overlappingBundle
          Sample.options) s.1 s.2 bc seq := by
  intro h
  have hproofs : proofsOf Sample.anchorDocuments.serde Sample.overlappingBundle =
      Sample.proofs := Sample.proofsOf_eq rfl
  have hanchored : ∃ s ∈ (anchoredState Sample.anchorExternals Sample.anchorDocuments.serde 0
      Sample.overlappingBundle Sample.options).streams, (0 : UInt64) ∈ s.2.anchoredSeqs ∧
        s.2.checkpoints = [Sample.exported, Sample.wide] ∧
        s.2.hashesBySeq[(1 : UInt64)]? = none := by
    have hidentity : identityPass Sample.anchorExternals Sample.anchorDocuments.serde 1786453200
        Sample.overlappingBundle Sample.options =
          (Sample.trust, [add .info .rootSource "root source: --root override"]) :=
      Sample.identityPass_eq rfl rfl rfl rfl rfl (by decide)
        (Sample.identity_eq rfl rfl rfl (by
          simp only [Sample.anchorDocuments, Documents.serde, readsBack_self]))
    have htrust : trustOf Sample.anchorExternals Sample.anchorDocuments.serde 0
        Sample.overlappingBundle Sample.options = Sample.trust :=
      trustOf_of_identity hidentity rfl
    rw [anchoredState, checkedStreams, hproofs, htrust]
    decide +kernel
  obtain ⟨s, hs, hseq, hcps, hmissing⟩ := hanchored
  obtain ⟨bc, hbc⟩ := h s hs 0 hseq
  have hmem := hbc.mem
  simp only [hcps, List.mem_cons, List.not_mem_nil, or_false] at hmem
  rcases hmem with rfl | rfl
  · -- the batch holds another leaf
    obtain ⟨batch, hbatch, -, inc, hinc, -, hleaf⟩ := hbc.timestamped
    rw [hproofs] at hbatch
    obtain rfl := List.mem_singleton.mp hbatch
    obtain rfl := List.mem_singleton.mp hinc
    exact absurd hleaf (by decide +kernel)
  · -- the second record of the range is missing
    obtain ⟨hs', hroot⟩ := hbc.root
    have hseqs : seqList Sample.wide.checkpoint.note.seqFrom
        Sample.wide.checkpoint.note.seqTo = [0, 1] := by decide
    have hexported := hroot.exported
    rw [hseqs] at hexported
    cases hexported with
    | cons _ htail =>
      cases htail with
      | cons hget _ => cases hmissing.symm.trans hget

/-! ## The earliest anchor -/

/-- At least one accepted checkpoint of a stream in scope is proven included in the batch. -/
def CoversExport (E : Externals) (S : Serde) (reader : BundleReader) (trust : Identity)
    (batch : AnchorBatch) : Prop :=
  ∃ inc ∈ batch.checkpoints, verifyStoredInclusion E inc batch.rootBlake3 = .ok () ∧
    ∃ sid ∈ scopeIds reader, ∃ file, reader.streamCheckpoints S sid = .ok file ∧
      ∃ bc ∈ file.checkpoints,
        accepts E sid trust (verifyStreamChain E S reader sid).1.hashesBySeq bc = true ∧
          hexDecodeDigest E "inclusion.leaf" inc.leaf = .ok (noteDigest E bc.checkpoint.note)

/-- The root of the batch is among the batch roots of the day. -/
def HoldsBatchRoot (E : Externals) (day : DailyRoot) (batch : AnchorBatch) : Prop :=
  ∃ h ∈ day.batchRoots, ∃ root, hexDecodeDigest E "batch_root" h = .ok root ∧
    hexDecodeDigest E "root_blake3" batch.rootBlake3 = .ok root

/-- A token with this time verifies, over a batch or over a daily root. -/
def VerifiedAt (E : Externals) (reader : BundleReader) (proofs : AnchorProofs) (t : String) :
    Prop :=
  (∃ batch ∈ proofs.batches, ∃ token, verifiedBatchToken E reader batch = some token ∧
      token.genTime = t) ∨
    ∃ day ∈ proofs.daily, ∃ token, verifiedDailyToken E reader day = some token ∧
      token.genTime = t

/-- A token with this time verifies over a batch that covers exported evidence, or over a daily
root that holds the root of such a batch. -/
def CoveredAt (E : Externals) (S : Serde) (reader : BundleReader) (trust : Identity)
    (proofs : AnchorProofs) (t : String) : Prop :=
  (∃ batch ∈ proofs.batches, CoversExport E S reader trust batch ∧
      ∃ token, verifiedBatchToken E reader batch = some token ∧ token.genTime = t) ∨
    ∃ day ∈ proofs.daily, (∃ batch ∈ proofs.batches, CoversExport E S reader trust batch ∧
        HoldsBatchRoot E day batch) ∧
      ∃ token, verifiedDailyToken E reader day = some token ∧ token.genTime = t

section Earliest

variable {E : Externals} {S : Serde} {now : Int} {reader : BundleReader} {opts : VerifyOptions}

theorem mem_genTimes {proofs : AnchorProofs} {t : String} :
    t ∈ genTimes E reader proofs ↔ VerifiedAt E reader proofs t := by
  simp only [genTimes, VerifiedAt, List.mem_append, List.mem_map, List.mem_filterMap]
  refine or_congr ?_ ?_
  · constructor
    · rintro ⟨token, ⟨batch, hbatch, htoken⟩, rfl⟩
      exact ⟨batch, hbatch, token, htoken, rfl⟩
    · rintro ⟨batch, hbatch, token, htoken, rfl⟩
      exact ⟨token, ⟨batch, hbatch, htoken⟩, rfl⟩
  · constructor
    · rintro ⟨token, ⟨day, hday, htoken⟩, rfl⟩
      exact ⟨day, hday, token, htoken, rfl⟩
    · rintro ⟨day, hday, token, htoken, rfl⟩
      exact ⟨token, ⟨day, hday, htoken⟩, rfl⟩

/-- Among tokens that verify there is an earliest. -/
theorem exists_min_genTime {proofs : AnchorProofs} {u : String} (h : VerifiedAt E reader proofs u) :
    ∃ t, VerifiedAt E reader proofs t ∧ ∀ u, VerifiedAt E reader proofs u → t ≤ u := by
  have hmem : ∀ t, t ∈ (genTimes E reader proofs).toFinset ↔ VerifiedAt E reader proofs t :=
    fun t => List.mem_toFinset.trans mem_genTimes
  obtain ⟨t, ht, hmin⟩ := (genTimes E reader proofs).toFinset.exists_min_image id
    ⟨u, (hmem u).mpr h⟩
  exact ⟨t, (hmem t).mp ht, fun u hu => hmin u ((hmem u).mpr hu)⟩

theorem CoveredAt.verifiedAt {trust : Identity} {proofs : AnchorProofs} {t : String}
    (h : CoveredAt E S reader trust proofs t) : VerifiedAt E reader proofs t := by
  rcases h with ⟨batch, hbatch, -, htoken⟩ | ⟨day, hday, -, htoken⟩
  · exact .inl ⟨batch, hbatch, htoken⟩
  · exact .inr ⟨day, hday, htoken⟩

/-- The reported time is the smallest of the times of the tokens that verify. -/
theorem earliestAnchor_eq_some {t : String} :
    (verifyBundle E S now reader opts).proven.earliestAnchor = some t ↔
      VerifiedAt E reader (proofsOf S reader) t ∧
        ∀ u, VerifiedAt E reader (proofsOf S reader) u → t ≤ u := by
  have hrun : (verifyBundle E S now reader opts).proven.earliestAnchor =
      (genTimes E reader (proofsOf S reader)).foldl lowerEarliest none :=
    verifyAnchors_earliest _ _ _
  rw [hrun, foldl_lowerEarliest]
  simp [mem_genTimes]

/-- **When the earliest anchor covers exported evidence**: exactly when no token that verifies is
earlier than every token that covers exported evidence. -/
theorem earliestAnchor_covers_iff :
    (∀ t, (verifyBundle E S now reader opts).proven.earliestAnchor = some t →
      CoveredAt E S reader (trustOf E S now reader opts) (proofsOf S reader) t) ↔
    ∀ u, VerifiedAt E reader (proofsOf S reader) u →
      ∃ t, CoveredAt E S reader (trustOf E S now reader opts) (proofsOf S reader) t ∧ t ≤ u := by
  constructor
  · intro h u hu
    -- some token verifies, so there is an earliest one
    cases hearliest : (verifyBundle E S now reader opts).proven.earliestAnchor with
    | some t => exact ⟨t, h t hearliest, (earliestAnchor_eq_some.mp hearliest).2 u hu⟩
    | none =>
      obtain ⟨t, ht, hmin⟩ := exists_min_genTime hu
      rw [earliestAnchor_eq_some.mpr ⟨ht, hmin⟩] at hearliest
      cases hearliest
  · intro h t ht
    obtain ⟨hver, hmin⟩ := earliestAnchor_eq_some.mp ht
    obtain ⟨t', hcov, hle⟩ := h t hver
    obtain rfl : t' = t := le_antisymm hle (hmin t' hcov.verifiedAt)
    exact hcov

end Earliest

theorem earliestAnchor_of_unrelated :
    (verifyBundle Sample.anchorExternals Sample.anchorDocuments.serde 0 Sample.unrelatedBundle
        Sample.options).proven.earliestAnchor = some "2026-11-18T04:21:15.000Z" ∧
      ¬CoveredAt Sample.anchorExternals Sample.anchorDocuments.serde Sample.unrelatedBundle
        (trustOf Sample.anchorExternals Sample.anchorDocuments.serde 0 Sample.unrelatedBundle
          Sample.options)
        (proofsOf Sample.anchorDocuments.serde Sample.unrelatedBundle)
        "2026-11-18T04:21:15.000Z" := by
  have hproofs : proofsOf Sample.anchorDocuments.serde Sample.unrelatedBundle =
      Sample.proofs := Sample.proofsOf_eq rfl
  have htoken : verifiedBatchToken Sample.anchorExternals Sample.unrelatedBundle Sample.batch =
      some ⟨"2026-11-18T04:21:15.000Z", "CN=TSA", true⟩ := by
    decide +kernel
  rw [earliestAnchor_eq_some, hproofs]
  refine ⟨⟨.inl ⟨_, List.mem_singleton_self _, _, htoken, rfl⟩, ?_⟩, ?_⟩
  · rintro u (⟨batch, hbatch, token, hverified, rfl⟩ | ⟨day, hday, -⟩)
    · obtain rfl := List.mem_singleton.mp hbatch
      rw [htoken] at hverified
      obtain rfl := Option.some.inj hverified
      exact le_refl _
    · cases hday
  · rintro (⟨batch, hbatch, hcovers, -⟩ | ⟨day, hday, -⟩)
    · obtain rfl := List.mem_singleton.mp hbatch
      obtain ⟨inc, hinc, -, sid, hsid, file, hfile, bc, hbc, -, hleaf⟩ := hcovers
      obtain rfl := List.mem_singleton.mp hinc
      obtain rfl : sid = Evidence.Sample.opened.streamId := List.mem_singleton.mp hsid
      have hread : Sample.unrelatedBundle.streamCheckpoints Sample.anchorDocuments.serde
          Evidence.Sample.opened.streamId = .ok Sample.checkpointFile := by
        have hentry : readEntry Sample.unrelatedBundle.zip ("checkpoints/" ++
            Evidence.Sample.opened.streamId ++ ".json") =
              .ok (documentBytes Sample.checkpointFile.toJson) := rfl
        refine BundleReader.streamCheckpoints_of_read hentry ?_
        simp only [Sample.anchorDocuments, Documents.serde, readsBack_self]
      rw [hread] at hfile
      obtain rfl := Except.ok.inj hfile
      obtain rfl := List.mem_singleton.mp hbc
      exact absurd hleaf (by decide +kernel)
    · cases hday

end Sealr.Verify
