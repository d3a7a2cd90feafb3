import Mathlib.Data.Multiset.AddSub
import Sealr.Bundle.Batches
import Sealr.Verify.Anchored

/-!
# Anchors accumulate

What a batch or a daily root reports does not depend on the batches and days before it, and what it
anchors is added to what they anchored. So the pass over the documents of two anchor proofs is the
two passes put together (`anchors_accumulate`), and a batch that was built over the digests of the
exported checkpoints is never reported as broken (`built_batch_verifies`).
-/

namespace Sealr.Verify

open Lib Evidence Bundle

/-! ## What is reported -/

/-- What the turn of a batch reports. -/
def batchFindings (E : Externals) (reader : BundleReader) (streams : Streams)
    (batch : AnchorBatch) : List Finding :=
  (batchStep E reader ⟨none, streams⟩ batch).2

/-- What the turn of a daily root reports. -/
def dailyFindings (E : Externals) (reader : BundleReader) (keys : ConsoleKeys) (day : DailyRoot) :
    List Finding :=
  (dailyStep E reader keys none day).2

section Reports

variable {E : Externals} {reader : BundleReader} {streams streams' : Streams} {keys : ConsoleKeys}

theorem inclusionStep_unanchored (batch : AnchorBatch) :
    inclusionStep E (unanchored streams) batch = inclusionStep E streams batch := by
  funext matched inc
  unfold inclusionStep unanchored
  simp only [List.findSome?_map]
  rfl

theorem tokenStep_snd (st st' : AnchorState) (batch : AnchorBatch)
    (matched : List (String × String)) :
    (tokenStep E reader st batch matched).2 = (tokenStep E reader st' batch matched).2 := by
  unfold tokenStep
  cases batch.tsrFile with
  | none => rfl
  | some path =>
    dsimp only
    cases hexDecodeDigest E "root_sha256" batch.rootSha256 with
    | error e => rfl
    | ok sha =>
      dsimp only
      cases batchToken E reader batch sha path <;> rfl

/-- A batch reports the same whatever was anchored before it. -/
theorem batchStep_snd {st : AnchorState} (h : unanchored st.streams = unanchored streams)
    (batch : AnchorBatch) :
    (batchStep E reader st batch).2 = batchFindings E reader streams batch := by
  have hsame : inclusionStep E st.streams batch = inclusionStep E streams batch := by
    rw [← inclusionStep_unanchored, h, inclusionStep_unanchored]
  unfold batchFindings batchStep
  cases checkBatch E batch with
  | some f => rfl
  | none =>
    dsimp only
    rw [hsame, tokenStep_snd st ⟨none, streams⟩]

theorem qtsStep_snd (earliest earliest' : Option String) (day : DailyRoot) :
    (qtsStep E reader earliest day).2 = (qtsStep E reader earliest' day).2 := by
  unfold qtsStep
  cases day.qtsFile with
  | none => rfl
  | some qts =>
    dsimp only
    cases hexDecodeDigest E "daily.root_blake3" day.rootBlake3 with
    | error e => rfl
    | ok rootRaw =>
      dsimp only
      cases reader.entryBytes qts with
      | error e => rfl
      | ok bytes =>
        dsimp only
        cases verifyToken E bytes (sha256Raw E rootRaw.toList) <;> rfl

theorem dailyStep_snd (earliest : Option String) (day : DailyRoot) :
    (dailyStep E reader keys earliest day).2 = dailyFindings E reader keys day := by
  unfold dailyFindings dailyStep
  cases decodeBatchRoots E day.batchRoots with
  | error e => rfl
  | ok leaves =>
    dsimp only
    split_ifs
    · rfl
    · dsimp only
      rw [qtsStep_snd earliest none]

/-- **What the anchor pass reports**, batch by batch and day by day. -/
theorem verifyAnchors_findings (proofs : AnchorProofs) :
    (verifyAnchors E reader proofs streams keys).2 =
      proofs.batches.flatMap (batchFindings E reader streams) ++
        proofs.daily.flatMap (dailyFindings E reader keys) := by
  have hbatches : (foldLog (batchStep E reader) ⟨none, streams⟩ proofs.batches).2 =
      proofs.batches.flatMap (batchFindings E reader streams) := by
    refine foldLog_reports_of (I := fun st : AnchorState =>
      unanchored st.streams = unanchored streams) ?_ ?_ rfl _
    · intro st batch h
      rw [unanchored_batchStep, h]
    · intro st batch h
      exact batchStep_snd h batch
  have hdaily : ∀ earliest, (foldLog (dailyStep E reader keys) earliest proofs.daily).2 =
      proofs.daily.flatMap (dailyFindings E reader keys) := fun earliest =>
    foldLog_reports dailyStep_snd earliest _
  rw [← hbatches, ← hdaily]
  rfl

end Reports

/-! ## Two documents -/

/-- The batches and days of two documents. -/
def joinProofs (p q : AnchorProofs) : AnchorProofs := ⟨p.batches ++ q.batches, p.daily ++ q.daily⟩

/-- The smaller of two times, of which there may be none. -/
def earlier (a b : Option String) : Option String :=
  match b with
  | none => a
  | some t => lowerEarliest a t

/-- A stream anchored by two passes. -/
def joinAnchored (p q : String × StreamData) : String × StreamData :=
  (p.1, { p.2 with anchoredSeqs := p.2.anchoredSeqs ∪ q.2.anchoredSeqs })

/-- The verdict over the anchor pass and the cross-checks after it, with what came before. -/
def verdictWith (E : Externals) (reader : BundleReader) (opts : VerifyOptions)
    (keys : ConsoleKeys) (before : List Finding) (streams : Streams) (proofs : AnchorProofs) :
    VerifyResult :=
  let (anchored, anchorFs) := verifyAnchors E reader proofs streams keys
  computeResult (before ++ anchorFs ++ (coveragePass opts anchored.streams).2)

/-- The verdict of a bundle is the one with its own proofs. -/
theorem result_eq_verdictWith {E : Externals} {S : Serde} {now : Int} {reader : BundleReader}
    {opts : VerifyOptions} : (verifyBundle E S now reader opts).result =
      verdictWith E reader opts (trustOf E S now reader opts).consoleKeys
        (containerFindings E reader ++ (identityPass E S (opts.nowUnix.getD now) reader opts).2 ++
          (chainPass E S reader).2 ++
          (checkpointPass E S reader (trustOf E S now reader opts) (chainPass E S reader).1).2)
        (checkedStreams E S now reader opts) (proofsOf S reader) := rfl

section Join

variable {E : Externals} {reader : BundleReader} {streams : Streams} {keys : ConsoleKeys}
  {streamId : String} {data : StreamData} {matched matched' : List (String × String)}

theorem earlier_eq_some {a b : Option String} {t : String} :
    earlier a b = some t ↔ (a = some t ∨ b = some t) ∧ (∀ u, a = some u → t ≤ u) ∧
      ∀ u, b = some u → t ≤ u := by
  cases b with
  | none =>
    simp only [earlier, reduceCtorEq, or_false, false_implies, implies_true, and_true]
    constructor
    · rintro rfl
      exact ⟨rfl, fun u hu => (Option.some.inj hu).le⟩
    · exact fun h => h.1
  | some s =>
    have hfold := @foldl_lowerEarliest [s] a t
    simp only [List.foldl_cons, List.foldl_nil, List.mem_singleton, forall_eq] at hfold
    rw [earlier, hfold]
    simp only [Option.some.injEq, eq_comm (a := t), or_comm (a := s = t), forall_eq',
      and_comm (a := t ≤ s)]

/-- The smallest of some times is below each of them. -/
theorem exists_foldl_lowerEarliest {times : List String} {u : String} (h : u ∈ times) :
    ∃ t, times.foldl lowerEarliest none = some t ∧ t ≤ u := by
  have hmem : ∀ t, t ∈ times.toFinset ↔ t ∈ times := fun t => List.mem_toFinset
  obtain ⟨t, ht, hmin⟩ := times.toFinset.exists_min_image id ⟨u, (hmem u).mpr h⟩
  refine ⟨t, foldl_lowerEarliest.mpr ⟨.inl ((hmem t).mp ht), ?_, ?_⟩, hmin u ((hmem u).mpr h)⟩
  · exact fun v hv => hmin v ((hmem v).mpr hv)
  · intro v hv
    cases hv

/-- The smallest of the times of two lists, in whatever order they are listed. -/
theorem foldl_lowerEarliest_join {times times' all : List String}
    (hall : ∀ t, t ∈ all ↔ t ∈ times ∨ t ∈ times') :
    all.foldl lowerEarliest none =
      earlier (times.foldl lowerEarliest none) (times'.foldl lowerEarliest none) := by
  have hfold : ∀ {ts : List String} {t : String},
      ts.foldl lowerEarliest none = some t ↔ t ∈ ts ∧ ∀ u ∈ ts, t ≤ u := by
    intro ts t
    rw [foldl_lowerEarliest]
    simp
  ext t
  rw [earlier_eq_some, hfold]
  constructor
  · intro h
    obtain ⟨hmem, hle⟩ := h
    have hleft : ∀ u ∈ times, t ≤ u := fun u hu => hle u ((hall u).mpr (.inl hu))
    have hright : ∀ u ∈ times', t ≤ u := fun u hu => hle u ((hall u).mpr (.inr hu))
    refine ⟨?_, fun u hu => hleft u (hfold.mp hu).1, fun u hu => hright u (hfold.mp hu).1⟩
    rcases (hall t).mp hmem with ht | ht
    · exact .inl (hfold.mpr ⟨ht, hleft⟩)
    · exact .inr (hfold.mpr ⟨ht, hright⟩)
  · intro h
    obtain ⟨hsome, hleft, hright⟩ := h
    refine ⟨(hall t).mpr (hsome.imp (fun ht => (hfold.mp ht).1) fun ht => (hfold.mp ht).1), ?_⟩
    intro u hu
    rcases (hall u).mp hu with hu | hu
    · obtain ⟨m, hm, hle⟩ := exists_foldl_lowerEarliest hu
      exact (hleft m hm).trans hle
    · obtain ⟨m, hm, hle⟩ := exists_foldl_lowerEarliest hu
      exact (hright m hm).trans hle

theorem anchorAll_unanchored :
    anchorAll streamId matched data =
      { data with anchoredSeqs := (anchorAll streamId matched data).anchoredSeqs } := by
  unfold anchorAll
  induction matched generalizing data with
  | nil => rfl
  | cons m matched ih =>
    rw [List.foldl_cons, ih]
    split_ifs
    · unfold anchorRange
      split <;> rfl
    · rfl

/-- Matches anchor what they are, in whatever order and however often. -/
theorem anchorAll_congr (h : ∀ m, m ∈ matched ↔ m ∈ matched') :
    anchorAll streamId matched data = anchorAll streamId matched' data := by
  have hseqs : (anchorAll streamId matched data).anchoredSeqs =
      (anchorAll streamId matched' data).anchoredSeqs := by
    ext seq
    simp only [mem_anchorAll, h]
  rw [anchorAll_unanchored, hseqs, ← anchorAll_unanchored]

theorem joinAnchored_anchorAll :
    (streamId, anchorAll streamId (matched ++ matched') data) =
      joinAnchored (streamId, anchorAll streamId matched data)
        (streamId, anchorAll streamId matched' data) := by
  have hseqs : (anchorAll streamId (matched ++ matched') data).anchoredSeqs =
      (anchorAll streamId matched data).anchoredSeqs ∪
        (anchorAll streamId matched' data).anchoredSeqs := by
    ext seq
    simp only [Finset.mem_union, mem_anchorAll, List.mem_append]
    grind
  rw [joinAnchored, ← hseqs, anchorAll_unanchored]
  conv_rhs => rw [anchorAll_unanchored]

theorem allMatches_join (p q : AnchorProofs) :
    allMatches E reader streams (joinProofs p q).batches =
      allMatches E reader streams p.batches ++ allMatches E reader streams q.batches :=
  List.flatMap_append

theorem mem_genTimes_join (p q : AnchorProofs) (t : String) :
    t ∈ genTimes E reader (joinProofs p q) ↔ t ∈ genTimes E reader p ∨ t ∈ genTimes E reader q := by
  simp only [genTimes, joinProofs, List.filterMap_append, List.map_append, List.mem_append]
  grind

/-- The cross-checks do not look at what is anchored. -/
theorem coveragePass_unanchored {opts : VerifyOptions} :
    (coveragePass opts (unanchored streams)).2 = (coveragePass opts streams).2 := by
  unfold coveragePass unanchored
  simp only [List.flatMap_map]
  rfl

theorem coveragePass_verifyAnchors {opts : VerifyOptions} (proofs : AnchorProofs) :
    (coveragePass opts (verifyAnchors E reader proofs streams keys).1.streams).2 =
      (coveragePass opts streams).2 := by
  rw [← coveragePass_unanchored, unanchored_verifyAnchors, coveragePass_unanchored]

/-- The verdict depends on which findings there are, not on their order. -/
theorem computeResult_congr {fs gs : List Finding}
    (h : ∀ f, f.severity ≠ .info → (f ∈ fs ↔ f ∈ gs)) : computeResult fs = computeResult gs := by
  have hany : ∀ s, s ≠ .info →
      (fs.any fun f => f.severity = s) = gs.any fun f => f.severity = s := by
    intro s hs
    rw [Bool.eq_iff_iff, List.any_eq_true, List.any_eq_true]
    refine exists_congr fun f => and_congr_left fun hf => h f ?_
    rw [of_decide_eq_true hf]
    exact hs
  unfold computeResult
  rw [hany .error (by decide), hany .warning (by decide)]

/-- **Anchors accumulate**: over the batches and days of two documents, every stream is anchored
where one of the two anchors it, the earliest time is the earlier of the two, and every finding of
the two is reported. The order of batches and days does not matter, and a document that causes only
information leaves the verdict as it is. -/
theorem anchors_accumulate (E : Externals) (reader : BundleReader) (streams : Streams)
    (keys : ConsoleKeys) (p q : AnchorProofs) :
    let run := fun proofs => verifyAnchors E reader proofs streams keys
    (run (joinProofs p q)).1.streams =
        List.zipWith joinAnchored (run p).1.streams (run q).1.streams ∧
      (run (joinProofs p q)).1.earliest = earlier (run p).1.earliest (run q).1.earliest ∧
      ((run (joinProofs p q)).2 : Multiset Finding) = (run p).2 + (run q).2 ∧
      (∀ p' : AnchorProofs, p.batches.Perm p'.batches → p.daily.Perm p'.daily →
        (run p').1.streams = (run p).1.streams ∧ (run p').1.earliest = (run p).1.earliest ∧
          ((run p').2 : Multiset Finding) = (run p).2) ∧
      ∀ opts before, (∀ f ∈ (run q).2, f.severity = .info) →
        verdictWith E reader opts keys before streams (joinProofs p q) =
          verdictWith E reader opts keys before streams p := by
  intro run
  have hfindings : ((run (joinProofs p q)).2 : Multiset Finding) = (run p).2 + (run q).2 := by
    simp only [run, verifyAnchors_findings, joinProofs, List.flatMap_append, Multiset.coe_add,
      Multiset.coe_eq_coe]
    rw [List.append_assoc, List.append_assoc]
    refine List.Perm.append_left _ ?_
    rw [← List.append_assoc, ← List.append_assoc]
    exact List.Perm.append_right _ List.perm_append_comm
  refine ⟨?_, ?_, hfindings, ?_, ?_⟩
  · simp only [run, verifyAnchors_streams, allMatches_join, anchorMatched_eq_map,
      List.zipWith_map, List.zipWith_self, joinAnchored_anchorAll]
  · simp only [run, verifyAnchors_earliest]
    exact foldl_lowerEarliest_join (mem_genTimes_join p q)
  · intro p' hbatches hdaily
    have hmatches : ∀ m, m ∈ allMatches E reader streams p'.batches ↔
        m ∈ allMatches E reader streams p.batches :=
      fun m => (hbatches.flatMap_right _).symm.mem_iff
    have htimes : ∀ t, t ∈ genTimes E reader p' ↔ t ∈ genTimes E reader p ∨ t ∈ [] := by
      intro t
      have hb := (hbatches.filterMap (verifiedBatchToken E reader)).map (·.genTime)
      have hd := (hdaily.filterMap (verifiedDailyToken E reader)).map (·.genTime)
      simp only [genTimes, List.mem_append, hb.mem_iff, hd.mem_iff, List.not_mem_nil, or_false]
    refine ⟨?_, ?_, ?_⟩
    · simp only [run, verifyAnchors_streams, anchorMatched_eq_map]
      exact List.map_congr_left fun s _ => by rw [anchorAll_congr hmatches]
    · simp only [run, verifyAnchors_earliest]
      exact foldl_lowerEarliest_join htimes
    · simp only [run, verifyAnchors_findings, Multiset.coe_eq_coe]
      exact ((hbatches.flatMap_right _).append (hdaily.flatMap_right _)).symm
  · intro opts before hinfo
    unfold verdictWith
    simp only [coveragePass_verifyAnchors]
    refine computeResult_congr fun f hf => ?_
    have hmem : f ∈ (run (joinProofs p q)).2 ↔ f ∈ (run p).2 ∨ f ∈ (run q).2 := by
      rw [← Multiset.mem_coe, hfindings, Multiset.mem_add, Multiset.mem_coe, Multiset.mem_coe]
    have hnot : f ∉ (run q).2 := fun hq => hf (hinfo f hq)
    simp only [run] at hmem hnot
    simp only [List.mem_append, hmem, hnot, or_false]

end Join

/-! ## Built batches -/

/-- A batch as `build_batch` made it, with or without a token since. -/
def BuiltBatch (E : Externals) (cs : List (String × Digest)) (batch : AnchorBatch) : Prop :=
  ∃ batchId createdAt qualified built tsrFile,
    buildBatch E batchId createdAt cs qualified = .ok built ∧ batch = { built with tsrFile }

/-- Every checkpoint of the list is held by one stream, under its digest. -/
def HeldOnce (streams : Streams) (cs : List (String × Digest)) : Prop :=
  ∀ c ∈ cs, ∃ s ∈ streams, s.2.checkpointDigests[c.1]? = some c.2 ∧
    ∀ t ∈ streams, c.1 ∈ t.2.checkpointDigests → t = s

section Built

variable {E : Externals} {reader : BundleReader} {streams : Streams} {keys : ConsoleKeys}
  {cs : List (String × Digest)} {batch : AnchorBatch}

theorem BuiltBatch.builtFrom (h : BuiltBatch E cs batch) (hsize : cs.length < 2 ^ 64) :
    BuiltFrom E cs batch := by
  obtain ⟨batchId, createdAt, qualified, built, tsrFile, hbuilt, rfl⟩ := h
  obtain ⟨batch, hbatch, hfrom⟩ := buildBatch_ok (E := E) batchId createdAt qualified hsize
  obtain rfl := Except.ok.inj (hbuilt.symm.trans hbatch)
  exact ⟨hfrom.included, hfrom.roots⟩

theorem checkBatch_of_built (h : BuiltFrom E cs batch) : checkBatch E batch = none := by
  obtain ⟨root, hroot, hsha⟩ := h.roots
  simp [checkBatch, hroot, hsha]

/-- The stream that a digest is looked up in. -/
theorem HeldOnce.lookup (h : HeldOnce streams cs) {c : String × Digest} (hc : c ∈ cs) :
    ∃ streamId, (streams.findSome? fun s => (s.2.checkpointDigests[c.1]?).map fun d => (s.1, d)) =
      some (streamId, c.2) := by
  obtain ⟨s, hs, hdigest, honly⟩ := h c hc
  refine ⟨s.1, ?_⟩
  cases hfind : streams.findSome? fun s => (s.2.checkpointDigests[c.1]?).map fun d => (s.1, d) with
  | none =>
    have hnone := List.findSome?_eq_none_iff.mp hfind s hs
    rw [hdigest] at hnone
    cases hnone
  | some found =>
    obtain ⟨t, ht, hfound⟩ := List.exists_of_findSome?_eq_some hfind
    obtain ⟨d, hd, rfl⟩ := Option.map_eq_some_iff.mp hfound
    have hmem : c.1 ∈ t.2.checkpointDigests := by
      rw [Std.TreeMap.mem_iff_isSome_getElem?, hd]
      rfl
    obtain rfl := honly t ht hmem
    rw [hdigest] at hd
    rw [Option.some.inj hd]

/-- An inclusion of a held checkpoint is matched in silence. -/
theorem inclusionStep_of_included {c : String × Digest} {inc : CheckpointInclusion}
    (hinc : Included E batch.rootBlake3 c inc) (hheld : HeldOnce streams cs) (hc : c ∈ cs)
    (matched : List (String × String)) : (inclusionStep E streams batch matched inc).2 = [] := by
  obtain ⟨streamId, hfind⟩ := hheld.lookup hc
  simp only [inclusionStep, hinc.verifies, hinc.checkpointId, hfind, hinc.leaf, Except.toOption,
    Option.getD_some, ↓reduceIte]

/-- What the token of a batch reports. -/
theorem mem_tokenStep {st : AnchorState} {matched : List (String × String)} {f : Finding}
    (h : f ∈ (tokenStep E reader st batch matched).2) :
    f.findingClass ∈ [.anchorPending, .anchorVerified] ∨
      ∃ path sha, batch.tsrFile = some path ∧ batchToken E reader batch sha path = .inr f := by
  unfold tokenStep at h
  cases hfile : batch.tsrFile with
  | none =>
    simp only [hfile, List.mem_singleton] at h
    subst h
    exact .inl (by simp [add])
  | some path =>
    simp only [hfile] at h
    cases hsha : hexDecodeDigest E "root_sha256" batch.rootSha256 with
    | error e => simp [hsha] at h
    | ok sha =>
      simp only [hsha] at h
      cases htoken : batchToken E reader batch sha path with
      | inr g =>
        simp only [htoken, List.mem_singleton] at h
        subst h
        exact .inr ⟨path, sha, rfl, htoken⟩
      | inl token =>
        simp only [htoken, List.mem_singleton] at h
        subst h
        exact .inl (by simp [add])

theorem batchToken_class {sha : Digest} {path : String} {f : Finding}
    (h : batchToken E reader batch sha path = .inr f) :
    f.findingClass ∈ [.anchorTokenMissing, .anchorInvalid] := by
  unfold batchToken at h
  split at h
  · rw [← Sum.inr.inj h]
    simp [add]
  · split at h
    · rw [← Sum.inr.inj h]
      simp [add]
    · cases h

theorem dailyFindings_class (day : DailyRoot) : ∀ f ∈ dailyFindings E reader keys day,
    f.findingClass ∈ [.dailyRootInvalid, .dailyRootMismatch, .dailyRootSignatureInvalid,
      .qtsVerified, .qtsInvalid, .qtsTokenMissing] := by
  intro f hf
  unfold dailyFindings dailyStep at hf
  split at hf
  · rw [List.mem_singleton.mp hf]
    simp [add]
  · split_ifs at hf
    · rw [List.mem_singleton.mp hf]
      simp [add]
    · rcases List.mem_append.mp hf with hf | hf
      · unfold dailySignatureFindings at hf
        split at hf
        · dsimp only at hf
          split_ifs at hf
          · rw [List.mem_singleton.mp hf]
            simp [add]
          · cases hf
        · cases hf
      · unfold qtsStep at hf
        split at hf
        · cases hf
        · split at hf
          · cases hf
          · split at hf
            · rw [List.mem_singleton.mp hf]
              simp [add]
            · split at hf
              · rw [List.mem_singleton.mp hf]
                simp [add]
              · rw [List.mem_singleton.mp hf]
                simp [add]

/-- A built batch over held checkpoints is reported on by its token alone. -/
theorem batchFindings_of_built (h : BuiltFrom E cs batch) (hheld : HeldOnce streams cs)
    {f : Finding} (hf : f ∈ batchFindings E reader streams batch) :
    f.findingClass ∈ [.anchorPending, .anchorVerified] ∨
      ∃ path sha, batch.tsrFile = some path ∧ batchToken E reader batch sha path = .inr f := by
  simp only [batchFindings, batchStep, checkBatch_of_built h] at hf
  have hquiet : ∀ f ∈ (foldLog (inclusionStep E streams batch) [] batch.checkpoints).2, False := by
    refine foldLog_forall (I := fun _ _ => True) _ trivial fun pre inc matched _ hpre => ?_
    refine ⟨trivial, ?_⟩
    obtain ⟨c, hc, hinc⟩ := Rfc8785.exists_of_mem_forall₂ h.included
      (hpre.subset (List.mem_append_right _ List.mem_cons_self))
    rw [inclusionStep_of_included hinc hheld hc]
    simp
  rcases List.mem_append.mp hf with hf | hf
  · exact (hquiet f hf).elim
  · exact mem_tokenStep hf

/-- **Batches that are built verify**: `build_batch` succeeds, its inclusions prove their digests
under its root, and its roots belong together. The anchor pass over such batches, when the streams
hold their checkpoints, finds no bad root, no broken binding, no bad inclusion and no other leaf;
what it finds invalid is a token. -/
theorem built_batches_verify (E : Externals) :
    (∀ batchId createdAt cs qualified, cs.length < 2 ^ 64 →
      ∃ batch, buildBatch E batchId createdAt cs qualified = .ok batch ∧ BuiltFrom E cs batch) ∧
    ∀ reader streams keys proofs, (∀ batch ∈ proofs.batches, ∃ cs, cs.length < 2 ^ 64 ∧
        BuiltBatch E cs batch ∧ HeldOnce streams cs) →
      ∀ f ∈ (verifyAnchors E reader proofs streams keys).2,
        f.findingClass ∉ [.anchorDigestBindingBroken, .anchorInclusionInvalid,
          .anchorLeafMismatch] ∧
        (f.findingClass = .anchorInvalid → ∃ batch ∈ proofs.batches, ∃ path sha,
          batch.tsrFile = some path ∧ batchToken E reader batch sha path = .inr f) := by
  refine ⟨?_, fun reader streams keys proofs hproofs f hf => ?_⟩
  · intro batchId createdAt cs qualified hsize
    exact buildBatch_ok batchId createdAt qualified hsize
  rw [verifyAnchors_findings] at hf
  rcases List.mem_append.mp hf with hf | hf
  · obtain ⟨batch, hbatch, hf⟩ := List.mem_flatMap.mp hf
    obtain ⟨cs, hsize, hbuilt, hheld⟩ := hproofs batch hbatch
    rcases batchFindings_of_built (hbuilt.builtFrom hsize) hheld hf with hclass | htoken
    · constructor
      · intro hbad
        simp only [List.mem_cons, List.not_mem_nil, or_false] at hclass hbad
        rcases hclass with hclass | hclass <;> simp [hclass] at hbad
      · intro hinvalid
        simp [hinvalid] at hclass
    · obtain ⟨path, sha, hfile, htoken⟩ := htoken
      refine ⟨fun hbad => ?_, fun _ => ⟨batch, hbatch, path, sha, hfile, htoken⟩⟩
      have hclass := batchToken_class htoken
      simp only [List.mem_cons, List.not_mem_nil, or_false] at hclass hbad
      rcases hclass with hclass | hclass <;> simp [hclass] at hbad
  · obtain ⟨day, -, hf⟩ := List.mem_flatMap.mp hf
    have hclass := dailyFindings_class day f hf
    constructor
    · intro hbad
      simp only [List.mem_cons, List.not_mem_nil, or_false] at hbad
      rcases hbad with hbad | hbad | hbad <;> simp [hbad] at hclass
    · intro hinvalid
      simp [hinvalid] at hclass

end Built

/-! A batch over the two checkpoints of the stream. -/

namespace Sample

def noteDigests : List (String × Digest) :=
  [(firstNote.checkpointId, ofHex firstHash), (secondNote.checkpointId, ofHex secondHash)]

def noteHashes : List Digest := [
  ofHex "8a153e246d22f028997d4c824f1d4c0792ecac1540bb3e1b1e3a59c23f08d105",
  ofHex "f2a636266016944a144c9c432e3004ed2c64ee6aa3ec6d570f77819ca6222ec7"]

def notesRoot : String := "1b11d5297d454c929b76a8018a926bf6207748fd27474e9674fd8ef09ea4eaf1"

def batchExternals : Externals := .recorded {
  blake3 := [(0x00 :: bytesOfHex firstHash, noteHashes[0]),
    (0x00 :: bytesOfHex secondHash, noteHashes[1]),
    (0x01 :: noteHashes.flatMap List.Vector.toList, ofHex notesRoot)]
  sha256 := [(bytesOfHex notesRoot,
    ofHex "99d56385ba745f6f85d4f784d2906bf873f1c5fbcd38f3898d5efa84d9c54a11")] }

def heldStreams : Streams := [(firstNote.streamId, { chained with
  checkpointDigests := noteDigests.foldl (fun m c => m.insert c.1 c.2) {} })]

end Sample

theorem built_batches_verify_sample : ∃ batch,
    buildBatch Sample.batchExternals "01BATCH" "2026-08-11T12:15:00.000Z" Sample.noteDigests false =
      .ok batch ∧ BuiltFrom Sample.batchExternals Sample.noteDigests batch ∧
    ∀ f ∈ (verifyAnchors Sample.batchExternals Sample.bundle ⟨[batch], []⟩ Sample.heldStreams {}).2,
      f.findingClass ∉ [.anchorDigestBindingBroken, .anchorInclusionInvalid,
        .anchorLeafMismatch] := by
  obtain ⟨hbuild, hpass⟩ := built_batches_verify Sample.batchExternals
  obtain ⟨batch, hbatch, hfrom⟩ := hbuild "01BATCH" "2026-08-11T12:15:00.000Z" Sample.noteDigests
    false (by decide)
  refine ⟨batch, hbatch, hfrom, fun f hf => (hpass _ _ _ _ ?_ f hf).1⟩
  intro b hb
  obtain rfl := List.mem_singleton.mp hb
  refine ⟨Sample.noteDigests, by decide, ⟨_, _, _, b, b.tsrFile, hbatch, rfl⟩, fun c hc => ?_⟩
  refine ⟨_, List.mem_singleton_self _, ?_, fun t ht _ => List.mem_singleton.mp ht⟩
  revert c
  decide

end Sealr.Verify
