import Sealr.Verify.Counters

/-!
# One stream at a time

A bundle with several streams is verified as these streams are, each by itself (`parts_compose`):
the findings are those of the parts, the verdict is the worst of theirs, and the counters add up.
One stream can neither hide a finding of another nor cause one there. The one thing the streams
share is the search for the checkpoint of an inclusion, which goes by id and ends at the first
stream that knows it, so an id must not occur in the files of two streams.
-/

namespace Sealr.Verify

open Lib Evidence Bundle

/-- The bundle with its scope cut down to one stream. -/
def narrow (reader : BundleReader) (streamId : String) : BundleReader :=
  { reader with manifest := { reader.manifest with scope := { reader.manifest.scope with
    streams := reader.manifest.scope.streams.filter (·.streamId = streamId) } } }

/-- No two streams have checkpoints of one id. -/
def OwnIds (S : Serde) (reader : BundleReader) : Prop :=
  ∀ a ∈ scopeIds reader, ∀ b ∈ scopeIds reader, ∀ x ∈ checkpointsOf S reader a,
    ∀ y ∈ checkpointsOf S reader b,
      x.checkpoint.note.checkpointId = y.checkpoint.note.checkpointId → a = b

/-- The notice that an anchored checkpoint is not in the export. -/
def NotExported (f : Finding) : Prop :=
  f.severity = .info ∧ f.findingClass = .anchorCheckpointNotInExport

/-- The leaf of an inclusion as it is compared. -/
def leafOf (E : Externals) (inc : CheckpointInclusion) : Digest :=
  (hexDecodeDigest E "inclusion.leaf" inc.leaf).toOption.getD (.replicate 32 0)

section Narrow

variable {E : Externals} {S : Serde} {now : Int} {reader : BundleReader} {opts : VerifyOptions}
  {streamId : String}

theorem mem_scopeIds_narrow (h : streamId ∈ scopeIds reader) {sid : String} :
    sid ∈ scopeIds (narrow reader streamId) ↔ sid = streamId := by
  obtain ⟨scope, hscope, rfl⟩ := List.mem_map.mp h
  simp only [scopeIds, narrow, List.mem_map, List.mem_filter, decide_eq_true_eq]
  constructor
  · rintro ⟨other, ⟨-, hid⟩, rfl⟩
    exact hid
  · rintro rfl
    exact ⟨scope, ⟨hscope, rfl⟩, rfl⟩

theorem ownIds_narrow (h : streamId ∈ scopeIds reader) : OwnIds S (narrow reader streamId) := by
  intro a ha b hb _ _ _ _ _
  exact ((mem_scopeIds_narrow h).mp ha).trans ((mem_scopeIds_narrow h).mp hb).symm

/-- The passes over the container and the identity files do not look at the scope. -/
theorem shared_narrow :
    containerFindings E (narrow reader streamId) = containerFindings E reader ∧
      identityPass E S (opts.nowUnix.getD now) (narrow reader streamId) opts =
        identityPass E S (opts.nowUnix.getD now) reader opts := ⟨rfl, rfl⟩

end Narrow

/-! ## The search for a checkpoint -/

section Search

variable {E : Externals} {S : Serde} {now : Int} {reader : BundleReader} {opts : VerifyOptions}
  {sid cpId : String} {d : Digest}

/-- A checkpoint that a stream knows by its id is in the stream's file. -/
theorem exists_of_digest {trust : Identity}
    (h : (checkedData E S reader trust sid).checkpointDigests[cpId]? = some d) :
    ∃ bc ∈ checkpointsOf S reader sid, bc.checkpoint.note.checkpointId = cpId := by
  have hunchecked := verifyStreamChain_unchecked E S reader sid
  have hlookup := (@turns_lookup E sid trust (verifyStreamChain E S reader sid).1.hashesBySeq
    (verifyStreamChain E S reader sid).1 (checkpointsOf S reader sid)
    hunchecked.validCheckpointRanges hunchecked.checkpointDigests cpId).2
  obtain ⟨bc, hlast, -⟩ := Option.map_eq_some_iff.mp (hlookup.symm.trans h)
  obtain ⟨hmem, -, hid⟩ := lastAccepted_spec _ hlast
  exact ⟨bc, hmem, hid⟩

/-- The search finds the stream that knows the checkpoint, whatever streams come before it. -/
theorem findSome?_checkedStreams (hown : OwnIds S reader) :
    ((checkedStreams E S now reader opts).findSome? fun s =>
        (s.2.checkpointDigests[cpId]?).map fun d => (s.1, d)) = some (sid, d) ↔
      sid ∈ scopeIds reader ∧
        (checkedData E S reader (trustOf E S now reader opts) sid).checkpointDigests[cpId]? =
          some d := by
  have hfound : ∀ sid d, ((checkedStreams E S now reader opts).findSome? fun s =>
      (s.2.checkpointDigests[cpId]?).map fun d => (s.1, d)) = some (sid, d) →
        sid ∈ scopeIds reader ∧
          (checkedData E S reader (trustOf E S now reader opts) sid).checkpointDigests[cpId]? =
            some d := by
    intro sid d h
    obtain ⟨s, hs, hs'⟩ := List.exists_of_findSome?_eq_some h
    obtain ⟨d', hd, heq⟩ := Option.map_eq_some_iff.mp hs'
    obtain ⟨rfl, rfl⟩ := Prod.mk.inj heq
    obtain ⟨hscope, hdata⟩ := mem_checkpointPass.mp hs
    rw [hdata] at hd
    exact ⟨hscope, hd⟩
  refine ⟨hfound sid d, ?_⟩
  rintro ⟨hscope, hd⟩
  cases hfind : (checkedStreams E S now reader opts).findSome? fun s =>
      (s.2.checkpointDigests[cpId]?).map fun d => (s.1, d) with
  | none =>
    have hmem : (sid, checkedData E S reader (trustOf E S now reader opts) sid) ∈
        checkedStreams E S now reader opts := mem_checkpointPass.mpr ⟨hscope, rfl⟩
    have hmiss := List.findSome?_eq_none_iff.mp hfind _ hmem
    rw [hd] at hmiss
    cases hmiss
  | some found =>
    -- both streams have the id in their files, so they are one
    obtain ⟨hscope', hd'⟩ := hfound found.1 found.2 hfind
    obtain ⟨x, hx, hxid⟩ := exists_of_digest hd
    obtain ⟨y, hy, hyid⟩ := exists_of_digest hd'
    obtain rfl := hown sid hscope found.1 hscope' x hx y hy (hxid.trans hyid.symm)
    obtain rfl := Option.some.inj (hd.symm.trans hd')
    rfl

/-- What an inclusion matches. -/
theorem inclusionMatch_eq_some (hown : OwnIds S reader) {batch : AnchorBatch}
    {inc : CheckpointInclusion} :
    inclusionMatch E (checkedStreams E S now reader opts) batch inc = some (sid, cpId) ↔
      verifyStoredInclusion E inc batch.rootBlake3 = .ok () ∧ inc.checkpointId = cpId ∧
        sid ∈ scopeIds reader ∧
        (checkedData E S reader (trustOf E S now reader opts) sid).checkpointDigests[cpId]? =
          some (leafOf E inc) := by
  unfold inclusionMatch
  cases verifyStoredInclusion E inc batch.rootBlake3 with
  | error e => simp
  | ok u =>
    have hsearch := fun sid d =>
      @findSome?_checkedStreams E S now reader opts sid inc.checkpointId d hown
    dsimp only
    cases hfind : (checkedStreams E S now reader opts).findSome? fun s =>
        (s.2.checkpointDigests[inc.checkpointId]?).map fun d => (s.1, d) with
    | none =>
      simp only [hfind, reduceCtorEq, false_iff] at hsearch ⊢
      rintro ⟨-, rfl, hknown⟩
      exact hsearch _ _ hknown
    | some found =>
      obtain ⟨sid', d'⟩ := found
      simp only [hfind, Option.some.injEq, Prod.mk.injEq] at hsearch
      have hknown := (hsearch sid' d').mp ⟨rfl, rfl⟩
      change (if leafOf E inc = d' then some (sid', inc.checkpointId) else none) = _ ↔ _
      constructor
      · intro h
        split_ifs at h with hleaf
        obtain ⟨rfl, rfl⟩ := Prod.mk.inj (Option.some.inj h)
        exact ⟨rfl, rfl, hknown.1, hleaf ▸ hknown.2⟩
      · rintro ⟨-, rfl, hmem⟩
        obtain ⟨rfl, rfl⟩ := (hsearch sid (leafOf E inc)).mpr hmem
        rw [if_pos rfl]

/-- What an inclusion reports, the notice apart. -/
theorem mem_inclusionStep (hown : OwnIds S reader) {batch : AnchorBatch}
    {matched : List (String × String)} {inc : CheckpointInclusion} {f : Finding}
    (hf : ¬NotExported f) :
    f ∈ (inclusionStep E (checkedStreams E S now reader opts) batch matched inc).2 ↔
      (∃ e, verifyStoredInclusion E inc batch.rootBlake3 = .error e ∧
        f = add .error .anchorInclusionInvalid ("batch " ++ batch.batchId ++ ": checkpoint " ++
          inc.checkpointId ++ ": " ++ e.display E)) ∨
      verifyStoredInclusion E inc batch.rootBlake3 = .ok () ∧
        f = add .error .anchorLeafMismatch ("batch " ++ batch.batchId ++
          ": leaf for checkpoint " ++ inc.checkpointId ++
          " does not match the checkpoint note digest") ∧
        ∃ sid ∈ scopeIds reader, ∃ d, (checkedData E S reader (trustOf E S now reader opts)
          sid).checkpointDigests[inc.checkpointId]? = some d ∧ leafOf E inc ≠ d := by
  unfold inclusionStep
  cases verifyStoredInclusion E inc batch.rootBlake3 with
  | error e => simp
  | ok u =>
    have hsearch := fun sid d =>
      @findSome?_checkedStreams E S now reader opts sid inc.checkpointId d hown
    dsimp only
    cases hfind : (checkedStreams E S now reader opts).findSome? fun s =>
        (s.2.checkpointDigests[inc.checkpointId]?).map fun d => (s.1, d) with
    | none =>
      simp only [hfind, reduceCtorEq, false_iff, not_and] at hsearch
      constructor
      · intro h
        rw [List.mem_singleton.mp h] at hf
        exact absurd ⟨rfl, rfl⟩ hf
      · rintro (⟨e, he, -⟩ | ⟨-, -, sid, hscope, d, hd, -⟩)
        · cases he
        · exact absurd hd (hsearch sid d hscope)
    | some found =>
      obtain ⟨sid', d'⟩ := found
      simp only [hfind, Option.some.injEq, Prod.mk.injEq] at hsearch
      have hknown := (hsearch sid' d').mp ⟨rfl, rfl⟩
      change f ∈ (if leafOf E inc = d' then _ else _ : List (String × String) × List Finding).2 ↔ _
      constructor
      · intro h
        split_ifs at h with hleaf
        · cases h
        · exact .inr ⟨rfl, List.mem_singleton.mp h, sid', hknown.1, d', hknown.2, hleaf⟩
      · rintro (⟨e, he, -⟩ | ⟨-, rfl, sid, hscope, d, hd, hleaf⟩)
        · cases he
        · obtain ⟨rfl, rfl⟩ := (hsearch sid d).mpr ⟨hscope, hd⟩
          rw [if_neg hleaf]
          exact List.mem_singleton_self _

end Search

/-! ## The passes over the streams -/

section Passes

variable {E : Externals} {S : Serde} {now : Int} {reader : BundleReader} {opts : VerifyOptions}
  {streamId : String}

theorem inclusionStep_snd {streams : Streams} (batch : AnchorBatch)
    (matched matched' : List (String × String)) (inc : CheckpointInclusion) :
    (inclusionStep E streams batch matched inc).2 =
      (inclusionStep E streams batch matched' inc).2 := by
  unfold inclusionStep
  cases verifyStoredInclusion E inc batch.rootBlake3 with
  | error e => rfl
  | ok u =>
    dsimp only
    cases streams.findSome? fun s =>
        (s.2.checkpointDigests[inc.checkpointId]?).map fun d => (s.1, d) with
    | none => rfl
    | some found =>
      dsimp only
      split_ifs <;> rfl

/-- The token of a batch reports the same whatever the batch matches. -/
theorem tokenStep_matched (st : AnchorState) (batch : AnchorBatch)
    (matched matched' : List (String × String)) :
    (tokenStep E reader st batch matched).2 = (tokenStep E reader st batch matched').2 := by
  unfold tokenStep
  cases batch.tsrFile with
  | none => rfl
  | some path =>
    dsimp only
    cases hexDecodeDigest E "root_sha256" batch.rootSha256 with
    | error e => rfl
    | ok sha =>
      dsimp only
      cases batchToken E reader batch sha path <;> rfl

/-- What a batch reports: its own check, or else its inclusions and its token. -/
theorem mem_batchFindings {streams : Streams} {batch : AnchorBatch} {f : Finding} :
    f ∈ batchFindings E reader streams batch ↔ checkBatch E batch = some f ∨
      checkBatch E batch = none ∧
        ((∃ inc ∈ batch.checkpoints, f ∈ (inclusionStep E streams batch [] inc).2) ∨
          f ∈ (tokenStep E reader ⟨none, []⟩ batch []).2) := by
  have hincs : (foldLog (inclusionStep E streams batch) [] batch.checkpoints).2 =
      batch.checkpoints.flatMap fun inc => (inclusionStep E streams batch [] inc).2 :=
    foldLog_reports (fun matched inc => inclusionStep_snd batch matched [] inc) [] _
  unfold batchFindings batchStep
  cases checkBatch E batch with
  | some g =>
    rw [List.mem_singleton]
    simp [eq_comm]
  | none =>
    dsimp only
    rw [hincs, tokenStep_snd _ ⟨none, []⟩, tokenStep_matched _ batch _ [], List.mem_append,
      List.mem_flatMap]
    simp

/-- What the anchors report, the notices apart, is what they report on the single streams. -/
theorem mem_anchorFindings (hown : OwnIds S reader) (hne : scopeIds reader ≠ [])
    {keys : ConsoleKeys} {f : Finding} (hf : ¬NotExported f) :
    f ∈ (verifyAnchors E reader (proofsOf S reader) (checkedStreams E S now reader opts) keys).2 ↔
      ∃ sid ∈ scopeIds reader, f ∈ (verifyAnchors E (narrow reader sid) (proofsOf S reader)
        (checkedStreams E S now (narrow reader sid) opts) keys).2 := by
  obtain ⟨some_sid, hsome⟩ := List.exists_mem_of_ne_nil _ hne
  simp only [verifyAnchors_findings, List.mem_append, List.mem_flatMap, mem_batchFindings]
  have hinc : ∀ batch inc,
      f ∈ (inclusionStep E (checkedStreams E S now reader opts) batch [] inc).2 ↔
        ∃ sid ∈ scopeIds reader, f ∈ (inclusionStep E
          (checkedStreams E S now (narrow reader sid) opts) batch [] inc).2 := by
    intro batch inc
    rw [mem_inclusionStep hown hf]
    constructor
    · rintro (hbad | ⟨hver, hmsg, sid, hsid, hd⟩)
      · exact ⟨some_sid, hsome, (mem_inclusionStep (ownIds_narrow hsome) hf).mpr (.inl hbad)⟩
      · refine ⟨sid, hsid, (mem_inclusionStep (ownIds_narrow hsid) hf).mpr (.inr ⟨hver, hmsg, ?_⟩)⟩
        exact ⟨sid, (mem_scopeIds_narrow hsid).mpr rfl, hd⟩
    · rintro ⟨sid, hsid, h⟩
      obtain hbad | ⟨hver, hmsg, sid', hsid', hd⟩ :=
        (mem_inclusionStep (ownIds_narrow hsid) hf).mp h
      · exact .inl hbad
      · obtain rfl := (mem_scopeIds_narrow hsid).mp hsid'
        exact .inr ⟨hver, hmsg, sid', hsid, hd⟩
  constructor
  · rintro (⟨batch, hbatch, hcheck | ⟨hcheck, ⟨inc, hmem, h⟩ | htoken⟩⟩ | ⟨day, hday, h⟩)
    · exact ⟨some_sid, hsome, .inl ⟨batch, hbatch, .inl hcheck⟩⟩
    · obtain ⟨sid, hsid, h⟩ := (hinc batch inc).mp h
      exact ⟨sid, hsid, .inl ⟨batch, hbatch, .inr ⟨hcheck, .inl ⟨inc, hmem, h⟩⟩⟩⟩
    · exact ⟨some_sid, hsome, .inl ⟨batch, hbatch, .inr ⟨hcheck, .inr htoken⟩⟩⟩
    · exact ⟨some_sid, hsome, .inr ⟨day, hday, h⟩⟩
  · rintro ⟨sid, hsid, ⟨batch, hbatch, hcheck | ⟨hcheck, ⟨inc, hmem, h⟩ | htoken⟩⟩ | ⟨day, hday, h⟩⟩
    · exact .inl ⟨batch, hbatch, .inl hcheck⟩
    · have hback := (hinc batch inc).mpr ⟨sid, hsid, h⟩
      exact .inl ⟨batch, hbatch, .inr ⟨hcheck, .inl ⟨inc, hmem, hback⟩⟩⟩
    · exact .inl ⟨batch, hbatch, .inr ⟨hcheck, .inr htoken⟩⟩
    · exact .inr ⟨day, hday, h⟩

/-- The data of a stream after all passes. -/
def finalData (E : Externals) (S : Serde) (now : Int) (reader : BundleReader) (opts : VerifyOptions)
    (streamId : String) : StreamData :=
  anchorAll streamId (allMatches E reader (checkedStreams E S now reader opts)
    (proofsOf S reader).batches) (checkedData E S reader (trustOf E S now reader opts) streamId)

theorem mem_anchoredState_iff {s : String × StreamData} :
    s ∈ (anchoredState E S now reader opts).streams ↔
      s.1 ∈ scopeIds reader ∧ s.2 = finalData E S now reader opts s.1 := by
  rw [anchoredState, verifyAnchors_streams, anchorMatched_eq_map, List.mem_map]
  constructor
  · rintro ⟨t, ht, rfl⟩
    obtain ⟨hscope, hdata⟩ := mem_checkpointPass.mp ht
    refine ⟨hscope, ?_⟩
    dsimp only
    rw [hdata]
    rfl
  · rintro ⟨hscope, hdata⟩
    refine ⟨(s.1, checkedData E S reader (trustOf E S now reader opts) s.1),
      mem_checkpointPass.mpr ⟨hscope, rfl⟩, ?_⟩
    exact Prod.ext rfl hdata.symm

/-- A stream ends up with the data that it has by itself. -/
theorem finalData_narrow (hown : OwnIds S reader) (h : streamId ∈ scopeIds reader) :
    finalData E S now (narrow reader streamId) opts streamId =
      finalData E S now reader opts streamId := by
  have hmatch : ∀ cpId, (streamId, cpId) ∈ allMatches E (narrow reader streamId)
      (checkedStreams E S now (narrow reader streamId) opts) (proofsOf S reader).batches ↔
        (streamId, cpId) ∈ allMatches E reader (checkedStreams E S now reader opts)
          (proofsOf S reader).batches := by
    intro cpId
    unfold allMatches
    simp only [List.mem_flatMap]
    refine exists_congr fun batch => and_congr_right fun _ => ?_
    change (_ ∈ if (verifiedBatchToken E reader batch).isSome then _ else _) ↔ _
    split_ifs with htoken
    · simp only [batchMatches, List.mem_filterMap, inclusionMatch_eq_some hown,
        inclusionMatch_eq_some (ownIds_narrow h), mem_scopeIds_narrow h, h, true_and]
      rfl
    · rfl
  have hseqs : (finalData E S now (narrow reader streamId) opts streamId).anchoredSeqs =
      (finalData E S now reader opts streamId).anchoredSeqs := by
    ext seq
    unfold finalData
    rw [mem_anchorAll, mem_anchorAll]
    refine or_congr Iff.rfl (and_congr_right fun _ => ?_)
    refine exists_congr fun cpId => exists_congr fun lo => exists_congr fun hi => ?_
    exact and_congr_left fun _ => hmatch cpId
  have hleft : finalData E S now (narrow reader streamId) opts streamId =
      { checkedData E S reader (trustOf E S now reader opts) streamId with
        anchoredSeqs := (finalData E S now (narrow reader streamId) opts streamId).anchoredSeqs } :=
    anchorAll_unanchored
  have hright : finalData E S now reader opts streamId =
      { checkedData E S reader (trustOf E S now reader opts) streamId with
        anchoredSeqs := (finalData E S now reader opts streamId).anchoredSeqs } :=
    anchorAll_unanchored
  rw [hleft, hright, hseqs]

/-- **The findings of a bundle are those of its streams**, the notices apart. -/
theorem mem_findings_narrow (hown : OwnIds S reader) (hne : scopeIds reader ≠ []) {f : Finding}
    (hf : ¬NotExported f) :
    f ∈ (verifyBundle E S now reader opts).findings ↔ ∃ sid ∈ scopeIds reader,
      f ∈ (verifyBundle E S now (narrow reader sid) opts).findings := by
  obtain ⟨some_sid, hsome⟩ := List.exists_mem_of_ne_nil _ hne
  have hcheck : ∀ r : BundleReader, f ∈ (checkpointPass E S r (trustOf E S now r opts)
      (chainPass E S r).1).2 ↔ ∃ sid ∈ scopeIds r, f ∈ (checkpointTurn E S r
        (trustOf E S now r opts) (sid, (verifyStreamChain E S r sid).1)).2 := by
    intro r
    unfold checkpointPass
    rw [List.mem_flatMap]
    constructor
    · rintro ⟨⟨sid, data⟩, hs, h⟩
      obtain ⟨hsid, rfl⟩ := mem_chainPass.mp hs
      exact ⟨sid, hsid, h⟩
    · rintro ⟨sid, hsid, h⟩
      exact ⟨(sid, _), mem_chainPass.mpr ⟨hsid, rfl⟩, h⟩
  have hcover : ∀ r : BundleReader,
      f ∈ (coveragePass opts (anchoredState E S now r opts).streams).2 ↔
        ∃ sid ∈ scopeIds r, f ∈ coverageFindings opts sid (finalData E S now r opts sid) := by
    intro r
    unfold coveragePass
    rw [List.mem_flatMap]
    constructor
    · rintro ⟨⟨sid, data⟩, hs, h⟩
      obtain ⟨hsid, hdata⟩ := mem_anchoredState_iff.mp hs
      dsimp only at hdata h
      exact ⟨sid, hsid, hdata ▸ h⟩
    · rintro ⟨sid, hsid, h⟩
      exact ⟨(sid, _), mem_anchoredState_iff.mpr ⟨hsid, rfl⟩, h⟩
  simp only [findings_verifyBundle, List.mem_append, mem_chainPass_findings, hcheck, hcover]
  constructor
  · rintro (((((h | h) | ⟨sid, hsid, h⟩) | ⟨sid, hsid, h⟩) | h) | ⟨sid, hsid, h⟩)
    · exact ⟨some_sid, hsome, .inl (.inl (.inl (.inl (.inl h))))⟩
    · exact ⟨some_sid, hsome, .inl (.inl (.inl (.inl (.inr h))))⟩
    · refine ⟨sid, hsid, .inl (.inl (.inl (.inr ⟨sid, ?_, h⟩)))⟩
      exact (mem_scopeIds_narrow hsid).mpr rfl
    · refine ⟨sid, hsid, .inl (.inl (.inr ⟨sid, ?_, h⟩))⟩
      exact (mem_scopeIds_narrow hsid).mpr rfl
    · obtain ⟨sid, hsid, h⟩ := (mem_anchorFindings hown hne hf).mp h
      exact ⟨sid, hsid, .inl (.inr h)⟩
    · refine ⟨sid, hsid, .inr ⟨sid, (mem_scopeIds_narrow hsid).mpr rfl, ?_⟩⟩
      rw [finalData_narrow hown hsid]
      exact h
  · rintro ⟨sid, hsid, h⟩
    rcases h with ((((h | h) | ⟨sid', hsid', h⟩) | ⟨sid', hsid', h⟩) | h) | ⟨sid', hsid', h⟩
    · exact .inl (.inl (.inl (.inl (.inl h))))
    · exact .inl (.inl (.inl (.inl (.inr h))))
    · obtain rfl := (mem_scopeIds_narrow hsid).mp hsid'
      exact .inl (.inl (.inl (.inr ⟨sid', hsid, h⟩)))
    · obtain rfl := (mem_scopeIds_narrow hsid).mp hsid'
      exact .inl (.inl (.inr ⟨sid', hsid, h⟩))
    · exact .inl (.inr ((mem_anchorFindings hown hne hf).mpr ⟨sid, hsid, h⟩))
    · obtain rfl := (mem_scopeIds_narrow hsid).mp hsid'
      rw [finalData_narrow hown hsid] at h
      exact .inr ⟨sid', hsid, h⟩

end Passes

/-! ## The report -/

section Report

variable {E : Externals} {S : Serde} {now : Int} {reader : BundleReader} {opts : VerifyOptions}

/-- A sum over the streams of the final state. -/
theorem sum_finalData (g : StreamData → Nat) :
    ((anchoredState E S now reader opts).streams.map fun s => g s.2).sum =
      ∑ sid ∈ (scopeIds reader).toFinset, g (finalData E S now reader opts sid) := by
  rw [← @sum_anchoredState E S now reader opts fun sid => g (finalData E S now reader opts sid)]
  refine congrArg List.sum (List.map_congr_left fun s hs => ?_)
  rw [(mem_anchoredState_iff.mp hs).2]

/-- What the streams add up to is what they have by themselves. -/
theorem sum_narrow (hown : OwnIds S reader) (g : StreamData → Nat) :
    ((anchoredState E S now reader opts).streams.map fun s => g s.2).sum =
      ∑ sid ∈ (scopeIds reader).toFinset,
        ((anchoredState E S now (narrow reader sid) opts).streams.map fun s => g s.2).sum := by
  rw [sum_finalData]
  refine Finset.sum_congr rfl fun sid hsid => ?_
  have hscope := List.mem_toFinset.mp hsid
  have hone : (scopeIds (narrow reader sid)).toFinset = {sid} := by
    ext x
    rw [List.mem_toFinset, mem_scopeIds_narrow hscope, Finset.mem_singleton]
  rw [sum_finalData, hone, Finset.sum_singleton, finalData_narrow hown hscope]

/-- **Verification is compositional over streams**: of a bundle with streams that do not share
checkpoint ids, the verdict is the worst of the verdicts on its streams, a finding is reported
exactly when it is reported on one of them, the counters are the sums of theirs, and the earliest
anchor is the one that each of them has. -/
theorem parts_compose (hown : OwnIds S reader) (hne : scopeIds reader ≠ []) :
    (∀ f, ¬NotExported f → (f ∈ (verifyBundle E S now reader opts).findings ↔
      ∃ sid ∈ scopeIds reader, f ∈ (verifyBundle E S now (narrow reader sid) opts).findings)) ∧
    ((verifyBundle E S now reader opts).result = .fail ↔
      ∃ sid ∈ scopeIds reader, (verifyBundle E S now (narrow reader sid) opts).result = .fail) ∧
    ((verifyBundle E S now reader opts).result = .pass ↔
      ∀ sid ∈ scopeIds reader, (verifyBundle E S now (narrow reader sid) opts).result = .pass) ∧
    (verifyBundle E S now reader opts).proven.records = ∑ sid ∈ (scopeIds reader).toFinset,
      (verifyBundle E S now (narrow reader sid) opts).proven.records ∧
    (verifyBundle E S now reader opts).proven.attestedRecords =
      ∑ sid ∈ (scopeIds reader).toFinset,
        (verifyBundle E S now (narrow reader sid) opts).proven.attestedRecords ∧
    (verifyBundle E S now reader opts).proven.anchoredRecords =
      ∑ sid ∈ (scopeIds reader).toFinset,
        (verifyBundle E S now (narrow reader sid) opts).proven.anchoredRecords ∧
    ∀ sid ∈ scopeIds reader, (verifyBundle E S now (narrow reader sid) opts).proven.earliestAnchor =
      (verifyBundle E S now reader opts).proven.earliestAnchor := by
  have hfindings := fun f hf => @mem_findings_narrow E S now reader opts hown hne f hf
  refine ⟨hfindings, ?_, ?_, ?_, ?_, ?_, ?_⟩
  · simp only [result_verifyBundle, computeResult_eq_fail]
    constructor
    · rintro ⟨f, hf, herr⟩
      obtain ⟨sid, hsid, hmem⟩ := (hfindings f (by simp [NotExported, herr])).mp hf
      exact ⟨sid, hsid, f, hmem, herr⟩
    · rintro ⟨sid, hsid, f, hf, herr⟩
      exact ⟨f, (hfindings f (by simp [NotExported, herr])).mpr ⟨sid, hsid, hf⟩, herr⟩
  · simp only [result_verifyBundle, computeResult_eq_pass]
    constructor
    · intro h sid hsid f hf
      by_contra hloud
      exact hloud (h f ((hfindings f fun hn => hloud hn.1).mpr ⟨sid, hsid, hf⟩))
    · intro h f hf
      by_contra hloud
      obtain ⟨sid, hsid, hmem⟩ := (hfindings f fun hn => hloud hn.1).mp hf
      exact hloud (h sid hsid f hmem)
  · have hsum : ∀ r : BundleReader, (verifyBundle E S now r opts).proven.records =
        ((anchoredState E S now r opts).streams.map fun s => s.2.hashesBySeq.size).sum := fun r =>
      (foldl_addProven (anchoredState E S now r opts).streams .default).1.trans (Nat.zero_add _)
    simp only [hsum]
    exact sum_narrow hown fun data => data.hashesBySeq.size
  · have hsum : ∀ r : BundleReader, (verifyBundle E S now r opts).proven.attestedRecords =
        ((anchoredState E S now r opts).streams.map fun s => s.2.attestedSeqs.card).sum := fun r =>
      (foldl_addProven (anchoredState E S now r opts).streams .default).2.trans (Nat.zero_add _)
    simp only [hsum]
    exact sum_narrow hown fun data => data.attestedSeqs.card
  · have hsum : ∀ r : BundleReader, (verifyBundle E S now r opts).proven.anchoredRecords =
        ((anchoredState E S now r opts).streams.map fun s => s.2.anchoredSeqs.card).sum := fun r =>
      (anchoredRecords_addProven (anchoredState E S now r opts).streams .default).trans
        (Nat.zero_add _)
    simp only [hsum]
    exact sum_narrow hown fun data => data.anchoredSeqs.card
  · intro sid _
    have hearliest : ∀ r : BundleReader, (verifyBundle E S now r opts).proven.earliestAnchor =
        (genTimes E r (proofsOf S r)).foldl lowerEarliest none := fun r =>
      verifyAnchors_earliest _ _ _
    rw [hearliest, hearliest]
    rfl

end Report

/-! The bundle that passes, with a second stream in its scope. -/

namespace Sample

def twoStreams : BundleReader := { bundle with manifest := { bundle.manifest with scope :=
  ⟨.full, none, none, [], [⟨Evidence.Sample.opened.streamId, 0, 0, 1⟩, ⟨absentStream, 0, 0, 0⟩]⟩ } }

theorem twoStreams_ownIds : OwnIds bundleDocuments.serde twoStreams := by
  have habsent : checkpointsOf bundleDocuments.serde twoStreams absentStream = [] := rfl
  intro a ha b hb x hx y hy _
  have hids : ∀ sid ∈ scopeIds twoStreams,
      ∀ bc ∈ checkpointsOf bundleDocuments.serde twoStreams sid,
        sid = Evidence.Sample.opened.streamId := by
    intro sid hsid bc hbc
    obtain rfl | hsid := List.mem_cons.mp hsid
    · rfl
    · rw [List.mem_singleton.mp hsid] at hbc
      cases habsent ▸ hbc
  rw [hids a ha x hx, hids b hb y hy]

end Sample

/-- The verdict on the two streams. -/
theorem parts_compose_sample :
    (verifyBundle Sample.bundleExternals Sample.bundleDocuments.serde 0 Sample.twoStreams
        Sample.options).result = .fail ↔
      ∃ sid ∈ scopeIds Sample.twoStreams, (verifyBundle Sample.bundleExternals
        Sample.bundleDocuments.serde 0 (narrow Sample.twoStreams sid) Sample.options).result =
          .fail :=
  (parts_compose Sample.twoStreams_ownIds (List.cons_ne_nil _ _)).2.1

end Sealr.Verify
