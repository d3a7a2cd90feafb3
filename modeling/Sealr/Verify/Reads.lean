import Sealr.Verify.Soundness

/-!
# What the verifier reads

After the content hashes, the verifier reads entries of the container by name: fixed names, names
made from the stream ids in scope, and names that the index and `anchors/proofs.json` mention.
`Reads` says which names it reads, and as what. Two containers that agree on the names that are read
are verified alike.
-/

namespace Sealr.Verify

open Lib Evidence Bundle

/-- The root of a day is the root over its batch roots. -/
def DayRecomputes (E : Externals) (day : DailyRoot) : Prop :=
  ∃ leaves, decodeBatchRoots E day.batchRoots = .ok leaves ∧
    hexEncode (merkleRoot E (leaves.map List.Vector.toList)).toList = day.rootBlake3

/-- What an entry is read as. -/
inductive Role where
  | certs | revocations | roots | index | shard | checkpoints | proofs | token

/-- The revocation list as `identity` reads it: an absent file is no list. -/
def readRevocations (S : Serde) (reader : BundleReader) : BResult (Option SignedRevocationList) :=
  match readEntry reader.zip "identity/revocations.json" with
  | .ok bytes => (decode S.revocationList bytes).map some
  | .error (.missingEntry _) => .ok none
  | .error e => .error e

theorem readRevocations_of_read {S : Serde} {reader : BundleReader} {bytes : Bytes}
    {list : SignedRevocationList}
    (hread : readEntry reader.zip "identity/revocations.json" = .ok bytes)
    (h : S.revocationList bytes = .ok list) : readRevocations S reader = .ok (some list) := by
  unfold readRevocations
  rw [hread]
  dsimp only
  rw [decode_eq_ok.mpr h]
  rfl

/-- The verifier reads the entry of a name. -/
inductive Reads (E : Externals) (S : Serde) (reader : BundleReader) : Role → String → Prop where
  | certs : Reads E S reader .certs "identity/certs.pem"
  | revocations {bytes : Bytes} {text : List Char}
      (hcerts : readEntry reader.zip "identity/certs.pem" = .ok bytes)
      (htext : utf8Decode bytes = some text) :
      Reads E S reader .revocations "identity/revocations.json"
  | roots {bytes : Bytes} {text : List Char} {revs : Option SignedRevocationList}
      (hcerts : readEntry reader.zip "identity/certs.pem" = .ok bytes)
      (htext : utf8Decode bytes = some text) (hrevs : readRevocations S reader = .ok revs) :
      Reads E S reader .roots "identity/roots.json"
  | index {streamId : String} {verifier : StreamVerifier} (hscope : streamId ∈ scopeIds reader)
      (hnew : StreamVerifier.new E streamId = .ok verifier) :
      Reads E S reader .index "records/index.json"
  | shard {streamId shard : String} {verifier : StreamVerifier} {index : RecordIndex}
      {entry : RecordIndexStream} {before after : List String} (hscope : streamId ∈ scopeIds reader)
      (hnew : StreamVerifier.new E streamId = .ok verifier)
      (hindex : reader.recordIndex S = .ok index)
      (hentry : (index.streams.find? fun s => s.streamId = streamId) = some entry)
      (hshards : entry.shards = before ++ shard :: after)
      (hbefore : ∀ s ∈ before, (shardLines E reader.zip s).2 = none) :
      Reads E S reader .shard shard
  | checkpoints {streamId : String} (hscope : streamId ∈ scopeIds reader) :
      Reads E S reader .checkpoints ("checkpoints/" ++ streamId ++ ".json")
  | proofs : Reads E S reader .proofs "anchors/proofs.json"
  | batchToken {batch : AnchorBatch} {path : String} {sha : Digest}
      (hbatch : batch ∈ (proofsOf S reader).batches) (hcheck : checkBatch E batch = none)
      (hpath : batch.tsrFile = some path)
      (hsha : hexDecodeDigest E "root_sha256" batch.rootSha256 = .ok sha) :
      Reads E S reader .token path
  | dayToken {day : DailyRoot} {path : String} {root : Digest}
      (hday : day ∈ (proofsOf S reader).daily) (hrecomputes : DayRecomputes E day)
      (hpath : day.qtsFile = some path)
      (hroot : hexDecodeDigest E "daily.root_blake3" day.rootBlake3 = .ok root) :
      Reads E S reader .token path

/-- Two containers hold the same under a name. -/
def AgreeOn (reader reader' : BundleReader) (name : String) : Prop :=
  reader.zip.byName name = reader'.zip.byName name

section Agree

variable {E : Externals} {S : Serde} {reader reader' : BundleReader} {name streamId : String}

theorem AgreeOn.readEntry (h : AgreeOn reader reader' name) :
    readEntry reader.zip name = readEntry reader'.zip name := by
  unfold Bundle.readEntry
  rw [h]

theorem AgreeOn.shardLines (h : AgreeOn reader reader' name) :
    shardLines E reader.zip name = shardLines E reader'.zip name := by
  unfold Bundle.shardLines
  rw [h]

/-! ## Records -/

theorem recordIndex_agree (h : AgreeOn reader reader' "records/index.json") :
    reader.recordIndex S = reader'.recordIndex S := by
  unfold BundleReader.recordIndex
  rw [h.readEntry]

/-- Shards are read up to the first that fails. -/
theorem shardsLines_agree {shards : List String}
    (h : ∀ before shard after, shards = before ++ shard :: after →
      (∀ s ∈ before, (shardLines E reader.zip s).2 = none) → AgreeOn reader reader' shard) :
    shardsLines E reader.zip shards = shardsLines E reader'.zip shards := by
  induction shards with
  | nil => rfl
  | cons shard shards ih =>
    have hfirst : AgreeOn reader reader' shard := h [] shard shards rfl (by simp)
    unfold shardsLines
    rw [← hfirst.shardLines]
    cases hlines : shardLines E reader.zip shard with
    | mk lines fault =>
      cases fault with
      | some e => rfl
      | none =>
        have hrest := ih fun before s after heq hbefore => h (shard :: before) s after
          (by rw [heq, List.cons_append]) (by
            rw [List.forall_mem_cons]
            exact ⟨by rw [hlines], hbefore⟩)
        simp only [hrest]

theorem readStreamRecords_agree {verifier : StreamVerifier} (hscope : streamId ∈ scopeIds reader)
    (hnew : StreamVerifier.new E streamId = .ok verifier)
    (hindex : ∀ name, Reads E S reader .index name → AgreeOn reader reader' name)
    (hshard : ∀ name, Reads E S reader .shard name → AgreeOn reader reader' name) :
    reader.readStreamRecords E S streamId = reader'.readStreamRecords E S streamId := by
  have hsame := @recordIndex_agree S _ _ (hindex _ (.index hscope hnew))
  unfold BundleReader.readStreamRecords
  rw [← hsame]
  cases hread : reader.recordIndex S with
  | error e => rfl
  | ok index =>
    dsimp only
    cases hentry : index.streams.find? fun s => s.streamId = streamId with
    | none => rfl
    | some entry =>
      apply shardsLines_agree
      intro before shard after hshards hbefore
      exact hshard shard (.shard hscope hnew hread hentry hshards hbefore)

theorem verifyStreamChain_agree (hscope : streamId ∈ scopeIds reader)
    (hindex : ∀ name, Reads E S reader .index name → AgreeOn reader reader' name)
    (hshard : ∀ name, Reads E S reader .shard name → AgreeOn reader reader' name) :
    verifyStreamChain E S reader streamId = verifyStreamChain E S reader' streamId := by
  unfold verifyStreamChain
  cases hnew : StreamVerifier.new E streamId with
  | error e => rfl
  | ok verifier => rw [readStreamRecords_agree hscope hnew hindex hshard]

/-- The chain pass depends on the ids in scope and on what is read for them. -/
theorem chainPass_agree (hids : scopeIds reader = scopeIds reader')
    (hindex : ∀ name, Reads E S reader .index name → AgreeOn reader reader' name)
    (hshard : ∀ name, Reads E S reader .shard name → AgreeOn reader reader' name) :
    chainPass E S reader = chainPass E S reader' := by
  -- the pass as a loop over the ids
  let step (r : BundleReader) (perStream : Std.TreeMap String StreamData) (id : String) :=
    (perStream.insert id (verifyStreamChain E S r id).1, (verifyStreamChain E S r id).2)
  have hpass : ∀ r : BundleReader, foldLog (chainStep E S r) {} r.manifest.scope.streams =
      foldLog (step r) {} (scopeIds r) := fun r => by
    rw [scopeIds, foldLog_map]
    rfl
  have hloop : foldLog (step reader) {} (scopeIds reader) =
      foldLog (step reader') {} (scopeIds reader') := by
    rw [← hids]
    refine foldLog_congr ?_ _
    intro id hid perStream
    simp only [step, verifyStreamChain_agree hid hindex hshard]
  unfold chainPass
  rw [hpass, hpass, hloop]

/-! ## Checkpoints and anchors -/

theorem streamCheckpoints_agree
    (h : AgreeOn reader reader' ("checkpoints/" ++ streamId ++ ".json")) :
    reader.streamCheckpoints S streamId = reader'.streamCheckpoints S streamId := by
  unfold BundleReader.streamCheckpoints
  rw [h.readEntry]

theorem checkpointPass_agree {trust : Identity} {streams : Streams}
    (hstreams : ∀ s ∈ streams, s.1 ∈ scopeIds reader)
    (h : ∀ name, Reads E S reader .checkpoints name → AgreeOn reader reader' name) :
    checkpointPass E S reader trust streams = checkpointPass E S reader' trust streams := by
  have hturn : ∀ s ∈ streams,
      checkpointTurn E S reader trust s = checkpointTurn E S reader' trust s := by
    intro s hs
    unfold checkpointTurn
    rw [streamCheckpoints_agree (h _ (.checkpoints (hstreams s hs)))]
  unfold checkpointPass
  refine Prod.ext ?_ ?_
  · exact List.map_congr_left fun s hs => by rw [hturn s hs]
  · exact List.flatMap_congr fun s hs => by rw [hturn s hs]

theorem proofsOf_agree (h : ∀ name, Reads E S reader .proofs name → AgreeOn reader reader' name) :
    proofsOf S reader = proofsOf S reader' := by
  unfold proofsOf BundleReader.anchorProofs
  rw [(h _ .proofs).readEntry]

theorem batchStep_agree {batch : AnchorBatch} (hbatch : batch ∈ (proofsOf S reader).batches)
    (h : ∀ name, Reads E S reader .token name → AgreeOn reader reader' name) (st : AnchorState) :
    batchStep E reader st batch = batchStep E reader' st batch := by
  unfold batchStep
  cases hcheck : checkBatch E batch with
  | some f => rfl
  | none =>
    dsimp only
    unfold tokenStep
    cases hpath : batch.tsrFile with
    | none => rfl
    | some path =>
      cases hsha : hexDecodeDigest E "root_sha256" batch.rootSha256 with
      | error e => rfl
      | ok sha =>
        have hread := (h path (.batchToken hbatch hcheck hpath hsha)).readEntry
        simp only [batchToken, BundleReader.entryBytes, hread]

theorem dailyStep_agree {day : DailyRoot} (hday : day ∈ (proofsOf S reader).daily)
    (h : ∀ name, Reads E S reader .token name → AgreeOn reader reader' name) {keys : ConsoleKeys}
    (earliest : Option String) :
    dailyStep E reader keys earliest day = dailyStep E reader' keys earliest day := by
  unfold dailyStep
  cases hleaves : decodeBatchRoots E day.batchRoots with
  | error e => rfl
  | ok leaves =>
    dsimp only
    split_ifs with hroot
    · rfl
    · rw [not_not] at hroot
      have hqts : qtsStep E reader earliest day = qtsStep E reader' earliest day := by
        unfold qtsStep
        cases hpath : day.qtsFile with
        | none => rfl
        | some path =>
          cases hraw : hexDecodeDigest E "daily.root_blake3" day.rootBlake3 with
          | error e => rfl
          | ok raw =>
            have hread := (h path (.dayToken hday ⟨leaves, hleaves, hroot⟩ hpath hraw)).readEntry
            simp only [BundleReader.entryBytes, hread]
      rw [hqts]

theorem verifyAnchors_agree {streams : Streams} {keys : ConsoleKeys}
    (h : ∀ name, Reads E S reader .token name → AgreeOn reader reader' name) :
    verifyAnchors E reader (proofsOf S reader) streams keys =
      verifyAnchors E reader' (proofsOf S reader) streams keys := by
  unfold verifyAnchors
  have hbatches : ∀ st, foldLog (batchStep E reader) st (proofsOf S reader).batches =
      foldLog (batchStep E reader') st (proofsOf S reader).batches :=
    foldLog_congr fun batch hbatch st => batchStep_agree hbatch h st
  have hdaily : ∀ earliest, foldLog (dailyStep E reader keys) earliest (proofsOf S reader).daily =
      foldLog (dailyStep E reader' keys) earliest (proofsOf S reader).daily :=
    foldLog_congr fun day hday earliest => dailyStep_agree hday h earliest
  simp only [hbatches, hdaily]

/-! ## Identity -/

/-- `identity` with the certificates read. -/
theorem identity_of_certs {bytes : Bytes} {text : List Char}
    (hcerts : readEntry reader.zip "identity/certs.pem" = .ok bytes)
    (htext : utf8Decode bytes = some text) :
    reader.identity E S = (do
      let revocations ← readRevocations S reader
      let file ← readEntry reader.zip "identity/roots.json"
      let roots ← decode S.rootsFile file
      return ⟨String.ofList text, revocations, roots⟩) := by
  unfold BundleReader.identity readRevocations
  simp only [hcerts, htext, bind, Except.bind, pure, Except.pure]
  cases readEntry reader.zip "identity/revocations.json" with
  | error e => cases e <;> rfl
  | ok list => cases decode S.revocationList list <;> rfl

/-- What it takes to read the identity files. -/
theorem identity_eq_ok {i : BundleIdentity} : reader.identity E S = .ok i ↔
    ∃ bytes text, readEntry reader.zip "identity/certs.pem" = .ok bytes ∧
      utf8Decode bytes = some text ∧ i.certsPem = String.ofList text ∧
      readRevocations S reader = .ok i.revocations ∧
      ∃ file, readEntry reader.zip "identity/roots.json" = .ok file ∧
        decode S.rootsFile file = .ok i.roots := by
  cases hcerts : readEntry reader.zip "identity/certs.pem" with
  | error e => simp [BundleReader.identity, hcerts, bind, Except.bind]
  | ok bytes =>
    cases htext : utf8Decode bytes with
    | none => simp [BundleReader.identity, hcerts, htext, bind, Except.bind]
    | some text =>
      rw [identity_of_certs hcerts htext]
      constructor
      · intro h
        obtain ⟨revs, hrevs, h⟩ := bind_eq_ok.mp h
        obtain ⟨file, hfile, h⟩ := bind_eq_ok.mp h
        obtain ⟨roots, hroots, h⟩ := bind_eq_ok.mp h
        rw [← Except.ok.inj h]
        exact ⟨bytes, text, rfl, htext, rfl, hrevs, file, hfile, hroots⟩
      · intro h
        obtain ⟨bytes', text', hbytes, htext', hpem, hrevs, file, hfile, hroots⟩ := h
        rw [← Except.ok.inj hbytes, htext, Option.some.injEq] at htext'
        refine bind_eq_ok.mpr ⟨_, hrevs, bind_eq_ok.mpr ⟨_, hfile, bind_eq_ok.mpr ⟨_, hroots, ?_⟩⟩⟩
        rw [htext', ← hpem]
        rfl

theorem readRevocations_agree (h : AgreeOn reader reader' "identity/revocations.json") :
    readRevocations S reader = readRevocations S reader' := by
  unfold readRevocations
  rw [h.readEntry]

/-- The identity files of two containers, the revocation list apart. -/
theorem identity_agree_iff {i : BundleIdentity}
    (hcerts : ∀ name, Reads E S reader .certs name → AgreeOn reader reader' name)
    (hroots : ∀ name, Reads E S reader .roots name → AgreeOn reader reader' name)
    {revs revs' : Option SignedRevocationList} (hrevs : readRevocations S reader = .ok revs)
    (hrevs' : readRevocations S reader' = .ok revs') :
    reader.identity E S = .ok { i with revocations := revs } ↔
      reader'.identity E S = .ok { i with revocations := revs' } := by
  have hsame := (hcerts _ .certs).readEntry
  rw [identity_eq_ok, identity_eq_ok, hsame]
  refine exists_congr fun bytes => exists_congr fun text => and_congr_right fun hread =>
    and_congr_right fun htext => and_congr_right fun _ => ?_
  have hroot := (hroots _ (.roots (hsame.trans hread) htext hrevs)).readEntry
  simp only [hrevs, hrevs', hroot, true_and]

theorem identity_toOption_agree
    (h : ∀ role name, Reads E S reader role name → AgreeOn reader reader' name) :
    (reader.identity E S).toOption = (reader'.identity E S).toOption := by
  have hsame := (h _ _ .certs).readEntry
  have hiff : ∀ i, reader.identity E S = .ok i ↔ reader'.identity E S = .ok i := by
    intro i
    rw [identity_eq_ok, identity_eq_ok, hsame]
    refine exists_congr fun bytes => exists_congr fun text => and_congr_right fun hread =>
      and_congr_right fun htext => and_congr_right fun _ => ?_
    rw [← readRevocations_agree (h _ _ (.revocations (hsame.trans hread) htext))]
    refine and_congr_right fun hrevs => ?_
    rw [(h _ _ (.roots (hsame.trans hread) htext hrevs)).readEntry]
  cases hread : reader.identity E S with
  | ok i => rw [(hiff i).mp hread]
  | error e =>
    cases hread' : reader'.identity E S with
    | ok i => rw [(hiff i).mpr hread'] at hread; cases hread
    | error e' => rfl

/-! ## Read on both sides -/

/-- The shards read before one are read on both sides, and to their ends. -/
theorem shardsBefore_both {index : RecordIndex} {entry : RecordIndexStream}
    {verifier : StreamVerifier} (hids : scopeIds reader = scopeIds reader')
    (h : ∀ name, Reads E S reader .shard name → Reads E S reader' .shard name →
      AgreeOn reader reader' name)
    (hscope : streamId ∈ scopeIds reader) (hnew : StreamVerifier.new E streamId = .ok verifier)
    (hindex : reader.recordIndex S = .ok index) (hindex' : reader'.recordIndex S = .ok index)
    (hentry : (index.streams.find? fun s => s.streamId = streamId) = some entry)
    {before : List String} : ∀ after, entry.shards = before ++ after →
      (∀ s ∈ before, (shardLines E reader.zip s).2 = none) →
        ∀ s ∈ before, (shardLines E reader'.zip s).2 = none := by
  -- on the right: the last of the shards is read once those before it have been
  induction before using List.reverseRecOn with
  | nil => simp
  | append_singleton before shard ih =>
    intro after hshards hbefore
    rw [List.append_assoc, List.singleton_append] at hshards
    have hdone : ∀ s ∈ before, (shardLines E reader.zip s).2 = none := fun s hs =>
      hbefore s (List.mem_append_left _ hs)
    have hdone' := ih _ hshards hdone
    have hagree := h shard (.shard hscope hnew hindex hentry hshards hdone)
      (.shard (hids ▸ hscope) hnew hindex' hentry hshards hdone')
    intro s hs
    obtain hs | hs := List.mem_append.mp hs
    · exact hdone' s hs
    · rw [List.mem_singleton.mp hs, ← hagree.shardLines]
      exact hbefore shard (List.mem_append_right _ (List.mem_singleton_self _))

/-- What the one side reads, the other reads too, if the two agree on what both read. -/
theorem reads_both (hids : scopeIds reader = scopeIds reader')
    (h : ∀ role name, Reads E S reader role name → Reads E S reader' role name →
      AgreeOn reader reader' name) {role : Role} (hread : Reads E S reader role name) :
    Reads E S reader' role name := by
  have hcerts' := (h _ _ .certs .certs).readEntry
  have hproofs : proofsOf S reader = proofsOf S reader' := by
    apply @proofsOf_agree E
    rintro name ⟨⟩
    exact h _ _ .proofs .proofs
  cases hread with
  | certs => exact .certs
  | revocations hcerts htext => exact .revocations (hcerts' ▸ hcerts) htext
  | roots hcerts htext hrevs =>
    have hboth := h _ _ (.revocations hcerts htext) (.revocations (hcerts' ▸ hcerts) htext)
    exact .roots (hcerts' ▸ hcerts) htext (readRevocations_agree hboth ▸ hrevs)
  | index hscope hnew => exact .index (hids ▸ hscope) hnew
  | shard hscope hnew hindex hentry hshards hbefore =>
    have hboth := h _ _ (.index hscope hnew) (.index (hids ▸ hscope) hnew)
    have hindex' := (recordIndex_agree hboth).symm.trans hindex
    exact .shard (hids ▸ hscope) hnew hindex' hentry hshards
      (shardsBefore_both hids (h .shard) hscope hnew hindex hindex' hentry _ hshards hbefore)
  | checkpoints hscope => exact .checkpoints (hids ▸ hscope)
  | proofs => exact .proofs
  | batchToken hbatch hcheck hpath hsha => exact .batchToken (hproofs ▸ hbatch) hcheck hpath hsha
  | dayToken hday hrecomputes hpath hroot =>
    exact .dayToken (hproofs ▸ hday) hrecomputes hpath hroot

/-! ## The report -/

theorem proven_verifyBundle {now : Int} {opts : VerifyOptions} :
    (verifyBundle E S now reader opts).proven =
      { (coveragePass opts (anchoredState E S now reader opts).streams).1 with
        earliestAnchor := (anchoredState E S now reader opts).earliest } := rfl

/-- **Only what is read matters**: two containers with one list of ids in scope that agree on the
names that are read are verified alike, their own integrity apart. -/
theorem passes_agree {now : Int} {opts : VerifyOptions} (hids : scopeIds reader = scopeIds reader')
    (h : ∀ role name, Reads E S reader role name → AgreeOn reader reader' name) :
    ∃ passes : List Finding,
      (verifyBundle E S now reader opts).findings = containerFindings E reader ++ passes ∧
        (verifyBundle E S now reader' opts).findings = containerFindings E reader' ++ passes ∧
        (verifyBundle E S now reader opts).proven = (verifyBundle E S now reader' opts).proven := by
  have hidentity : ∀ t, identityPass E S t reader opts = identityPass E S t reader' opts := by
    intro t
    unfold identityPass
    rw [identity_toOption_agree h]
  have hchain : chainPass E S reader = chainPass E S reader' :=
    chainPass_agree hids (h .index) (h .shard)
  have htrust : trustOf E S now reader opts = trustOf E S now reader' opts := by
    unfold trustOf
    rw [hidentity]
  have hscope : ∀ s ∈ (chainPass E S reader).1, s.1 ∈ scopeIds reader := by
    rintro ⟨sid, data⟩ hs
    exact (mem_chainPass.mp hs).1
  have hcheckpoints : ∀ trust, checkpointPass E S reader trust (chainPass E S reader).1 =
      checkpointPass E S reader' trust (chainPass E S reader').1 := by
    intro trust
    rw [← hchain]
    exact checkpointPass_agree hscope (h .checkpoints)
  have hproofs : proofsOf S reader = proofsOf S reader' := proofsOf_agree (h .proofs)
  have hanchors : ∀ streams keys, verifyAnchors E reader (proofsOf S reader) streams keys =
      verifyAnchors E reader' (proofsOf S reader') streams keys := by
    intro streams keys
    rw [← hproofs]
    exact verifyAnchors_agree (h .token)
  have hchecked : checkedStreams E S now reader opts = checkedStreams E S now reader' opts := by
    unfold checkedStreams
    rw [hcheckpoints, htrust]
  have hfinal : anchoredState E S now reader opts = anchoredState E S now reader' opts := by
    unfold anchoredState
    rw [hanchors, hchecked, htrust]
  refine ⟨(identityPass E S (opts.nowUnix.getD now) reader opts).2 ++ ((chainPass E S reader).2 ++
    ((checkpointPass E S reader (trustOf E S now reader opts) (chainPass E S reader).1).2 ++
      ((verifyAnchors E reader (proofsOf S reader) (checkedStreams E S now reader opts)
        (trustOf E S now reader opts).consoleKeys).2 ++
        (coveragePass opts (anchoredState E S now reader opts).streams).2))), ?_, ?_, ?_⟩
  · rw [findings_verifyBundle]
    simp only [List.append_assoc]
  · rw [findings_verifyBundle, hidentity, hcheckpoints, hanchors, hchain, hchecked, hfinal, htrust]
    simp only [List.append_assoc]
  · rw [proven_verifyBundle, proven_verifyBundle, hfinal]

end Agree

/-! What is read of a bundle with the sample index and without anchors. -/

namespace Sample

variable {E : Externals} {S : Serde} {reader : BundleReader} {name : String}

theorem shard_of_reads (hindex : reader.recordIndex S = .ok index)
    (h : Reads E S reader .shard name) : name = shardPath := by
  cases h with
  | shard hscope hnew hread hentry hshards hbefore =>
    obtain rfl := Except.ok.inj (hindex.symm.trans hread)
    rw [List.mem_singleton.mp (List.mem_of_find?_eq_some hentry)] at hshards
    change [shardPath] = _ at hshards
    have hmem : name ∈ [shardPath] := by
      rw [hshards]
      exact List.mem_append_right _ List.mem_cons_self
    exact List.mem_singleton.mp hmem

theorem not_reads_token (hproofs : proofsOf S reader = .default) :
    ¬Reads E S reader .token name := by
  intro h
  cases h with
  | batchToken hbatch => rw [hproofs] at hbatch; cases hbatch
  | dayToken hday => rw [hproofs] at hday; cases hday

theorem name_of_reads {role : Role} (hindex : reader.recordIndex S = .ok index)
    (hproofs : proofsOf S reader = .default)
    (hids : scopeIds reader = [Evidence.Sample.opened.streamId]) (h : Reads E S reader role name) :
    name ≠ "manifest.json" ∧ (role ≠ .revocations → name ≠ "identity/revocations.json") := by
  cases h with
  | revocations => exact ⟨by decide, fun hrole => absurd rfl hrole⟩
  | certs => exact ⟨by decide, fun _ => by decide⟩
  | roots => exact ⟨by decide, fun _ => by decide⟩
  | index => exact ⟨by decide, fun _ => by decide⟩
  | proofs => exact ⟨by decide, fun _ => by decide⟩
  | checkpoints hscope =>
    rw [hids, List.mem_singleton] at hscope
    rw [hscope]
    exact ⟨by decide, fun _ => by decide⟩
  | shard hscope hnew hread hentry hshards hbefore =>
    have hshard := shard_of_reads hindex (.shard hscope hnew hread hentry hshards hbefore)
    rw [hshard]
    exact ⟨by decide, fun _ => by decide⟩
  | batchToken hbatch hcheck hpath hsha =>
    exact absurd (.batchToken hbatch hcheck hpath hsha) (not_reads_token hproofs)
  | dayToken hday hrecomputes hpath hroot =>
    exact absurd (.dayToken hday hrecomputes hpath hroot) (not_reads_token hproofs)

end Sample

end Sealr.Verify
