import Sealr.Verify.Passes

/-!
# What a passing report proves

`pass_sound`: a verdict of `Pass` means that every stream in scope is a hash chain of records in
order, that every one of its records is covered by a signed checkpoint whose root was recomputed,
and that the report counts exactly these records.
-/

namespace Sealr.Verify

open Lib Evidence Bundle

/-- A checkpoint that attests the number `s` over the records `values`. -/
structure Attestation (E : Externals) (trust : Identity) (values : List Json)
    (bc : BundleCheckpoint) (s : UInt64) : Prop where
  signed : ∃ cert, trust.certMap[bc.checkpoint.note.recorderCertFingerprint]? = some cert ∧
    bc.checkpoint.verify E cert.publicKey = .ok ()
  notRevoked : isRevoked E trust.revocations bc.checkpoint.note = false
  inRange : bc.checkpoint.note.seqFrom ≤ s ∧ s ≤ bc.checkpoint.note.seqTo
  recomputed : ∃ hs, List.Forall₂ (fun t h => ∃ v ∈ values, seqOf v = some t ∧
      recordHashOf v = some h) (seqList bc.checkpoint.note.seqFrom bc.checkpoint.note.seqTo) hs ∧
    UInt64.ofNat hs.length = bc.checkpoint.note.treeSize ∧
    merkleRootOfRecordHashes E hs = .ok bc.checkpoint.note.merkleRoot ∧
    hs.getLast? = some bc.checkpoint.note.chainHeadHash

/-- What holds of a stream in scope of a passing report. -/
structure StreamProven (E : Externals) (S : Serde) (reader : BundleReader) (trust : Identity)
    (streamId : String) : Prop where
  parses : ∀ line ∈ (reader.readStreamRecords E S streamId).1, ∃ v, E.fromSlice line = .ok v
  numbered : Numbered E streamId (fileRecords E S reader streamId)
  linked : Linked (fileRecords E S reader streamId)
  attested : ∃ file, reader.streamCheckpoints S streamId = .ok file ∧
    ∀ v ∈ fileRecords E S reader streamId, ∃ s, seqOf v = some s ∧
      ∃ bc ∈ file.checkpoints, Attestation E trust (fileRecords E S reader streamId) bc s

section Coverage

variable {E : Externals} {streamId : String} {trust : Identity} {values : List Json}
  {hashes : Std.TreeMap UInt64 String} {data : StreamData} {cps : List BundleCheckpoint}

theorem attestation_of_attests {bc : BundleCheckpoint} {s : UInt64}
    (hholds : HoldsHashes hashes values) (h : attests E streamId trust hashes bc = true)
    (hrange : bc.checkpoint.note.seqFrom ≤ s ∧ s ≤ bc.checkpoint.note.seqTo) :
    Attestation E trust values bc s := by
  simp only [attests, Bool.and_eq_true] at h
  obtain ⟨-, cert, hcert, hsig, hrev⟩ := signed_iff.mp h.1
  obtain ⟨hs, hroot⟩ := rootVerified_iff.mp h.2
  refine ⟨⟨cert, hcert, hsig⟩, hrev, hrange, hs, ?_, hroot.treeSize, hroot.merkleRoot,
    hroot.chainHead⟩
  exact hroot.exported.imp fun t x ht => (hholds.get t x).mp ht

/-- What is attested is exported. -/
theorem attested_subset (hdata : data.attestedSeqs = ∅) :
    (cps.foldl (turn E streamId trust hashes) data).attestedSeqs ⊆ hashes.keys.toFinset := by
  intro s hs
  rw [mem_turns_attestedSeqs, hdata] at hs
  rcases hs with hs | ⟨bc, -, hatt, hrange⟩
  · simp at hs
  · simp only [attests, Bool.and_eq_true] at hatt
    obtain ⟨xs, hroot⟩ := rootVerified_iff.mp hatt.2
    obtain ⟨i, hi, rfl⟩ := List.getElem_of_mem (mem_seqList.mpr hrange)
    have hget := hroot.exported.get hi (hroot.exported.length_eq ▸ hi)
    have hmem : (seqList bc.checkpoint.note.seqFrom bc.checkpoint.note.seqTo)[i] ∈ hashes := by
      rw [Std.TreeMap.mem_iff_isSome_getElem?]
      exact Option.isSome_iff_exists.mpr ⟨_, hget⟩
    simpa using hmem

theorem unattestedFindings_quiet (h : ∀ f ∈ unattestedFindings streamId data, f.severity = .info) :
    data.hashesBySeq.size ≤ data.attestedSeqs.card := by
  unfold unattestedFindings at h
  dsimp only at h
  split_ifs at h with hpos
  · exact absurd (h _ List.mem_cons_self) (by simp [addAt])
  · omega

/-- When the counts agree, every exported record is attested. -/
theorem attested_eq_keys (hsub : data.attestedSeqs ⊆ data.hashesBySeq.keys.toFinset)
    (hcard : data.hashesBySeq.size ≤ data.attestedSeqs.card) :
    data.attestedSeqs = data.hashesBySeq.keys.toFinset := by
  refine Finset.eq_of_subset_of_card_le hsub ?_
  rw [List.toFinset_card_of_nodup Std.TreeMap.nodup_keys, Std.TreeMap.length_keys]
  exact hcard

theorem foldl_addProven (streams : Streams) (p : Proven) :
    (streams.foldl (fun p s => addProven p s.2) p).records =
        p.records + (streams.map fun s => s.2.hashesBySeq.size).sum ∧
      (streams.foldl (fun p s => addProven p s.2) p).attestedRecords =
        p.attestedRecords + (streams.map fun s => s.2.attestedSeqs.card).sum := by
  induction streams generalizing p with
  | nil => simp
  | cons s streams ih =>
    obtain ⟨hrecords, hattested⟩ := ih (addProven p s.2)
    rw [List.foldl_cons, hrecords, hattested]
    simp only [addProven, List.map_cons, List.sum_cons]
    omega

end Coverage

section Pass

variable {E : Externals} {S : Serde} {now : Int} {reader : BundleReader} {opts : VerifyOptions}

/-- The identity material that a run of the engine uses. -/
def trustOf (E : Externals) (S : Serde) (now : Int) (reader : BundleReader)
    (opts : VerifyOptions) : Identity :=
  (identityPass E S (opts.nowUnix.getD now) reader opts).1

/-- The streams after the checkpoint pass. -/
def checkedStreams (E : Externals) (S : Serde) (now : Int) (reader : BundleReader)
    (opts : VerifyOptions) : Streams :=
  (checkpointPass E S reader (trustOf E S now reader opts) (chainPass E S reader).1).1

def proofsOf (S : Serde) (reader : BundleReader) : AnchorProofs :=
  (reader.anchorProofs S).toOption.getD .default

/-- The streams and the earliest anchor after the anchor pass. -/
def anchoredState (E : Externals) (S : Serde) (now : Int) (reader : BundleReader)
    (opts : VerifyOptions) : AnchorState :=
  (verifyAnchors E reader (proofsOf S reader) (checkedStreams E S now reader opts)
    (trustOf E S now reader opts).consoleKeys).1

/-- A stream of the final state: its data after all passes, up to what is anchored. -/
theorem mem_anchoredState {s : String × StreamData}
    (h : s ∈ (anchoredState E S now reader opts).streams) :
    ∃ t ∈ checkedStreams E S now reader opts, t.1 = s.1 ∧ t.2.unanchored = s.2.unanchored := by
  have hmem : (s.1, s.2.unanchored) ∈ unanchored (anchoredState E S now reader opts).streams :=
    List.mem_map_of_mem h
  rw [anchoredState, unanchored_verifyAnchors] at hmem
  obtain ⟨t, ht, heq⟩ := List.mem_map.mp hmem
  obtain ⟨hid, hdata⟩ := Prod.mk.inj heq
  exact ⟨t, ht, hid, hdata⟩

/-- The anchor pass keeps the streams. -/
theorem fst_anchoredState : (anchoredState E S now reader opts).streams.map Prod.fst =
    (chainPass E S reader).1.map Prod.fst := by
  have hkeep : ∀ streams : Streams, (unanchored streams).map Prod.fst = streams.map Prod.fst := by
    intro streams
    simp [unanchored]
  rw [← hkeep, anchoredState, unanchored_verifyAnchors, hkeep, checkedStreams, checkpointPass,
    List.map_map]
  exact List.map_congr_left fun s _ => checkpointTurn_fst s

/-- The findings of a report, pass by pass. -/
theorem findings_verifyBundle : (verifyBundle E S now reader opts).findings =
    containerFindings E reader ++ (identityPass E S (opts.nowUnix.getD now) reader opts).2 ++
      (chainPass E S reader).2 ++
      (checkpointPass E S reader (trustOf E S now reader opts) (chainPass E S reader).1).2 ++
      (verifyAnchors E reader (proofsOf S reader) (checkedStreams E S now reader opts)
        (trustOf E S now reader opts).consoleKeys).2 ++
      (coveragePass opts (anchoredState E S now reader opts).streams).2 := rfl

theorem result_verifyBundle : (verifyBundle E S now reader opts).result =
    computeResult (verifyBundle E S now reader opts).findings := rfl

theorem containerFindings_ok (h : ∀ f ∈ containerFindings E reader, f.severity ≠ .error) :
    reader.verifyContentHashes E = .ok [] := by
  unfold containerFindings at h
  cases hcontents : reader.verifyContentHashes E with
  | error e =>
    simp only [hcontents, List.mem_append, List.mem_singleton] at h
    exact absurd rfl (h _ (.inr rfl))
  | ok unlisted =>
    cases unlisted with
    | nil => rfl
    | cons path unlisted =>
      simp only [hcontents, List.mem_append, List.map_cons, List.mem_cons] at h
      exact absurd rfl (h _ (.inr (.inl rfl)))

theorem noError_of_unfailed (h : (verifyBundle E S now reader opts).result ≠ .fail) :
    ∀ f ∈ (verifyBundle E S now reader opts).findings, f.severity ≠ .error := by
  rw [result_verifyBundle, Ne, computeResult_eq_fail] at h
  exact fun f hf herr => h ⟨f, hf, herr⟩

/-- A bundle that does not fail is intact. -/
theorem verifyContentHashes_of_unfailed (h : (verifyBundle E S now reader opts).result ≠ .fail) :
    reader.verifyContentHashes E = .ok [] := by
  apply containerFindings_ok
  intro f hf herr
  have hmem : f ∈ (verifyBundle E S now reader opts).findings := by
    rw [findings_verifyBundle]
    simp only [List.mem_append]
    exact .inl (.inl (.inl (.inl (.inl hf))))
  exact noError_of_unfailed h f hmem herr

/-- The verdict, once the identity files are read. -/
theorem trustOf_of_identity {t : Int} {trust : Identity} {fs : List Finding}
    (h : identityPass E S t reader opts = (trust, fs)) (ht : opts.nowUnix = some t) :
    trustOf E S now reader opts = trust := by
  rw [trustOf, ht, Option.getD_some, h]

theorem result_of_identity {t : Int} {trust : Identity} {fs : List Finding}
    (h : identityPass E S t reader opts = (trust, fs)) (ht : opts.nowUnix = some t) :
    (verifyBundle E S now reader opts).result = computeResult (
      let checked := checkpointPass E S reader trust (chainPass E S reader).1
      let anchored := verifyAnchors E reader (proofsOf S reader) checked.1 trust.consoleKeys
      containerFindings E reader ++ fs ++ (chainPass E S reader).2 ++ checked.2 ++ anchored.2 ++
        (coveragePass opts anchored.1.streams).2) := by
  have hpass : identityPass E S (opts.nowUnix.getD now) reader opts = (trust, fs) := by
    rw [ht]
    exact h
  have htrust : trustOf E S now reader opts = trust := trustOf_of_identity h ht
  rw [result_verifyBundle, findings_verifyBundle, anchoredState, checkedStreams, htrust, hpass]

/-- What a passing report says about one stream of its final state. -/
theorem stream_of_pass (h : ∀ f ∈ (verifyBundle E S now reader opts).findings, f.severity = .info)
    {s : String × StreamData} (hs : s ∈ (anchoredState E S now reader opts).streams) :
    StreamProven E S reader (trustOf E S now reader opts) s.1 ∧
      s.2.hashesBySeq.size = (reader.readStreamRecords E S s.1).1.length ∧
      s.2.attestedSeqs.card = (reader.readStreamRecords E S s.1).1.length := by
  rw [findings_verifyBundle] at h
  simp only [List.mem_append] at h
  obtain ⟨t, ht, hid, hdata⟩ := mem_anchoredState hs
  obtain ⟨⟨sid, chained⟩, hchained, rfl⟩ := List.mem_map.mp ht
  obtain ⟨hscope, rfl⟩ := mem_chainPass.mp hchained
  rw [checkpointTurn_fst] at hid
  obtain rfl : sid = s.1 := hid
  -- the chain and the checkpoints of the stream are quiet
  have hchainInfo : ∀ f ∈ (verifyStreamChain E S reader s.1).2, f.severity = .info := fun f hf =>
    h f (.inl (.inl (.inl (.inr (mem_chainPass_findings.mpr ⟨_, hscope, hf⟩)))))
  obtain ⟨hparses, hnum, hlinked, hholds⟩ :=
    verifyStreamChain_quiet (fun f hf => by simp [hf]) hchainInfo
  obtain ⟨file, hfile, hturn⟩ := checkpointTurn_quiet fun f hf =>
    h f (.inl (.inl (.inr (List.mem_flatMap.mpr ⟨_, hchained, hf⟩))))
  rw [hturn] at hdata
  have hhashes : s.2.hashesBySeq = (verifyStreamChain E S reader s.1).1.hashesBySeq :=
    (congrArg StreamData.hashesBySeq hdata).symm.trans (turns_hashes _)
  have hattested : s.2.attestedSeqs = (file.checkpoints.foldl (turn E s.1
      (trustOf E S now reader opts) (verifyStreamChain E S reader s.1).1.hashesBySeq)
      (verifyStreamChain E S reader s.1).1).attestedSeqs :=
    (congrArg StreamData.attestedSeqs hdata).symm
  have hempty := (verifyStreamChain_unchecked E S reader s.1).attestedSeqs
  -- so is its coverage
  have hcovInfo : ∀ f ∈ unattestedFindings s.1 s.2, f.severity = .info := fun f hf =>
    h f (.inr (List.mem_flatMap.mpr ⟨s, hs, by simp [coverageFindings, hf]⟩))
  have hcard := unattestedFindings_quiet hcovInfo
  have hall : s.2.attestedSeqs = s.2.hashesBySeq.keys.toFinset := by
    refine attested_eq_keys ?_ hcard
    rw [hattested, hhashes]
    exact attested_subset hempty
  have hsize : s.2.hashesBySeq.size = (reader.readStreamRecords E S s.1).1.length := by
    rw [hhashes, hholds.size]
    exact length_recordValues hparses
  refine ⟨⟨hparses, hnum, hlinked fun f hf => by simp [hf], file, hfile, fun v hv => ?_⟩, hsize, ?_⟩
  · obtain ⟨view, hview⟩ := hnum.viewed v hv
    refine ⟨view.seq, hview.seq, ?_⟩
    have hmem : view.seq ∈ s.2.attestedSeqs := by
      have hget := (hholds.get _ _).mpr ⟨v, hv, hview.seq, hview.recordHash⟩
      rw [hall, hhashes, List.mem_toFinset, Std.TreeMap.mem_keys,
        Std.TreeMap.mem_iff_isSome_getElem?, hget]
      rfl
    rw [hattested, mem_turns_attestedSeqs, hempty] at hmem
    rcases hmem with hmem | ⟨bc, hbc, hatt, hrange⟩
    · simp at hmem
    · exact ⟨bc, hbc, attestation_of_attests hholds hatt hrange⟩
  · rw [hall, List.toFinset_card_of_nodup Std.TreeMap.nodup_keys, Std.TreeMap.length_keys, hsize]

/-- The final state has the streams in scope. -/
theorem mem_fst_anchoredState {streamId : String} :
    streamId ∈ (anchoredState E S now reader opts).streams.map Prod.fst ↔
      streamId ∈ scopeIds reader := by
  rw [fst_anchoredState]
  constructor
  · intro hmem
    obtain ⟨⟨_, data⟩, hs, rfl⟩ := List.mem_map.mp hmem
    exact (mem_chainPass.mp hs).1
  · intro hmem
    exact List.mem_map.mpr ⟨(streamId, _), mem_chainPass.mpr ⟨hmem, rfl⟩, rfl⟩

/-- A sum over the streams of the final state is one over the distinct streams in scope. -/
theorem sum_anchoredState (f : String → Nat) :
    ((anchoredState E S now reader opts).streams.map fun s => f s.1).sum =
      ∑ streamId ∈ (scopeIds reader).toFinset, f streamId := by
  have hfin : (scopeIds reader).toFinset =
      ((anchoredState E S now reader opts).streams.map Prod.fst).toFinset := by
    ext streamId
    rw [List.mem_toFinset, List.mem_toFinset, mem_fst_anchoredState]
  rw [hfin, List.sum_toFinset _ (fst_anchoredState ▸ chainPass_nodup), List.map_map]
  rfl

/-- The records that the report counts, when every line of a stream is one. -/
theorem records_proven
    (h : ∀ s ∈ (anchoredState E S now reader opts).streams,
      s.2.hashesBySeq.size = (reader.readStreamRecords E S s.1).1.length) :
    (verifyBundle E S now reader opts).proven.records =
      ∑ streamId ∈ (scopeIds reader).toFinset,
        (reader.readStreamRecords E S streamId).1.length := by
  obtain ⟨hrecords, -⟩ := foldl_addProven (anchoredState E S now reader opts).streams .default
  rw [← sum_anchoredState fun streamId => (reader.readStreamRecords E S streamId).1.length]
  refine (hrecords.trans (Nat.zero_add _)).trans (congrArg List.sum ?_)
  exact List.map_congr_left h

theorem attestedRecords_proven
    (h : ∀ s ∈ (anchoredState E S now reader opts).streams,
      s.2.attestedSeqs.card = (reader.readStreamRecords E S s.1).1.length) :
    (verifyBundle E S now reader opts).proven.attestedRecords =
      ∑ streamId ∈ (scopeIds reader).toFinset,
        (reader.readStreamRecords E S streamId).1.length := by
  obtain ⟨-, hattested⟩ := foldl_addProven (anchoredState E S now reader opts).streams .default
  rw [← sum_anchoredState fun streamId => (reader.readStreamRecords E S streamId).1.length]
  refine (hattested.trans (Nat.zero_add _)).trans (congrArg List.sum ?_)
  exact List.map_congr_left h

/-- **Pass soundness.** If the verdict is `Pass`, every distinct stream in scope is a chain of
records in order, every record is attested by a checkpoint of the stream's file, and the record
lines of these streams are the records that the report counts, as records and as attested ones. -/
theorem pass_sound (h : (verifyBundle E S now reader opts).result = .pass) :
    (∀ sid ∈ scopeIds reader, StreamProven E S reader (trustOf E S now reader opts) sid) ∧
      ∑ sid ∈ (scopeIds reader).toFinset, (reader.readStreamRecords E S sid).1.length =
        (verifyBundle E S now reader opts).proven.records ∧
      (verifyBundle E S now reader opts).proven.attestedRecords =
        (verifyBundle E S now reader opts).proven.records := by
  have hinfo := computeResult_eq_pass.mp h
  have hstream := fun s hs => @stream_of_pass E S now reader opts hinfo s hs
  have hrecords := records_proven fun s hs => (hstream s hs).2.1
  have hattested := attestedRecords_proven fun s hs => (hstream s hs).2.2
  refine ⟨fun sid hsid => ?_, hrecords.symm, hattested.trans hrecords.symm⟩
  obtain ⟨s, hs, rfl⟩ := List.mem_map.mp (mem_fst_anchoredState.mpr hsid)
  exact (hstream s hs).1

end Pass

/-! A bundle that passes: one record, its checkpoint, and the identity files. -/

namespace Sample

open Evidence.Sample

def leafDer : Bytes :=
  [0x3081ca307ea003020102020102300506032b6570300f310d300b06035504030c,
    0x04526f6f74301e170d3236303130313030303030305a170d3336303130313030,
    0x303030305a3010310e300c06035504030c057265632d31302a300506032b6570,
    0x0321008139770ea87d175f56a35466c34c7ecccb8d8a91b4ee37a25df60f5b8f,
    0xc9b394300506032b65700341007f84e419dc3a0308986c5045d5b93777a7681c,
    0x0432124ece8249c9fc317e4ec42260fa74a28ba15639275e10ba35c8d3d5fa1e].flatMap (bytesBE 32) ++
    bytesBE 13 0xa2d4bc7e5c1d02f1b8d84e4405

def rootDer : Bytes :=
  [0x3081df308192a003020102020101300506032b6570300f310d300b0603550403,
    0x0c04526f6f74301e170d3236303130313030303030305a170d33363031303130,
    0x30303030305a300f310d300b06035504030c04526f6f74302a300506032b6570,
    0x0321008a88e3dd7409f195fd52db2d3cba5d72ca6709bf1d94121bf3748801b4,
    0x0f6f5ca3133011300f0603551d130101ff040530030101ff300506032b657003,
    0x410069dc1e37edc77f8730a461f9d40e1c93680e2a4c06ad2615d74837f18c03,
    0x99d83b3238c7e0bf25079fdd6d0a71f6a189b0b534844aebcf056fc5ccded892].flatMap (bytesBE 32) ++
    bytesBE 2 0x5e00

def rootName : Bytes := bytesBE 17 0x300f310d300b06035504030c04526f6f74

def leafCert : X509Certificate where
  subject := bytesBE 18 0x3010310e300c06035504030c057265632d31
  issuer := rootName
  commonName := some "rec-1"
  subjectPublicKey := recorderKey.bytes.toList
  notBefore := 1767225600
  notAfter := 2082758400
  basicConstraintsCa := false

def rootCert : X509Certificate where
  subject := rootName
  issuer := rootName
  commonName := some "Root"
  subjectPublicKey :=
    bytesBE 32 0x8a88e3dd7409f195fd52db2d3cba5d72ca6709bf1d94121bf3748801b40f6f5c
  notBefore := 1767225600
  notAfter := 2082758400
  basicConstraintsCa := true

def consolePem : String := "-----BEGIN PUBLIC KEY-----\nMCowBQYDK2VwAyEA7UkoxijRwsbq6QM4kFmVYSlZJzpcY/k2NsFGFKyHN9E=\n-----END PUBLIC KEY-----\n"

def options : VerifyOptions where
  rootPemOverride := some (derToPem rootDer)
  consoleKeyOverride := some consolePem
  nowUnix := some 1786453200
  expectedHighWater := fun _ => none

def roots : RootsFile := ⟨[], []⟩

def checkpointFile : StreamCheckpoints := ⟨opened.streamId, [exported]⟩

/-- The entries of a bundle around a checkpoint file, with the hash of each. -/
def entriesAround (checkpoints : StreamCheckpoints) (hash : String) : List (ZipEntry × String) := [
  (file shardPath (rawFrame line),
    "4d29f36882a97ed0afad58ab1a538439cc0ad81d4883a11e5931fcc433abe34f"),
  (file "records/index.json" (documentBytes index.toJson),
    "a2b1425701139a3256a4f5b7c4d22a8827a3ac4f7bfa02ca642d069e60ce4a8b"),
  (file "checkpoints/000000002D000000000000002D.json" (documentBytes checkpoints.toJson), hash),
  (file "identity/certs.pem" (asBytes (derToPem leafDer)),
    "c12da398cd2def0b988061f054f722dd209090775516b9afa98e6bbaa3e0c71f"),
  (file "identity/roots.json" (documentBytes roots.toJson),
    "08924c00795b2493026020a117ca2759778d403ba82b4f850f9900019a28be8e")]

def entries : List (ZipEntry × String) :=
  entriesAround checkpointFile "f0e39a1a96301b2cd250d40ada7b4fbac0ad0a28a38bbd611ca9a1a5555709c4"

def manifestFor (entries : List (ZipEntry × String)) : Manifest :=
  manifestOf (entries.map fun e => ⟨e.1.name, e.2, UInt64.ofNat e.1.data.length⟩)

/-- A container of hashed entries with a manifest for them is intact. -/
theorem verifyContentHashes_manifestFor {E : Externals} {entries : List (ZipEntry × String)}
    {reader : BundleReader} {bytes : Bytes}
    (hentries : reader.zip.entries = entries.map Prod.fst ++ [file "manifest.json" bytes])
    (hmanifest : reader.manifest = manifestFor entries)
    (hfiles : ∀ e ∈ entries, e.1 = file e.1.name e.1.data)
    (hhashes : ∀ e ∈ entries, blake3Hex E e.1.data = e.2) :
    reader.verifyContentHashes E = .ok [] := by
  rw [BundleReader.verifyContentHashes_eq_nil, hmanifest]
  constructor
  · intro c hc
    obtain ⟨e, he, rfl⟩ := List.mem_map.mp hc
    have hmem : e.1 ∈ reader.zip.entries := by
      rw [hentries]
      exact List.mem_append_left _ (List.mem_map_of_mem he)
    have hread : readEntry reader.zip e.1.name = .ok e.1.data := by
      rw [readEntry, byName_of_mem hmem]
      rw [hfiles e he]
      rfl
    exact ⟨e.1.data, hread, hhashes e he, rfl⟩
  · intro f hf
    rw [hentries, List.mem_append, List.mem_singleton] at hf
    obtain hf | rfl := hf
    · obtain ⟨e, he, rfl⟩ := List.mem_map.mp hf
      refine ⟨by rw [hfiles e he]; rfl, .inr (.inl ?_)⟩
      exact List.mem_map.mpr ⟨_, List.mem_map_of_mem he, rfl⟩
    · exact ⟨rfl, .inl rfl⟩

def bundle : BundleReader where
  zip := ⟨entries.map Prod.fst ++ [file "manifest.json" (documentBytes (manifestFor entries).toJson)],
    by simp [entries, entriesAround, file, shardPath]⟩
  manifest := manifestFor entries

def hashesOf (entries : List (ZipEntry × String)) : List (Bytes × Digest) :=
  entries.map fun e => (e.1.data, ofHex e.2)

def bundleRecording : Externals.Recording := { recording with
  blake3 := recording.blake3 ++ (leafDer, ofHex fingerprint) :: hashesOf entries ++
    [(documentBytes (manifestFor entries).toJson,
      ofHex "7a884994d7b06e3c1b64d1f245b4eadf6094b988b4966163c8e97bdacef8b216")]
  keys := [(.replicate 32 2, recorderKey.bytes), (.replicate 32 3, consoleKey.bytes)]
  keyPems := [(consolePem, consoleKey.bytes)]
  pems := [(asBytes (derToPem leafDer), [⟨"CERTIFICATE", leafDer⟩]),
    (asBytes (derToPem rootDer), [⟨"CERTIFICATE", rootDer⟩])]
  certificates := [(leafDer, leafCert), (rootDer, rootCert)]
  issued := [(leafDer, rootDer), (rootDer, rootDer)]
  frames := [(rawFrame line, line)] }

def bundleExternals : Externals := .recorded bundleRecording

def bundleDocuments : Documents where
  manifests := [manifestFor entries]
  indexes := [index]
  checkpoints := [checkpointFile]
  roots := [roots]

/-- The certificate of the recorder, as it is validated. -/
def validated : ValidatedCert := ⟨"rec-1", recorderKey, fingerprint, 1767225600, 2082758400⟩

/-- The identity of a bundle that carries no revocations. -/
theorem identity_eq {E : Externals} {S : Serde} {reader : BundleReader} {certs : String}
    {roots : RootsFile}
    (hcerts : readEntry reader.zip "identity/certs.pem" = .ok (asBytes certs))
    (hrevs : readEntry reader.zip "identity/revocations.json" =
      .error (.missingEntry "identity/revocations.json"))
    (hroots : readEntry reader.zip "identity/roots.json" = .ok (documentBytes roots.toJson))
    (hread : S.rootsFile (documentBytes roots.toJson) = .ok roots) :
    reader.identity E S = .ok ⟨certs, none, roots⟩ := by
  have htext : utf8Decode (asBytes certs) = some certs.toList := by
    rw [asBytes_eq, utf8Decode_utf8]
  simp only [BundleReader.identity, hcerts, htext, hrevs, hroots, decode, hread, bind, Except.bind,
    pure, Except.pure, String.ofList_toList]

section Identity

variable {r : Externals.Recording}

theorem parsePemChain_eq {der : Bytes}
    (h : r.pems.lookup (asBytes (derToPem der)) = some [⟨"CERTIFICATE", der⟩]) :
    parsePemChain (.recorded r) (derToPem der) = .ok [der] :=
  parsePemChain_blocks h

/-- A certificate can be told from the first characters behind the header. -/
theorem take_derToPem {der : Bytes} (h : 3 ≤ der.length) (rest : List Char) :
    (((derToPem der).toList ++ rest).drop 28).take 4 = (base64Chars der).take 4 := by
  have hheader : "-----BEGIN CERTIFICATE-----\n".toList.length = 28 := by decide
  unfold derToPem
  rw [String.toList_append, String.toList_append, List.append_assoc, List.append_assoc,
    List.drop_left' hheader, String.toList_ofList]
  match der, h with
  | a :: b :: c :: rest, _ =>
    simp only [base64Chars, List.length_cons, pemLines, List.take_succ_cons, List.cons_append,
      List.take_zero]

theorem derToPem_append_ne {a b : Bytes} (ha : 3 ≤ a.length) (hb : 3 ≤ b.length)
    (h : (base64Chars a).take 4 ≠ (base64Chars b).take 4) (rest : List Char) :
    (derToPem a).toList ++ rest ≠ (derToPem b).toList := by
  intro heq
  rw [← take_derToPem ha rest, ← take_derToPem hb [], heq, List.append_nil] at h
  exact h rfl

theorem rootPem_ne_leafPem : derToPem rootDer ≠ derToPem leafDer := by
  intro heq
  refine derToPem_append_ne ?_ ?_ ?_ [] ((List.append_nil _).trans (congrArg String.toList heq))
  all_goals decide +kernel

/-- The leaf validates against every text whose first certificate is its root. -/
theorem validateChain_leaf {text : String}
    (hleafPem : parsePemChain (.recorded r) (derToPem leafDer) = .ok [leafDer])
    (hrootPem : firstCert (.recorded r) text = .ok rootDer)
    (hleafCert : (Externals.recorded r).x509FromDer leafDer = .ok leafCert)
    (hrootCert : (Externals.recorded r).x509FromDer rootDer = .ok rootCert)
    (hsigned : (Externals.recorded r).x509VerifySignature leafDer rootDer = .ok ())
    (hkeys : r.keys = bundleRecording.keys) (hhash : blake3Hex (.recorded r) leafDer = fingerprint) :
    validateChain (.recorded r) (derToPem leafDer) [] text 1786453200 = .ok validated := by
  have hkey : VerifyingKey.fromBytes (.recorded r) leafCert.subjectPublicKey = .ok recorderKey := by
    refine VerifyingKey.fromBytes_toList ?_
    simp [Externals.recorded, hkeys, bundleRecording]
  have hleaf : ∀ what, certFromDer (.recorded r) leafDer what = .ok leafCert := fun what => by
    simp only [certFromDer, hleafCert]
  have hroot : certFromDer (.recorded r) rootDer "root" = .ok rootCert := by
    simp only [certFromDer, hrootCert]
  have hwalk : walkUp (.recorded r) 1786453200 [] rootDer rootCert 8 leafDer = .ok () := by
    have hissuer : leafCert.issuer = rootCert.subject := rfl
    refine bind_eq_ok.mpr ⟨_, hleaf _, ?_⟩
    rw [if_pos hissuer]
    refine bind_eq_ok.mpr ⟨(), ?_, rfl⟩
    rw [verifySignedBy, hsigned]
  have hfirst : firstCert (.recorded r) (derToPem leafDer) = .ok leafDer := firstCert_eq hleafPem
  have hnow : (Externals.recorded r).asn1TimeError 1786453200 = none := rfl
  have hvalid : checkValidity (.recorded r) leafCert 1786453200 "leaf" = .ok () := rfl
  have hvalidRoot : checkValidity (.recorded r) rootCert 1786453200 "root" = .ok () := rfl
  simp only [validateChain, hfirst, hrootPem, parsePool, hleaf, hroot, hnow, hvalid,
    hvalidRoot, hwalk, hkey, hhash, bind, Except.bind, pure, Except.pure]
  rfl

/-- The identity pass of every bundle with these identity files. -/
theorem identityPass_eq {S : Serde} {reader : BundleReader}
    (hpems : r.pems = bundleRecording.pems) (hcerts : r.certificates = bundleRecording.certificates)
    (hissued : r.issued = bundleRecording.issued) (hkeys : r.keys = bundleRecording.keys)
    (hkeyPems : r.keyPems = bundleRecording.keyPems)
    (hhash : blake3Hex (.recorded r) leafDer = fingerprint)
    (hidentity : reader.identity (.recorded r) S = .ok ⟨derToPem leafDer, none, roots⟩) :
    identityPass (.recorded r) S 1786453200 reader options =
      (trust, [add .info .rootSource "root source: --root override"]) := by
  have hneRoot : asBytes (derToPem rootDer) ≠ asBytes (derToPem leafDer) :=
    asBytes_injective.ne rootPem_ne_leafPem
  have hleafPem : parsePemChain (.recorded r) (derToPem leafDer) = .ok [leafDer] :=
    parsePemChain_eq (by rw [hpems]; exact List.lookup_cons_self)
  have hrootPem : firstCert (.recorded r) (derToPem rootDer) = .ok rootDer := by
    refine firstCert_eq (parsePemChain_eq ?_)
    rw [hpems, bundleRecording, List.lookup_cons, beq_false_of_ne hneRoot]
    exact List.lookup_cons_self
  have hdiffer : (rootDer == leafDer) = false := by decide
  have hleafCert : (Externals.recorded r).x509FromDer leafDer = .ok leafCert :=
    x509FromDer_eq (by simp [hcerts, bundleRecording])
  have hrootCert : (Externals.recorded r).x509FromDer rootDer = .ok rootCert :=
    x509FromDer_eq (by simp [hcerts, bundleRecording, List.lookup_cons, hdiffer])
  have hsigned : (Externals.recorded r).x509VerifySignature leafDer rootDer = .ok () := by
    simp [Externals.recorded, hissued, bundleRecording]
  have hchain := validateChain_leaf hleafPem hrootPem hleafCert hrootCert hsigned hkeys hhash
  have hconsole : VerifyingKey.fromSpkiPem (.recorded r) consolePem = .ok consoleKey := by
    simp [VerifyingKey.fromSpkiPem, Externals.recorded, Externals.answer, hkeyPems, bundleRecording]
  simp [identityPass, hidentity, Except.toOption, selectRoots, options, buildCertMap, hleafPem,
    foldLog, certStep, hchain, resolveConsoleKeys, hconsole, revocationFindings, trust, validated]

end Identity

/-- A console key that was passed in is the only one. -/
theorem values_override {E : Externals} {S : Serde} {reader : BundleReader} {k : VerifyingKey}
    (h : VerifyingKey.fromSpkiPem E consolePem = .ok k) :
    (trustOf E S 0 reader options).consoleKeys.values = [k] := by
  have hkeys : (trustOf E S 0 reader options).consoleKeys =
      ({} : ConsoleKeys).insert "override" k := by
    simp [trustOf, identityPass, resolveConsoleKeys, options, h]
  rw [hkeys]
  rfl

theorem bundle_identity : identityPass bundleExternals bundleDocuments.serde 1786453200 bundle
    options = (trust, [add .info .rootSource "root source: --root override"]) :=
  identityPass_eq rfl rfl rfl rfl rfl (by decide)
    (identity_eq rfl rfl rfl (by simp only [bundleDocuments, Documents.serde, readsBack_self]))

theorem bundle_pass :
    (verifyBundle bundleExternals bundleDocuments.serde 0 bundle options).result = .pass := by
  rw [result_of_identity bundle_identity rfl]
  decide +kernel

theorem bundle_ne_fail :
    (verifyBundle bundleExternals bundleDocuments.serde 0 bundle options).result ≠ .fail := by
  rw [bundle_pass]
  decide

end Sample

theorem pass_sound_sample :
    StreamProven Sample.bundleExternals Sample.bundleDocuments.serde Sample.bundle
        (trustOf Sample.bundleExternals Sample.bundleDocuments.serde 0 Sample.bundle
          Sample.options) "000000002D000000000000002D" ∧
      (verifyBundle Sample.bundleExternals Sample.bundleDocuments.serde 0 Sample.bundle
        Sample.options).proven.records =
      (Sample.bundle.readStreamRecords Sample.bundleExternals Sample.bundleDocuments.serde
        "000000002D000000000000002D").1.length := by
  obtain ⟨hstreams, hcount, -⟩ := pass_sound Sample.bundle_pass
  have hscope : scopeIds Sample.bundle = ["000000002D000000000000002D"] := rfl
  rw [hscope] at hstreams hcount
  exact ⟨hstreams _ (List.mem_singleton_self _), by simpa using hcount.symm⟩

end Sealr.Verify
