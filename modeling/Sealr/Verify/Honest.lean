import Sealr.Verify.Soundness

/-!
# Honest streams verify cleanly

The other direction of soundness: records that the writer chained, exported completely, with
checkpoints built, linked, signed and countersigned over consecutive runs of them, are verified
without an error or a warning, and all of them are attested.
-/

namespace Sealr.Verify

open Lib Evidence Bundle

/-- A shard that holds the NDJSON lines of some records. -/
def ShardOf (E : Externals) (zip : ZipArchive) (shard : String) (records : List Record) : Prop :=
  ∃ file lines, zip.byName shard = some file ∧ file.openError = none ∧
    List.Forall₂ (fun r l => Record.toNdjsonLine r = .ok l) records lines ∧
    E.zstdDecode file.data file.readError = .ok (lines.flatten, none)

/-- The bundle exports the records of a stream completely, in shards. -/
def CompleteExport (E : Externals) (S : Serde) (reader : BundleReader) (streamId : String)
    (rs : List Record) : Prop :=
  ∃ index entry shardRecords, reader.recordIndex S = .ok index ∧
    (index.streams.find? fun s => s.streamId = streamId) = some entry ∧
    shardRecords.flatten = rs ∧
    List.Forall₂ (ShardOf E reader.zip) entry.shards shardRecords

/-- Checkpoints over consecutive runs of records: each is built over its run and linked to the
note before it, signed with the key of a known certificate that is not revoked, and countersigned
with a known console key at its own end. -/
inductive HonestCheckpoints (E : Externals) (trust : Identity) :
    Option String → List (List Record) → List BundleCheckpoint → Prop where
  | nil {prev : Option String} : HonestCheckpoints E trust prev [] []
  | cons {prev : Option String} {part : List Record} {parts : List (List Record)}
      {note : CheckpointNote} {checkpoint : SignedCheckpoint} {cs : Countersignature}
      {cps : List BundleCheckpoint} {cpId tsWall fingerprint receivedAt keyId noteHash : String}
      {cert : ValidatedCert} {key consoleKey : SigningKey}
      (hne : part ≠ [])
      (hnote : buildNoteLinked E cpId part tsWall fingerprint prev = .ok note)
      (hcert : trust.certMap[fingerprint]? = some cert)
      (hkey : cert.publicKey = key.verifyingKey E)
      (hrevoked : isRevoked E trust.revocations note = false)
      (hsign : signNote E note key = .ok checkpoint)
      (hcs : Countersignature.create E cpId receivedAt keyId (some note.seqTo) consoleKey = .ok cs)
      (hconsole : consoleKey.verifyingKey E ∈ trust.consoleKeys.values)
      (hhash : note.noteHash E = .ok noteHash)
      (hrest : HonestCheckpoints E trust (some noteHash) parts cps) :
      HonestCheckpoints E trust prev (part :: parts) (⟨checkpoint, some cs⟩ :: cps)

/-! ## Reading the records back -/

section Reading

variable {E : Externals} {S : Serde} {reader : BundleReader} {streamId : String}

/-- A complete shard delivers the JCS bytes of its records. -/
theorem shardLines_of_shardOf {shard : String} {records : List Record}
    (h : ShardOf E reader.zip shard records) :
    ∃ lines, shardLines E reader.zip shard = (lines, none) ∧
      List.Forall₂ (fun r b => toJcsBytes (Record.toJson r) = .ok b) records lines := by
  obtain ⟨file, lines, hfile, hopen, hlines, hdecode⟩ := h
  obtain ⟨bs, hbs, rfl⟩ : ∃ bs : List Bytes,
      List.Forall₂ (fun r b => toJcsBytes (Record.toJson r) = .ok b) records bs ∧
        lines = bs.map (· ++ [0x0a]) := by
    clear hdecode
    induction hlines with
    | nil => exact ⟨[], .nil, rfl⟩
    | cons hl _ ih =>
      obtain ⟨bs, hbs, rfl⟩ := ih
      obtain ⟨b, hb, rfl⟩ := Record.toNdjsonLine_eq_ok.mp hl
      exact ⟨b :: bs, .cons hb hbs, rfl⟩
  refine ⟨bs, ?_, hbs⟩
  have hdelivered : deliveredLines (bs.map (· ++ [0x0a])).flatten none = bs := by
    rw [← List.flatMap_def]
    refine deliveredLines_lines (fun b hb hlf => ?_) fun b hb => ?_
    · obtain ⟨r, -, hr⟩ := Rfc8785.exists_of_mem_forall₂ hbs hb
      exact absurd (le_of_mem_toJcsBytes hr hlf) (by decide)
    · obtain ⟨r, -, hr⟩ := Rfc8785.exists_of_mem_forall₂ hbs hb
      exact Record.toJcsBytes_ne_nil hr
  simp only [shardLines, hfile, hopen, hdecode, hdelivered, Option.map_none]

/-- A complete export delivers the JCS bytes of all records. -/
theorem readStreamRecords_of_export {rs : List Record}
    (h : CompleteExport E S reader streamId rs) :
    ∃ lines, reader.readStreamRecords E S streamId = (lines, none) ∧
      List.Forall₂ (fun r b => toJcsBytes (Record.toJson r) = .ok b) rs lines := by
  obtain ⟨index, entry, shardRecords, hindex, hentry, rfl, hshards⟩ := h
  have hall : ∃ lines, shardsLines E reader.zip entry.shards = (lines, none) ∧
      List.Forall₂ (fun r b => toJcsBytes (Record.toJson r) = .ok b) shardRecords.flatten
        lines := by
    clear hentry
    generalize entry.shards = shards at hshards
    induction hshards with
    | nil => exact ⟨[], rfl, .nil⟩
    | cons hshard _ ih =>
      obtain ⟨rest, hrest, hrecords⟩ := ih
      obtain ⟨lines, hlines, hbs⟩ := shardLines_of_shardOf hshard
      refine ⟨lines ++ rest, ?_, List.rel_append hbs hrecords⟩
      simp only [shardsLines, hlines, hrest]
  obtain ⟨lines, hlines, hrecords⟩ := hall
  refine ⟨lines, ?_, hrecords⟩
  simp only [BundleReader.readStreamRecords, hindex, hentry, hlines]

end Reading

/-! ## The chain pass -/

section ChainPass

variable {E : Externals} {S : Serde} {reader : BundleReader} {stream : Ulid} {rs : List Record}

/-- A record read back from its line. -/
theorem readBack (hE : E.ReadsJson) {r : Record} {b : Bytes} (hb : toJcsBytes r.toJson = .ok b)
    (hhash : r.computeHash E = .ok r.recordHash) :
    ∃ w, E.fromSlice b = .ok w ∧ r.view.Of w ∧ computeHashOfValue E w = .ok r.recordHash := by
  obtain ⟨w, hread, hw⟩ := fromSlice_toJcsBytes hE hb
  refine ⟨w, hread, r.view_of.canon hw, ?_⟩
  obtain ⟨input, hinput, hdigest⟩ := computeHashOfValue_eq_ok.mp hhash
  exact computeHashOfValue_eq_ok.mpr ⟨input, hashInput_canon hw r.view_of.get_recordHash hinput,
    hdigest⟩

theorem collect_gapCount {w : Json} (st : ChainState) (h : recordTypeOf w ≠ "coverage_gap") :
    (collect w st).data.coverageGapCount = st.data.coverageGapCount := by
  have hcount : (collectGap w (collectTs w (collectHash w st.data))).coverageGapCount =
      st.data.coverageGapCount := by
    rw [collectGap, if_neg h]
    unfold collectTs collectHash
    split <;> split <;> rfl
  unfold collect collectSegment
  split <;> exact hcount

theorem RecordType.name_ne_coverageGap {t : RecordType} (h : t ≠ .coverageGap) :
    t.name ≠ "coverage_gap" := by
  cases t <;> first | exact absurd rfl h | decide

/-- Nothing is found on the lines of a slice of an honest chain. -/
theorem foldLog_onLine_honest (hE : E.ReadsJson) {sv : StreamVerifier}
    (hnew : FedInv E stream [] sv) {before : List Record} (h : Chained E stream (before ++ rs))
    (hclock : ReportedClocks E rs) {lines : List Bytes}
    (hlines : List.Forall₂ (fun r b => toJcsBytes (Record.toJson r) = .ok b) rs lines) :
    ∃ st, foldLog (onLine E (E.ulidToString stream)) (chainStart sv) lines = (st, []) ∧
      FedInv E stream rs st.verifier ∧
      ((∀ r ∈ rs, r.recordType ≠ .coverageGap) → st.data.coverageGapCount = 0) := by
  induction rs using List.reverseRecOn generalizing lines with
  | nil =>
    cases hlines
    exact ⟨chainStart sv, rfl, hnew, fun _ => rfl⟩
  | append_singleton rs r ih =>
    rw [← List.append_assoc] at h
    obtain ⟨hrs, hstream, -, -, hhash⟩ := h.concat
    obtain ⟨ls, l, hls, hl, rfl⟩ := forall₂_concat_left hlines
    obtain ⟨st, hfold, hinv, hcount⟩ := ih hrs (hclock.of_infix (List.prefix_append _ _).isInfix) hls
    obtain ⟨w, hread, hview, hcomp⟩ := readBack hE hl hhash
    have hnext := verifyNext_fed hinv hstream hview hcomp
    rw [placeFindings_reported h hinv hclock] at hnext
    have hline : onLine E (E.ulidToString stream) st l =
        (collect w { st with verifier := st.verifier.advance E r.view }, []) := by
      simp only [onLine, hread, hnext, List.map_nil]
    refine ⟨collect w { st with verifier := st.verifier.advance E r.view }, ?_, ?_, ?_⟩
    · rw [foldLog_append, hfold]
      simp only [foldLog, hline, List.append_nil]
    · rw [collect_verifier]
      exact hinv.advance
    · intro hgap
      have htype : recordTypeOf w ≠ "coverage_gap" := by
        have hname : strAt w "record_type" = some r.recordType.name := hview.recordType
        rw [recordTypeOf, hname, Option.getD_some]
        exact RecordType.name_ne_coverageGap (hgap r (by simp))
      rw [collect_gapCount _ htype]
      exact hcount fun x hx => hgap x (List.mem_append_left _ hx)

/-- The values read back have the views of the records. -/
theorem recordValues_views (hE : E.ReadsJson) {lines : List Bytes}
    (hlines : List.Forall₂ (fun r b => toJcsBytes (Record.toJson r) = .ok b) rs lines) :
    List.Forall₂ (fun (r : Record) w => r.view.Of w) rs (recordValues E lines) := by
  induction hlines with
  | nil => exact .nil
  | @cons r b rs lines hb _ ih =>
    obtain ⟨w, hw, hcanon⟩ := fromSlice_toJcsBytes hE hb
    have hvalues : recordValues E (b :: lines) = w :: recordValues E lines := by
      simp [recordValues, hw, Except.toOption]
    rw [hvalues]
    exact .cons (r.view_of.canon hcanon) ih

/-- The chain pass on a slice of an honest stream: no finding, and the hashes of the records. -/
theorem verifyStreamChain_honest (hU : E.UlidRoundTrip) (hE : E.ReadsJson) {before : List Record}
    (h : Chained E stream (before ++ rs)) (hclock : ReportedClocks E rs)
    (hexport : CompleteExport E S reader (E.ulidToString stream) rs) :
    (verifyStreamChain E S reader (E.ulidToString stream)).2 = [] ∧
      ((∀ r ∈ rs, r.recordType ≠ .coverageGap) →
        (verifyStreamChain E S reader (E.ulidToString stream)).1.coverageGapCount = 0) ∧
      (verifyStreamChain E S reader (E.ulidToString stream)).1.hashesBySeq.size = rs.length ∧
      ∀ s x, (verifyStreamChain E S reader (E.ulidToString stream)).1.hashesBySeq[s]? = some x ↔
        ∃ r ∈ rs, r.seq = s ∧ r.recordHash = x := by
  obtain ⟨sv, hnew, hinv⟩ := @new_fedInv E stream hU
  obtain ⟨lines, hread, hlines⟩ := readStreamRecords_of_export hexport
  obtain ⟨st, hfold, -, hcount⟩ := foldLog_onLine_honest hE hinv h hclock hlines
  have hfindings : (verifyStreamChain E S reader (E.ulidToString stream)).2 = [] := by
    simp only [verifyStreamChain, hnew, hread, hfold, List.append_nil]
  have hgaps : (∀ r ∈ rs, r.recordType ≠ .coverageGap) →
      (verifyStreamChain E S reader (E.ulidToString stream)).1.coverageGapCount = 0 := by
    intro hgap
    simp only [verifyStreamChain, hnew, hread, hfold]
    exact hcount hgap
  -- without findings the hashes are those of the values read, which are the records
  obtain ⟨hparses, -, -, hholds⟩ := @verifyStreamChain_quiet E S reader (E.ulidToString stream)
    (fun f => f.severity = .info) (fun f hf => by simp [hf]) (by simp [hfindings])
  have hviews := recordValues_views hE hlines
  rw [hread] at hholds hparses
  refine ⟨hfindings, hgaps, ?_, fun s x => ?_⟩
  · rw [hholds.size, hviews.length_eq]
  · rw [hholds.get]
    constructor
    · rintro ⟨w, hw, hseq, hhash⟩
      obtain ⟨r, hr, hview⟩ := Rfc8785.exists_of_mem_forall₂ hviews hw
      exact ⟨r, hr, Option.some.inj (hview.seq.symm.trans hseq),
        Option.some.inj (hview.recordHash.symm.trans hhash)⟩
    · rintro ⟨r, hr, rfl, rfl⟩
      obtain ⟨w, hw, hview⟩ := Rfc8785.exists_of_mem_forall₂ hviews.flip hr
      exact ⟨w, hw, hview.seq, hview.recordHash⟩

end ChainPass

/-! ## The checkpoint pass -/

/-- Records numbered upwards from `n`. -/
def NumberedFrom (n : Nat) (rs : List Record) : Prop :=
  ∀ i (h : i < rs.length), rs[i].seq.toNat = n + i

/-- A checkpoint that was built, signed and countersigned over a run of records. -/
structure BuiltOver (E : Externals) (streamId : String) (trust : Identity) (part : List Record)
    (bc : BundleCheckpoint) : Prop where
  signed : signed E streamId trust bc = true
  range : seqList bc.checkpoint.note.seqFrom bc.checkpoint.note.seqTo = part.map (·.seq)
  treeSize : UInt64.ofNat part.length = bc.checkpoint.note.treeSize
  merkleRoot : merkleRootOfRecordHashes E (part.map (·.recordHash)) =
    .ok bc.checkpoint.note.merkleRoot
  chainHead : (part.map (·.recordHash)).getLast? = some bc.checkpoint.note.chainHeadHash
  countersignature : ∃ cs, bc.countersignature = some cs ∧
    countersigned E trust.consoleKeys cs = true ∧
    cs.note.streamHighWaterSeq = some bc.checkpoint.note.seqTo

/-- A checkpoint over a run of records whose turn goes through cleanly. -/
structure CleanTurn (E : Externals) (streamId : String) (trust : Identity)
    (hashes : Std.TreeMap UInt64 String) (part : List Record) (bc : BundleCheckpoint) : Prop where
  signed : signed E streamId trust bc = true
  root : rootVerified E hashes bc = true
  range : seqList bc.checkpoint.note.seqFrom bc.checkpoint.note.seqTo = part.map (·.seq)
  countersignature : ∃ cs, bc.countersignature = some cs ∧
    countersigned E trust.consoleKeys cs = true ∧
    cs.note.streamHighWaterSeq = some bc.checkpoint.note.seqTo

section CheckpointPass

variable {E : Externals} {streamId : String} {trust : Identity}
  {hashes : Std.TreeMap UInt64 String} {part : List Record} {bc : BundleCheckpoint} {n : Nat}

theorem NumberedFrom.append {rs rs' : List Record} (h : NumberedFrom n (rs ++ rs')) :
    NumberedFrom n rs ∧ NumberedFrom (n + rs.length) rs' := by
  constructor
  · intro i hi
    have hget := h i (by simp; omega)
    rwa [List.getElem_append_left hi] at hget
  · intro i hi
    have hget := h (rs.length + i) (by simp; omega)
    rw [List.getElem_append_right (by omega)] at hget
    simp only [Nat.add_sub_cancel_left] at hget
    omega

theorem NumberedFrom.nodup {rs : List Record} (h : NumberedFrom n rs) :
    (rs.map (·.seq)).Nodup := by
  refine List.pairwise_iff_getElem.mpr fun i j hi hj hij heq => ?_
  rw [List.length_map] at hi hj
  simp only [List.getElem_map] at heq
  have hi' := h i hi
  rw [heq, h j hj] at hi'
  omega

/-- The numbers of a run are the range from its first to its last. -/
theorem seqList_of_numberedFrom (h : NumberedFrom n part) {first last : Record}
    (hfirst : part.head? = some first) (hlast : part.getLast? = some last) :
    seqList first.seq last.seq = part.map (·.seq) := by
  have hne : part ≠ [] := by rintro rfl; simp at hfirst
  have hpos := List.length_pos_iff.mpr hne
  have h0 : first.seq.toNat = n := by
    rw [List.head?_eq_getElem?, List.getElem?_eq_getElem hpos] at hfirst
    rw [← Option.some.inj hfirst, h 0 hpos, Nat.add_zero]
  have h1 : last.seq.toNat = n + (part.length - 1) := by
    rw [List.getLast?_eq_getElem?, List.getElem?_eq_getElem (by omega)] at hlast
    rw [← Option.some.inj hlast, h _ (by omega)]
  refine List.ext_getElem ?_ fun i hi hi' => ?_
  · rw [length_seqList, List.length_map]
    omega
  · have hi'' : i < part.length := by simpa using hi'
    simp only [seqList, List.getElem_map, List.getElem_range]
    rw [h0, ← h i hi'', UInt64.ofNat_toNat]

/-- What `build_note_linked` puts into a note. -/
theorem buildNoteLinked_eq_ok {cpId tsWall fingerprint : String} {prev : Option String}
    {note : CheckpointNote}
    (h : buildNoteLinked E cpId part tsWall fingerprint prev = .ok note) :
    ∃ first last, part.head? = some first ∧ part.getLast? = some last ∧
      note.checkpointId = cpId ∧ note.streamId = first.streamId ∧ note.seqFrom = first.seq ∧
      note.seqTo = last.seq ∧ note.chainHeadHash = last.recordHash ∧
      merkleRootOfRecordHashes E (part.map (·.recordHash)) = .ok note.merkleRoot ∧
      note.treeSize = UInt64.ofNat part.length ∧ note.recorderCertFingerprint = fingerprint ∧
      note.prevCheckpointHash = prev := by
  obtain ⟨built, hbuilt, heq⟩ := bind_eq_ok.mp h
  obtain rfl := Except.ok.inj heq
  obtain ⟨first, last, root, hfirst, hlast, -, hroot, rfl⟩ := buildNote_eq_ok.mp hbuilt
  exact ⟨first, last, hfirst, hlast, rfl, rfl, rfl, rfl, rfl, hroot, rfl, rfl, rfl⟩

theorem signNote_eq_ok {note : CheckpointNote} {key : SigningKey} {checkpoint : SignedCheckpoint}
    (h : signNote E note key = .ok checkpoint) :
    checkpoint.note = note ∧ key.signJcs E note.toJson = .ok checkpoint.signature := by
  obtain ⟨sig, hsig, heq⟩ := bind_eq_ok.mp h
  obtain rfl := Except.ok.inj heq
  exact ⟨rfl, hsig⟩

theorem create_eq_ok {cpId receivedAt keyId : String} {hw : Option UInt64} {key : SigningKey}
    {cs : Countersignature}
    (h : Countersignature.create E cpId receivedAt keyId hw key = .ok cs) :
    cs.note.checkpointId = cpId ∧ cs.note.streamHighWaterSeq = hw ∧
      key.signJcs E cs.note.toJson = .ok cs.signature := by
  obtain ⟨sig, hsig, heq⟩ := bind_eq_ok.mp h
  obtain rfl := Except.ok.inj heq
  exact ⟨rfl, rfl, hsig⟩

/-- Honest checkpoints are built over their runs. -/
theorem HonestCheckpoints.built (hS : E.AcceptsSigned) {prev : Option String}
    {parts : List (List Record)} {cps : List BundleCheckpoint}
    (h : HonestCheckpoints E trust prev parts cps) (hnum : NumberedFrom n parts.flatten)
    (hstream : ∀ r ∈ parts.flatten, r.streamId = streamId) :
    List.Forall₂ (BuiltOver E streamId trust) parts cps := by
  induction h generalizing n with
  | nil => exact .nil
  | @cons prev part parts note checkpoint cs cps cpId _ _ _ _ _ cert key consoleKey hne hnote hcert
      hkey hrevoked hsign hcs hconsole _ _ ih =>
    rw [List.flatten_cons] at hnum hstream
    obtain ⟨hpart, hparts⟩ := hnum.append
    refine .cons ?_ (ih hparts fun r hr => hstream r (List.mem_append_right _ hr))
    obtain ⟨rfl, hsig⟩ := signNote_eq_ok hsign
    obtain ⟨-, hhw, hcsig⟩ := create_eq_ok hcs
    obtain ⟨first, last, hfirst, hlast, -, hid, hfrom, hto, hhead, hroot, hsize, hfp, -⟩ :=
      buildNoteLinked_eq_ok hnote
    refine ⟨signed_iff.mpr ⟨?_, cert, ?_, ?_, hrevoked⟩, ?_, hsize.symm, hroot, ?_, cs, rfl, ?_, hhw⟩
    · rw [hid]
      exact hstream first (List.mem_append_left _ (List.mem_of_head? hfirst))
    · rw [hfp]
      exact hcert
    · rw [hkey]
      exact VerifyingKey.verifyJcs_signJcs hS hsig _
    · rw [hfrom, hto]
      exact seqList_of_numberedFrom hpart hfirst hlast
    · rw [List.getLast?_map, hlast, hhead, Option.map_some]
    · exact countersigned_iff.mpr ⟨_, hconsole, VerifyingKey.verifyJcs_signJcs hS hcsig _⟩

/-- The root of a checkpoint agrees with the hashes of its records. -/
theorem BuiltOver.rootVerified (h : BuiltOver E streamId trust part bc)
    (hhashes : Exported hashes (part.map (·.seq)) (part.map (·.recordHash))) :
    rootVerified E hashes bc = true := by
  refine rootVerified_iff.mpr ⟨part.map (·.recordHash), ?_, ?_, h.merkleRoot, h.chainHead⟩
  · rw [h.range]
    exact hhashes
  · rw [List.length_map]
    exact h.treeSize

theorem CleanTurn.rootStands (h : CleanTurn E streamId trust hashes part bc) :
    rootStands E hashes bc = true := by
  simp [Verify.rootStands, h.root]

theorem CleanTurn.attests (h : CleanTurn E streamId trust hashes part bc) :
    attests E streamId trust hashes bc = true := by
  simp [Verify.attests, h.signed, h.root]

theorem CleanTurn.accepts (h : CleanTurn E streamId trust hashes part bc) :
    accepts E streamId trust hashes bc = true := by
  obtain ⟨cs, hcs, hver, -⟩ := h.countersignature
  simp [Verify.accepts, h.signed, h.rootStands, hcs, hver]

/-- The first number of a clean turn's range is that of the first record. -/
theorem CleanTurn.seqFrom (h : CleanTurn E streamId trust hashes part bc)
    (hnum : NumberedFrom n part) : bc.checkpoint.note.seqFrom.toNat = n ∧ 0 < part.length := by
  obtain ⟨hs, hroot⟩ := rootVerified_iff.mp h.root
  have hle := UInt64.le_iff_toNat_le.mp hroot.le
  have hlen := congrArg List.length h.range
  rw [length_seqList, List.length_map] at hlen
  have hpos : 0 < part.length := by omega
  have hhead := congrArg (·[0]?) h.range
  have hlt := bc.checkpoint.note.seqFrom.toNat_lt
  simp only [seqList, List.getElem?_map, List.getElem?_range (by omega : 0 <
    bc.checkpoint.note.seqTo.toNat + 1 - bc.checkpoint.note.seqFrom.toNat),
    List.getElem?_eq_getElem hpos, Option.map_some, Nat.add_zero, Option.some.injEq,
    UInt64.ofNat_toNat] at hhead
  rw [hhead, hnum 0 hpos]
  exact ⟨Nat.add_zero n, hpos⟩

/-- Every honest checkpoint links to the hash before the first one or to the note of another. -/
theorem HonestCheckpoints.links {prev : Option String} {parts : List (List Record)}
    {cps : List BundleCheckpoint} (h : HonestCheckpoints E trust prev parts cps) :
    ∀ bc ∈ cps, ∀ x, bc.checkpoint.note.prevCheckpointHash = some x → prev = some x ∨
      ∃ bc' ∈ cps, x = hexEncode (noteDigest E bc'.checkpoint.note).toList := by
  induction h with
  | nil => simp
  | @cons prev part parts note checkpoint cs cps cpId _ _ _ _ noteHash cert key _ _ hnote _ _ _
      hsign _ _ hhash _ ih =>
    obtain ⟨rfl, -⟩ := signNote_eq_ok hsign
    obtain ⟨-, -, -, -, -, -, -, -, -, -, -, -, hprev⟩ := buildNoteLinked_eq_ok hnote
    obtain ⟨jcs, hjcs, heq⟩ := bind_eq_ok.mp hhash
    have hdigest : noteHash = hexEncode (noteDigest E checkpoint.note).toList := by
      rw [← Except.ok.inj heq, noteDigest, hjcs]
      rfl
    intro bc hbc x hx
    rcases List.mem_cons.mp hbc with rfl | hbc
    · exact .inl (hprev.symm.trans hx)
    · right
      rcases ih bc hbc x hx with hfirst | ⟨bc', hbc', hx'⟩
      · exact ⟨_, List.mem_cons_self, (Option.some.inj hfirst).symm.trans hdigest⟩
      · exact ⟨bc', List.mem_cons_of_mem _ hbc', hx'⟩

end CheckpointPass

/-! ## Coverage -/

section CoveragePass

variable {opts : VerifyOptions} {streamId : String} {data : StreamData}

/-- The last number present is the largest. -/
theorem le_maxPresent {s : UInt64} (h : s ∈ data.hashesBySeq) :
    ∃ m, maxPresent data = some m ∧ s ≤ m := by
  have hmem : s ∈ data.hashesBySeq.keys := Std.TreeMap.mem_keys.mpr h
  unfold maxPresent
  rcases List.eq_nil_or_concat data.hashesBySeq.keys with hnil | ⟨init, m, hkeys⟩
  · simp [hnil] at hmem
  · have hord : data.hashesBySeq.keys.Pairwise fun a b => compare a b = .lt :=
      Std.TreeMap.ordered_keys
    rw [List.concat_eq_append] at hkeys
    refine ⟨m, by simp [hkeys], ?_⟩
    rw [hkeys] at hmem hord
    rcases List.mem_append.mp hmem with hmem | hmem
    · have hlt := (List.pairwise_append.mp hord).2.2 s hmem m (by simp)
      exact UInt64.le_of_lt (compareOfLessAndEq_eq_lt.mp hlt)
    · rw [List.mem_singleton.mp hmem]
      exact UInt64.le_refl m

end CoveragePass

/-! ## Honest streams -/

section Honest

variable {E : Externals} {S : Serde} {reader : BundleReader} {opts : VerifyOptions}
  {streamId : String} {trust : Identity} {hashes : Std.TreeMap UInt64 String}
  {rs : List Record} {parts : List (List Record)} {cps : List BundleCheckpoint}

/-- The marks that are taken, when every checkpoint is countersigned at its own end. -/
theorem marks_eq_ends (h : ∀ bc ∈ cps, ∃ cs, takenCountersignature E streamId trust hashes bc =
      some cs ∧ cs.note.streamHighWaterSeq = some bc.checkpoint.note.seqTo) :
    (takenCountersignatures E streamId trust hashes cps).filterMap
      (·.2.note.streamHighWaterSeq) = cps.map (·.checkpoint.note.seqTo) := by
  induction cps with
  | nil => rfl
  | cons bc cps ih =>
    obtain ⟨cs, htaken, hhw⟩ := h bc List.mem_cons_self
    have hrest := ih fun b hb => h b (List.mem_cons_of_mem _ hb)
    unfold takenCountersignatures at hrest ⊢
    simp only [List.filterMap_cons, htaken, Option.map_some, hhw, hrest, List.map_cons]

end Honest

namespace Sample

open Evidence.Sample

def recorder : SigningKey := ⟨.replicate 32 2⟩

def twoLines : List Bytes := [documentBytes opened.toJson ++ [0x0a], documentBytes updated.toJson ++ [0x0a]]

def honestIndex : RecordIndex := ⟨[⟨opened.streamId, [shardPath], 0, 1, 2⟩]⟩

theorem steady {E : Externals} (hopened : parseWall E opened.tsWall = .ok ⟨1786449600, 0⟩)
    (hupdated : parseWall E updated.tsWall = .ok ⟨1786449601, 0⟩) :
    SteadyClocks E [opened, updated] := by
  have hpair : ∀ a b : Record, [a, b] <:+: [opened, updated] → a = opened ∧ b = updated := by
    intro a b h
    rcases pair_infix_concat.mp (show [a, b] <:+: [opened] ++ [updated] from h) with h | h
    · exact absurd h.length_le (by simp)
    · exact ⟨(Option.some.inj h.1).symm, h.2⟩
  constructor
  · intro r hr
    simp only [List.mem_cons, List.not_mem_nil, or_false] at hr
    rcases hr with rfl | rfl
    · exact ⟨_, hopened⟩
    · exact ⟨_, hupdated⟩
  · intro a b hab s t hs ht
    obtain ⟨rfl, rfl⟩ := hpair a b hab
    obtain rfl := Except.ok.inj (hopened.symm.trans hs)
    obtain rfl := Except.ok.inj (hupdated.symm.trans ht)
    decide
  · intro a b hab _
    obtain ⟨rfl, rfl⟩ := hpair a b hab
    decide

end Sample

end Sealr.Verify
