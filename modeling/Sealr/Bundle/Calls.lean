import Sealr.Bundle.Write

/-!
# What a successful call does

The writer only ever appends: every call that succeeds adds files to the archive and their hashes to
the contents, and leaves the rest of what it remembers alone, up to the phase and the index. One
lemma for each method says what it appends.
-/

namespace Sealr.Bundle

open Lib Evidence

/-- `w'` is `w` after these files were written, up to the phase and the index. -/
structure Wrote (E : Externals) (new : List (String × Bytes)) (w w' : BundleWriter) : Prop where
  files : w'.zip.files = w.zip.files ++ new
  contents : w'.contents = w.contents ++ new.map fun f => contentEntry E f.1 f.2
  tool : w'.tool = w.tool
  bundleId : w'.bundleId = w.bundleId
  createdAt : w'.createdAt = w.createdAt
  shardThreshold : w'.shardThreshold = w.shardThreshold

section Writes

variable {E : Externals} {K : Sink} {w w' w'' : BundleWriter} {new new' : List (String × Bytes)}
  {u : Unit}

theorem Wrote.refl : Wrote E [] w w := by
  constructor <;> simp

theorem Wrote.trans (h : Wrote E new w w') (h' : Wrote E new' w' w'') :
    Wrote E (new ++ new') w w'' := by
  constructor
  · rw [h'.files, h.files, List.append_assoc]
  · rw [h'.contents, h.contents, List.map_append, List.append_assoc]
  · rw [h'.tool, h.tool]
  · rw [h'.bundleId, h.bundleId]
  · rw [h'.createdAt, h.createdAt]
  · rw [h'.shardThreshold, h.shardThreshold]

theorem Wrote.withPhase {phase : Phase} (h : Wrote E new w w') :
    Wrote E new w { w' with phase } :=
  ⟨h.files, h.contents, h.tool, h.bundleId, h.createdAt, h.shardThreshold⟩

theorem Wrote.ofPhase {phase : Phase} (h : Wrote E new { w with phase } w') : Wrote E new w w' :=
  ⟨h.files, h.contents, h.tool, h.bundleId, h.createdAt, h.shardThreshold⟩

theorem startFile_ok {zip zip' : ZipWriter} {name : String} (h : zip.startFile K name = .ok zip') :
    zip'.closed = zip.files ∧ zip'.current = some (name, []) := by
  unfold ZipWriter.startFile at h
  split_ifs at h
  split at h
  · cases h
  · rw [← Except.ok.inj h]
    exact ⟨rfl, rfl⟩

theorem writeAll_ok {zip zip' : ZipWriter} {name : String} {data bytes : Bytes}
    (hcurrent : zip.current = some (name, data)) (h : zip.writeAll K bytes = .ok zip') :
    zip'.closed = zip.closed ∧ zip'.current = some (name, data ++ bytes) := by
  obtain ⟨closed, current, nodup⟩ := zip
  obtain rfl : current = some (name, data) := hcurrent
  unfold ZipWriter.writeAll at h
  dsimp only at h
  split at h
  · cases h
  · rw [← Except.ok.inj h]
    exact ⟨rfl, rfl⟩

/-- A file that was started and written. -/
theorem files_of_written {zip zip₁ zip₂ : ZipWriter} {name : String} {bytes : Bytes}
    (hstart : zip.startFile K name = .ok zip₁) (hwrite : zip₁.writeAll K bytes = .ok zip₂) :
    zip₂.files = zip.files ++ [(name, bytes)] := by
  obtain ⟨hclosed, hcurrent⟩ := startFile_ok hstart
  obtain ⟨hclosed', hcurrent'⟩ := writeAll_ok hcurrent hwrite
  unfold ZipWriter.files
  rw [hclosed', hclosed, hcurrent']
  rfl

theorem succeeds_writeEntry {path : String} {bytes : Bytes}
    (h : Succeeds (writeEntry E K path bytes) w u w') :
    Wrote E [(path, bytes)] w w' ∧ w'.phase = w.phase ∧ w'.index = w.index := by
  simp only [writeEntry, succeeds_bind, succeeds_get, succeeds_ofExcept, succeeds_modify] at h
  obtain ⟨_, _, ⟨rfl, rfl⟩, zip₁, _, ⟨hstart, rfl⟩, _, _, rfl, zip₂, _, ⟨hwrite, rfl⟩, _, _, rfl, rfl⟩ := h
  exact ⟨⟨files_of_written hstart hwrite, rfl, rfl, rfl, rfl, rfl⟩, rfl, rfl⟩

theorem succeeds_requirePhase {atMost next : Phase}
    (h : Succeeds (requirePhase atMost next) w u w') :
    w.phase.rank ≤ atMost.rank ∧ w' = { w with phase := next } := by
  simp only [requirePhase, succeeds_bind, succeeds_get] at h
  obtain ⟨v, w₁, ⟨hv, hw⟩, h⟩ := h
  subst hv
  subst hw
  by_cases hrank : atMost.rank < w₁.phase.rank
  · simp [hrank] at h
  · simp only [if_neg hrank, succeeds_modify] at h
    exact ⟨Nat.le_of_not_lt hrank, h⟩

/-- The file of the record index. -/
def indexFile (K : Sink) (index : RecordIndex) : String × Bytes :=
  ("records/index.json", toVecPretty K index.toJson)

/-- The records phase, if it was open, ends with the index. -/
def Closed (E : Externals) (K : Sink) (w w' : BundleWriter) : Prop :=
  (w.phase = .records ∧ Wrote E [indexFile K w.index] w w' ∧ w'.phase = .checkpoints ∧
      w'.index = w.index) ∨
    (w.phase ≠ .records ∧ w' = w)

theorem succeeds_closeRecords (h : Succeeds (closeRecords E K) w u w') : Closed E K w w' := by
  simp only [closeRecords, succeeds_bind, succeeds_get] at h
  obtain ⟨v, v₁, ⟨hv, hv₁⟩, h⟩ := h
  rw [hv, hv₁] at h
  by_cases hphase : w.phase = .records
  · simp only [if_pos hphase, finishRecords, succeeds_bind, succeeds_get, succeeds_modify] at h
    obtain ⟨v, v₁, ⟨hv, hv₁⟩, _, w₁, hwrite, rfl⟩ := h
    rw [hv, hv₁] at hwrite
    obtain ⟨hwrote, -, hindex⟩ := succeeds_writeEntry hwrite
    exact .inl ⟨hphase, hwrote.withPhase, rfl, hindex⟩
  · simp only [if_neg hphase, succeeds_pure] at h
    exact .inr ⟨hphase, h.2⟩

/-- Files were written in a phase that the writer had not passed. -/
structure Appended (E : Externals) (phase : Phase) (new : List (String × Bytes))
    (w w' : BundleWriter) : Prop where
  rank : w.phase.rank ≤ phase.rank
  phase : w'.phase = phase
  index : w'.index = w.index
  wrote : Wrote E new w w'

theorem succeeds_addEntry {phase : Phase} {path : String} {bytes : Bytes}
    (h : Succeeds (addEntry E K phase path bytes) w u w') :
    ∃ w₁, Closed E K w w₁ ∧ Appended E phase [(path, bytes)] w₁ w' := by
  simp only [addEntry, succeeds_bind] at h
  obtain ⟨_, w₁, hclose, _, w₂, hphase, hwrite⟩ := h
  obtain ⟨hrank, rfl⟩ := succeeds_requirePhase hphase
  obtain ⟨hwrote, hkept, hindex⟩ := succeeds_writeEntry hwrite
  exact ⟨w₁, succeeds_closeRecords hclose, hrank, hkept, hindex, hwrote.ofPhase⟩

/-- The files of the identity directory. -/
def identityFiles (K : Sink) (certsPem : String) (revocations : Option SignedRevocationList)
    (roots : RootsFile) : List (String × Bytes) :=
  ("identity/certs.pem", asBytes certsPem) ::
    (revocations.map fun rev => ("identity/revocations.json", toVecPretty K rev.toJson)).toList ++
    [("identity/roots.json", toVecPretty K roots.toJson)]

theorem succeeds_addIdentity {certsPem : String} {revocations : Option SignedRevocationList}
    {roots : RootsFile} (h : Succeeds (addIdentity E K certsPem revocations roots) w u w') :
    ∃ w₁, Closed E K w w₁ ∧ Appended E .identity (identityFiles K certsPem revocations roots) w₁ w' := by
  unfold addIdentity at h
  simp only [succeeds_bind] at h
  obtain ⟨_, w₁, hclose, _, w₂, hphase, _, w₃, hcerts, hrest⟩ := h
  obtain ⟨hrank, rfl⟩ := succeeds_requirePhase hphase
  obtain ⟨hwrote, hkept, hindex⟩ := succeeds_writeEntry hcerts
  refine ⟨w₁, succeeds_closeRecords hclose, ?_⟩
  cases revocations with
  | none =>
    obtain ⟨hwrote', hkept', hindex'⟩ := succeeds_writeEntry hrest
    exact ⟨hrank.trans (by decide), hkept'.trans hkept, hindex'.trans hindex,
      (hwrote.trans hwrote').ofPhase⟩
  | some rev =>
    simp only [succeeds_bind] at hrest
    obtain ⟨_, w₄, hrev, hroots⟩ := hrest
    obtain ⟨hwrote', hkept', hindex'⟩ := succeeds_writeEntry hrev
    obtain ⟨hwrote'', hkept'', hindex''⟩ := succeeds_writeEntry hroots
    exact ⟨hrank.trans (by decide), hkept''.trans (hkept'.trans hkept),
      hindex''.trans (hindex'.trans hindex), ((hwrote.trans hwrote').trans hwrote'').ofPhase⟩

theorem succeeds_addVaultEntry {name : String} {bytes : Bytes}
    (h : Succeeds (addVaultEntry E K name bytes) w u w') :
    Appended E .vault [("vault/" ++ name, bytes)] w w' := by
  simp only [addVaultEntry, succeeds_bind] at h
  obtain ⟨_, w₁, hphase, h⟩ := h
  obtain ⟨hrank, rfl⟩ := succeeds_requirePhase hphase
  by_cases hname : hasDots name.toList ∨ name.toList.head? = some '/'
  · simp [hname] at h
  · rw [if_neg hname] at h
    obtain ⟨hwrote, hkept, hindex⟩ := succeeds_writeEntry h
    exact ⟨hrank, hkept, hindex, hwrote.ofPhase⟩

end Writes

/-! ## The shards of a stream -/

/-- These files are shards of the stream, one for each chunk of lines. -/
def ShardsOf (K : Sink) (streamId : String) (new : List (String × Bytes))
    (chunks : List (List Bytes)) : Prop :=
  List.Forall₂ (fun f chunk => (∃ n, f.1 = shardPath streamId n) ∧
    K.zstdEncode chunk.flatten = .ok f.2) new chunks

/-- The loop of `add_stream_records` after some lines: chunks of them have been written, and the rest
waits in the buffer. -/
structure Sharding (E : Externals) (K : Sink) (streamId : String) (w : BundleWriter)
    (lines : List Bytes) (new : List (String × Bytes)) (chunks : List (List Bytes))
    (rest : List Bytes) (st : ShardState) (w' : BundleWriter) : Prop where
  split : chunks.flatten ++ rest = lines
  files : ShardsOf K streamId new chunks
  shards : st.shards = new.map Prod.fst
  shardBuf : st.shardBuf = rest.flatten
  count : st.count = UInt64.ofNat lines.length
  firstLine : st.firstLine = lines.head?
  lastLine : st.lastLine = lines.getLast?
  wrote : Wrote E new w w'
  phase : w'.phase = w.phase
  index : w'.index = w.index

section Shards

variable {E : Externals} {K : Sink} {streamId : String} {w w' w'' : BundleWriter}
  {lines : List Bytes} {new : List (String × Bytes)} {chunks : List (List Bytes)}
  {rest : List Bytes} {st st' : ShardState}

theorem succeeds_flushShard (h : Succeeds (flushShard E K streamId st) w st' w') :
    (st.shardBuf = [] ∧ st' = st ∧ w' = w) ∨
      ∃ compressed, K.zstdEncode st.shardBuf = .ok compressed ∧
        Wrote E [(shardPath streamId st.shardNo, compressed)] w w' ∧ w'.phase = w.phase ∧
        w'.index = w.index ∧
        st' = { st with shards := st.shards ++ [shardPath streamId st.shardNo], shardBuf := [] } := by
  unfold flushShard at h
  by_cases hbuf : st.shardBuf = []
  · rw [if_pos hbuf, succeeds_pure] at h
    exact .inl ⟨hbuf, h⟩
  · simp only [if_neg hbuf, succeeds_bind, succeeds_ofExcept, succeeds_pure] at h
    obtain ⟨compressed, _, ⟨hencode, rfl⟩, _, w₁, hwrite, rfl, rfl⟩ := h
    obtain ⟨hwrote, hphase, hindex⟩ := succeeds_writeEntry hwrite
    exact .inr ⟨compressed, mapError_eq_ok.mp hencode, hwrote, hphase, hindex, rfl⟩

/-- A line goes into the buffer. -/
theorem Sharding.push (h : Sharding E K streamId w lines new chunks rest st w') (line : Bytes) :
    Sharding E K streamId w (lines ++ [line]) new chunks (rest ++ [line])
      { st with
        firstLine := st.firstLine.or (some line)
        lastLine := some line
        shardBuf := st.shardBuf ++ line
        count := st.count + 1 } w' where
  split := by rw [← List.append_assoc, h.split]
  files := h.files
  shards := h.shards
  shardBuf := by simp [h.shardBuf]
  count := by simp [h.count]
  firstLine := by
    rw [h.firstLine, List.head?_append]
    rfl
  lastLine := by simp
  wrote := h.wrote
  phase := h.phase
  index := h.index

/-- A flush writes what waits, if there is anything. -/
theorem Sharding.flush (h : Sharding E K streamId w lines new chunks rest st w')
    (hflush : Succeeds (flushShard E K streamId st) w' st' w'') :
    ∃ new chunks rest, Sharding E K streamId w lines new chunks rest st' w'' ∧ rest.flatten = [] := by
  obtain ⟨hbuf, rfl, rfl⟩ | ⟨compressed, hencode, hwrote, hphase, hindex, rfl⟩ :=
    succeeds_flushShard hflush
  · exact ⟨new, chunks, rest, h, by rw [← h.shardBuf, hbuf]⟩
  · refine ⟨new ++ [(shardPath streamId st.shardNo, compressed)], chunks ++ [rest], [], ?_, rfl⟩
    exact {
      split := by simpa using h.split
      files := by
        apply List.rel_append h.files
        rw [h.shardBuf] at hencode
        exact .cons ⟨⟨_, rfl⟩, hencode⟩ .nil
      shards := by simp [h.shards]
      shardBuf := rfl
      count := h.count
      firstLine := h.firstLine
      lastLine := h.lastLine
      wrote := h.wrote.trans hwrote
      phase := hphase.trans h.phase
      index := hindex.trans h.index }

/-- The number of the next shard is not part of the invariant. -/
theorem Sharding.renumber (h : Sharding E K streamId w lines new chunks rest st w')
    (shardNo : UInt32) : Sharding E K streamId w lines new chunks rest { st with shardNo } w' :=
  ⟨h.split, h.files, h.shards, h.shardBuf, h.count, h.firstLine, h.lastLine, h.wrote, h.phase,
    h.index⟩

/-- One turn of the loop. -/
theorem Sharding.recordLine {line : BResult Bytes}
    (h : Sharding E K streamId w lines new chunks rest st w')
    (hline : Succeeds (recordLine E K streamId st line) w' st' w'') :
    ∃ bytes new chunks rest, line = .ok bytes ∧
      Sharding E K streamId w (lines ++ [bytes]) new chunks rest st' w'' := by
  simp only [Bundle.recordLine, succeeds_bind, succeeds_ofExcept, succeeds_get] at hline
  obtain ⟨bytes, v, ⟨rfl, hv⟩, v₁, v₂, ⟨hv₁, hv₂⟩, hline⟩ := hline
  subst hv
  subst hv₂
  have hpush := h.push bytes
  split at hline
  · simp only [succeeds_bind, succeeds_pure] at hline
    obtain ⟨st₁, w₁, hflush, rfl, rfl⟩ := hline
    obtain ⟨new, chunks, rest, hflushed, -⟩ := hpush.flush hflush
    exact ⟨bytes, new, chunks, rest, rfl, hflushed.renumber _⟩
  · rw [succeeds_pure] at hline
    obtain ⟨rfl, rfl⟩ := hline
    exact ⟨bytes, new, chunks, _, rfl, hpush⟩

/-- A stream whose records were added: the shards hold all lines, but for blanks. -/
structure StreamAdded (E : Externals) (K : Sink) (streamId : String) (lines : List Bytes)
    (new : List (String × Bytes)) (chunks : List (List Bytes)) (entry : RecordIndexStream)
    (w w' : BundleWriter) : Prop where
  opened : w.phase = .records
  split : ∃ rest, chunks.flatten ++ rest = lines ∧ rest.flatten = []
  files : ShardsOf K streamId new chunks
  streamId : entry.streamId = streamId
  shards : entry.shards = new.map Prod.fst
  recordCount : entry.recordCount = UInt64.ofNat lines.length
  wrote : Wrote E new w w'
  phase : w'.phase = .records
  index : w'.index.streams = w.index.streams ++ [entry]

theorem StreamAdded.shardPath_of_mem {entry : RecordIndexStream} {f : String × Bytes}
    (h : StreamAdded E K streamId lines new chunks entry w w') (hf : f ∈ new) :
    ∃ n, f.1 = shardPath streamId n :=
  ((List.forall₂_and_left new chunks).mp h.files).1 f hf

theorem succeeds_addStreamRecords {lines : List (BResult Bytes)} {entry : RecordIndexStream}
    (h : Succeeds (addStreamRecords E K streamId lines) w entry w') :
    ∃ ls new chunks, lines = ls.map .ok ∧ StreamAdded E K streamId ls new chunks entry w w' := by
  simp only [addStreamRecords, succeeds_bind] at h
  obtain ⟨_, w₁, hphase, st₁, w₂, hloop, st₂, w₃, hflush, h⟩ := h
  obtain ⟨hrank, rfl⟩ := succeeds_requirePhase hphase
  have hopen : w.phase = .records := by
    cases hp : w.phase <;> simp_all [Phase.rank]
  have hsharding : ∃ ls new chunks rest, lines = ls.map .ok ∧
      Sharding E K streamId { w with phase := .records } ls new chunks rest st₁ w₂ := by
    refine succeeds_foldlM hloop (I := fun pre st v => ∃ ls new chunks rest, pre = ls.map .ok ∧
      Sharding E K streamId { w with phase := .records } ls new chunks rest st v) ?_ ?_
    · exact ⟨[], [], [], [], rfl, rfl, .nil, rfl, rfl, rfl, rfl, rfl, .refl, rfl, rfl⟩
    · intro pre line st v st' v' hinv _ hline
      obtain ⟨ls, new, chunks, rest, rfl, hinv⟩ := hinv
      obtain ⟨bytes, new, chunks, rest, rfl, hinv⟩ := hinv.recordLine hline
      exact ⟨ls ++ [bytes], new, chunks, rest, by simp, hinv⟩
  obtain ⟨ls, new, chunks, rest, rfl, hsharding⟩ := hsharding
  obtain ⟨new, chunks, rest, hflushed, hrest⟩ := hsharding.flush hflush
  by_cases hcount : st₂.count = 0
  · simp [hcount] at h
  · simp only [if_neg hcount, succeeds_bind, succeeds_ofExcept, succeeds_modify, succeeds_pure] at h
    obtain ⟨seqFrom, _, ⟨-, rfl⟩, seqTo, _, ⟨-, rfl⟩, _, _, rfl, rfl, rfl⟩ := h
    refine ⟨ls, new, chunks, rfl, ?_⟩
    exact {
      opened := hopen
      split := ⟨rest, hflushed.split, hrest⟩
      files := hflushed.files
      streamId := rfl
      shards := hflushed.shards
      recordCount := hflushed.count
      wrote := by
        have := hflushed.wrote.ofPhase
        exact ⟨this.files, this.contents, this.tool, this.bundleId, this.createdAt,
          this.shardThreshold⟩
      phase := hflushed.phase
      index := by simpa using congrArg RecordIndex.streams hflushed.index }

end Shards

/-! ## Calls -/

namespace Call

/-- The phase that a call ends in. -/
def phase : Call → Phase
  | addStreamRecords _ _ => .records
  | addStreamCheckpoints _ _ => .checkpoints
  | addRfc3161Token _ _ | addQtsToken _ _ | addAnchorProofs _ => .anchors
  | addIdentity _ _ _ => .identity
  | addVaultEntry _ _ => .vault

/-- The files that a call writes; shards aside. -/
def files (K : Sink) : Call → List (String × Bytes)
  | addStreamRecords _ _ => []
  | addStreamCheckpoints streamId checkpoints =>
    [("checkpoints/" ++ streamId ++ ".json",
      toVecPretty K (StreamCheckpoints.toJson ⟨streamId, checkpoints⟩))]
  | addRfc3161Token batchId tokenDer => [("anchors/rfc3161/" ++ batchId ++ ".tsr", tokenDer)]
  | addQtsToken day tokenDer => [("anchors/qts/" ++ day ++ ".der", tokenDer)]
  | addAnchorProofs proofs => [("anchors/proofs.json", toVecPretty K proofs.toJson)]
  | addIdentity certsPem revocations roots => identityFiles K certsPem revocations roots
  | addVaultEntry name bytes => [("vault/" ++ name, bytes)]

/-- Does the call close the records phase? -/
def closes : Call → Bool
  | addStreamRecords _ _ | addVaultEntry _ _ => false
  | _ => true

/-- What a call does. -/
theorem perform_cases {E : Externals} {K : Sink} {c : Call} {w w' : BundleWriter} {u : Unit}
    (h : Succeeds (c.perform E K) w u w') :
    (∃ streamId lines new chunks entry, c = .addStreamRecords streamId (lines.map .ok) ∧
        StreamAdded E K streamId lines new chunks entry w w') ∨
      (∃ name bytes, c = .addVaultEntry name bytes ∧ Appended E c.phase (c.files K) w w') ∨
      (c.closes ∧ ∃ w₁, Closed E K w w₁ ∧ Appended E c.phase (c.files K) w₁ w') := by
  cases c with
  | addStreamRecords streamId lines =>
    simp only [Call.perform, succeeds_bind, succeeds_pure] at h
    obtain ⟨entry, _, h, -, rfl⟩ := h
    obtain ⟨ls, new, chunks, rfl, hadded⟩ := succeeds_addStreamRecords h
    exact .inl ⟨streamId, ls, new, chunks, entry, rfl, hadded⟩
  | addVaultEntry name bytes =>
    exact .inr (.inl ⟨name, bytes, rfl, succeeds_addVaultEntry h⟩)
  | addIdentity certsPem revocations roots =>
    exact .inr (.inr ⟨rfl, succeeds_addIdentity h⟩)
  | addStreamCheckpoints streamId checkpoints =>
    exact .inr (.inr ⟨rfl, succeeds_addEntry h⟩)
  | addRfc3161Token batchId tokenDer => exact .inr (.inr ⟨rfl, succeeds_addEntry h⟩)
  | addQtsToken day tokenDer => exact .inr (.inr ⟨rfl, succeeds_addEntry h⟩)
  | addAnchorProofs proofs => exact .inr (.inr ⟨rfl, succeeds_addEntry h⟩)

end Call

/-! ## The end -/

/-- The manifest of a writer whose other entries are written. -/
def BundleWriter.manifest (w : BundleWriter) (level : ExportLevel) (tsFrom tsTo : Option String)
    (resources : List String) : Manifest where
  schemaVersion := BUNDLE_SCHEMA_VERSION
  bundleId := w.bundleId
  createdAt := w.createdAt
  tool := w.tool
  scope := ⟨level, tsFrom, tsTo, resources, w.index.streams.map scopeOf⟩
  contents := w.contents

/-- What `finish` does: the index, if it is not there yet, the instructions, and the manifest. -/
theorem succeeds_finish {E : Externals} {K : Sink} {level : ExportLevel}
    {tsFrom tsTo : Option String} {resources : List String} {w w' : BundleWriter}
    {manifest : Manifest} {hash : String} {archive : ZipArchive}
    (h : Succeeds (finish E K level tsFrom tsTo resources) w (manifest, hash, archive) w') :
    ∃ (w₁ w₂ : BundleWriter) (bytes : Bytes) (zip : ZipWriter), Closed E K w w₁ ∧
      Wrote E [("VERIFY.md", asBytes (verifyMdTemplate w₁.tool))] w₁ w₂ ∧ w₂.index = w₁.index ∧
      manifest = w₂.manifest level tsFrom tsTo resources ∧ manifest.jcsHash E = .ok hash ∧
      toJcsBytes manifest.toJson = .ok bytes ∧
      zip.files = w₂.zip.files ++ [("manifest.json", bytes)] ∧ archive = zip.archive := by
  simp only [finish, succeeds_bind, succeeds_get, succeeds_ofExcept, succeeds_modify] at h
  obtain ⟨_, _, hclose, _, w₁, ⟨rfl, rfl⟩, _, _, hverify, _, _, ⟨rfl, rfl⟩, _, _, ⟨hhash, rfl⟩,
    bytes, _, ⟨hbytes, rfl⟩, _, w₂, ⟨hstart, rfl⟩, _, _, rfl, zip, _, ⟨hwrite, rfl⟩, _, _, rfl, h⟩ := h
  obtain ⟨hwrote, -, hindex⟩ := succeeds_writeEntry hverify
  split at h
  · exact absurd h succeeds_throw
  · rw [succeeds_pure] at h
    simp only [Prod.mk.injEq] at h
    obtain ⟨⟨rfl, rfl, rfl⟩, -⟩ := h
    exact ⟨w₁, w₂, bytes, zip, succeeds_closeRecords hclose, hwrote, hindex, rfl,
      mapError_eq_ok.mp hhash, mapError_eq_ok.mp hbytes, files_of_written hstart hwrite, rfl⟩

end Sealr.Bundle
