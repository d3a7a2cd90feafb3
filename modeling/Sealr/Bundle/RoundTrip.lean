import Sealr.Evidence.Agreement
import Sealr.Bundle.Decode
import Sealr.Bundle.Order

/-!
# What is written is read back

Records are cut into shards after whole lines, wherever the threshold falls. The shards of a stream,
decompressed one after another and split at line feeds, are the lines again; the manifest and the
index are read from the text they were written as; and every other entry has the hash it is listed
with.
-/

namespace Sealr.Bundle

open Lib Evidence

/-! ## The archive -/

section Archive

variable {E : Externals} {zip : ZipWriter} {name : String} {data : Bytes}

/-- A file is found by its name. -/
theorem byName_archive (h : (name, data) ∈ zip.files) :
    zip.archive.byName name = some ⟨name, none, data, none⟩ := by
  unfold ZipArchive.byName
  cases hfind : zip.archive.entries.find? fun e => e.name = name with
  | none =>
    have hnone := List.find?_eq_none.mp hfind ⟨name, none, data, none⟩
      (List.mem_map.mpr ⟨(name, data), h, rfl⟩)
    simp at hnone
  | some entry =>
    obtain ⟨f, hf, rfl⟩ := List.mem_map.mp (List.mem_of_find?_eq_some hfind)
    have hname : f.1 = name := by simpa using List.find?_some hfind
    have hsame : f = (name, data) := List.inj_on_of_nodup_map zip.nodup hf h hname
    rw [hsame]

theorem readEntry_archive (h : (name, data) ∈ zip.files) :
    readEntry zip.archive name = .ok data := by
  simp only [readEntry, byName_archive h]

/-- Entries that are listed as they are pass the check. -/
theorem checkContents_archive {files : List (String × Bytes)} (h : files ⊆ zip.files) :
    BundleReader.checkContents E zip.archive (files.map fun f => contentEntry E f.1 f.2) =
      .ok () := by
  rw [BundleReader.checkContents_eq_ok]
  intro c hc
  obtain ⟨f, hf, rfl⟩ := List.mem_map.mp hc
  exact ⟨f.2, readEntry_archive (h hf), rfl, rfl⟩

/-- Nothing is unlisted where everything but the manifest is listed. -/
theorem unlistedEntries_archive {listed : List String} {files : List (String × Bytes)}
    (h : ∀ f ∈ files, f.1 = "manifest.json" ∨ f.1 ∈ listed) :
    BundleReader.unlistedEntries listed (files.map fun f => ⟨f.1, none, f.2, none⟩) = .ok [] := by
  rw [BundleReader.unlistedEntries_eq_nil]
  intro e he
  obtain ⟨f, hf, rfl⟩ := List.mem_map.mp he
  refine ⟨rfl, ?_⟩
  obtain hmanifest | hlisted := h f hf
  · exact .inl hmanifest
  · exact .inr (.inl hlisted)

end Archive

/-! ## Shards -/

/-- zstd gives back what it compressed. -/
def InvertsZstd (E : Externals) (K : Sink) : Prop :=
  ∀ b c, K.zstdEncode b = .ok c → E.zstdDecode c none = .ok (b, none)

/-- The lines of a stream are in the files of an archive: chunks of them are its shards, and nothing
but blanks is left. -/
structure Stored (K : Sink) (files : List (String × Bytes)) (streamId : String) (lines : List Bytes)
    (entry : RecordIndexStream) : Prop where
  named : entry.streamId = streamId
  recordCount : entry.recordCount = UInt64.ofNat lines.length
  shards : ∃ new chunks rest, new ⊆ files ∧ entry.shards = new.map Prod.fst ∧
    ShardsOf K streamId new chunks ∧ chunks.flatten ++ rest = lines ∧ rest.flatten = []

theorem Stored.mono {K : Sink} {files files' : List (String × Bytes)} {streamId : String}
    {lines : List Bytes} {entry : RecordIndexStream} (h : Stored K files streamId lines entry)
    (hsub : files ⊆ files') : Stored K files' streamId lines entry := by
  obtain ⟨hid, hcount, new, chunks, rest, hnew, hshards⟩ := h
  exact ⟨hid, hcount, new, chunks, rest, fun f hf => hsub (hnew hf), hshards⟩

section Shards

variable {E : Externals} {K : Sink} {zip : ZipWriter} {streamId : String}

/-- The shards of chunks of lines deliver the lines, in order. -/
theorem shardsLines_of_shards (hzstd : InvertsZstd E K) {new : List (String × Bytes)}
    {chunks : List (List Bytes)} {bs : List Bytes} (hfiles : new ⊆ zip.files)
    (hshards : ShardsOf K streamId new chunks) (hlines : chunks.flatten = bs.map (· ++ [0x0a]))
    (hbs : ∀ b ∈ bs, 0x0a ∉ b ∧ b ≠ []) :
    shardsLines E zip.archive (new.map Prod.fst) = (bs, none) := by
  induction hshards generalizing bs with
  | nil =>
    obtain rfl : bs = [] := by simpa using hlines.symm
    rfl
  | @cons f chunk new chunks hshard _ ih =>
    rw [List.flatten_cons] at hlines
    obtain ⟨bs₁, bs₂, rfl, hchunk, hrest⟩ := List.map_eq_append_iff.mp hlines.symm
    have hdelivered : deliveredLines chunk.flatten none = bs₁ := by
      rw [← hchunk, ← List.flatMap_def]
      apply deliveredLines_lines
      · intro b hb
        exact (hbs b (List.mem_append_left bs₂ hb)).1
      · intro b hb
        exact (hbs b (List.mem_append_left bs₂ hb)).2
    have hfirst : shardLines E zip.archive f.1 = (bs₁, none) := by
      simp only [shardLines, byName_archive (hfiles List.mem_cons_self), hzstd _ _ hshard.2,
        hdelivered, Option.map_none]
    have hlater := ih (fun g hg => hfiles (List.mem_cons_of_mem f hg)) hrest.symm
      fun b hb => hbs b (List.mem_append_right bs₁ hb)
    simp only [List.map_cons, shardsLines, hfirst, hlater]

/-- A stored stream delivers its lines. -/
theorem Stored.shardsLines {entry : RecordIndexStream} {bs : List Bytes}
    (h : Stored K zip.files streamId (bs.map (· ++ [0x0a])) entry) (hzstd : InvertsZstd E K)
    (hbs : ∀ b ∈ bs, 0x0a ∉ b ∧ b ≠ []) :
    Bundle.shardsLines E zip.archive entry.shards = (bs, none) := by
  obtain ⟨-, -, new, chunks, rest, hnew, hshards, hfiles, hlines, hrest⟩ := h
  have hnil : rest = [] := by
    apply List.eq_nil_iff_forall_not_mem.mpr
    intro l hl
    have hmem : l ∈ bs.map (· ++ [0x0a]) := by
      rw [← hlines]
      exact List.mem_append_right chunks.flatten hl
    obtain ⟨b, -, rfl⟩ := List.mem_map.mp hmem
    have := List.flatten_eq_nil_iff.mp hrest _ hl
    simp at this
  rw [hnil, List.append_nil] at hlines
  rw [hshards]
  exact shardsLines_of_shards hzstd hnew hfiles hlines hbs

end Shards

/-! ## Runs -/

/-- The calls that add the records of some streams. -/
def recordCalls (streams : List (String × List Record)) : List Call :=
  streams.map fun s => .addStreamRecords s.1 (s.2.map fun r => r.toNdjsonLine.mapError .evidence)

section Runs

variable {E : Externals} {K : Sink} {c : Call} {calls : List Call} {u : Unit}
  {w w' w'' : BundleWriter}

theorem perform_append {calls' : List Call} (h : Succeeds (perform E K (calls ++ calls')) w u w'') :
    ∃ w', Succeeds (perform E K calls) w () w' ∧ Succeeds (perform E K calls') w' () w'' := by
  induction calls generalizing w with
  | nil => exact ⟨w, succeeds_pure.mpr ⟨rfl, rfl⟩, h⟩
  | cons c calls ih =>
    rw [List.cons_append, perform, succeeds_bind] at h
    obtain ⟨_, w₁, hcall, hrest⟩ := h
    obtain ⟨w', hrun, hrun'⟩ := ih hrest
    refine ⟨w', ?_, hrun'⟩
    rw [perform, succeeds_bind]
    exact ⟨(), w₁, hcall, hrun⟩

/-- The closing of the records phase only adds. -/
theorem Closed.files_subset (h : Closed E K w w') : ∃ new, Wrote E new w w' := by
  obtain ⟨-, hwrote, -, -⟩ | ⟨-, rfl⟩ := h
  · exact ⟨_, hwrote⟩
  · exact ⟨[], .refl⟩

/-- A call only adds: to the files and to the index. -/
theorem Call.perform_grows (h : Succeeds (c.perform E K) w u w') :
    (∃ new, Wrote E new w w') ∧ w.index.streams <+: w'.index.streams := by
  obtain ⟨streamId, lines, new, chunks, entry, rfl, hadded⟩ | ⟨name, bytes, rfl, happended⟩ |
    ⟨-, w₁, hclosed, happended⟩ := Call.perform_cases h
  · refine ⟨⟨new, hadded.wrote⟩, ?_⟩
    rw [hadded.index]
    exact List.prefix_append w.index.streams [entry]
  · refine ⟨⟨_, happended.wrote⟩, ?_⟩
    rw [happended.index]
  · obtain ⟨new, hwrote⟩ := hclosed.files_subset
    refine ⟨⟨_, hwrote.trans happended.wrote⟩, ?_⟩
    rw [happended.index, hclosed.index_eq]

/-- So does a run. -/
theorem perform_grows (h : Succeeds (perform E K calls) w u w') :
    (∃ new, Wrote E new w w') ∧ w.index.streams <+: w'.index.streams := by
  induction calls generalizing w with
  | nil =>
    rw [perform, succeeds_pure] at h
    obtain ⟨-, rfl⟩ := h
    exact ⟨⟨[], .refl⟩, List.prefix_rfl⟩
  | cons c calls ih =>
    rw [perform, succeeds_bind] at h
    obtain ⟨_, w₁, hcall, hrun⟩ := h
    obtain ⟨⟨new, hwrote⟩, hindex⟩ := Call.perform_grows hcall
    obtain ⟨⟨new', hwrote'⟩, hindex'⟩ := ih hrun
    exact ⟨⟨new ++ new', hwrote.trans hwrote'⟩, hindex.trans hindex'⟩

theorem Wrote.files_subset {new : List (String × Bytes)} (h : Wrote E new w w') :
    w.zip.files ⊆ w'.zip.files := by
  rw [h.files]
  exact List.subset_append_left w.zip.files new

/-- Lines that could all be written. -/
theorem map_ok_of_records {rs : List Record} {lines : List Bytes}
    (h : (rs.map fun r => r.toNdjsonLine.mapError BundleError.evidence) = lines.map .ok) :
    List.Forall₂ (fun r l => Record.toNdjsonLine r = .ok l) rs lines := by
  induction rs generalizing lines with
  | nil =>
    obtain rfl : lines = [] := by simpa using h.symm
    exact .nil
  | cons r rs ih =>
    cases lines with
    | nil => simp at h
    | cons l lines =>
      simp only [List.map_cons, List.cons.injEq] at h
      exact .cons (mapError_eq_ok.mp h.1) (ih h.2)

/-- The record calls leave one entry for each stream, with its lines stored. -/
theorem perform_recordCalls {streams : List (String × List Record)}
    (h : Succeeds (perform E K (recordCalls streams)) w u w') (hopen : w.phase = .records) :
    w'.phase = .records ∧ ∃ entries, w'.index.streams = w.index.streams ++ entries ∧
      List.Forall₂ (fun s entry => ∃ lines,
        List.Forall₂ (fun r l => Record.toNdjsonLine r = .ok l) s.2 lines ∧
          Stored K w'.zip.files s.1 lines entry) streams entries := by
  induction streams generalizing w with
  | nil =>
    obtain ⟨-, rfl⟩ := succeeds_pure.mp h
    exact ⟨hopen, [], by simp, .nil⟩
  | cons s streams ih =>
    rw [recordCalls, List.map_cons, perform, succeeds_bind] at h
    obtain ⟨_, w₁, hcall, hrun⟩ := h
    obtain ⟨streamId, lines, new, chunks, entry, heq, hadded⟩ | ⟨name, bytes, heq, -⟩ | ⟨hcloses, -⟩ :=
      Call.perform_cases hcall
    · obtain ⟨rfl, hlines⟩ := Call.addStreamRecords.inj heq
      obtain ⟨hphase, entries, hindex, hstored⟩ := ih hrun hadded.phase
      obtain ⟨⟨new', hwrote⟩, -⟩ := perform_grows hrun
      refine ⟨hphase, entry :: entries, ?_, .cons ⟨lines, map_ok_of_records hlines, ?_⟩ hstored⟩
      · rw [hindex, hadded.index, List.append_assoc]
        rfl
      · obtain ⟨rest, hsplit, hrest⟩ := hadded.split
        refine ⟨hadded.streamId, hadded.recordCount, new, chunks, rest, ?_, hadded.shards,
          hadded.files, hsplit, hrest⟩
        intro f hf
        apply hwrote.files_subset
        rw [hadded.wrote.files]
        exact List.mem_append_right w.zip.files hf
    · cases heq
    · cases hcloses

/-- Unless a vault entry ends the records phase, the index is in the archive when it is over. -/
theorem indexFile_mem (h : Succeeds (perform E K calls) w u w') (hopen : w.phase = .records)
    (hcloses : closesRecords calls) :
    w'.phase = .records ∨ (w'.phase ≠ .records ∧ indexFile K w'.index ∈ w'.zip.files) := by
  induction calls generalizing w with
  | nil =>
    rw [perform, succeeds_pure] at h
    obtain ⟨-, rfl⟩ := h
    exact .inl hopen
  | cons c calls ih =>
    rw [perform, succeeds_bind] at h
    obtain ⟨_, w₁, hcall, hrun⟩ := h
    obtain ⟨streamId, lines, new, chunks, entry, rfl, hadded⟩ | ⟨name, bytes, rfl, -⟩ |
      ⟨hcall', w₂, hclosed, happended⟩ := Call.perform_cases hcall
    · exact ih hrun hadded.phase hcloses
    · cases hcloses
    · have hne : w₁.phase ≠ .records := by
        rw [happended.phase]
        exact Call.closes_phase hcall'
      obtain ⟨hphase, hindex, -, -⟩ := perform_of_phase_ne hrun hne
      obtain ⟨⟨new, hwrote⟩, -⟩ := perform_grows hrun
      refine .inr ⟨hphase, ?_⟩
      apply hwrote.files_subset
      apply happended.wrote.files_subset
      rw [hindex, happended.index, hclosed.index_eq]
      obtain ⟨-, hfile, -, -⟩ | ⟨hphase, -⟩ := hclosed
      · rw [hfile.files]
        exact List.mem_append_right _ List.mem_cons_self
      · exact absurd hopen hphase

end Runs

/-! ## The round trip -/

section RoundTrip

variable {E : Externals} {K : Sink} {S : Serde}

/-- A stream is found under its id: ids are distinct, and its entry comes before those added later. -/
theorem find?_entry {R : String × List Record → RecordIndexStream → Prop}
    {streams : List (String × List Record)} {entries more : List RecordIndexStream}
    (h : List.Forall₂ R streams entries) (hid : ∀ s e, R s e → e.streamId = s.1)
    (hdistinct : (streams.map Prod.fst).Nodup) {s : String × List Record} (hs : s ∈ streams) :
    ∃ e, (entries ++ more).find? (fun e => e.streamId = s.1) = some e ∧ R s e := by
  induction h with
  | nil => cases hs
  | @cons t e streams entries hte _ ih =>
    rw [List.map_cons, List.nodup_cons] at hdistinct
    by_cases heq : s = t
    · subst heq
      exact ⟨e, by simp [hid s e hte], hte⟩
    · have hmem := List.mem_of_ne_of_mem heq hs
      obtain ⟨e', hfind, hR⟩ := ih hdistinct.2 hmem
      have hne : e.streamId ≠ s.1 := by
        rw [hid t e hte]
        intro hsame
        exact hdistinct.1 (hsame ▸ List.mem_map_of_mem hmem)
      exact ⟨e', by simpa [hne] using hfind, hR⟩

/-- The lines of records, without their line feed. -/
theorem exists_lines {rs : List Record} {lines : List Bytes}
    (h : List.Forall₂ (fun r l => Record.toNdjsonLine r = .ok l) rs lines) :
    ∃ bs : List Bytes, lines = bs.map (· ++ [0x0a]) ∧ (∀ b ∈ bs, 0x0a ∉ b ∧ b ≠ []) ∧
      List.Forall₂ (fun r b => Record.toNdjsonLine r = .ok (b ++ [0x0a])) rs bs := by
  induction h with
  | nil => exact ⟨[], rfl, by simp, .nil⟩
  | cons hl _ ih =>
    obtain ⟨bs, rfl, hbs, hrecords⟩ := ih
    obtain ⟨b, hb, rfl⟩ := Record.toNdjsonLine_eq_ok.mp hl
    refine ⟨b :: bs, rfl, ?_, .cons hl hrecords⟩
    rw [List.forall_mem_cons]
    refine ⟨⟨?_, Record.toJcsBytes_ne_nil hb⟩, hbs⟩
    intro hlf
    exact absurd (le_of_mem_toJcsBytes hb hlf) (by decide)

/-- A stored stream is delivered by the reader. -/
theorem readStreamRecords_of_stored {zip : ZipWriter} {manifest : Manifest} {index : RecordIndex}
    {streamId : String} {entry : RecordIndexStream} {bs : List Bytes} (hserde : S.Derived K)
    (hzstd : InvertsZstd E K) (hindex : indexFile K index ∈ zip.files)
    (hfind : index.streams.find? (fun e => e.streamId = streamId) = some entry)
    (hstored : Stored K zip.files streamId (bs.map (· ++ [0x0a])) entry)
    (hbs : ∀ b ∈ bs, 0x0a ∉ b ∧ b ≠ []) :
    BundleReader.readStreamRecords E S ⟨zip.archive, manifest⟩ streamId = (bs, none) := by
  have hread : BundleReader.recordIndex S ⟨zip.archive, manifest⟩ = .ok index := by
    unfold BundleReader.recordIndex
    rw [readEntry_archive hindex]
    simp only [bind, Except.bind, decode, hserde.recordIndex_of_pretty index]
  simp only [BundleReader.readStreamRecords, hread, hfind, hstored.shardsLines hzstd hbs]

/-- Everything but the manifest is listed as it is. -/
theorem verifyContentHashes_archive {zip : ZipWriter} {manifest : Manifest} {bytes : Bytes}
    {files : List (String × Bytes)} (hfiles : zip.files = files ++ [("manifest.json", bytes)])
    (hcontents : manifest.contents = files.map fun f => contentEntry E f.1 f.2) :
    BundleReader.verifyContentHashes E ⟨zip.archive, manifest⟩ = .ok [] := by
  have hcheck : BundleReader.checkContents E zip.archive manifest.contents = .ok () := by
    rw [hcontents]
    apply checkContents_archive
    rw [hfiles]
    exact List.subset_append_left files _
  have hunlisted : BundleReader.unlistedEntries (manifest.contents.map (·.path))
      zip.archive.entries = .ok [] := by
    apply unlistedEntries_archive
    intro f hf
    rw [hfiles, List.mem_append, List.mem_singleton] at hf
    obtain hf | rfl := hf
    · right
      rw [hcontents, List.map_map]
      exact List.mem_map.mpr ⟨f, hf, rfl⟩
    · exact .inl rfl
  unfold BundleReader.verifyContentHashes
  simp only [hcheck, bind, Except.bind, hunlisted]

end RoundTrip

/-- **A bundle is read as it was written**, at every shard threshold: the manifest and its hash, every
entry under its hash, and the lines of every stream, each once and in order. The records need not be
chained. -/
theorem round_trip (E : Externals) (K : Sink) (S : Serde) (hserde : S.Derived K)
    (hzstd : InvertsZstd E K) (bundleId createdAt : String) (tool : ToolInfo) (threshold : UInt64)
    (streams : List (String × List Record)) (hdistinct : (streams.map Prod.fst).Nodup)
    (further : List Call) (hcloses : closesRecords further) (level : ExportLevel)
    (tsFrom tsTo : Option String) (resources : List String) (u : Unit) (w w' : BundleWriter)
    (manifest : Manifest) (hash : String) (archive : ZipArchive)
    (hrun : Succeeds (perform E K (recordCalls streams ++ further))
      ((BundleWriter.new bundleId createdAt tool).withShardThreshold threshold) u w)
    (hfinish : Succeeds (finish E K level tsFrom tsTo resources) w (manifest, hash, archive) w') :
    ∃ reader, BundleReader.fromZip S archive = .ok reader ∧ reader.manifest = manifest ∧
      reader.manifestHash E = .ok hash ∧ reader.verifyContentHashes E = .ok [] ∧
      ∀ s ∈ streams, ∃ lines,
        List.Forall₂ (fun r l => Record.toNdjsonLine r = .ok (l ++ [0x0a])) s.2 lines ∧
        reader.readStreamRecords E S s.1 = (lines, none) ∧
        ∃ scope ∈ manifest.scope.streams, scope.streamId = s.1 ∧
          reader.linesRead E S s.1 = .ok scope.recordCount := by
  obtain ⟨⟨new, hwrote⟩, -⟩ := perform_grows hrun
  obtain ⟨w₀, hrecords, hfurther⟩ := perform_append hrun
  obtain ⟨hopen, entries, hentries, hstored⟩ := perform_recordCalls hrecords rfl
  obtain ⟨⟨new', hwrote'⟩, more, hmore⟩ := perform_grows hfurther
  have hindexFile := indexFile_mem hfurther hopen hcloses
  obtain ⟨w₁, w₂, bytes, zip, hclosed, hverify, hindex, rfl, hhash, hbytes, hfiles, rfl⟩ :=
    succeeds_finish hfinish
  obtain ⟨new₁, hwrote₁⟩ := hclosed.files_subset
  -- the writer lists what it wrote, from the first entry to the instructions
  have hall := (hwrote.trans hwrote₁).trans hverify
  have hcontents : w₂.contents = w₂.zip.files.map fun f => contentEntry E f.1 f.2 := by
    rw [hall.contents, hall.files]
    rfl
  have hsub : w₂.zip.files ⊆ zip.files := by
    rw [hfiles]
    exact List.subset_append_left w₂.zip.files _
  have hindexMem : indexFile K w.index ∈ zip.files := by
    apply hsub
    apply hverify.files_subset
    obtain ⟨-, hfile, -, -⟩ | ⟨hphase, rfl⟩ := hclosed
    · rw [hfile.files]
      exact List.mem_append_right _ List.mem_cons_self
    · obtain hphase' | ⟨-, hmem⟩ := hindexFile
      · exact absurd hphase' hphase
      · exact hmem
  have hread : readEntry zip.archive "manifest.json" = .ok bytes := by
    apply readEntry_archive
    rw [hfiles]
    exact List.mem_append_right _ List.mem_cons_self
  refine ⟨⟨zip.archive, w₂.manifest level tsFrom tsTo resources⟩, ?_, rfl, ?_, ?_, ?_⟩
  · unfold BundleReader.fromZip
    rw [hread]
    simp only [bind, Except.bind, hserde.manifest_of_jcs hbytes]
    rfl
  · simp only [BundleReader.manifestHash, hhash]
  · exact verifyContentHashes_archive hfiles hcontents
  · intro s hs
    have hw₀ : w₀.zip.files ⊆ zip.files := fun f hf => hsub (hverify.files_subset
      (hwrote₁.files_subset (hwrote'.files_subset hf)))
    obtain ⟨entry, hfind, lines, hlines, hstored⟩ :=
      @find?_entry _ streams entries more hstored (fun s e h => h.choose_spec.2.named) hdistinct s hs
    obtain ⟨bs, rfl, hbs, hrecords⟩ := exists_lines hlines
    have hstreams : w.index.streams = entries ++ more := by
      rw [← hmore, hentries]
      rfl
    rw [← hstreams] at hfind
    have hdelivered := @readStreamRecords_of_stored E K S zip
      (w₂.manifest level tsFrom tsTo resources) w.index s.1 entry bs hserde hzstd hindexMem hfind
      (hstored.mono hw₀) hbs
    refine ⟨bs, hrecords, hdelivered, scopeOf entry, ?_, hstored.named, ?_⟩
    · change scopeOf entry ∈ w₂.index.streams.map scopeOf
      rw [hindex, hclosed.index_eq]
      exact List.mem_map_of_mem (List.mem_of_find?_eq_some hfind)
    · unfold BundleReader.linesRead
      rw [hdelivered]
      change Except.ok (UInt64.ofNat bs.length) = .ok entry.recordCount
      rw [hstored.recordCount, List.length_map]

/-! ## A bundle with two shards -/

theorem invertsZstd_recorded {r : Externals.Recording} (h : (r.frames.map Prod.fst).Nodup) :
    InvertsZstd (.recorded r) (.recorded r) := by
  intro b c hencode
  cases hfind : r.frames.find? fun f => f.2 = b with
  | none => simp [Sink.recorded, hfind] at hencode
  | some f =>
    have hcontent : f.2 = b := by simpa using List.find?_some hfind
    have hframe : f.1 = c := by simpa [Sink.recorded, hfind] using hencode
    have hmem : (c, b) ∈ r.frames := by
      rw [← hcontent, ← hframe]
      exact List.mem_of_find?_eq_some hfind
    have hlookup : r.frames.lookup c = some b := (Value.lookup_eq_some_iff h).mpr hmem
    simp [Externals.recorded, hlookup]

namespace Sample

open Evidence.Sample (opened updated)

def streamId : String := "000000002D000000000000002D"

def lineOf (r : Record) : Bytes := r.toNdjsonLine.toOption.getD []

def openedFrame : String :=
  "28b52ffd0058850c00465c52224069ab03711b4e6c36c28d9f41c416dc429d8ccf18a76e44eada52ba5d9361" ++
  "7605264700470049006a210b6b8b6ceeef8c858cd2e8ba387abc6f5313fe6e2d74a4126b378e1e97bfb7ac8c" ++
  "c776556e272abc47bf155eab5cda8a44f7e239bae334630f6ba22f6dee78a74f7325bc23ca4976aa35860cc1" ++
  "984d4e8db184a895c4285723964ae4722d81cdcccd4eaa97fac8ae47778997b854c2a69b2da98558733a966e" ++
  "b6630b614b5b0dc178a5d93141929372b188b488df1106147a52a0a219698f1ee7433af06d32c8ae0a0caaa8" ++
  "cfbcd0591c3d317fbfb4a98bda09da4ce5da87b9e3bd763b7241f66c9cbff762e1062c1650fcf7a5618479aa" ++
  "e8903997008f1730f381f9313f95085232246c4028567f771c98c0cce9dd52e5a18f42b1f7e8f106eda32fcd" ++
  "884dbd171e3d59db16bd71e4df17da1c28977602def17e651b4486800276bdf6011a006b8a8642148d49020d" ++
  "c90962f2c0663ab02e559d9a5ec8b31b30971e7b763ba9dd24c2fae311b4b261afeed3b32ca6360ccec0e582" ++
  "049eb306235478f2264c059b61"

def updatedFrame : String :=
  "28b52ffd0058650c0006dc5122306bac03415dae642f8cb21722be842c2d7133a83de702ffe037824a28050d" ++
  "61b0844500480049007c30c8b2ad8d797ab1be3b24176a143a2aae1aef19c585bb4bb912372fb6c2d59f73f7" ++
  "e6b89864c7663622eebc7acf75148b564c5797a486e437227ac2e80c77384593f78c0ab27063a63c76583779" ++
  "bb0753d6d71e3f65397621c75a5e6ef6b4b612e551a4ad645994b11327eea88aeac31ea33c8fc31856862188" ++
  "6e4b9ab64717d2da52d8b1bcc74727075b0257cb3d81804dd80944cbabaf66130db1bc6a5c0356805eae0377" ++
  "8ccdb0809174f7449c9eb992e2ea0bbafb845154c446c0e869a69ca033dc63bbb7a2610a1c3ac0f4ee4ed49c" ++
  "873902008d1ba86ac052a7ead82a58ebb0e82161caee2e49bba0aacc5dc2668253a291f3aa7105d857777af1" ++
  "a238e75e7d49d9523d92f8ee0e8c109a091bb167b84fee83b718486cc7290319006b8a8642148d49420bc909" ++
  "62f2c0663ab02e559d9a5e986784df03d792c44da2a17f1cd8142ed5432c0799d2e30d833370b900d8860a82" ++
  "00345c74b3d0324c3b"

def storedEntries : List ContentEntry := [
  ⟨"records/000000002D000000000000002D.part-00001.ndjson.zst",
    "33df0c0e34ac15faca391edd53bce43ee79b737500e8f6ee9399a6724403d2d6", 409⟩,
  ⟨"records/000000002D000000000000002D.part-00002.ndjson.zst",
    "6893df2c4fe215b7a75c212ece10bda5d6651c238df62a767fff65e640943bb4", 405⟩,
  ⟨"records/index.json", "61ddc03f8772f308ad06f74a3bd6fec253e19e6c127678d312f897341077cafb", 309⟩,
  ⟨"anchors/qts/2026-08-11.der", blobHash, 6⟩, ⟨"vault/blob", blobHash, 6⟩, verifyMd]

def storedManifest : Manifest := { manifestOf storedEntries with
  scope := ⟨.full, none, none, [], [⟨streamId, 0, 1, 2⟩]⟩ }

def storedIndex : RecordIndex :=
  ⟨[⟨streamId, [shardPath streamId 1, shardPath streamId 2], 0, 1, 2⟩]⟩

def frames : List (Bytes × Bytes) :=
  [(bytesOfHex openedFrame, lineOf opened), (bytesOfHex updatedFrame, lineOf updated)]

/-- Each line is longer than one byte, so each is a shard. -/
def storedRecording : Externals.Recording := { recording with
  blake3 := recording.blake3 ++ [
    (bytesOfHex openedFrame,
      ofHex "33df0c0e34ac15faca391edd53bce43ee79b737500e8f6ee9399a6724403d2d6"),
    (bytesOfHex updatedFrame,
      ofHex "6893df2c4fe215b7a75c212ece10bda5d6651c238df62a767fff65e640943bb4"),
    (toVecPretty sink storedIndex.toJson,
      ofHex "61ddc03f8772f308ad06f74a3bd6fec253e19e6c127678d312f897341077cafb"),
    (documentBytes storedManifest.toJson,
      ofHex "a1cbd89d7d599c2702fe294ec0e7f0e53537443e2b22e4f5f44ce963ae9523ff")]
  frames }

def storedStreams : List (String × List Record) := [(streamId, [opened, updated])]

def storedExternals : Externals := .recorded storedRecording

def storedSink : Sink := .recorded storedRecording

def storedWriter : BundleWriter :=
  (BundleWriter.new "01BUNDLE" "2026-08-11T13:00:00.000Z" tool).withShardThreshold 1

/-- The calls and the end of the writing. -/
def stored : WriterM (Manifest × String × ZipArchive) := do
  perform storedExternals storedSink (recordCalls storedStreams ++ vaultLast)
  finish storedExternals storedSink .full none none []

end Sample

open Bundle.Sample in
/-- Two records in two shards. -/
theorem round_trip_two_shards :
    ∃ w w' manifest hash archive,
      Succeeds (perform storedExternals storedSink (recordCalls storedStreams ++ vaultLast))
        storedWriter () w ∧
      Succeeds (finish storedExternals storedSink .full none none []) w
        (manifest, hash, archive) w' ∧
      ∃ reader, BundleReader.fromZip Serde.parsed archive = .ok reader ∧
        reader.manifest = manifest ∧ reader.manifestHash storedExternals = .ok hash ∧
        reader.verifyContentHashes storedExternals = .ok [] ∧
        ∀ s ∈ storedStreams, ∃ lines,
          List.Forall₂ (fun r l => Record.toNdjsonLine r = .ok (l ++ [0x0a])) s.2 lines ∧
          reader.readStreamRecords storedExternals Serde.parsed s.1 = (lines, none) ∧
          ∃ scope ∈ manifest.scope.streams, scope.streamId = s.1 ∧
            reader.linesRead storedExternals Serde.parsed s.1 = .ok scope.recordCount := by
  have hok : (stored.exec storedWriter).1.toBool := by decide +kernel
  have hframes : (storedRecording.frames.map Prod.fst).Nodup := by decide +kernel
  obtain ⟨⟨manifest, hash, archive⟩, w', hstored⟩ := exists_succeeds hok
  obtain ⟨_, w, hrun, hfinish⟩ := succeeds_bind.mp hstored
  refine ⟨w, w', manifest, hash, archive, hrun, hfinish, ?_⟩
  exact round_trip storedExternals storedSink Serde.parsed (Serde.derived_parsed storedSink)
    (invertsZstd_recorded hframes) _ _ tool 1 storedStreams (List.nodup_singleton _) vaultLast rfl
    .full none none [] () w w' manifest hash archive hrun hfinish

end Sealr.Bundle
