import Sealr.Verify.Extent

/-!
# What a bundle declares and what is read

The streams of a bundle are described three times: by the scope of the manifest, by the record index
and by the shards themselves. The engine takes the stream ids from the scope, the shards of each from
the first index entry of that id, and everything else from the lines that the shards hold. The counts
and ranges that the two documents declare are carried along and compared with nothing.
-/

namespace Sealr.Verify

open Lib Evidence Bundle

/-- The lines of the shards that are listed. -/
def linesOf (E : Externals) (reader : BundleReader) (shards : List String) : List Bytes :=
  shards.flatMap fun shard => (shardLines E reader.zip shard).1

/-- A stream that was read through an index entry: every shard to its end, every line a record of the
stream, with the records numbered upwards. -/
structure ReadThrough (E : Externals) (S : Serde) (reader : BundleReader) (streamId : String)
    (entry : RecordIndexStream) : Prop where
  ended : ∀ shard ∈ entry.shards, (shardLines E reader.zip shard).2 = none
  delivered : reader.readStreamRecords E S streamId = (linesOf E reader entry.shards, none)
  parses : ∀ line ∈ linesOf E reader entry.shards, ∃ v, E.fromSlice line = .ok v
  numbered : Numbered E streamId (fileRecords E S reader streamId)

section Shards

variable {E : Externals} {S : Serde} {reader : BundleReader} {streamId : String}

theorem shardsLines_ended {shards : List String} (h : (shardsLines E reader.zip shards).2 = none) :
    (∀ shard ∈ shards, (shardLines E reader.zip shard).2 = none) ∧
      (shardsLines E reader.zip shards).1 = linesOf E reader shards := by
  induction shards with
  | nil => simp [shardsLines, linesOf]
  | cons shard shards ih =>
    unfold shardsLines at h ⊢
    cases hshard : shardLines E reader.zip shard with
    | mk lines err =>
      cases err with
      | some e => simp [hshard] at h
      | none =>
        simp only [hshard] at h ⊢
        obtain ⟨hended, hlines⟩ := ih h
        refine ⟨?_, ?_⟩
        · intro s hs
          rcases List.mem_cons.mp hs with rfl | hs
          · rw [hshard]
          · exact hended s hs
        · rw [hlines]
          simp only [linesOf, List.flatMap_cons, hshard]

/-- Without an error the chain pass has read the stream to its end. -/
theorem readStreamRecords_ended
    (h : ∀ f ∈ (verifyStreamChain E S reader streamId).2, f.severity ≠ .error) :
    (reader.readStreamRecords E S streamId).2 = none := by
  unfold verifyStreamChain at h
  cases hnew : StreamVerifier.new E streamId with
  | error e => simp [hnew, addAt] at h
  | ok verifier =>
    cases herr : (reader.readStreamRecords E S streamId).2 with
    | none => rfl
    | some e =>
      simp only [hnew, herr, List.mem_append, List.mem_singleton] at h
      exact absurd rfl (h _ (.inr rfl))

theorem readStreamRecords_entry (h : (reader.readStreamRecords E S streamId).2 = none) :
    ∃ index, reader.recordIndex S = .ok index ∧ ∃ entry,
      index.streams.find? (fun s => s.streamId = streamId) = some entry ∧
      (∀ shard ∈ entry.shards, (shardLines E reader.zip shard).2 = none) ∧
      reader.readStreamRecords E S streamId = (linesOf E reader entry.shards, none) := by
  unfold BundleReader.readStreamRecords at h ⊢
  cases hindex : reader.recordIndex S with
  | error e => simp [hindex] at h
  | ok index =>
    cases hfind : index.streams.find? fun s => s.streamId = streamId with
    | none => simp [hindex, hfind] at h
    | some entry =>
      simp only [hindex, hfind] at h ⊢
      obtain ⟨hended, hlines⟩ := shardsLines_ended h
      exact ⟨index, rfl, entry, hfind, hended, Prod.ext hlines h⟩

theorem readThrough_of_quiet
    (h : ∀ f ∈ (verifyStreamChain E S reader streamId).2, f.severity ≠ .error) :
    ∃ index, reader.recordIndex S = .ok index ∧ ∃ entry,
      index.streams.find? (fun s => s.streamId = streamId) = some entry ∧
      ReadThrough E S reader streamId entry := by
  obtain ⟨hparses, hnum, -, -⟩ := verifyStreamChain_quiet (fun f hf => hf) h
  obtain ⟨index, hindex, entry, hfind, hended, hread⟩ :=
    readStreamRecords_entry (readStreamRecords_ended h)
  refine ⟨index, hindex, entry, hfind, hended, hread, ?_, hnum⟩
  rw [hread] at hparses
  exact hparses

end Shards

section Scope

variable {E : Externals} {S : Serde} {now : Int} {reader : BundleReader} {opts : VerifyOptions}

/-- **The scope that was verified.** If the verdict is not `Fail`, the container holds what its
manifest lists, every stream in scope has an index entry, the first one was read to the end of every
shard and yielded records of the stream only, and the lines read are the records counted. -/
theorem scope_read (h : (verifyBundle E S now reader opts).result ≠ .fail) :
    reader.verifyContentHashes E = .ok [] ∧
      (∀ streamId ∈ scopeIds reader, ∃ index, reader.recordIndex S = .ok index ∧ ∃ entry,
        index.streams.find? (fun s => s.streamId = streamId) = some entry ∧
        ReadThrough E S reader streamId entry) ∧
      (verifyBundle E S now reader opts).proven.records =
        ∑ streamId ∈ (scopeIds reader).toFinset,
          (reader.readStreamRecords E S streamId).1.length := by
  have hnone := noError_of_unfailed h
  rw [findings_verifyBundle] at hnone
  simp only [List.mem_append] at hnone
  have hchain : ∀ streamId ∈ scopeIds reader,
      ∀ f ∈ (verifyStreamChain E S reader streamId).2, f.severity ≠ .error := by
    intro streamId hscope f hf
    exact hnone f (.inl (.inl (.inl (.inr (mem_chainPass_findings.mpr ⟨_, hscope, hf⟩)))))
  refine ⟨verifyContentHashes_of_unfailed h, ?_, ?_⟩
  · intro streamId hscope
    exact readThrough_of_quiet (hchain streamId hscope)
  · apply records_proven
    intro s hs
    obtain ⟨hscope, anchored, hdata⟩ := final_data hs
    obtain ⟨hparses, -, -, hholds⟩ := verifyStreamChain_quiet (fun f hf => hf) (hchain s.1 hscope)
    rw [hdata]
    refine (congrArg Std.TreeMap.size hashes_checkedData).trans ?_
    rw [hholds.size]
    exact length_recordValues hparses

end Scope

/-! A bundle that passes although its documents declare seven records from 5 to 9 where the one record
has number 0, and its index lists the stream twice and a stream that is not in scope. -/

namespace Sample

open Evidence.Sample

def strayPath : String := "records/000000002D000000000000002F.part-00001.ndjson.zst"

def looseIndex : RecordIndex := ⟨[⟨opened.streamId, [shardPath], 5, 9, 7⟩,
  ⟨opened.streamId, [], 0, 0, 0⟩, ⟨absentStream, [strayPath], 0, 0, 1⟩]⟩

def looseEntries : List (ZipEntry × String) := [
  (file strayPath [0x00], "2d3adedff11b61f14c886e35afa036736dcd87a74d27b5c1510225d0f592e213"),
  (file shardPath (rawFrame line),
    "4d29f36882a97ed0afad58ab1a538439cc0ad81d4883a11e5931fcc433abe34f"),
  (file "records/index.json" (documentBytes looseIndex.toJson),
    "cf74113e103c0eb1e0241683b59c31e8c70e02adeb96d00e185d20815c6b0c51"),
  (file "checkpoints/000000002D000000000000002D.json" (documentBytes checkpointFile.toJson),
    "f0e39a1a96301b2cd250d40ada7b4fbac0ad0a28a38bbd611ca9a1a5555709c4"),
  (file "identity/certs.pem" (asBytes (derToPem leafDer)),
    "c12da398cd2def0b988061f054f722dd209090775516b9afa98e6bbaa3e0c71f"),
  (file "identity/roots.json" (documentBytes roots.toJson),
    "08924c00795b2493026020a117ca2759778d403ba82b4f850f9900019a28be8e")]

def looseManifest : Manifest := { manifestFor looseEntries with
  scope := ⟨.full, none, none, [], [⟨opened.streamId, 5, 9, 7⟩]⟩ }

def loose : BundleReader where
  zip := ⟨looseEntries.map Prod.fst ++ [file "manifest.json" (documentBytes looseManifest.toJson)],
    by simp [looseEntries, file, shardPath, strayPath]⟩
  manifest := looseManifest

def looseRecording : Externals.Recording := { bundleRecording with
  blake3 := recording.blake3 ++ (leafDer, ofHex fingerprint) :: hashesOf looseEntries ++
    [(documentBytes looseManifest.toJson,
      ofHex "b3524d8d3ce5b95bef174e0f0dce11bfd36aeb97e522bd31e36a8151b072f07f")] }

def looseExternals : Externals := .recorded looseRecording

def looseDocuments : Documents where
  manifests := [looseManifest]
  indexes := [looseIndex]
  checkpoints := [checkpointFile]
  roots := [roots]

theorem loose_identity : identityPass looseExternals looseDocuments.serde 1786453200
    loose options = (trust, [add .info .rootSource "root source: --root override"]) :=
  identityPass_eq rfl rfl rfl rfl rfl (by decide)
    (identity_eq rfl rfl rfl (by simp only [looseDocuments, Documents.serde, readsBack_self]))

theorem loose_pass :
    (verifyBundle looseExternals looseDocuments.serde 0 loose options).result = .pass := by
  rw [result_of_identity loose_identity rfl]
  decide +kernel

end Sample

/-- The streams of the index are not those in scope, one is listed twice, and of seven records
declared from 5 to 9 one is read, with number 0. -/
theorem scope_declared_otherwise :
    (verifyBundle Sample.looseExternals Sample.looseDocuments.serde 0 Sample.loose
        Sample.options).result ≠ .fail ∧
      Sample.loose.recordIndex Sample.looseDocuments.serde = .ok Sample.looseIndex ∧
      Sample.absentStream ∈ Sample.looseIndex.streams.map (·.streamId) ∧
      Sample.absentStream ∉ scopeIds Sample.loose ∧
      ¬(Sample.looseIndex.streams.map (·.streamId)).Nodup ∧
      ∃ scope ∈ Sample.loose.manifest.scope.streams, ∃ entry ∈ Sample.looseIndex.streams,
        entry.streamId = scope.streamId ∧
        (scope.seqFrom, scope.seqTo, scope.recordCount) = (5, 9, 7) ∧
        (entry.seqFrom, entry.seqTo, entry.recordCount) = (5, 9, 7) ∧
        (fileRecords Sample.looseExternals Sample.looseDocuments.serde Sample.loose
          scope.streamId).map seqOf = [some 0] := by
  refine ⟨?_, ?_, by decide, by decide, by decide, _, List.mem_singleton_self _, _,
    List.mem_cons_self, rfl, rfl, rfl, ?_⟩
  · rw [Sample.loose_pass]
    decide
  · have hentry : readEntry Sample.loose.zip "records/index.json" =
        .ok (documentBytes Sample.looseIndex.toJson) := rfl
    refine BundleReader.recordIndex_of_read hentry ?_
    simp only [Sample.looseDocuments, Documents.serde, readsBack_self]
  · decide +kernel

/-- The passing bundle: its stream is read through its one index entry. -/
theorem scope_read_sample :
    (verifyBundle Sample.bundleExternals Sample.bundleDocuments.serde 0 Sample.bundle
        Sample.options).result ≠ .fail ∧
      Sample.bundle.verifyContentHashes Sample.bundleExternals = .ok [] ∧
      ∃ entry, ReadThrough Sample.bundleExternals Sample.bundleDocuments.serde Sample.bundle
        "000000002D000000000000002D" entry := by
  obtain ⟨hcontents, hstreams, -⟩ := scope_read Sample.bundle_ne_fail
  obtain ⟨-, -, entry, -, hread⟩ := hstreams "000000002D000000000000002D"
    (List.mem_singleton_self _)
  exact ⟨Sample.bundle_ne_fail, hcontents, entry, hread⟩

end Sealr.Verify
