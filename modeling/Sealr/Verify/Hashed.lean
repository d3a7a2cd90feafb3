import Sealr.Verify.Reads

/-!
# Only hashed bytes

The test for unlisted entries passes over names that end in a slash, as those of directories do. The
names of shards and of tokens come from the bundle itself, and nothing keeps them from ending in a
slash: what is read under such a name need not have been hashed.
-/

namespace Sealr.Verify

open Lib Evidence Bundle

/-- Every entry that is read, the manifest apart, is listed with its hash and its length. -/
def OnlyHashedRead (E : Externals) (S : Serde) (reader : BundleReader) : Prop :=
  ∀ role name file, Reads E S reader role name → name ≠ "manifest.json" →
    reader.zip.byName name = some file → ∃ c ∈ reader.manifest.contents, c.path = name ∧
      blake3Hex E file.data = c.blake3 ∧ UInt64.ofNat file.data.length = c.bytes

/-- A shard or a token that is read under the name of a directory is listed, or absent. -/
def DirectoriesListed (E : Externals) (S : Serde) (reader : BundleReader) : Prop :=
  ∀ role name, role = .shard ∨ role = .token → Reads E S reader role name →
    (chars name).getLast? = some '/' →
      name ∈ reader.manifest.contents.map (·.path) ∨ reader.zip.byName name = none

section Hashed

variable {E : Externals} {S : Serde} {reader reader' : BundleReader} {role : Role} {name : String}

/-- The names that the verifier makes up itself are not those of directories. -/
theorem getLast?_of_reads (h : Reads E S reader role name) (hshard : role ≠ .shard)
    (htoken : role ≠ .token) : (chars name).getLast? ≠ some '/' := by
  cases h with
  | certs => decide
  | revocations => decide
  | roots => decide
  | index => decide
  | proofs => decide
  | checkpoints hscope =>
    have hend : ".json".toList.getLast? = some 'n' := by decide
    rw [chars_eq, String.toList_append, List.getLast?_append, hend]
    simp
  | shard => exact absurd rfl hshard
  | batchToken => exact absurd rfl htoken
  | dayToken => exact absurd rfl htoken

/-- The entries of the container that the contents do not account for. -/
theorem passedOver_of_byName {file : ZipEntry} (h : reader.verifyContentHashes E = .ok [])
    (hfile : reader.zip.byName name = some file) :
    BundleReader.PassedOver (reader.manifest.contents.map (·.path)) name := by
  have hname : file.name = name := by simpa using List.find?_some hfile
  rw [← hname]
  exact ((BundleReader.verifyContentHashes_eq_nil.mp h).2 file (List.mem_of_find?_eq_some hfile)).2

theorem onlyHashedRead_iff (h : reader.verifyContentHashes E = .ok []) :
    OnlyHashedRead E S reader ↔ DirectoriesListed E S reader := by
  constructor
  · intro honly role name hrole hread hdir
    cases hfile : reader.zip.byName name with
    | none => exact .inr rfl
    | some file =>
      have hne : name ≠ "manifest.json" := by
        rintro rfl
        revert hdir
        decide
      obtain ⟨c, hc, hpath, -⟩ := honly role name file hread hne hfile
      exact .inl (List.mem_map.mpr ⟨c, hc, hpath⟩)
  · intro hdirs role name file hread hne hfile
    have hlisted : name ∈ reader.manifest.contents.map (·.path) := by
      obtain hmanifest | hlisted | hdir := passedOver_of_byName h hfile
      · exact absurd hmanifest hne
      · exact hlisted
      · by_cases hrole : role = .shard ∨ role = .token
        · obtain hlisted | habsent := hdirs role name hrole hread hdir
          · exact hlisted
          · rw [hfile] at habsent
            cases habsent
        · rw [not_or] at hrole
          exact absurd hdir (getLast?_of_reads hread hrole.1 hrole.2)
    obtain ⟨c, hc, rfl⟩ := List.mem_map.mp hlisted
    obtain ⟨bytes, hbytes, hhash, hlength⟩ :=
      (BundleReader.verifyContentHashes_eq_nil.mp h).1 c hc
    rw [byName_of_readEntry hbytes, Option.some.injEq] at hfile
    rw [← hfile]
    exact ⟨c, hc, rfl, hhash, hlength⟩

/-- Two containers under one manifest agree on what both read. -/
theorem agreeOn_of_hashed (hmanifest : reader'.manifest = reader.manifest) {bytes : Bytes}
    (hbytes : readEntry reader.zip "manifest.json" = .ok bytes)
    (hbytes' : readEntry reader'.zip "manifest.json" = .ok bytes)
    (h : reader.verifyContentHashes E = .ok []) (h' : reader'.verifyContentHashes E = .ok [])
    (honly : OnlyHashedRead E S reader) (honly' : OnlyHashedRead E S reader')
    (hfree : ¬Collides E.blake3 (reader.zip.entries.map (·.data)) (reader'.zip.entries.map (·.data)))
    (hread : Reads E S reader role name) (hread' : Reads E S reader' role name) :
    AgreeOn reader reader' name := by
  unfold AgreeOn
  by_cases hname : name = "manifest.json"
  · rw [hname, byName_of_readEntry hbytes, byName_of_readEntry hbytes']
  · by_cases hlisted : name ∈ reader.manifest.contents.map (·.path)
    · obtain ⟨c, hc, rfl⟩ := List.mem_map.mp hlisted
      obtain ⟨data, hdata, hhash, -⟩ := (BundleReader.verifyContentHashes_eq_nil.mp h).1 c hc
      obtain ⟨data', hdata', hhash', -⟩ :=
        (BundleReader.verifyContentHashes_eq_nil.mp h').1 c (hmanifest ▸ hc)
      have hentry := byName_of_readEntry hdata
      have hentry' := byName_of_readEntry hdata'
      have hsame : data = data' := by
        have hdigest := blake3Hex_inj.mp (hhash.trans hhash'.symm)
        by_contra hne
        exact hfree ⟨data, List.mem_map.mpr ⟨_, List.mem_of_find?_eq_some hentry, rfl⟩, data',
          List.mem_map.mpr ⟨_, List.mem_of_find?_eq_some hentry', rfl⟩, hne, hdigest⟩
      rw [hentry, hentry', hsame]
    · -- what is not listed is in neither container
      have habsent : ∀ r : BundleReader, r.manifest = reader.manifest → OnlyHashedRead E S r →
          Reads E S r role name → r.zip.byName name = none := by
        intro r hr hronly hrread
        cases hfile : r.zip.byName name with
        | none => rfl
        | some file =>
          obtain ⟨c, hc, hpath, -⟩ := hronly role name file hrread hname hfile
          exact absurd (List.mem_map.mpr ⟨c, hr ▸ hc, hpath⟩) hlisted
      rw [habsent reader rfl honly hread, habsent reader' hmanifest honly' hread']

/-- Two containers with equal findings of their own under one manifest that agree on what is read
have one report. -/
theorem report_agree {now : Int} {opts : VerifyOptions}
    (hmanifest : reader'.manifest = reader.manifest)
    (hcontainer : containerFindings E reader = containerFindings E reader')
    (h : ∀ role name, Reads E S reader role name → AgreeOn reader reader' name) :
    verifyBundle E S now reader opts = verifyBundle E S now reader' opts := by
  have hids : scopeIds reader = scopeIds reader' := by
    unfold scopeIds
    rw [hmanifest]
  obtain ⟨passes, hfindings, hfindings', hproven⟩ := @passes_agree E S _ _ now opts hids h
  have hsame : (verifyBundle E S now reader opts).findings =
      (verifyBundle E S now reader' opts).findings := by
    rw [hfindings, hfindings', hcontainer]
  -- the rest of a report is made from the manifest
  have hreport : ∀ r, verifyBundle E S now r opts =
      ⟨computeResult (verifyBundle E S now r opts).findings, r.manifest.bundleId,
        (verifyBundle E S now r opts).manifestHash, ⟨VERIFIER_VERSION, r.manifest.schemaVersion⟩,
        (verifyBundle E S now r opts).proven, (verifyBundle E S now r opts).findings⟩ := fun _ => rfl
  have hhash : (verifyBundle E S now reader opts).manifestHash =
      (verifyBundle E S now reader' opts).manifestHash := by
    simp only [verifyBundle, BundleReader.manifestHash, hmanifest]
  rw [hreport reader, hreport reader', hsame, hproven, hhash, hmanifest]

/-- **Only hashed bytes are read, except under names of directories.** In a container whose content
hashes check, every entry that is read is listed with its hash and its length if and only if every
shard and every token that is read under a name ending in a slash is listed or absent. Two such
containers with the same `manifest.json` have one report, or two of their entries collide. -/
theorem only_hashed_read_iff {zip : ZipArchive} (hopen : BundleReader.fromZip S zip = .ok reader)
    (hok : reader.verifyContentHashes E = .ok []) :
    (OnlyHashedRead E S reader ↔ DirectoriesListed E S reader) ∧
      ∀ (zip' : ZipArchive) (reader' : BundleReader) (now : Int) (opts : VerifyOptions),
        BundleReader.fromZip S zip' = .ok reader' → reader'.verifyContentHashes E = .ok [] →
        readEntry zip' "manifest.json" = readEntry zip "manifest.json" →
        DirectoriesListed E S reader → DirectoriesListed E S reader' →
          verifyBundle E S now reader opts = verifyBundle E S now reader' opts ∨
            Collides E.blake3 (zip.entries.map (·.data)) (zip'.entries.map (·.data)) := by
  refine ⟨onlyHashedRead_iff hok, ?_⟩
  intro zip' reader' now opts hopen' hok' hbytes hdirs hdirs'
  obtain ⟨rfl, bytes, hread, hparse⟩ := BundleReader.fromZip_eq_ok.mp hopen
  obtain ⟨rfl, bytes', hread', hparse'⟩ := BundleReader.fromZip_eq_ok.mp hopen'
  obtain rfl : bytes' = bytes := Except.ok.inj (hread'.symm.trans (hbytes.trans hread))
  have hmanifest : reader'.manifest = reader.manifest := Except.ok.inj (hparse'.symm.trans hparse)
  by_cases hfree : Collides E.blake3 (reader.zip.entries.map (·.data))
      (reader'.zip.entries.map (·.data))
  · exact .inr hfree
  · left
    have hids : scopeIds reader = scopeIds reader' := by
      unfold scopeIds
      rw [hmanifest]
    have hboth : ∀ role name, Reads E S reader role name → Reads E S reader' role name →
        AgreeOn reader reader' name := fun role name =>
      agreeOn_of_hashed hmanifest hread hread' hok hok' ((onlyHashedRead_iff hok).mpr hdirs)
        ((onlyHashedRead_iff hok').mpr hdirs') hfree
    refine report_agree hmanifest ?_ fun role name hr => hboth role name hr (reads_both hids hboth hr)
    simp only [containerFindings, hok, hok', hmanifest]

end Hashed

/-! The index names a directory as the shard. -/

namespace Sample

open Evidence.Sample

def directory : String := "records/000000002D000000000000002D/"

def directoryIndex : RecordIndex := ⟨[⟨opened.streamId, [directory], 0, 0, 1⟩]⟩

def directoryEntries : List (ZipEntry × String) :=
  [(file "records/index.json" (documentBytes directoryIndex.toJson),
    "b9de10ff0292aef50a99fae32f81e35f1c148e189cd03c72780e736245ae7ea0")]

/-- The container with some bytes under the name of the directory. -/
def directoryBundle (data : Bytes) : BundleReader where
  zip := ⟨directoryEntries.map Prod.fst ++ [file directory data,
    file "manifest.json" (documentBytes (manifestFor directoryEntries).toJson)],
    by simp [directoryEntries, file, directory]⟩
  manifest := manifestFor directoryEntries

def directoryExternals : Externals := .recorded { recording with
  blake3 := recording.blake3 ++ hashesOf directoryEntries
  frames := [(rawFrame line, line)] }

def directoryDocuments : Documents where
  manifests := [manifestFor directoryEntries]
  indexes := [directoryIndex]

theorem directory_opens (data : Bytes) :
    BundleReader.fromZip directoryDocuments.serde (directoryBundle data).zip =
      .ok (directoryBundle data) := by
  have hentry : readEntry (directoryBundle data).zip "manifest.json" =
      .ok (documentBytes (manifestFor directoryEntries).toJson) := by
    simp [readEntry, ZipArchive.byName, directoryBundle, directoryEntries, directory, file]
  refine BundleReader.fromZip_eq_ok.mpr ⟨rfl, _, hentry, ?_⟩
  simp only [directoryDocuments, Documents.serde, readsBack_self, directoryBundle]

theorem directory_hashed (data : Bytes) :
    (directoryBundle data).verifyContentHashes directoryExternals = .ok [] := by
  rw [BundleReader.verifyContentHashes_eq_nil]
  constructor
  · intro c hc
    rw [List.mem_singleton.mp hc]
    refine ⟨documentBytes directoryIndex.toJson, rfl, ?_, rfl⟩
    decide
  · intro e he
    simp only [directoryBundle, directoryEntries, List.map_cons, List.map_nil, List.cons_append,
      List.nil_append, List.mem_cons, List.not_mem_nil, or_false] at he
    obtain rfl | rfl | rfl := he
    · exact ⟨rfl, .inr (.inl (List.mem_singleton_self _))⟩
    · have hdir : (chars directory).getLast? = some '/' := by decide
      exact ⟨rfl, .inr (.inr hdir)⟩
    · exact ⟨rfl, .inl rfl⟩

theorem directory_read (data : Bytes) :
    Reads directoryExternals directoryDocuments.serde (directoryBundle data) .shard directory := by
  have hentry : readEntry (directoryBundle data).zip "records/index.json" =
      .ok (documentBytes directoryIndex.toJson) := rfl
  have hindex : (directoryBundle data).recordIndex directoryDocuments.serde =
      .ok directoryIndex := by
    refine BundleReader.recordIndex_of_read hentry ?_
    simp only [directoryDocuments, Documents.serde, readsBack_self]
  obtain ⟨verifier, hnew⟩ : ∃ v, StreamVerifier.new directoryExternals opened.streamId = .ok v := by
    exact ⟨_, rfl⟩
  exact @Reads.shard _ _ _ _ _ verifier _ _ [] [] (List.mem_singleton_self _) hnew hindex rfl rfl
    (by simp)

theorem bundle_manifest : readEntry bundle.zip "manifest.json" =
    .ok (documentBytes (manifestFor entries).toJson) := by
  simp [readEntry, ZipArchive.byName, bundle, entries, entriesAround, file, shardPath]

theorem bundle_opens :
    BundleReader.fromZip bundleDocuments.serde bundle.zip = .ok bundle := by
  refine BundleReader.fromZip_eq_ok.mpr ⟨rfl, _, bundle_manifest, ?_⟩
  simp only [bundleDocuments, Documents.serde, readsBack_self, bundle]

theorem bundle_index {S : Serde} (h : S.recordIndex (documentBytes index.toJson) = .ok index) :
    bundle.recordIndex S = .ok index := by
  have hentry : readEntry bundle.zip "records/index.json" = .ok (documentBytes index.toJson) := rfl
  exact BundleReader.recordIndex_of_read hentry h

/-- No root, no key and no time are passed in. -/
def plainOptions : VerifyOptions where
  rootPemOverride := none
  consoleKeyOverride := none
  nowUnix := none
  expectedHighWater := fun _ => none

end Sample

/-- The shard is not listed, and without its bytes the report is another. -/
theorem directory_shard_unhashed :
    let full := Sample.directoryBundle (Sample.rawFrame Sample.line)
    let empty := Sample.directoryBundle []
    let S := Sample.directoryDocuments.serde
    let E := Sample.directoryExternals
    BundleReader.fromZip S full.zip = .ok full ∧ BundleReader.fromZip S empty.zip = .ok empty ∧
      full.verifyContentHashes E = .ok [] ∧ empty.verifyContentHashes E = .ok [] ∧
      readEntry empty.zip "manifest.json" = readEntry full.zip "manifest.json" ∧
      ¬OnlyHashedRead E S full ∧
      (verifyBundle E S 0 full Sample.plainOptions).proven.records = 1 ∧
      (verifyBundle E S 0 empty Sample.plainOptions).proven.records = 0 := by
  refine ⟨Sample.directory_opens _, Sample.directory_opens _, Sample.directory_hashed _,
    Sample.directory_hashed _, rfl, ?_, ?_, ?_⟩
  · intro h
    have hne : Sample.directory ≠ "manifest.json" := by decide
    obtain ⟨c, hc, hpath, -⟩ := h _ _ _ (Sample.directory_read _) hne rfl
    rw [List.mem_singleton.mp hc] at hpath
    exact absurd hpath (by decide)
  · decide +kernel
  · decide +kernel

/-- The bundle that passes is read from hashed entries alone. -/
theorem only_hashed_read_sample :
    OnlyHashedRead Sample.bundleExternals Sample.bundleDocuments.serde Sample.bundle := by
  have hok : Sample.bundle.verifyContentHashes Sample.bundleExternals = .ok [] :=
    verifyContentHashes_of_unfailed Sample.bundle_ne_fail
  rw [(only_hashed_read_iff Sample.bundle_opens hok).1]
  intro role name hrole hread hdir
  obtain rfl | rfl := hrole
  · have hindex : Sample.bundle.recordIndex Sample.bundleDocuments.serde = .ok Sample.index := by
      apply Sample.bundle_index
      simp only [Sample.bundleDocuments, Documents.serde, readsBack_self]
    rw [Sample.shard_of_reads hindex hread] at hdir
    have hend : (chars Sample.shardPath).getLast? ≠ some '/' := by decide
    exact absurd hdir hend
  · exact absurd hread (Sample.not_reads_token rfl)

end Sealr.Verify
