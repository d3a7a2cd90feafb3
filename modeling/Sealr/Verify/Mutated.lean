import Sealr.Bundle.Decode
import Sealr.Verify.Hashed
import Sealr.Verify.Scope

/-!
# One byte changed

The contents of a bundle bind every entry but `manifest.json`, which lists them. The manifest is bound
by its own hash, which the exporter prints and the report repeats: a manifest that still describes the
container is not told apart by the verdict, but by that hash.
-/

namespace Sealr.Bundle

open Lib Evidence

/-- The container with one byte of an entry changed. -/
def ZipArchive.setByte (zip : ZipArchive) (name : String) (i : Nat) (b : UInt8) : ZipArchive where
  entries := zip.entries.map fun e => if e.name = name then { e with data := e.data.set i b } else e
  nodup := by
    have hnames : (zip.entries.map fun e =>
        if e.name = name then { e with data := e.data.set i b } else e).map (·.name) =
          zip.entries.map (·.name) := by
      rw [List.map_map]
      refine List.map_congr_left fun e _ => ?_
      dsimp only [Function.comp_apply]
      split_ifs
      · rfl
      · rfl
    rw [hnames]
    exact zip.nodup

section SetByte

variable {zip : ZipArchive} {name path : String} {i : Nat} {b : UInt8}

theorem byName_setByte : (zip.setByte name i b).byName path = (zip.byName path).map fun e =>
    if e.name = name then { e with data := e.data.set i b } else e := by
  unfold ZipArchive.byName ZipArchive.setByte
  rw [List.find?_map]
  congr 2
  funext e
  dsimp only [Function.comp_apply]
  split_ifs
  · rfl
  · rfl

theorem byName_setByte_ne (h : path ≠ name) :
    (zip.setByte name i b).byName path = zip.byName path := by
  rw [byName_setByte]
  cases hfile : zip.byName path with
  | none => rfl
  | some file =>
    have hname : file.name = path := by simpa using List.find?_some hfile
    simp [hname, h]

theorem readEntry_setByte_ne (h : path ≠ name) :
    readEntry (zip.setByte name i b) path = readEntry zip path := by
  unfold readEntry
  rw [byName_setByte_ne h]

theorem readEntry_setByte {data : Bytes} (h : readEntry zip name = .ok data) :
    readEntry (zip.setByte name i b) name = .ok (data.set i b) := by
  unfold readEntry
  rw [byName_setByte, byName_of_readEntry h]
  simp

theorem mem_setByte {e : ZipEntry} (h : e ∈ (zip.setByte name i b).entries) :
    ∃ e' ∈ zip.entries, e.name = e'.name ∧ e.openError = e'.openError := by
  obtain ⟨e', he', rfl⟩ := List.mem_map.mp h
  refine ⟨e', he', ?_⟩
  split_ifs
  · exact ⟨rfl, rfl⟩
  · exact ⟨rfl, rfl⟩

end SetByte

end Sealr.Bundle

namespace Sealr.Verify

open Lib Evidence Bundle

section Mutated

variable {E : Externals} {S : Serde} {reader reader' : BundleReader} {name : String} {i : Nat}
  {b : UInt8} {now : Int} {opts : VerifyOptions}

/-- A container that is not intact fails. -/
theorem fail_of_broken (h : reader.verifyContentHashes E ≠ .ok []) :
    (verifyBundle E S now reader opts).result = .fail := by
  by_contra hunfailed
  exact h (verifyContentHashes_of_unfailed hunfailed)

/-- What is not listed is not hashed: a change there leaves an intact container intact. -/
theorem verifyContentHashes_setByte (hzip : reader'.zip = reader.zip.setByte name i b)
    (hcontents : reader'.manifest.contents = reader.manifest.contents)
    (hunlisted : name ∉ reader.manifest.contents.map (·.path))
    (h : reader.verifyContentHashes E = .ok []) : reader'.verifyContentHashes E = .ok [] := by
  rw [BundleReader.verifyContentHashes_eq_nil] at h ⊢
  rw [hzip, hcontents]
  constructor
  · intro c hc
    have hne : c.path ≠ name := by
      rintro rfl
      exact hunlisted (List.mem_map.mpr ⟨c, hc, rfl⟩)
    obtain ⟨bytes, hbytes, hhash⟩ := h.1 c hc
    exact ⟨bytes, (readEntry_setByte_ne hne).trans hbytes, hhash⟩
  · intro e he
    obtain ⟨e', he', hname, hopen⟩ := mem_setByte he
    rw [hname, hopen]
    exact h.2 e' he'

/-- A change of an entry that is listed breaks the container, or it is a collision. -/
theorem broken_of_listed {file : ZipEntry} (hzip : reader'.zip = reader.zip.setByte name i b)
    (hcontents : reader'.manifest.contents = reader.manifest.contents)
    (hlisted : name ∈ reader.manifest.contents.map (·.path))
    (hfile : reader.zip.byName name = some file) (hchanged : file.data.set i b ≠ file.data)
    (h : reader.verifyContentHashes E = .ok []) :
    reader'.verifyContentHashes E ≠ .ok [] ∨ Collides E.blake3 [file.data] [file.data.set i b] := by
  obtain ⟨c, hc, rfl⟩ := List.mem_map.mp hlisted
  obtain ⟨bytes, hbytes, hhash, -⟩ := (BundleReader.verifyContentHashes_eq_nil.mp h).1 c hc
  obtain rfl : file.data = bytes := by
    rw [byName_of_readEntry hbytes, Option.some.injEq] at hfile
    rw [← hfile]
  by_cases hok : reader'.verifyContentHashes E = .ok []
  · right
    obtain ⟨bytes', hbytes', hhash', -⟩ :=
      (BundleReader.verifyContentHashes_eq_nil.mp hok).1 c (hcontents ▸ hc)
    rw [hzip, readEntry_setByte hbytes, Except.ok.injEq] at hbytes'
    refine ⟨_, List.mem_singleton_self _, _, List.mem_singleton_self _, hchanged.symm, ?_⟩
    rw [hbytes']
    exact blake3Hex_inj.mp (hhash.trans hhash'.symm)
  · exact .inl hok

/-- The hash that a report gives determines the manifest. -/
theorem manifest_of_manifestHash
    (hsame : (verifyBundle E S now reader opts).manifestHash =
      (verifyBundle E S now reader' opts).manifestHash)
    (havailable : (verifyBundle E S now reader opts).manifestHash ≠ "unavailable") :
    reader'.manifest = reader.manifest ∨ Collides E.blake3
      [documentBytes reader.manifest.toJson] [documentBytes reader'.manifest.toJson] := by
  have hhash : ∀ r, (verifyBundle E S now r opts).manifestHash =
      (toJcsBytes r.manifest.toJson).toOption.elim "unavailable" (blake3Hex E) := by
    intro r
    simp only [verifyBundle, BundleReader.manifestHash, Manifest.jcsHash]
    cases toJcsBytes r.manifest.toJson with
    | ok bytes => rfl
    | error e => rfl
  rw [hhash] at havailable
  rw [hhash, hhash] at hsame
  unfold documentBytes
  cases hbytes : toJcsBytes reader.manifest.toJson with
  | error e => simp [hbytes, Except.toOption] at havailable
  | ok bytes =>
    cases hbytes' : toJcsBytes reader'.manifest.toJson with
    | error e =>
      rw [hsame, hbytes'] at havailable
      exact absurd rfl havailable
    | ok bytes' =>
      rw [hbytes, hbytes'] at hsame
      obtain heq | hcollides := eq_or_collides (List.mem_singleton_self bytes)
        (List.mem_singleton_self bytes') (blake3Hex_inj.mp hsame)
      · left
        subst heq
        exact eq_of_jcs Manifest.stable_ofJson (Manifest.ofJson_toJson _)
          (Manifest.ofJson_toJson _) hbytes' hbytes
      · exact .inr hcollides

/-- **A changed byte is detected, the manifest's by the hash of the manifest.** If one byte of one
entry of a bundle that does not fail is changed, the bundle does not open, or it fails, or BLAKE3
collides, or the entry is the manifest, which still lists what the container holds: then it says what
it said before, or the report gives another hash for it, unless there was none or BLAKE3 collides.
Entries that are not listed under names that end in a slash are left out. -/
theorem changed_byte_detected {zip : ZipArchive} {file : ZipEntry}
    (hopen : BundleReader.fromZip S zip = .ok reader)
    (hunfailed : (verifyBundle E S now reader opts).result ≠ .fail)
    (hfile : zip.byName name = some file) (hi : i < file.data.length) (hb : file.data[i] ≠ b)
    (hname : name ∈ reader.manifest.contents.map (·.path) ∨ (chars name).getLast? ≠ some '/') :
    (∃ e, BundleReader.fromZip S (zip.setByte name i b) = .error e) ∨
      ∃ reader', BundleReader.fromZip S (zip.setByte name i b) = .ok reader' ∧
        ((verifyBundle E S now reader' opts).result = .fail ∨
          Collides E.blake3 [file.data] [file.data.set i b] ∨
          name = "manifest.json" ∧ reader'.verifyContentHashes E = .ok [] ∧
            (reader'.manifest = reader.manifest ∨
              (verifyBundle E S now reader' opts).manifestHash ≠
                (verifyBundle E S now reader opts).manifestHash ∨
              (verifyBundle E S now reader opts).manifestHash = "unavailable" ∨
              Collides E.blake3 [documentBytes reader.manifest.toJson]
                [documentBytes reader'.manifest.toJson])) := by
  have hok := verifyContentHashes_of_unfailed hunfailed
  obtain ⟨rfl, bytes, hbytes, hparse⟩ := BundleReader.fromZip_eq_ok.mp hopen
  cases hopen' : BundleReader.fromZip S (reader.zip.setByte name i b) with
  | error e => exact .inl ⟨e, rfl⟩
  | ok reader' =>
    right
    refine ⟨reader', rfl, ?_⟩
    obtain ⟨hzip, bytes', hbytes', hparse'⟩ := BundleReader.fromZip_eq_ok.mp hopen'
    by_cases hok' : reader'.verifyContentHashes E = .ok []
    · by_cases hmanifest : name = "manifest.json"
      · -- the manifest describes the container: its hash tells it apart
        right
        right
        refine ⟨hmanifest, hok', ?_⟩
        by_cases hsame : (verifyBundle E S now reader opts).manifestHash =
            (verifyBundle E S now reader' opts).manifestHash
        · by_cases havailable : (verifyBundle E S now reader opts).manifestHash = "unavailable"
          · exact .inr (.inr (.inl havailable))
          · obtain heq | hcollides := manifest_of_manifestHash hsame havailable
            · exact .inl heq
            · exact .inr (.inr (.inr hcollides))
        · exact .inr (.inl (Ne.symm hsame))
      · -- another entry is listed, under the same contents
        have hcontents : reader'.manifest = reader.manifest := by
          rw [readEntry_setByte_ne (Ne.symm hmanifest), hbytes, Except.ok.injEq] at hbytes'
          rw [← hbytes', hparse] at hparse'
          exact (Except.ok.inj hparse').symm
        have hlisted : name ∈ reader.manifest.contents.map (·.path) := by
          obtain hlisted | hslash := hname
          · exact hlisted
          · obtain heq | hlisted | hdir := passedOver_of_byName hok hfile
            · exact absurd heq hmanifest
            · exact hlisted
            · exact absurd hdir hslash
        have hchanged : file.data.set i b ≠ file.data := by
          intro heq
          have hget : (file.data.set i b)[i]? = some b := List.getElem?_set_self hi
          rw [heq, List.getElem?_eq_getElem hi, Option.some.injEq] at hget
          exact hb hget
        obtain hbroken | hcollides := broken_of_listed hzip (congrArg _ hcontents) hlisted hfile
          hchanged hok
        · exact absurd hok' hbroken
        · exact .inr (.inl hcollides)
    · exact .inl (fail_of_broken hok')

/-- An intact container that agrees with one that does not fail on what is read does not fail. -/
theorem unfailed_of_agree (hids : scopeIds reader = scopeIds reader')
    (hagree : ∀ role name, Reads E S reader role name → AgreeOn reader reader' name)
    (hunfailed : (verifyBundle E S now reader opts).result ≠ .fail)
    (hok' : reader'.verifyContentHashes E = .ok []) :
    (verifyBundle E S now reader' opts).result ≠ .fail := by
  obtain ⟨passes, hfindings, hfindings', -⟩ := @passes_agree E S _ _ now opts hids hagree
  rw [result_verifyBundle, Ne, computeResult_eq_fail, hfindings] at hunfailed
  rw [result_verifyBundle, Ne, computeResult_eq_fail, hfindings']
  rintro ⟨f, hf, herr⟩
  obtain hf | hf := List.mem_append.mp hf
  · -- an intact container is warned of at most
    simp only [containerFindings, hok', List.map_nil, List.append_nil] at hf
    split_ifs at hf
    · rw [List.mem_singleton.mp hf] at herr
      cases herr
    · cases hf
  · exact hunfailed ⟨f, List.mem_append_right _ hf, herr⟩

end Mutated

/-! The bundle that passes, and the same with another year in the manifest. -/

namespace Sample

def redatedManifest : Manifest :=
  { manifestFor entries with createdAt := "2025-08-11T13:00:00.000Z" }

/-- The last digit of the year is byte 708 of `manifest.json`. -/
def redated : BundleReader where
  zip := bundle.zip.setByte "manifest.json" 708 0x35
  manifest := redatedManifest

def redatedExternals : Externals := .recorded { bundleRecording with
  blake3 := bundleRecording.blake3 ++ [(documentBytes redatedManifest.toJson,
    ofHex "0455e3623b0ee379c99344354637d68d2e2ef4196fe5fc505b163c5011003935")] }

def redatedDocuments : Documents :=
  { bundleDocuments with manifests := [manifestFor entries, redatedManifest] }

/-- The one digit of the two manifests that differs, and their hashes. -/
theorem redated_digit :
    let data := documentBytes (manifestFor entries).toJson
    let data' := documentBytes redatedManifest.toJson
    data.set 708 0x35 = data' ∧ data[708]? = some 0x36 ∧
      redatedExternals.blake3 data ≠ redatedExternals.blake3 data' := by
  decide +kernel

theorem redated_ne :
    documentBytes (manifestFor entries).toJson ≠ documentBytes redatedManifest.toJson := by
  intro heq
  exact redated_digit.2.2 (congrArg _ heq)

theorem undated_opens : BundleReader.fromZip redatedDocuments.serde bundle.zip = .ok bundle := by
  rw [BundleReader.fromZip_eq_ok]
  refine ⟨rfl, _, bundle_manifest, ?_⟩
  simp only [redatedDocuments, Documents.serde, readsBack_self, bundle]

theorem redated_opens : BundleReader.fromZip redatedDocuments.serde
    (bundle.zip.setByte "manifest.json" 708 0x35) = .ok redated := by
  rw [BundleReader.fromZip_eq_ok]
  refine ⟨rfl, _, readEntry_setByte bundle_manifest, ?_⟩
  rw [redated_digit.1]
  simp only [redatedDocuments, Documents.serde, readsBack_next redated_ne, readsBack_self, redated]

theorem undated_identity : identityPass redatedExternals redatedDocuments.serde 1786453200 bundle
    options = (trust, [add .info .rootSource "root source: --root override"]) :=
  identityPass_eq rfl rfl rfl rfl rfl (by decide)
    (identity_eq rfl rfl rfl (by
      simp only [redatedDocuments, bundleDocuments, Documents.serde, readsBack_self]))

theorem undated_pass :
    (verifyBundle redatedExternals redatedDocuments.serde 0 bundle options).result = .pass := by
  rw [result_of_identity undated_identity rfl]
  decide +kernel

theorem redated_agree {role : Role} {name : String}
    (h : Reads redatedExternals redatedDocuments.serde bundle role name) :
    AgreeOn bundle redated name := by
  have hindex : bundle.recordIndex redatedDocuments.serde = .ok index := by
    apply bundle_index
    simp only [redatedDocuments, bundleDocuments, Documents.serde, readsBack_self]
  obtain ⟨hmanifest, -⟩ := name_of_reads hindex rfl rfl h
  exact (byName_setByte_ne hmanifest).symm

theorem undated_ne_fail :
    (verifyBundle redatedExternals redatedDocuments.serde 0 bundle options).result ≠ .fail := by
  rw [undated_pass]
  decide

theorem redated_ne_fail :
    (verifyBundle redatedExternals redatedDocuments.serde 0 redated options).result ≠ .fail := by
  have hids : scopeIds bundle = [Evidence.Sample.opened.streamId] := rfl
  have hids' : scopeIds redated = [Evidence.Sample.opened.streamId] := rfl
  have hcontents : redated.manifest.contents = bundle.manifest.contents := rfl
  have hunlisted : "manifest.json" ∉ bundle.manifest.contents.map (·.path) := by decide
  refine unfailed_of_agree (hids.trans hids'.symm) ?_ undated_ne_fail ?_
  · intro role name hread
    exact redated_agree hread
  · exact verifyContentHashes_setByte rfl hcontents hunlisted
      (verifyContentHashes_of_unfailed undated_ne_fail)

end Sample

/-- One digit of the date in the manifest is changed, and the verdict is not `Fail`. -/
theorem manifest_byte_undetected :
    let E := Sample.redatedExternals
    let S := Sample.redatedDocuments.serde
    let data := documentBytes (Sample.manifestFor Sample.entries).toJson
    BundleReader.fromZip S Sample.bundle.zip = .ok Sample.bundle ∧
      (verifyBundle E S 0 Sample.bundle Sample.options).result ≠ .fail ∧
      Sample.bundle.zip.byName "manifest.json" = some ⟨"manifest.json", none, data, none⟩ ∧
      data[708]? = some 0x36 ∧
      BundleReader.fromZip S (Sample.bundle.zip.setByte "manifest.json" 708 0x35) =
        .ok Sample.redated ∧
      (verifyBundle E S 0 Sample.redated Sample.options).result ≠ .fail ∧
      ¬Collides E.blake3 [data] [data.set 708 0x35] := by
  refine ⟨Sample.undated_opens, Sample.undated_ne_fail, byName_of_readEntry Sample.bundle_manifest,
    Sample.redated_digit.2.1, Sample.redated_opens, ?_, ?_⟩
  · exact Sample.redated_ne_fail
  · rintro ⟨x, hx, y, hy, -, heq⟩
    rw [List.mem_singleton.mp hx, List.mem_singleton.mp hy, Sample.redated_digit.1] at heq
    exact Sample.redated_digit.2.2 heq

theorem changed_byte_detected_sample :
    (verifyBundle Sample.bundleExternals Sample.bundleDocuments.serde 0 Sample.bundle
        Sample.options).result ≠ .fail ∧
      ((∃ e, BundleReader.fromZip Sample.bundleDocuments.serde
          (Sample.bundle.zip.setByte "identity/roots.json" 0 0x5b) = .error e) ∨
        ∃ reader', BundleReader.fromZip Sample.bundleDocuments.serde
            (Sample.bundle.zip.setByte "identity/roots.json" 0 0x5b) = .ok reader' ∧
          ((verifyBundle Sample.bundleExternals Sample.bundleDocuments.serde 0 reader'
              Sample.options).result = .fail ∨
            Collides Sample.bundleExternals.blake3 [documentBytes Sample.roots.toJson]
              [(documentBytes Sample.roots.toJson).set 0 0x5b])) := by
  have hfile : Sample.bundle.zip.byName "identity/roots.json" =
      some ⟨"identity/roots.json", none, documentBytes Sample.roots.toJson, none⟩ := rfl
  refine ⟨Sample.bundle_ne_fail, ?_⟩
  obtain herror | ⟨reader', hopen', hfail | hcollides | hmanifest⟩ :=
    changed_byte_detected (i := 0) (b := 0x5b) Sample.bundle_opens Sample.bundle_ne_fail hfile
      (by decide) (by decide) (.inl (by decide))
  · exact .inl herror
  · exact .inr ⟨reader', hopen', .inl hfail⟩
  · exact .inr ⟨reader', hopen', .inr hcollides⟩
  · exact absurd hmanifest.1 (by decide)

end Sealr.Verify
