import Sealr.Verify.Countersigned

/-!
# Attested records are bound by their checkpoint

Two runs over two record files of one stream, without errors, that attest a number through
checkpoints with one note hold the same record there, or exhibit a BLAKE3 collision.
-/

namespace Sealr.Verify

open Lib Evidence Bundle

/-- `verify_stream_chain` and then `verify_checkpoints` on one stream. -/
def verifyStream (E : Externals) (S : Serde) (reader : BundleReader) (streamId : String)
    (cps : List BundleCheckpoint) (trust : Identity) : StreamData × List Finding :=
  let (data, chainFindings) := verifyStreamChain E S reader streamId
  let (data', checkpointFindings) := verifyCheckpoints E streamId data cps trust.certMap
    trust.revocations trust.consoleKeys
  (data', chainFindings ++ checkpointFindings)

/-- The records of a stream's file that parse. -/
def fileRecords (E : Externals) (S : Serde) (reader : BundleReader) (streamId : String) :
    List Json :=
  recordValues E (reader.readStreamRecords E S streamId).1

/-- The run attests a number through a checkpoint. -/
structure AttestsThrough (E : Externals) (S : Serde) (reader : BundleReader) (streamId : String)
    (cps : List BundleCheckpoint) (trust : Identity) (bc : BundleCheckpoint) (s : UInt64) :
    Prop where
  mem : bc ∈ cps
  attests : attests E streamId trust (verifyStreamChain E S reader streamId).1.hashesBySeq bc = true
  seqFrom_le : bc.checkpoint.note.seqFrom ≤ s
  le_seqTo : s ≤ bc.checkpoint.note.seqTo

/-- The leaves whose root is recomputed for a note. -/
def noteLeaves (E : Externals) (hashes : Std.TreeMap UInt64 String) (note : CheckpointNote) :
    List Bytes :=
  ((decodeHashes E (covered hashes note)).toOption.getD []).map List.Vector.toList

/-- What a run hashes for its records and for the root of one checkpoint. -/
def hashedInputs (E : Externals) (S : Serde) (reader : BundleReader) (streamId : String)
    (note : CheckpointNote) : List Bytes :=
  (fileRecords E S reader streamId).map inputOf ++
    merkleInputs E (noteLeaves E (verifyStreamChain E S reader streamId).1.hashesBySeq note)

section Binding

variable {E : Externals} {S : Serde} {reader reader₁ reader₂ : BundleReader} {streamId : String}
  {cps cps₁ cps₂ : List BundleCheckpoint} {trust trust₁ trust₂ : Identity}
  {bc bc₁ bc₂ : BundleCheckpoint} {s : UInt64}

/-- What is attested is attested through some checkpoint. -/
theorem mem_verifyStream_attestedSeqs :
    s ∈ (verifyStream E S reader streamId cps trust).1.attestedSeqs ↔
      ∃ bc, AttestsThrough E S reader streamId cps trust bc s := by
  have hdata : (verifyStream E S reader streamId cps trust).1 =
      cps.foldl (turn E streamId trust (verifyStreamChain E S reader streamId).1.hashesBySeq)
        (verifyStreamChain E S reader streamId).1 := verifyCheckpoints_data cps
  rw [hdata, mem_turns_attestedSeqs,
    (verifyStreamChain_unchecked E S reader streamId).attestedSeqs]
  simp only [Finset.notMem_empty, false_or]
  constructor
  · rintro ⟨bc, hbc, hatt, hfrom, hto⟩
    exact ⟨bc, hbc, hatt, hfrom, hto⟩
  · rintro ⟨bc, hbc, hatt, hfrom, hto⟩
    exact ⟨bc, hbc, hatt, hfrom, hto⟩

/-- The digests of the records in the range of an attesting checkpoint, behind its root. -/
theorem AttestsThrough.digests (h : AttestsThrough E S reader streamId cps trust bc s)
    (hquiet : ∀ f ∈ (verifyStream E S reader streamId cps trust).2, f.severity ≠ .error) :
    ∃ ds : List Digest,
      noteLeaves E (verifyStreamChain E S reader streamId).1.hashesBySeq bc.checkpoint.note =
        ds.map List.Vector.toList ∧ ds ≠ [] ∧
      hexEncode (merkleRoot E (ds.map List.Vector.toList)).toList =
        bc.checkpoint.note.merkleRoot ∧
      List.Forall₂ (fun s d => ∃ v ∈ fileRecords E S reader streamId, seqOf v = some s ∧
          E.blake3 (inputOf v) = d)
        (seqList bc.checkpoint.note.seqFrom bc.checkpoint.note.seqTo) ds := by
  have hatt := h.attests
  simp only [Verify.attests, Bool.and_eq_true] at hatt
  obtain ⟨hs, hroot⟩ := rootVerified_iff.mp hatt.2
  obtain ⟨ds, hds, heq⟩ := bind_eq_ok.mp hroot.merkleRoot
  have hcov : covered (verifyStreamChain E S reader streamId).1.hashesBySeq bc.checkpoint.note =
      hs := coveredHashes_of_exported hroot.exported
  obtain ⟨-, hnum, -, hholds⟩ := verifyStreamChain_quiet (P := fun f => f.severity ≠ .error)
    (fun _ hf => hf) fun f hf => hquiet f (List.mem_append_left _ hf)
  have hdec := decodeHashes_eq_ok.mp hds
  refine ⟨ds, by simp [noteLeaves, hcov, hds, Except.toOption], ?_, Except.ok.inj heq, ?_⟩
  · rintro rfl
    have hnil := List.forall₂_nil_right_iff.mp hdec
    simpa [hnil] using hroot.chainHead
  · -- each hash exported under a number is the digest of the record with that number
    refine List.forall₂_iff_get.mpr ⟨?_, ?_⟩
    · rw [hroot.exported.length_eq, hdec.length_eq]
    · intro i hi hi'
      have hih : i < hs.length := hroot.exported.length_eq ▸ hi
      have hget := hroot.exported.get hi hih
      have hd := hdec.get hih hi'
      obtain ⟨v, hv, hseq, hhash⟩ := (hholds.get _ _).mp hget
      refine ⟨v, hv, hseq, ?_⟩
      have hself := (hnum.hashed v hv).digest
      rw [hhash, Option.getD_some] at hself
      rw [hself, blake3Hex, hexDecodeDigest_hexEncode] at hd
      exact Except.ok.inj hd

/-- **Attested records are bound by their checkpoint.** Two runs over two record files of one
stream, both without errors, that attest the number `s` through checkpoints with one note: both
files have a record with this number, and the records are equal up to member order and number
spelling, or two of the byte strings that the runs hashed collide. -/
theorem attested_bound
    (hquiet₁ : ∀ f ∈ (verifyStream E S reader₁ streamId cps₁ trust₁).2, f.severity ≠ .error)
    (hquiet₂ : ∀ f ∈ (verifyStream E S reader₂ streamId cps₂ trust₂).2, f.severity ≠ .error)
    (h₁ : AttestsThrough E S reader₁ streamId cps₁ trust₁ bc₁ s)
    (h₂ : AttestsThrough E S reader₂ streamId cps₂ trust₂ bc₂ s)
    (hnote : bc₁.checkpoint.note = bc₂.checkpoint.note) :
    (∃ v ∈ fileRecords E S reader₁ streamId, seqOf v = some s) ∧
      (∃ v ∈ fileRecords E S reader₂ streamId, seqOf v = some s) ∧
      ((∀ v ∈ fileRecords E S reader₁ streamId, ∀ w ∈ fileRecords E S reader₂ streamId,
          seqOf v = some s → seqOf w = some s → v.value.Equiv w.value) ∨
        Collides E.blake3 (hashedInputs E S reader₁ streamId bc₁.checkpoint.note)
          (hashedInputs E S reader₂ streamId bc₂.checkpoint.note)) := by
  obtain ⟨ds₁, hleaves₁, hne₁, hroot₁, hall₁⟩ := h₁.digests hquiet₁
  obtain ⟨ds₂, hleaves₂, hne₂, hroot₂, hall₂⟩ := h₂.digests hquiet₂
  have hin : s ∈ seqList bc₁.checkpoint.note.seqFrom bc₁.checkpoint.note.seqTo :=
    mem_seqList.mpr ⟨h₁.seqFrom_le, h₁.le_seqTo⟩
  obtain ⟨i, hi, rfl⟩ := List.getElem_of_mem hin
  rw [← hnote] at hall₂
  have hi₁ := hall₁.length_eq ▸ hi
  have hi₂ := hall₂.length_eq ▸ hi
  obtain ⟨v₁, hv₁, hseq₁, hd₁⟩ := hall₁.get hi hi₁
  obtain ⟨v₂, hv₂, hseq₂, hd₂⟩ := hall₂.get hi hi₂
  refine ⟨⟨v₁, hv₁, hseq₁⟩, ⟨v₂, hv₂, hseq₂⟩, ?_⟩
  have hroots : merkleRoot E (ds₁.map List.Vector.toList) =
      merkleRoot E (ds₂.map List.Vector.toList) := by
    apply List.Vector.toList_injective
    apply hexEncode_injective
    rw [hroot₁, hroot₂, hnote]
  rcases merkleRoot_binds (by simpa using hne₁) (by simpa using hne₂) hroots with hleaves | hcol
  · -- one list of leaves, so the two records at `s` have one digest
    have hds : ds₁ = ds₂ := List.map_injective_iff.mpr List.Vector.toList_injective hleaves
    subst hds
    have hdigest : E.blake3 (inputOf v₁) = E.blake3 (inputOf v₂) := hd₁.trans hd₂.symm
    have hmem₁ : inputOf v₁ ∈ hashedInputs E S reader₁ streamId bc₁.checkpoint.note :=
      List.mem_append_left _ (List.mem_map_of_mem hv₁)
    have hmem₂ : inputOf v₂ ∈ hashedInputs E S reader₂ streamId bc₂.checkpoint.note :=
      List.mem_append_left _ (List.mem_map_of_mem hv₂)
    refine (eq_or_collides hmem₁ hmem₂ hdigest).imp_left fun hinput => ?_
    obtain ⟨-, hnum₁, -, -⟩ := verifyStreamChain_quiet (P := fun f => f.severity ≠ .error)
      (fun _ hf => hf) fun f hf => hquiet₁ f (List.mem_append_left _ hf)
    obtain ⟨-, hnum₂, -, -⟩ := verifyStreamChain_quiet (P := fun f => f.severity ≠ .error)
      (fun _ hf => hf) fun f hf => hquiet₂ f (List.mem_append_left _ hf)
    intro v hv w hw hvs hws
    obtain rfl := hnum₁.unique hv hv₁ hvs hseq₁
    obtain rfl := hnum₂.unique hw hv₂ hws hseq₂
    obtain ⟨a, ha⟩ := hnum₁.viewed v hv
    obtain ⟨b, hb⟩ := hnum₂.viewed w hw
    exact (inputOf_inj (hnum₁.hashed v hv) (hnum₂.hashed w hw) ha hb hinput).2.2
  · right
    refine hcol.mono ?_ ?_
    · rw [hashedInputs, hleaves₁]
      exact List.subset_append_right _ _
    · rw [hashedInputs, hleaves₂]
      exact List.subset_append_right _ _

end Binding

namespace Sample

open Evidence.Sample

/-- A zstd frame of one raw block. -/
def rawFrame (content : Bytes) : Bytes :=
  let n := content.length
  [0x28, 0xb5, 0x2f, 0xfd, 0x60] ++ (bytesBE 2 (n - 256)).reverse ++
    (bytesBE 3 (8 * n + 1)).reverse ++ content

def shardPath : String := "records/000000002D000000000000002D.part-00001.ndjson.zst"

def index : RecordIndex := ⟨[⟨opened.streamId, [shardPath], 0, 0, 1⟩]⟩

/-- The record in canonical order. -/
def line : Bytes := documentBytes opened.toJson ++ [0x0a]

/-- The record with its members in another order. -/
def reversedLine : Bytes := utf8 (Rfc8785.print (reversed opened).value) ++ [0x0a]

def manifestOf (contents : List ContentEntry) : Manifest where
  schemaVersion := BUNDLE_SCHEMA_VERSION
  bundleId := "01BUNDLE"
  createdAt := "2026-08-11T13:00:00.000Z"
  tool := ⟨"sealr", "0.1.0"⟩
  scope := ⟨.full, none, none, [], [⟨opened.streamId, 0, 0, 1⟩]⟩
  contents

def file (name : String) (data : Bytes) : ZipEntry := ⟨name, none, data, none⟩

/-- A container with the records alone. -/
def recordsOnly (content : Bytes) : BundleReader where
  zip := ⟨[file "records/index.json" (documentBytes index.toJson), file shardPath (rawFrame content)],
    by simp [file, shardPath]⟩
  manifest := manifestOf []

def recordsExternals : Externals := .recorded { recording with
  frames := [(rawFrame line, line), (rawFrame reversedLine, reversedLine)] }

def documents : Documents where
  indexes := [index]

def exported : BundleCheckpoint := ⟨first, some countersignature⟩

end Sample

open Sample (recordsExternals documents recordsOnly line reversedLine exported trust firstNote) in
theorem attested_bound_reversed : 
    (∀ v ∈ fileRecords recordsExternals documents.serde (recordsOnly line) firstNote.streamId,
      ∀ w ∈ fileRecords recordsExternals documents.serde (recordsOnly reversedLine) firstNote.streamId,
      seqOf v = some 0 → seqOf w = some 0 → v.value.Equiv w.value) ∨
    Collides recordsExternals.blake3
      (hashedInputs recordsExternals documents.serde (recordsOnly line) firstNote.streamId firstNote)
      (hashedInputs recordsExternals documents.serde (recordsOnly reversedLine) firstNote.streamId firstNote) := by
  have hquiet : ∀ content ∈ [line, reversedLine], ∀ f ∈ (verifyStream recordsExternals documents.serde
      (recordsOnly content) firstNote.streamId [exported] trust).2, f.severity ≠ .error := by
    decide +kernel
  have hattests : ∀ content ∈ [line, reversedLine], attests recordsExternals firstNote.streamId trust
      (verifyStreamChain recordsExternals documents.serde (recordsOnly content)
        firstNote.streamId).1.hashesBySeq exported = true := by
    decide +kernel
  have h := fun content hc => AttestsThrough.mk (s := 0) (List.mem_singleton_self exported)
    (hattests content hc) (by decide) (by decide)
  exact (attested_bound (hquiet line (by simp)) (hquiet reversedLine (by simp)) (h line (by simp))
    (h reversedLine (by simp)) rfl).2.2

end Sealr.Verify
