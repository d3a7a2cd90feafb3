import Sealr.Evidence.Hexadecimal
import Sealr.Evidence.Inclusion
import Sealr.Verify.Anchored
import Sealr.Verify.Authentic

/-!
# What a timestamp shows

A timestamp authority has stamped roots of batches of notes. A record that a bundle anchors through
a checkpoint is then one that the recorder had written when the batch was stamped
(`anchored_authentic`), whoever holds the keys of the recorder and of the console since. Otherwise a
token verifies over a root that was not stamped, or two byte strings collide.
-/

namespace Sealr.Verify

open Lib Evidence Bundle

/-- The leaves of a batch of notes. -/
def stampLeaves (E : Externals) (notes : List CheckpointNote) : List Bytes :=
  notes.map fun n => (noteDigest E n).toList

/-- The root that is stamped. -/
def stampRoot (E : Externals) (notes : List CheckpointNote) : Digest :=
  merkleRoot E (stampLeaves E notes)

/-- The batches that were stamped. Their notes for the stream were built by its recorder. -/
structure Stamps {E : Externals} {stream : Ulid} (H : HonestStream E stream) where
  batches : List (List CheckpointNote)
  nonempty : ∀ notes ∈ batches, notes ≠ []
  canonical : ∀ notes ∈ batches, ∀ n ∈ notes, ∃ jcs, toJcsBytes n.toJson = .ok jcs
  built : ∀ notes ∈ batches, ∀ n ∈ notes, n.streamId = E.ulidToString stream → H.Built n

/-- What was hashed for the notes and the roots of the batches. -/
def Stamps.inputs {E : Externals} {stream : Ulid} {H : HonestStream E stream} (P : Stamps H) :
    List Bytes :=
  P.batches.flatMap fun notes =>
    notes.map (fun n => documentBytes n.toJson) ++ merkleInputs E (stampLeaves E notes)

/-- The roots of the batches. -/
def Stamps.roots {E : Externals} {stream : Ulid} {H : HonestStream E stream} (P : Stamps H) :
    List Bytes :=
  P.batches.map fun notes => (stampRoot E notes).toList

/-- What is hashed for a stored inclusion. -/
def storedInputs (E : Externals) (inc : CheckpointInclusion) : List Bytes :=
  match hexDecodeDigest E "inclusion.leaf" inc.leaf, toSteps E inc.proof with
  | .ok leaf, .ok proof => proofInputs E leaf.toList proof
  | _, _ => []

/-- What is hashed for the inclusions of the proofs. -/
def anchorInputs (E : Externals) (proofs : AnchorProofs) : List Bytes :=
  proofs.batches.flatMap fun batch => batch.checkpoints.flatMap (storedInputs E)

/-- The roots in the proofs. -/
def anchorRoots (E : Externals) (proofs : AnchorProofs) : List Bytes :=
  proofs.batches.filterMap fun batch =>
    (hexDecodeDigest E "root_blake3" batch.rootBlake3).toOption.map List.Vector.toList

/-- A token verifies for a root that has the imprint of no stamped root. -/
def Unstamped (E : Externals) (reader : BundleReader) (proofs : AnchorProofs) {stream : Ulid}
    {H : HonestStream E stream} (P : Stamps H) : Prop :=
  ∃ batch ∈ proofs.batches, ∃ root token,
    hexDecodeDigest E "root_blake3" batch.rootBlake3 = .ok root ∧
    verifiedBatchToken E reader batch = some token ∧
    ∀ r ∈ P.roots, sha256Raw E root.toList ≠ sha256Raw E r

section

variable {E : Externals} {S : Serde} {now : Int} {reader : BundleReader} {opts : VerifyOptions}
  {stream : Ulid} {H : HonestStream E stream} {P : Stamps H} {proofs : AnchorProofs}
  {note : CheckpointNote} {bc : BundleCheckpoint} {s : UInt64} {v : Json}

/-- A batch whose token verifies has a root. -/
theorem root_of_verifiedBatchToken {batch : AnchorBatch} {token : VerifiedToken}
    (h : verifiedBatchToken E reader batch = some token) :
    ∃ root, hexDecodeDigest E "root_blake3" batch.rootBlake3 = .ok root := by
  unfold verifiedBatchToken checkBatch at h
  cases hroot : hexDecodeDigest E "root_blake3" batch.rootBlake3 with
  | ok root => exact ⟨root, rfl⟩
  | error e =>
    rw [hroot] at h
    cases h

/-- **Only leaves are included**: what a stored inclusion proves to be under the root of a batch is
one of its leaves, or two inputs collide. -/
theorem mem_of_storedInclusion {inc : CheckpointInclusion} {rootHex : String} {leaf root : Digest}
    {leaves : List Bytes} (hne : leaves ≠ [])
    (h : verifyStoredInclusion E inc rootHex = .ok ())
    (hleaf : hexDecodeDigest E "inclusion.leaf" inc.leaf = .ok leaf)
    (hroot : hexDecodeDigest E "root_blake3" rootHex = .ok root)
    (hsame : root = merkleRoot E leaves) :
    leaf.toList ∈ leaves ∨ Collides E.blake3 (storedInputs E inc) (merkleInputs E leaves) := by
  obtain ⟨leaf', hleaf', h⟩ := bind_eq_ok.mp h
  obtain rfl := Except.ok.inj (hleaf'.symm.trans hleaf)
  obtain ⟨root', hroot', h⟩ := bind_eq_ok.mp h
  obtain rfl := Except.ok.inj (hroot'.symm.trans (hexDecodeDigest_field.mp hroot))
  obtain ⟨proof, hproof, h⟩ := bind_eq_ok.mp h
  obtain ⟨-, hascend⟩ := verifyInclusion_eq_ok.mp h
  rw [hsame, merkleRoot_eq_root E hne] at hascend
  refine (Tree.mem_paths_or_collides List.Vector.toList_injective (fun d => d.toList_length)
    hascend).imp (fun hmem => ?_) fun hcol => ?_
  · obtain ⟨i, hi, -⟩ := (mem_paths_iff hne).mp hmem
    exact List.mem_of_getElem? hi
  · refine hcol.mono (fun x hx => ?_) (List.Subset.refl _)
    simp only [storedInputs, hleaf', hproof, proofInputs_eq]
    exact hx

/-- A note whose digest is timestamped was built, unless a token verifies for a root that was not
stamped. -/
theorem built_of_timestamped (hstamp : Timestamped E reader proofs (noteDigest E note))
    (hunstamped : ¬Unstamped E reader proofs P) {jcs : Bytes}
    (hjcs : toJcsBytes note.toJson = .ok jcs) (hstream : note.streamId = E.ulidToString stream) :
    H.Built note ∨ Collides E.blake3 (jcs :: anchorInputs E proofs) P.inputs ∨
      Collides E.sha256 (anchorRoots E proofs) P.roots := by
  obtain ⟨batch, hbatch, ⟨token, htoken⟩, inc, hinc, hver, hleaf⟩ := hstamp
  obtain ⟨root, hroot⟩ := root_of_verifiedBatchToken htoken
  obtain ⟨r, hr, himprint⟩ : ∃ r ∈ P.roots, sha256Raw E root.toList = sha256Raw E r := by
    by_contra hnone
    exact hunstamped ⟨batch, hbatch, root, token, hroot, htoken, fun r hr heq => hnone ⟨r, hr, heq⟩⟩
  have hmemRoot : root.toList ∈ anchorRoots E proofs :=
    List.mem_filterMap.mpr ⟨batch, hbatch, by rw [hroot]; rfl⟩
  rcases eq_or_collides hmemRoot hr himprint with heq | hcol
  · obtain ⟨notes, hnotes, rfl⟩ := List.mem_map.mp hr
    have hne : stampLeaves E notes ≠ [] := by
      simpa [stampLeaves] using P.nonempty notes hnotes
    have hinputs : merkleInputs E (stampLeaves E notes) ⊆ P.inputs := fun x hx =>
      List.mem_flatMap.mpr ⟨notes, hnotes, List.mem_append_right _ hx⟩
    rcases mem_of_storedInclusion hne hver hleaf hroot (List.Vector.toList_injective heq)
      with hmem | hcol
    · -- the leaf is the digest of a stamped note, and the digest determines the note
      obtain ⟨n, hn, hdigest⟩ := List.mem_map.mp hmem
      obtain ⟨jcs', hjcs'⟩ := P.canonical notes hnotes n hn
      have hmemNote : jcs' ∈ P.inputs := by
        refine List.mem_flatMap.mpr ⟨notes, hnotes, List.mem_append_left _ ?_⟩
        refine List.mem_map.mpr ⟨n, hn, ?_⟩
        rw [documentBytes, hjcs']
        rfl
      have hsame : E.blake3 jcs = E.blake3 jcs' := by
        have h : noteDigest E note = noteDigest E n :=
          List.Vector.toList_injective hdigest.symm
        rw [noteDigest, noteDigest, hjcs, hjcs'] at h
        exact h
      rcases eq_or_collides List.mem_cons_self hmemNote hsame with rfl | hcol
      · have hnote : Signable.checkpoint note = .checkpoint n :=
          Signable.eq_of_toJcsBytes hjcs hjcs'
        obtain rfl := Signable.checkpoint.inj hnote
        exact .inl (P.built notes hnotes note hn hstream)
      · exact .inr (.inl hcol)
    · refine .inr (.inl (hcol.mono (fun x hx => List.mem_cons_of_mem _ ?_) hinputs))
      exact List.mem_flatMap.mpr ⟨batch, hbatch, List.mem_flatMap.mpr ⟨inc, hinc, hx⟩⟩
  · exact .inr (.inr hcol)

/-- What anchors a record of a checked stream. -/
theorem anchoredThrough_checked {trust : Identity} {streamId : String} {anchored : Finset UInt64}
    (hmem : bc ∈ checkpointsOf S reader streamId) (hsigned : signed E streamId trust bc = true)
    (hrange : bc.checkpoint.note.seqFrom ≤ s ∧ s ≤ bc.checkpoint.note.seqTo)
    (hroot : rootVerified E (verifyStreamChain E S reader streamId).1.hashesBySeq bc = true)
    (hstamp : Timestamped E reader proofs (noteDigest E bc.checkpoint.note)) :
    AnchoredThrough E reader proofs trust streamId
      { checkedData E S reader trust streamId with anchoredSeqs := anchored } bc s := by
  refine ⟨hmem, hsigned, hrange, ?_, hstamp⟩
  rw [← rootVerified_iff, hashes_checkedData]
  exact hroot

/-- A record that is anchored through a checkpoint is attested through it. -/
theorem AnchoredThrough.attests {trust : Identity} {streamId : String} {data : StreamData}
    (h : AnchoredThrough E reader proofs trust streamId data bc s)
    (hcps : data.checkpoints = checkpointsOf S reader streamId)
    (hhashes : data.hashesBySeq = (verifyStreamChain E S reader streamId).1.hashesBySeq) :
    AttestsThrough E S reader streamId (checkpointsOf S reader streamId) trust bc s := by
  obtain ⟨hmem, hsigned, ⟨hfrom, hto⟩, hroot, -⟩ := h
  refine ⟨hcps ▸ hmem, ?_, hfrom, hto⟩
  rw [Verify.attests, hsigned, ← hhashes, rootVerified_iff.mpr hroot]
  rfl

/-- **What is anchored was recorded before it was stamped**: in a stream without an error, a record
that is anchored through a checkpoint is a copy of one of the recorder's, and the checkpoint has a
note of the recorder's, whatever keys have signed it. Otherwise a token verifies for a root that was
not stamped, or two byte strings collide. -/
theorem anchored_authentic (P : Stamps H)
    (hquiet : ∀ f ∈ (verifyStream E S reader (E.ulidToString stream)
      (checkpointsOf S reader (E.ulidToString stream)) (trustOf E S now reader opts)).2,
        f.severity ≠ .error) {data : StreamData}
    (hdata : (E.ulidToString stream, data) ∈ (anchoredState E S now reader opts).streams)
    (h : AnchoredThrough E reader (proofsOf S reader) (trustOf E S now reader opts)
      (E.ulidToString stream) data bc s)
    (hv : v ∈ fileRecords E S reader (E.ulidToString stream)) (hseq : seqOf v = some s) :
    (H.Built bc.checkpoint.note ∧ ∃ r ∈ H.records, CopyOf v r) ∨
      Unstamped E reader (proofsOf S reader) P ∨
      Collides E.blake3 (historyInputs E S reader (E.ulidToString stream) ++
        anchorInputs E (proofsOf S reader)) (H.inputs ++ P.inputs) ∨
      Collides E.sha256 (anchorRoots E (proofsOf S reader)) P.roots := by
  by_cases hunstamped : Unstamped E reader (proofsOf S reader) P
  · exact .inr (.inl hunstamped)
  obtain ⟨-, anchored, hfinal⟩ := final_data hdata
  have hattests := h.attests (congrArg StreamData.checkpoints hfinal)
    ((congrArg StreamData.hashesBySeq hfinal).trans hashes_checkedData)
  obtain ⟨hstream, -⟩ := signed_iff.mp h.signed
  obtain ⟨jcs, hjcs⟩ := toJcsBytes_of_signed h.signed
  have hnote : jcs ∈ historyInputs E S reader (E.ulidToString stream) := by
    refine List.mem_flatMap.mpr ⟨bc, hattests.mem, ?_⟩
    rw [noteBytes, documentBytes, hjcs]
    exact List.mem_cons_self
  rcases built_of_timestamped h.timestamped hunstamped hjcs hstream with hbuilt | hcol | hcol
  · obtain hcopy | hcol := hattests.authentic hquiet hbuilt hv hseq
    · exact .inl ⟨hbuilt, hcopy⟩
    · refine .inr (.inr (.inl (hcol.mono (fun x hx => ?_) (List.subset_append_left _ _))))
      exact List.mem_append_left _ (hashedInputs_subset hattests.mem hx)
  · refine .inr (.inr (.inl (hcol.mono (fun x hx => ?_) (List.subset_append_right _ _))))
    obtain rfl | hx := List.mem_cons.mp hx
    · exact List.mem_append_left _ hnote
    · exact List.mem_append_right _ hx
  · exact .inr (.inr (.inr hcol))

end

/-! Both records are exported, and the batch with the checkpoint over both is stamped. -/

namespace Sample

open Evidence.Sample

def stampedEntries : List (ZipEntry × String) := [
  (file shardPath (rawFrame twoLines.flatten),
    "efe2b508505b53c45bf92b555f5d796ca3f185ba9c6699246428d4f494d33402"),
  (file "records/index.json" (documentBytes honestIndex.toJson),
    "d959734feb12a67c982d9607a0d3d0c48ac019cce56183e1702a26db1282b8fb"),
  (file "checkpoints/000000002D000000000000002D.json" (documentBytes wideFile.toJson),
    "9c015a98ff4b8c0f3bae4036ee9ad21716471e6eacb44914a14e3cccdaed6cc1"),
  (file "identity/certs.pem" (asBytes (derToPem leafDer)),
    "c12da398cd2def0b988061f054f722dd209090775516b9afa98e6bbaa3e0c71f"),
  (file "identity/roots.json" (documentBytes roots.toJson),
    "08924c00795b2493026020a117ca2759778d403ba82b4f850f9900019a28be8e")] ++ anchorEntries

def stampedManifest : Manifest := { manifestFor stampedEntries with
  scope := ⟨.full, none, none, [], [⟨opened.streamId, 0, 1, 2⟩]⟩ }

def stampedBundle : BundleReader where
  zip := ⟨stampedEntries.map Prod.fst ++
    [file "manifest.json" (documentBytes stampedManifest.toJson)],
    by simp [stampedEntries, anchorEntries, file, shardPath]⟩
  manifest := stampedManifest

def stampedRecording : Externals.Recording := { anchorRecording with
  blake3 := [(leafDer, ofHex fingerprint), digested wideNote.toJson wideHash,
      (0x00 :: bytesOfHex wideHash, ofHex batch.rootBlake3),
      (0x01 :: (bytesOfHex firstNote.merkleRoot ++ bytesOfHex secondNote.merkleRoot),
        ofHex wideNote.merkleRoot)] ++
    recording.blake3 ++ hashesOf stampedEntries ++
    [(documentBytes stampedManifest.toJson,
        ofHex "4d28babb545c48d66e69a483f59af3e8da8dd322bbb665b562dd5e995d0fdafb")]
  frames := [(rawFrame twoLines.flatten, twoLines.flatten)] }

def stampedExternals : Externals := .recorded stampedRecording

def stampedDocuments : Documents where
  manifests := [stampedManifest]
  indexes := [honestIndex]
  checkpoints := [wideFile]
  proofs := [proofs]
  roots := [roots]

/-- The recorder of the two records, with a note over both. -/
def recordedBoth : HonestStream stampedExternals stream where
  records := [opened, updated]
  runs := [[opened, updated]]
  chained := by
    have hrun : Run stampedExternals stream ⟨stream, updated.recordHash, some 1⟩
        [opened, updated] :=
      run (by decide +kernel) (by decide +kernel) (by decide +kernel) (by decide +kernel)
    exact hrun.inv.chained
  consecutive := fun _ hrun => List.mem_singleton.mp hrun ▸ List.infix_rfl

theorem wide_built : recordedBoth.Built wideNote :=
  ⟨_, List.mem_singleton_self _, wideNote.checkpointId, updated.tsWall, fingerprint, none,
    by decide +kernel⟩

def stampedWide : Stamps recordedBoth where
  batches := [[wideNote]]
  nonempty := by decide
  canonical := by
    intro notes hnotes n hn
    obtain rfl := List.mem_singleton.mp hnotes
    obtain rfl := List.mem_singleton.mp hn
    exact ⟨documentBytes wideNote.toJson, by decide +kernel⟩
  built := by
    intro notes hnotes n hn _
    obtain rfl := List.mem_singleton.mp hnotes
    obtain rfl := List.mem_singleton.mp hn
    exact wide_built

theorem stamped_identity : identityPass stampedExternals stampedDocuments.serde 1786453200
    stampedBundle options = (trust, [add .info .rootSource "root source: --root override"]) :=
  identityPass_eq rfl rfl rfl rfl rfl (by decide)
    (identity_eq rfl rfl rfl (by simp only [stampedDocuments, Documents.serde, readsBack_self]))

theorem stamped_proofs : proofsOf stampedDocuments.serde stampedBundle = proofs := by
  have hentry : readEntry stampedBundle.zip "anchors/proofs.json" =
      .ok (documentBytes proofs.toJson) := rfl
  have hread : stampedDocuments.serde.anchorProofs (documentBytes proofs.toJson) = .ok proofs := by
    simp only [stampedDocuments, Documents.serde, readsBack_self]
  rw [proofsOf, BundleReader.anchorProofs_of_read hentry hread]
  rfl

theorem stamped_checkpoints : checkpointsOf stampedDocuments.serde stampedBundle
    opened.streamId = [exported, wide] := by
  have hentry : readEntry stampedBundle.zip ("checkpoints/" ++ opened.streamId ++ ".json") =
      .ok (documentBytes wideFile.toJson) := rfl
  have hread : stampedDocuments.serde.streamCheckpoints (documentBytes wideFile.toJson) =
      .ok wideFile := by
    simp only [stampedDocuments, Documents.serde, readsBack_self]
  rw [checkpointsOf, BundleReader.streamCheckpoints_of_read hentry hread]
  rfl

theorem stamped_id : stampedExternals.ulidToString stream = opened.streamId := by
  decide +kernel

theorem wide_signed : signed stampedExternals opened.streamId trust wide = true := by
  decide +kernel

/-- The stream verifies without an error, and the wide checkpoint is over its two records. -/
theorem stamped_stream :
    (∀ f ∈ (verifyStream stampedExternals stampedDocuments.serde stampedBundle opened.streamId
      [exported, wide] trust).2, f.severity ≠ .error) ∧
    rootVerified stampedExternals (verifyStreamChain stampedExternals stampedDocuments.serde
      stampedBundle opened.streamId).1.hashesBySeq wide = true ∧
    (fileRecords stampedExternals stampedDocuments.serde stampedBundle opened.streamId).any
      (fun v => seqOf v = some 0) = true := by
  decide +kernel

theorem wide_timestamped :
    Timestamped stampedExternals stampedBundle proofs (noteDigest stampedExternals wideNote) := by
  have htoken : verifiedBatchToken stampedExternals stampedBundle batch =
      some ⟨"2026-11-18T04:21:15.000Z", "CN=TSA", true⟩ := by
    decide +kernel
  refine ⟨batch, List.mem_singleton_self _, ⟨_, htoken⟩,
    ⟨wideNote.checkpointId, wideHash, 0, 1, []⟩, List.mem_singleton_self _, ?_, ?_⟩
  · decide +kernel
  · decide +kernel

theorem wide_anchored (anchored : Finset UInt64) :
    AnchoredThrough stampedExternals stampedBundle proofs trust opened.streamId
      { checkedData stampedExternals stampedDocuments.serde stampedBundle trust opened.streamId with
        anchoredSeqs := anchored } wide 0 := by
  have hmem : wide ∈ checkpointsOf stampedDocuments.serde stampedBundle opened.streamId := by
    rw [stamped_checkpoints]
    exact List.mem_cons_of_mem _ (List.mem_singleton_self _)
  exact anchoredThrough_checked hmem wide_signed ⟨UInt64.le_refl 0, UInt64.zero_le⟩
    stamped_stream.2.1 wide_timestamped

end Sample

open Sample in
theorem anchored_authentic_sample :
    ∃ v ∈ fileRecords stampedExternals stampedDocuments.serde stampedBundle
        (stampedExternals.ulidToString Evidence.Sample.stream),
      (recordedBoth.Built wideNote ∧
          ∃ r ∈ [Evidence.Sample.opened, Evidence.Sample.updated], CopyOf v r) ∨
        Unstamped stampedExternals stampedBundle
          (proofsOf stampedDocuments.serde stampedBundle) stampedWide ∨
        Collides stampedExternals.blake3
          (historyInputs stampedExternals stampedDocuments.serde stampedBundle
              (stampedExternals.ulidToString Evidence.Sample.stream) ++
            anchorInputs stampedExternals (proofsOf stampedDocuments.serde stampedBundle))
          (recordedBoth.inputs ++ stampedWide.inputs) ∨
        Collides stampedExternals.sha256
          (anchorRoots stampedExternals (proofsOf stampedDocuments.serde stampedBundle))
          stampedWide.roots := by
  have hid := stamped_id
  have htrust : trustOf stampedExternals stampedDocuments.serde 0 stampedBundle options = trust :=
    trustOf_of_identity stamped_identity rfl
  obtain ⟨hquiet, -, hany⟩ := stamped_stream
  obtain ⟨v, hv, hseq⟩ := List.any_eq_true.mp hany
  have hscope : opened.streamId ∈ scopeIds stampedBundle := List.mem_singleton_self _
  obtain ⟨anchored, hfinal⟩ := @exists_final stampedExternals stampedDocuments.serde 0
    stampedBundle options _ hscope
  have hanchored := wide_anchored anchored
  rw [← stamped_checkpoints] at hquiet
  rw [← stamped_proofs] at hanchored
  rw [← htrust, ← hid] at hquiet hanchored
  rw [← hid] at hv hfinal
  exact ⟨v, hv, anchored_authentic stampedWide hquiet hfinal hanchored hv (of_decide_eq_true hseq)⟩

end Sealr.Verify
