import Sealr.Bundle.Anchors

/-!
# Reading a bundle

A `.seal` file is a zip archive. An entry delivers bytes and may then fail; record shards are
decompressed while they are read line by line. The typed JSON decoders that serde derives are the
fields of `Serde`.
-/

namespace Sealr.Bundle

open Lib Evidence

/-- `serde_json::from_slice` at the document types. -/
structure Serde where
  manifest : Bytes → Except String Manifest
  recordIndex : Bytes → Except String RecordIndex
  streamCheckpoints : Bytes → Except String StreamCheckpoints
  anchorProofs : Bytes → Except String AnchorProofs
  revocationList : Bytes → Except String SignedRevocationList
  rootsFile : Bytes → Except String RootsFile

/-- A document as JSON text. -/
def documentBytes (v : Json) : Bytes := (toJcsBytes v).toOption.getD []

/-- Some documents, as they are written and read. -/
structure Documents where
  manifests : List Manifest := []
  indexes : List RecordIndex := []
  checkpoints : List StreamCheckpoints := []
  proofs : List AnchorProofs := []
  revocations : List SignedRevocationList := []
  roots : List RootsFile := []

/-- A decoder that knows documents by their bytes. -/
def readsBack {α : Type} (toJson : α → Json) (docs : List α) (bytes : Bytes) : Except String α :=
  match docs.find? fun d => documentBytes (toJson d) = bytes with
  | some d => .ok d
  | none => .error "expected value"

section ReadsBack

variable {α : Type} {toJson : α → Json} {d : α} {docs : List α}

theorem readsBack_self : readsBack toJson (d :: docs) (documentBytes (toJson d)) = .ok d := by
  simp [readsBack]

theorem readsBack_next {bytes : Bytes} (h : documentBytes (toJson d) ≠ bytes) :
    readsBack toJson (d :: docs) bytes = readsBack toJson docs bytes := by
  simp [readsBack, h]

end ReadsBack

/-- Decoders of the documents given. -/
def Documents.serde (d : Documents) : Serde where
  manifest := readsBack Manifest.toJson d.manifests
  recordIndex := readsBack RecordIndex.toJson d.indexes
  streamCheckpoints := readsBack StreamCheckpoints.toJson d.checkpoints
  anchorProofs := readsBack AnchorProofs.toJson d.proofs
  revocationList := readsBack SignedRevocationList.toJson d.revocations
  rootsFile := readsBack RootsFile.toJson d.roots

structure ZipEntry where
  name : String
  openError : Option String
  data : Bytes
  readError : Option String

/-- The central directory names every entry once. -/
structure ZipArchive where
  entries : List ZipEntry
  nodup : (entries.map (·.name)).Nodup

def ZipArchive.byName (zip : ZipArchive) (name : String) : Option ZipEntry :=
  zip.entries.find? fun e => e.name = name

/-- The entries of a container are found under their names. -/
theorem byName_of_mem {zip : ZipArchive} {e : ZipEntry} (h : e ∈ zip.entries) :
    zip.byName e.name = some e := by
  unfold ZipArchive.byName
  cases hfind : zip.entries.find? fun f => f.name = e.name with
  | none => simp at hfind; exact absurd rfl (hfind e h)
  | some f =>
    have hname : f.name = e.name := by simpa using List.find?_some hfind
    have hsame := List.inj_on_of_nodup_map zip.nodup (List.mem_of_find?_eq_some hfind) h hname
    rw [hsame]

/-- `read_entry`. -/
def readEntry (zip : ZipArchive) (path : String) : BResult Bytes :=
  match zip.byName path with
  | none => .error (.missingEntry path)
  | some file =>
    match file.openError, file.readError with
    | some e, _ => .error (.zip e)
    | none, some e => .error (.io e)
    | none, none => .ok file.data

/-- What is read under a name is the one entry of that name. -/
theorem byName_of_readEntry {zip : ZipArchive} {name : String} {bytes : Bytes}
    (h : readEntry zip name = .ok bytes) : zip.byName name = some ⟨name, none, bytes, none⟩ := by
  unfold readEntry at h
  cases hfile : zip.byName name with
  | none => simp [hfile] at h
  | some file =>
    have hname : file.name = name := by simpa using List.find?_some hfile
    obtain ⟨fileName, openError, data, readError⟩ := file
    cases openError with
    | some e => simp [hfile] at h
    | none =>
      cases readError with
      | some e => simp [hfile] at h
      | none => simp_all

/-- Decode a document that was read. -/
def decode {α : Type} (decoder : Bytes → Except String α) (bytes : Bytes) : BResult α :=
  match decoder bytes with
  | .ok a => .ok a
  | .error e => .error (.json e)

theorem decode_eq_ok {α : Type} {decoder : Bytes → Except String α} {bytes : Bytes} {a : α} :
    decode decoder bytes = .ok a ↔ decoder bytes = .ok a := by
  unfold decode
  cases decoder bytes with
  | error e => simp
  | ok a' => simp

/-! ## Lines -/

/-- Complete lines without their line feed, and what follows the last line feed. -/
def splitLines : Bytes → List Bytes × Bytes
  | [] => ([], [])
  | b :: bs =>
    match splitLines bs with
    | (lines, tail) =>
      if b = 0x0a then ([] :: lines, tail)
      else
        match lines with
        | line :: lines => ((b :: line) :: lines, tail)
        | [] => ([], b :: tail)

/-- The lines read from what a shard delivers: blank lines are skipped, and a last line without a
line feed counts only when nothing failed. -/
def deliveredLines (bytes : Bytes) (fault : Option String) : List Bytes :=
  let (lines, tail) := splitLines bytes
  (if fault.isSome then lines else lines ++ [tail]).filter (· ≠ [])

/-- A line without a line feed is split off as it is. -/
theorem splitLines_line {line : Bytes} (h : 0x0a ∉ line) (rest : Bytes) :
    splitLines (line ++ 0x0a :: rest) = (line :: (splitLines rest).1, (splitLines rest).2) := by
  induction line with
  | nil => simp [splitLines]
  | cons b line ih =>
    simp only [List.mem_cons, not_or] at h
    simp [splitLines, ih h.2, Ne.symm h.1]

/-- Non-empty lines, each closed by a line feed, are delivered as they are. -/
theorem deliveredLines_lines {lines : List Bytes} (hlf : ∀ l ∈ lines, 0x0a ∉ l)
    (hne : ∀ l ∈ lines, l ≠ []) :
    deliveredLines (lines.flatMap (· ++ [0x0a])) none = lines := by
  have hsplit : splitLines (lines.flatMap (· ++ [0x0a])) = (lines, []) := by
    induction lines with
    | nil => rfl
    | cons l lines ih =>
      have hrest := ih (fun x hx => hlf x (List.mem_cons_of_mem _ hx)) fun x hx =>
        hne x (List.mem_cons_of_mem _ hx)
      rw [List.flatMap_cons, List.append_assoc, List.singleton_append,
        splitLines_line (hlf l List.mem_cons_self), hrest]
  simpa [deliveredLines, hsplit] using hne

/-- One shard: the lines delivered, and the error that ended it. -/
def shardLines (E : Externals) (zip : ZipArchive) (shard : String) :
    List Bytes × Option BundleError :=
  match zip.byName shard with
  | none => ([], some (.zip E.zipFileNotFound))
  | some file =>
    match file.openError with
    | some e => ([], some (.zip e))
    | none =>
      match E.zstdDecode file.data file.readError with
      | .error e => ([], some (.io e))
      | .ok (bytes, fault) => (deliveredLines bytes fault, fault.map .io)

/-- The shards of a stream, up to the first error. -/
def shardsLines (E : Externals) (zip : ZipArchive) : List String → List Bytes × Option BundleError
  | [] => ([], none)
  | shard :: shards =>
    match shardLines E zip shard with
    | (lines, some e) => (lines, some e)
    | (lines, none) =>
      let (rest, err) := shardsLines E zip shards
      (lines ++ rest, err)

/-! ## The reader -/

structure BundleReader where
  zip : ZipArchive
  manifest : Manifest

namespace BundleReader

/-- `open`. -/
def fromZip (S : Serde) (zip : ZipArchive) : BResult BundleReader := do
  let bytes ← readEntry zip "manifest.json"
  match S.manifest bytes with
  | .ok manifest => return { zip, manifest }
  | .error e => .error (.manifest ("manifest.json parse: " ++ e))

/-- `manifest_hash`. -/
def manifestHash (E : Externals) (r : BundleReader) : BResult String :=
  match r.manifest.jcsHash E with
  | .ok h => .ok h
  | .error e => .error (.evidence e)

/-- The first loop of `verify_content_hashes`. -/
def checkContents (E : Externals) (zip : ZipArchive) : List ContentEntry → BResult Unit
  | [] => .ok ()
  | entry :: rest => do
    let bytes ← readEntry zip entry.path
    let computed := blake3Hex E bytes
    if computed ≠ entry.blake3 then
      .error (.contentHashMismatch entry.path entry.blake3 computed)
    else if UInt64.ofNat bytes.length ≠ entry.bytes then
      .error (.manifest ("entry " ++ entry.path ++ " size " ++ toString bytes.length ++
        " != manifest " ++ toString entry.bytes.toNat))
    else checkContents E zip rest

/-- The second loop: the names of entries that are not listed. -/
def unlistedEntries (listed : List String) : List ZipEntry → BResult (List String)
  | [] => .ok []
  | e :: es => do
    if let some text := e.openError then throw (.zip text)
    let rest ← unlistedEntries listed es
    return if e.name ≠ "manifest.json" ∧ e.name ∉ listed ∧ (chars e.name).getLast? ≠ some '/' then e.name :: rest
      else rest

/-- `verify_content_hashes`. -/
def verifyContentHashes (E : Externals) (r : BundleReader) : BResult (List String) := do
  checkContents E r.zip r.manifest.contents
  unlistedEntries (r.manifest.contents.map (·.path)) r.zip.entries

/-- An entry of the contents is what the container holds under its path. -/
def Hashed (E : Externals) (zip : ZipArchive) (c : ContentEntry) : Prop :=
  ∃ bytes, readEntry zip c.path = .ok bytes ∧ blake3Hex E bytes = c.blake3 ∧
    UInt64.ofNat bytes.length = c.bytes

/-- A name that the second loop passes over. -/
def PassedOver (listed : List String) (name : String) : Prop :=
  name = "manifest.json" ∨ name ∈ listed ∨ (chars name).getLast? = some '/'

theorem checkContents_eq_ok {E : Externals} {zip : ZipArchive} {contents : List ContentEntry} :
    checkContents E zip contents = .ok () ↔ ∀ c ∈ contents, Hashed E zip c := by
  induction contents with
  | nil => simp [checkContents]
  | cons c contents ih =>
    rw [List.forall_mem_cons, ← ih, checkContents]
    unfold Hashed
    cases hread : readEntry zip c.path with
    | error e => simp [bind, Except.bind]
    | ok bytes =>
      simp only [bind, Except.bind, Except.ok.injEq, exists_eq_left']
      by_cases hhash : blake3Hex E bytes = c.blake3
      · by_cases hlength : UInt64.ofNat bytes.length = c.bytes
        · simp [hhash, hlength]
        · simp [hhash, hlength]
      · simp [hhash]

theorem unlistedEntries_eq_nil {listed : List String} {es : List ZipEntry} :
    unlistedEntries listed es = .ok [] ↔
      ∀ e ∈ es, e.openError = none ∧ PassedOver listed e.name := by
  induction es with
  | nil => simp [unlistedEntries]
  | cons e es ih =>
    rw [List.forall_mem_cons, ← ih, unlistedEntries]
    cases hopen : e.openError with
    | some text => simp [bind, Except.bind, throw, throwThe, MonadExceptOf.throw]
    | none =>
      cases hrest : unlistedEntries listed es with
      | error err => simp [bind, Except.bind]
      | ok rest =>
        simp only [bind, Except.bind, pure, Except.pure, Except.ok.injEq, true_and]
        split_ifs with hun
        · have hnot : ¬PassedOver listed e.name := by
            rintro (hmanifest | hlisted | hdir)
            · exact hun.1 hmanifest
            · exact hun.2.1 hlisted
            · exact hun.2.2 hdir
          simp [hnot]
        · have hpassed : PassedOver listed e.name := by
            by_contra hnot
            simp only [PassedOver, not_or] at hnot
            exact hun hnot
          simp [hpassed]

/-- The content hashes check, and nothing is left over. -/
theorem verifyContentHashes_eq_nil {E : Externals} {r : BundleReader} :
    r.verifyContentHashes E = .ok [] ↔ (∀ c ∈ r.manifest.contents, Hashed E r.zip c) ∧
      ∀ e ∈ r.zip.entries, e.openError = none ∧
        PassedOver (r.manifest.contents.map (·.path)) e.name := by
  rw [← checkContents_eq_ok, ← unlistedEntries_eq_nil]
  unfold verifyContentHashes
  cases checkContents E r.zip r.manifest.contents with
  | error e => simp [bind, Except.bind]
  | ok u => simp [bind, Except.bind]

theorem fromZip_eq_ok {S : Serde} {zip : ZipArchive} {r : BundleReader} :
    fromZip S zip = .ok r ↔ r.zip = zip ∧ ∃ bytes, readEntry zip "manifest.json" = .ok bytes ∧
      S.manifest bytes = .ok r.manifest := by
  unfold fromZip
  cases hread : readEntry zip "manifest.json" with
  | error e => simp [bind, Except.bind]
  | ok bytes =>
    cases hparse : S.manifest bytes with
    | error e => simp [bind, Except.bind, hparse]
    | ok manifest =>
      obtain ⟨zip', manifest'⟩ := r
      simp [bind, Except.bind, pure, Except.pure, hparse, eq_comm]

def recordIndex (S : Serde) (r : BundleReader) : BResult RecordIndex := do
  decode S.recordIndex (← readEntry r.zip "records/index.json")

/-- `read_stream_records`: the lines handed to the callback, and the error that ended the reading.
The callback of the one caller never fails. -/
def readStreamRecords (E : Externals) (S : Serde) (r : BundleReader) (streamId : String) :
    List Bytes × Option BundleError :=
  match r.recordIndex S with
  | .error e => ([], some e)
  | .ok index =>
    match index.streams.find? fun s => s.streamId = streamId with
    | none => ([], some (.missingEntry ("stream " ++ streamId ++ " in index")))
    | some entry => shardsLines E r.zip entry.shards

/-- What `read_stream_records` returns: the number of lines, a `u64`. -/
def linesRead (E : Externals) (S : Serde) (r : BundleReader) (streamId : String) : BResult UInt64 :=
  match r.readStreamRecords E S streamId with
  | (_, some e) => .error e
  | (lines, none) => .ok (UInt64.ofNat lines.length)

def streamCheckpoints (S : Serde) (r : BundleReader) (streamId : String) :
    BResult StreamCheckpoints := do
  decode S.streamCheckpoints (← readEntry r.zip ("checkpoints/" ++ streamId ++ ".json"))

/-- `anchor_proofs`: an absent file is empty. -/
def anchorProofs (S : Serde) (r : BundleReader) : BResult AnchorProofs :=
  match readEntry r.zip "anchors/proofs.json" with
  | .ok bytes => decode S.anchorProofs bytes
  | .error (.missingEntry _) => .ok .default
  | .error e => .error e

def entryBytes (r : BundleReader) (path : String) : BResult Bytes := readEntry r.zip path

/-- `identity`. -/
def identity (E : Externals) (S : Serde) (r : BundleReader) : BResult BundleIdentity := do
  let certsBytes ← readEntry r.zip "identity/certs.pem"
  let certsPem ←
    match utf8Decode certsBytes with
    | some cs => pure (String.ofList cs)
    | none => .error (.invalid ("identity/certs.pem not UTF-8: " ++ E.fromUtf8Error certsBytes))
  let revocations ←
    match readEntry r.zip "identity/revocations.json" with
    | .ok bytes => (decode S.revocationList bytes).map some
    | .error (.missingEntry _) => pure none
    | .error e => .error e
  let roots ← decode S.rootsFile (← readEntry r.zip "identity/roots.json")
  return { certsPem, revocations, roots }

/-! ### Documents that are read -/

section Documents

variable {S : Serde} {r : BundleReader} {bytes : Bytes}

theorem recordIndex_of_read {index : RecordIndex}
    (hread : readEntry r.zip "records/index.json" = .ok bytes)
    (h : S.recordIndex bytes = .ok index) : r.recordIndex S = .ok index :=
  bind_eq_ok.mpr ⟨bytes, hread, decode_eq_ok.mpr h⟩

theorem streamCheckpoints_of_read {streamId : String} {file : StreamCheckpoints}
    (hread : readEntry r.zip ("checkpoints/" ++ streamId ++ ".json") = .ok bytes)
    (h : S.streamCheckpoints bytes = .ok file) : r.streamCheckpoints S streamId = .ok file :=
  bind_eq_ok.mpr ⟨bytes, hread, decode_eq_ok.mpr h⟩

theorem anchorProofs_of_read {proofs : AnchorProofs}
    (hread : readEntry r.zip "anchors/proofs.json" = .ok bytes)
    (h : S.anchorProofs bytes = .ok proofs) : r.anchorProofs S = .ok proofs := by
  unfold anchorProofs
  rw [hread]
  exact decode_eq_ok.mpr h

end Documents

end BundleReader

end Sealr.Bundle
