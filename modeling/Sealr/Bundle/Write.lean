import Sealr.Bundle.Read
import Sealr.Lib.Fallible
import Sealr.Lib.Pretty

/-!
# Writing a bundle

`BundleWriter`: a state machine over a zip file that is written from front to back. Every method
checks the phase, writes entries and remembers the hash of each for the manifest, which comes last.
-/

namespace Sealr.Bundle

open Lib Evidence

/-! ## The zip file -/

/-- The files written so far and the one that is open. A name is given once. -/
structure ZipWriter where
  closed : List (String × Bytes)
  current : Option (String × Bytes)
  nodup : ((closed ++ current.toList).map Prod.fst).Nodup

namespace ZipWriter

def new : ZipWriter := ⟨[], none, List.nodup_nil⟩

def files (zip : ZipWriter) : List (String × Bytes) := zip.closed ++ zip.current.toList

end ZipWriter

/-- What the writer takes from zip, zstd and serde_json. -/
structure Sink where
  /-- why `start_file` fails on a fresh name, if it does -/
  startError : ZipWriter → String → Option String
  /-- why `write_all` fails, if it does -/
  writeError : ZipWriter → Bytes → Option String
  finishError : ZipWriter → Option String
  /-- `zstd::stream::encode_all` at `ZSTD_LEVEL` -/
  zstdEncode : Bytes → Except String Bytes
  /-- how serde_json spells a double -/
  formatFloat : F64 → List Char

/-- A zip file that takes everything, and the frames recorded. No double was printed. -/
def Sink.recorded (r : Externals.Recording) : Sink where
  startError _ _ := none
  writeError _ _ := none
  finishError _ := none
  zstdEncode b := ((r.frames.find? fun f => f.2 = b).map Prod.fst).elim (.error "no frame") .ok
  formatFloat _ := []

namespace ZipWriter

/-- `start_file`: the open file is closed; a name that is in use is refused. -/
def startFile (K : Sink) (zip : ZipWriter) (name : String) : BResult ZipWriter :=
  if h : name ∈ zip.files.map Prod.fst then
    .error (.zip "invalid Zip archive: Duplicate filename")
  else
    match K.startError zip name with
    | some e => .error (.zip e)
    | none => .ok ⟨zip.files, some (name, []), by
        rw [Option.toList_some, List.map_append]
        exact List.Nodup.append zip.nodup (List.nodup_singleton _) (by simpa using h)⟩

/-- `write_all` into the open file. -/
def writeAll (K : Sink) (zip : ZipWriter) (bytes : Bytes) : BResult ZipWriter :=
  match zip with
  | ⟨_, none, _⟩ => .error (.io "No file has been started")
  | ⟨closed, some (name, data), nodup⟩ =>
    match K.writeError ⟨closed, some (name, data), nodup⟩ bytes with
    | some e => .error (.io e)
    | none => .ok ⟨closed, some (name, data ++ bytes), by simpa using nodup⟩

/-- The finished archive, as it is read. -/
def archive (zip : ZipWriter) : ZipArchive :=
  ⟨zip.files.map fun f => ⟨f.1, none, f.2, none⟩, by
    rw [List.map_map]
    exact zip.nodup⟩

end ZipWriter

/-- `serde_json::to_vec_pretty`. -/
def toVecPretty (K : Sink) (v : Json) : Bytes := utf8 (Pretty.pretty K.formatFloat 0 v.value)

/-! ## The writer -/

def MEDIA_TYPE : String := "application/vnd.sealr.bundle+zip"

def SHARD_SIZE_BYTES : UInt64 := 512 * 1024 * 1024

inductive Phase where
  | records | checkpoints | anchors | identity | vault | finished
  deriving DecidableEq

namespace Phase

/-- The order of the phases. -/
def rank : Phase → Nat
  | records => 0
  | checkpoints => 1
  | anchors => 2
  | identity => 3
  | vault => 4
  | finished => 5

def debug : Phase → String
  | records => "Records"
  | checkpoints => "Checkpoints"
  | anchors => "Anchors"
  | identity => "Identity"
  | vault => "Vault"
  | finished => "Finished"

end Phase

structure BundleWriter where
  zip : ZipWriter
  contents : List ContentEntry
  index : RecordIndex
  phase : Phase
  tool : ToolInfo
  bundleId : String
  createdAt : String
  shardThreshold : UInt64

/-- Methods of the writer: the state survives an error. -/
abbrev WriterM := Fallible BundleWriter BundleError

def BundleWriter.new (bundleId createdAt : String) (tool : ToolInfo) : BundleWriter where
  zip := .new
  contents := []
  index := ⟨[]⟩
  phase := .records
  tool
  bundleId
  createdAt
  shardThreshold := SHARD_SIZE_BYTES

def BundleWriter.withShardThreshold (w : BundleWriter) (bytes : UInt64) : BundleWriter :=
  { w with shardThreshold := bytes }

def requirePhase (atMost next : Phase) : WriterM Unit := do
  let w ← get
  if atMost.rank < w.phase.rank then
    throw (.invalid ("bundle writer phase error: cannot write " ++ next.debug ++ " after " ++
      w.phase.debug))
  modify fun w => { w with phase := next }

/-- What the manifest says about an entry. -/
def contentEntry (E : Externals) (path : String) (bytes : Bytes) : ContentEntry :=
  ⟨path, blake3Hex E bytes, UInt64.ofNat bytes.length⟩

def writeEntry (E : Externals) (K : Sink) (path : String) (bytes : Bytes) : WriterM Unit := do
  let w ← get
  let zip ← Fallible.ofExcept (w.zip.startFile K path)
  modify fun w => { w with zip }
  let zip ← Fallible.ofExcept (zip.writeAll K bytes)
  modify fun w => { w with zip }
  modify fun w => { w with contents := w.contents ++ [contentEntry E path bytes] }

/-! ## Record shards -/

/-- The variables of the loop of `add_stream_records`. -/
structure ShardState where
  shards : List String
  shardBuf : Bytes
  shardNo : UInt32
  count : UInt64
  firstLine : Option Bytes
  lastLine : Option Bytes

/-- A number in at least five digits. -/
def fiveDigits (n : UInt32) : String :=
  let digits := toString n.toNat
  String.ofList (List.replicate (5 - digits.length) '0') ++ digits

def shardPath (streamId : String) (shardNo : UInt32) : String :=
  "records/" ++ streamId ++ ".part-" ++ fiveDigits shardNo ++ ".ndjson.zst"

/-- `flush_shard`. -/
def flushShard (E : Externals) (K : Sink) (streamId : String) (st : ShardState) :
    WriterM ShardState := do
  if st.shardBuf = [] then
    return st
  let compressed ← Fallible.ofExcept ((K.zstdEncode st.shardBuf).mapError .io)
  let path := shardPath streamId st.shardNo
  writeEntry E K path compressed
  return { st with shards := st.shards ++ [path], shardBuf := [] }

/-- One turn of the loop: the shard number wraps. -/
def recordLine (E : Externals) (K : Sink) (streamId : String) (st : ShardState)
    (line : BResult Bytes) : WriterM ShardState := do
  let line ← Fallible.ofExcept line
  let st := { st with
    firstLine := st.firstLine.or (some line)
    lastLine := some line
    shardBuf := st.shardBuf ++ line
    count := st.count + 1 }
  let w ← get
  if w.shardThreshold ≤ UInt64.ofNat st.shardBuf.length then
    let st ← flushShard E K streamId st
    return { st with shardNo := st.shardNo + 1 }
  else
    return st

/-- `seq_of`. -/
def seqOfLine (E : Externals) (streamId : String) (line : Bytes) : BResult UInt64 :=
  match E.fromSlice line with
  | .error e => .error (.json e)
  | .ok v =>
    match (v.value.get "seq").bind Value.asU64 with
    | some seq => .ok seq
    | none => .error (.invalid ("stream " ++ streamId ++ ": record line missing seq"))

def addStreamRecords (E : Externals) (K : Sink) (streamId : String) (lines : List (BResult Bytes)) :
    WriterM RecordIndexStream := do
  requirePhase .records .records
  let st ← lines.foldlM (recordLine E K streamId) ⟨[], [], 1, 0, none, none⟩
  let st ← flushShard E K streamId st
  if st.count = 0 then
    throw (.invalid ("stream " ++ streamId ++ ": cannot export zero records"))
  -- a line was read, so there are a first one and a last one
  let seqFrom ← Fallible.ofExcept (seqOfLine E streamId (st.firstLine.getD []))
  let seqTo ← Fallible.ofExcept (seqOfLine E streamId (st.lastLine.getD []))
  let entry : RecordIndexStream := ⟨streamId, st.shards, seqFrom, seqTo, st.count⟩
  modify fun w => { w with index := ⟨w.index.streams ++ [entry]⟩ }
  return entry

/-! ## The other entries -/

def finishRecords (E : Externals) (K : Sink) : WriterM Unit := do
  let w ← get
  writeEntry E K "records/index.json" (toVecPretty K w.index.toJson)
  modify fun w => { w with phase := .checkpoints }

/-- How a method begins that closes the records phase. -/
def closeRecords (E : Externals) (K : Sink) : WriterM Unit := do
  let w ← get
  if w.phase = .records then
    finishRecords E K

/-- A method that closes the records phase and writes one entry. -/
def addEntry (E : Externals) (K : Sink) (phase : Phase) (path : String) (bytes : Bytes) :
    WriterM Unit := do
  closeRecords E K
  requirePhase phase phase
  writeEntry E K path bytes

def addStreamCheckpoints (E : Externals) (K : Sink) (streamId : String)
    (checkpoints : List BundleCheckpoint) : WriterM Unit :=
  addEntry E K .checkpoints ("checkpoints/" ++ streamId ++ ".json")
    (toVecPretty K (StreamCheckpoints.toJson ⟨streamId, checkpoints⟩))

def addRfc3161Token (E : Externals) (K : Sink) (batchId : String) (tokenDer : Bytes) :
    WriterM Unit :=
  addEntry E K .anchors ("anchors/rfc3161/" ++ batchId ++ ".tsr") tokenDer

def addQtsToken (E : Externals) (K : Sink) (day : String) (tokenDer : Bytes) : WriterM Unit :=
  addEntry E K .anchors ("anchors/qts/" ++ day ++ ".der") tokenDer

def addAnchorProofs (E : Externals) (K : Sink) (proofs : AnchorProofs) : WriterM Unit :=
  addEntry E K .anchors "anchors/proofs.json" (toVecPretty K proofs.toJson)

def addIdentity (E : Externals) (K : Sink) (certsPem : String)
    (revocations : Option SignedRevocationList) (roots : RootsFile) : WriterM Unit := do
  closeRecords E K
  requirePhase .anchors .identity
  writeEntry E K "identity/certs.pem" (asBytes certsPem)
  if let some rev := revocations then
    writeEntry E K "identity/revocations.json" (toVecPretty K rev.toJson)
  writeEntry E K "identity/roots.json" (toVecPretty K roots.toJson)

/-- Does a name hold two dots in a row? -/
def hasDots : List Char → Bool
  | '.' :: '.' :: _ => true
  | _ :: cs => hasDots cs
  | [] => false

/-- Unlike the other methods, this one leaves the record index to be written by nobody. -/
def addVaultEntry (E : Externals) (K : Sink) (name : String) (bytes : Bytes) : WriterM Unit := do
  requirePhase .vault .vault
  if hasDots name.toList ∨ name.toList.head? = some '/' then
    throw (.invalid ("invalid vault entry name " ++ E.debugStr name))
  writeEntry E K ("vault/" ++ name) bytes

/-! ## The end -/

def verifyMdTemplate (tool : ToolInfo) : String :=
  "# Verifying this Seal bundle\n\n" ++
  "This is an Sealr evidence bundle (`" ++ MEDIA_TYPE ++ "`).\n\n" ++
  "To verify it offline, without contacting Sealr:\n\n" ++
  "```\nsealr-verify <this-file>.seal\n```\n\n" ++
  "The verifier is open source (Apache-2.0): https://github.com/sealr/sealr \n" ++
  "Verifier releases embed the Sealr root public keys; you may also pass\n" ++
  "`--root <pem>` to pin your own trusted root, and `--json` for machine output.\n\n" ++
  "The bundle manifest (`manifest.json`) lists the BLAKE3-256 hash of every entry.\n" ++
  "The manifest's own canonical hash is `BLAKE3-256(JCS(manifest.json))`; the\n" ++
  "exporter prints it at export time — compare it with the value communicated to\n" ++
  "you out of band.\n\n" ++
  "Standing limits (also printed by the verifier): Sealr evidence is\n" ++
  "tamper-evident, not tamper-proof; it proves integrity, ordering, timing, and\n" ++
  "origin of the recorded stream only; proven time comes from timestamp anchors;\n" ++
  "subject attribution quality is as recorded, not independently proven.\n\n" ++
  "Exported by " ++ tool.name ++ " " ++ tool.version ++ ".\n"

/-- The scope of a stream, as the index has it. -/
def scopeOf (s : RecordIndexStream) : StreamScope := ⟨s.streamId, s.seqFrom, s.seqTo, s.recordCount⟩

/-- `finish`: the manifest, its hash, and the archive. -/
def finish (E : Externals) (K : Sink) (level : ExportLevel) (tsFrom tsTo : Option String)
    (resources : List String) : WriterM (Manifest × String × ZipArchive) := do
  closeRecords E K
  let w ← get
  writeEntry E K "VERIFY.md" (asBytes (verifyMdTemplate w.tool))
  let w ← get
  let manifest : Manifest := {
    schemaVersion := BUNDLE_SCHEMA_VERSION
    bundleId := w.bundleId
    createdAt := w.createdAt
    tool := w.tool
    scope := ⟨level, tsFrom, tsTo, resources, w.index.streams.map scopeOf⟩
    contents := w.contents }
  let hash ← Fallible.ofExcept ((manifest.jcsHash E).mapError .evidence)
  let manifestBytes ← Fallible.ofExcept ((toJcsBytes manifest.toJson).mapError .evidence)
  let zip ← Fallible.ofExcept (w.zip.startFile K "manifest.json")
  modify fun w => { w with zip }
  let zip ← Fallible.ofExcept (zip.writeAll K manifestBytes)
  modify fun w => { w with zip, phase := .finished }
  match K.finishError zip with
  | some e => throw (.zip e)
  | none => return (manifest, hash, zip.archive)

/-! ## Runs -/

/-- A call of one of the methods. -/
inductive Call where
  | addStreamRecords (streamId : String) (lines : List (BResult Bytes))
  | addStreamCheckpoints (streamId : String) (checkpoints : List BundleCheckpoint)
  | addRfc3161Token (batchId : String) (tokenDer : Bytes)
  | addQtsToken (day : String) (tokenDer : Bytes)
  | addAnchorProofs (proofs : AnchorProofs)
  | addIdentity (certsPem : String) (revocations : Option SignedRevocationList) (roots : RootsFile)
  | addVaultEntry (name : String) (bytes : Bytes)

def Call.perform (E : Externals) (K : Sink) : Call → WriterM Unit
  | addStreamRecords streamId lines => do
    let _ ← Bundle.addStreamRecords E K streamId lines
  | addStreamCheckpoints streamId checkpoints =>
    Bundle.addStreamCheckpoints E K streamId checkpoints
  | addRfc3161Token batchId tokenDer => Bundle.addRfc3161Token E K batchId tokenDer
  | addQtsToken day tokenDer => Bundle.addQtsToken E K day tokenDer
  | addAnchorProofs proofs => Bundle.addAnchorProofs E K proofs
  | addIdentity certsPem revocations roots => Bundle.addIdentity E K certsPem revocations roots
  | addVaultEntry name bytes => Bundle.addVaultEntry E K name bytes

/-- The calls one after another, up to the first that fails. -/
def perform (E : Externals) (K : Sink) : List Call → WriterM Unit
  | [] => pure ()
  | call :: calls => do
    call.perform E K
    perform E K calls

end Sealr.Bundle
