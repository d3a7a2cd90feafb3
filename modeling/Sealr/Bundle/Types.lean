import Sealr.Evidence.Checkpoint
import Sealr.Evidence.Revocation

/-!
# Documents of a bundle

The manifest, the record index, the checkpoint files and the identity directory, with the JSON of
those that are hashed or signed.
-/

namespace Sealr.Bundle

open Lib Evidence

/-! ## Errors -/

inductive BundleError where
  | io (text : String)
  | zip (text : String)
  | json (text : String)
  | evidence (e : EvidenceError)
  | manifest (text : String)
  | contentHashMismatch (path expected computed : String)
  | missingEntry (path : String)
  | invalid (text : String)
  deriving DecidableEq

def BundleError.display (E : Externals) : BundleError → String
  | io text => "I/O error: " ++ text
  | zip text => "zip error: " ++ text
  | json text => "JSON error: " ++ text
  | evidence e => "evidence error: " ++ e.display E
  | manifest text => "manifest error: " ++ text
  | contentHashMismatch path expected computed =>
    "bundle entry " ++ path ++ ": content hash mismatch (expected " ++ expected ++ ", computed " ++
      computed ++ ")"
  | missingEntry path => "missing bundle entry: " ++ path
  | invalid text => "invalid bundle: " ++ text

/-- `Result<T>` of the bundle crate. -/
abbrev BResult := Except BundleError

/-! ## Checkpoints, record index, identity -/

structure BundleCheckpoint where
  checkpoint : SignedCheckpoint
  countersignature : Option Countersignature
  deriving DecidableEq

def BundleCheckpoint.toJson (c : BundleCheckpoint) : Json :=
  .ofFields [("checkpoint", some c.checkpoint.toJson),
    ("countersignature", c.countersignature.map (·.toJson))] (by simp)

structure StreamCheckpoints where
  streamId : String
  checkpoints : List BundleCheckpoint

def StreamCheckpoints.toJson (s : StreamCheckpoints) : Json :=
  .ofFields [("stream_id", some (.str s.streamId)),
    ("checkpoints", some (.array (s.checkpoints.map (·.toJson))))] (by simp)

structure RecordIndexStream where
  streamId : String
  shards : List String
  seqFrom : UInt64
  seqTo : UInt64
  recordCount : UInt64

def RecordIndexStream.toJson (s : RecordIndexStream) : Json :=
  .ofFields [("stream_id", some (.str s.streamId)), ("shards", some (.array (s.shards.map .str))),
    ("seq_from", some (.u64 s.seqFrom)), ("seq_to", some (.u64 s.seqTo)),
    ("record_count", some (.u64 s.recordCount))] (by simp)

structure RecordIndex where
  streams : List RecordIndexStream

def RecordIndex.toJson (i : RecordIndex) : Json :=
  .ofFields [("streams", some (.array (i.streams.map (·.toJson))))] (by simp)

structure TrustedRoot where
  name : String
  certPem : String

def TrustedRoot.toJson (r : TrustedRoot) : Json :=
  .ofFields [("name", some (.str r.name)), ("cert_pem", some (.str r.certPem))] (by simp)

structure ConsoleKeyStatement where
  keyId : String
  publicKeyPem : String
  notBefore : String
  notAfter : String

def ConsoleKeyStatement.toJson (s : ConsoleKeyStatement) : Json :=
  .ofFields [("key_id", some (.str s.keyId)), ("public_key_pem", some (.str s.publicKeyPem)),
    ("not_before", some (.str s.notBefore)), ("not_after", some (.str s.notAfter))] (by simp)

structure AttestedConsoleKey where
  statement : ConsoleKeyStatement
  signature : Option String
  rootName : Option String

def AttestedConsoleKey.toJson (k : AttestedConsoleKey) : Json :=
  .ofFields [("statement", some k.statement.toJson), ("signature", k.signature.map .str),
    ("root_name", k.rootName.map .str)] (by simp)

structure RootsFile where
  roots : List TrustedRoot
  consoleKeys : List AttestedConsoleKey

def RootsFile.toJson (f : RootsFile) : Json :=
  .ofFields [("roots", some (.array (f.roots.map (·.toJson)))),
    ("console_keys", if f.consoleKeys.isEmpty then none
      else some (.array (f.consoleKeys.map (·.toJson))))] (by simp)

structure BundleIdentity where
  certsPem : String
  revocations : Option SignedRevocationList
  roots : RootsFile

/-! ## Manifest -/

inductive ExportLevel where
  | metadata | full
  deriving DecidableEq

def ExportLevel.name : ExportLevel → String
  | metadata => "metadata"
  | full => "full"

structure StreamScope where
  streamId : String
  seqFrom : UInt64
  seqTo : UInt64
  recordCount : UInt64

def StreamScope.toJson (s : StreamScope) : Json :=
  .ofFields [("stream_id", some (.str s.streamId)), ("seq_from", some (.u64 s.seqFrom)),
    ("seq_to", some (.u64 s.seqTo)), ("record_count", some (.u64 s.recordCount))] (by simp)

structure BundleScope where
  level : ExportLevel
  tsFrom : Option String
  tsTo : Option String
  resources : List String
  streams : List StreamScope

def BundleScope.toJson (s : BundleScope) : Json :=
  .ofFields [("level", some (.str s.level.name)), ("ts_from", s.tsFrom.map .str),
    ("ts_to", s.tsTo.map .str), ("resources", listField s.resources),
    ("streams", some (.array (s.streams.map (·.toJson))))] (by simp)

structure ContentEntry where
  path : String
  blake3 : String
  bytes : UInt64

def ContentEntry.toJson (c : ContentEntry) : Json :=
  .ofFields [("path", some (.str c.path)), ("blake3", some (.str c.blake3)),
    ("bytes", some (.u64 c.bytes))] (by simp)

structure ToolInfo where
  name : String
  version : String

def ToolInfo.toJson (t : ToolInfo) : Json :=
  .ofFields [("name", some (.str t.name)), ("version", some (.str t.version))] (by simp)

structure Manifest where
  schemaVersion : String
  bundleId : String
  createdAt : String
  tool : ToolInfo
  scope : BundleScope
  contents : List ContentEntry

namespace Manifest

def toJson (m : Manifest) : Json :=
  .ofFields [("schema_version", some (.str m.schemaVersion)), ("bundle_id", some (.str m.bundleId)),
    ("created_at", some (.str m.createdAt)), ("tool", some m.tool.toJson),
    ("scope", some m.scope.toJson), ("contents", some (.array (m.contents.map (·.toJson))))]
    (by simp)

/-- `jcs_hash`. -/
def jcsHash (E : Externals) (m : Manifest) : Result String := do
  let bytes ← toJcsBytes m.toJson
  return blake3Hex E bytes

end Manifest

def BUNDLE_SCHEMA_VERSION : String := "1"

end Sealr.Bundle
