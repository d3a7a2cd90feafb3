import Sealr.Bundle.Write
import Sealr.Evidence.Spool

/-!
# Reading the manifest and the record index

The decoders that serde derives for the two documents: members by name, in any order, none unknown.
They read back what was written, canonical or indented.
-/

namespace Sealr.Bundle

open Lib Decoder Evidence

def StreamScope.ofJson : Decoder StreamScope :=
  strict ["stream_id", "seq_from", "seq_to", "record_count"] fun v => do
    let streamId ← field "stream_id" str v
    let seqFrom ← field "seq_from" u64 v
    let seqTo ← field "seq_to" u64 v
    let recordCount ← field "record_count" u64 v
    return { streamId, seqFrom, seqTo, recordCount }

def ExportLevel.ofJson : Decoder ExportLevel := fun v => do
  let name ← str v
  if name = "metadata" then some .metadata
  else if name = "full" then some .full
  else none

def BundleScope.ofJson : Decoder BundleScope :=
  strict ["level", "ts_from", "ts_to", "resources", "streams"] fun v => do
    let level ← field "level" ExportLevel.ofJson v
    let tsFrom ← optional "ts_from" str v
    let tsTo ← optional "ts_to" str v
    let resources ← fieldOr "resources" (list str) [] v
    let streams ← field "streams" (list StreamScope.ofJson) v
    return { level, tsFrom, tsTo, resources, streams }

def ContentEntry.ofJson : Decoder ContentEntry :=
  strict ["path", "blake3", "bytes"] fun v => do
    let path ← field "path" str v
    let blake3 ← field "blake3" str v
    let bytes ← field "bytes" u64 v
    return { path, blake3, bytes }

def ToolInfo.ofJson : Decoder ToolInfo :=
  strict ["name", "version"] fun v => do
    let name ← field "name" str v
    let version ← field "version" str v
    return { name, version }

def Manifest.ofJson : Decoder Manifest :=
  strict ["schema_version", "bundle_id", "created_at", "tool", "scope", "contents"] fun v => do
    let schemaVersion ← field "schema_version" str v
    let bundleId ← field "bundle_id" str v
    let createdAt ← field "created_at" str v
    let tool ← field "tool" ToolInfo.ofJson v
    let scope ← field "scope" BundleScope.ofJson v
    let contents ← field "contents" (list ContentEntry.ofJson) v
    return { schemaVersion, bundleId, createdAt, tool, scope, contents }

def RecordIndexStream.ofJson : Decoder RecordIndexStream :=
  strict ["stream_id", "shards", "seq_from", "seq_to", "record_count"] fun v => do
    let streamId ← field "stream_id" str v
    let shards ← field "shards" (list str) v
    let seqFrom ← field "seq_from" u64 v
    let seqTo ← field "seq_to" u64 v
    let recordCount ← field "record_count" u64 v
    return { streamId, shards, seqFrom, seqTo, recordCount }

def RecordIndex.ofJson : Decoder RecordIndex :=
  strict ["streams"] fun v => do
    let streams ← field "streams" (list RecordIndexStream.ofJson) v
    return { streams }

/-! ## Written and read -/

theorem StreamScope.ofJson_toJson (s : StreamScope) : ofJson s.toJson.value = some s := by
  unfold ofJson toJson
  rw [strict_ofFields (by simp)]
  simp [field_ofFields, str_str, u64_u64]

theorem ExportLevel.ofJson_name (level : ExportLevel) :
    ofJson (Json.str level.name).value = some level := by
  cases level <;> simp [ofJson, str_str, ExportLevel.name]

theorem BundleScope.ofJson_toJson (s : BundleScope) : ofJson s.toJson.value = some s := by
  unfold ofJson toJson
  rw [strict_ofFields (by simp)]
  have hstr : ∀ t : String, (Json.str t).value ≠ .null := fun _ => Value.noConfusion
  rw [field_ofFields (j := .str s.level.name) (by simp), ExportLevel.ofJson_name,
    optional_ofFields (o := s.tsFrom) (by simp) str_str hstr,
    optional_ofFields (o := s.tsTo) (by simp) str_str hstr, @fieldOr_listField _ _ _ s.resources
      (by simp), field_ofFields (j := .array (s.streams.map (·.toJson))) (by simp),
    list_array StreamScope.ofJson_toJson]
  rfl

theorem ContentEntry.ofJson_toJson (c : ContentEntry) : ofJson c.toJson.value = some c := by
  unfold ofJson toJson
  rw [strict_ofFields (by simp)]
  simp [field_ofFields, str_str, u64_u64]

theorem ToolInfo.ofJson_toJson (t : ToolInfo) : ofJson t.toJson.value = some t := by
  unfold ofJson toJson
  rw [strict_ofFields (by simp)]
  simp [field_ofFields, str_str]

theorem Manifest.ofJson_toJson (m : Manifest) : ofJson m.toJson.value = some m := by
  unfold ofJson toJson
  rw [strict_ofFields (by simp)]
  simp [field_ofFields, str_str, ToolInfo.ofJson_toJson, BundleScope.ofJson_toJson,
    list_array ContentEntry.ofJson_toJson]

theorem RecordIndexStream.ofJson_toJson (s : RecordIndexStream) :
    ofJson s.toJson.value = some s := by
  unfold ofJson toJson
  rw [strict_ofFields (by simp)]
  simp [field_ofFields, str_str, u64_u64, list_array str_str]

theorem RecordIndex.ofJson_toJson (i : RecordIndex) : ofJson i.toJson.value = some i := by
  unfold ofJson toJson
  rw [strict_ofFields (by simp)]
  simp [field_ofFields, list_array RecordIndexStream.ofJson_toJson]

/-! ## The order of the members -/

theorem StreamScope.stable_ofJson : Stable ofJson :=
  stable_strict <| stable_bind (stable_field stable_str) fun _ =>
    stable_bind (stable_field stable_u64) fun _ => stable_bind (stable_field stable_u64) fun _ =>
    stable_bind (stable_field stable_u64) fun _ => stable_pure _

theorem ExportLevel.stable_ofJson : Stable ofJson := by
  refine stable_bind stable_str fun name => ?_
  intro _ _ _ _ _ h
  exact h

theorem BundleScope.stable_ofJson : Stable ofJson :=
  stable_strict <| stable_bind (stable_field ExportLevel.stable_ofJson) fun _ =>
    stable_bind (stable_optional stable_str) fun _ =>
    stable_bind (stable_optional stable_str) fun _ =>
    stable_bind (stable_fieldOr (stable_list stable_str)) fun _ =>
    stable_bind (stable_field (stable_list StreamScope.stable_ofJson)) fun _ => stable_pure _

theorem ContentEntry.stable_ofJson : Stable ofJson :=
  stable_strict <| stable_bind (stable_field stable_str) fun _ =>
    stable_bind (stable_field stable_str) fun _ => stable_bind (stable_field stable_u64) fun _ =>
    stable_pure _

theorem ToolInfo.stable_ofJson : Stable ofJson :=
  stable_strict <| stable_bind (stable_field stable_str) fun _ =>
    stable_bind (stable_field stable_str) fun _ => stable_pure _

theorem Manifest.stable_ofJson : Stable ofJson :=
  stable_strict <| stable_bind (stable_field stable_str) fun _ =>
    stable_bind (stable_field stable_str) fun _ => stable_bind (stable_field stable_str) fun _ =>
    stable_bind (stable_field ToolInfo.stable_ofJson) fun _ =>
    stable_bind (stable_field BundleScope.stable_ofJson) fun _ =>
    stable_bind (stable_field (stable_list ContentEntry.stable_ofJson)) fun _ => stable_pure _

/-! ## `serde_json::from_slice` -/

/-- The decoders are those above: they are given what the text of a value denotes, be it canonical or
indented. Such a text names no member twice. -/
structure Serde.Derived (S : Serde) (K : Sink) : Prop where
  manifest : ∀ (v : Json) (c : Value) (m : Manifest), Rfc8785.canon v.value = some c →
    Manifest.ofJson c = some m → S.manifest (utf8 (Rfc8785.print c)) = .ok m
  recordIndex : ∀ (v : Json) (i : RecordIndex), Pretty.floatFree v.value = true →
    RecordIndex.ofJson v.value = some i → S.recordIndex (toVecPretty K v) = .ok i

/-- What a stable decoder reads is determined by the JCS bytes. -/
theorem eq_of_jcs {α : Type} {d : Decoder α} (hd : Stable d) {v w : Json} {x y : α} {b : Bytes}
    (hx : d v.value = some x) (hy : d w.value = some y) (hv : toJcsBytes v = .ok b)
    (hw : toJcsBytes w = .ok b) : x = y := by
  obtain ⟨c, hc, rfl⟩ := toJcsBytes_eq_ok.mp hv
  obtain ⟨c', hc', heq⟩ := toJcsBytes_eq_ok.mp hw
  obtain rfl : c = c' := Rfc8785.print_inj v.wf w.wf hc hc' (utf8_injective heq)
  exact hd.eq_of_canon v.wf w.wf hx hy hc hc'

namespace Serde.Derived

variable {S : Serde} {K : Sink}

/-- The manifest is read from its canonical form. -/
theorem manifest_of_jcs (h : S.Derived K) {m : Manifest} {b : Bytes}
    (hb : toJcsBytes m.toJson = .ok b) : S.manifest b = .ok m := by
  obtain ⟨c, hc, rfl⟩ := toJcsBytes_eq_ok.mp hb
  have hread := Manifest.stable_ofJson _ _ m m.toJson.wf hc (Manifest.ofJson_toJson m)
  exact h.manifest m.toJson c m hc hread

theorem floatFree_recordIndexStream (s : RecordIndexStream) :
    Pretty.floatFree s.toJson.value = true := by
  have hshards : Pretty.floatFree (Json.array (s.shards.map .str)).value = true := by
    apply Pretty.floatFree_jsonArray
    intro j hj
    obtain ⟨shard, -, rfl⟩ := List.mem_map.mp hj
    rfl
  apply Pretty.floatFree_ofFields
  simp only [List.forall_mem_cons, Option.some.injEq, forall_eq', List.not_mem_nil, false_implies,
    implies_true, and_true]
  exact ⟨rfl, hshards, rfl, rfl, rfl⟩

theorem floatFree_recordIndex (i : RecordIndex) : Pretty.floatFree i.toJson.value = true := by
  apply Pretty.floatFree_ofFields
  simp only [List.forall_mem_cons, Option.some.injEq, forall_eq', List.not_mem_nil, false_implies,
    implies_true, and_true]
  apply Pretty.floatFree_jsonArray
  intro j hj
  obtain ⟨s, -, rfl⟩ := List.mem_map.mp hj
  exact floatFree_recordIndexStream s

/-- The record index is read from its indented text. -/
theorem recordIndex_of_pretty (h : S.Derived K) (i : RecordIndex) :
    S.recordIndex (toVecPretty K i.toJson) = .ok i :=
  h.recordIndex i.toJson i (floatFree_recordIndex i) (RecordIndex.ofJson_toJson i)

end Serde.Derived

/-- Decoders of the manifest and of the record index. -/
def Serde.parsed : Serde where
  manifest b := ((Rfc8259.parseBytes (fun _ => none) b).bind fun v =>
    Manifest.ofJson v.value).elim (.error "invalid manifest") .ok
  recordIndex b := ((Rfc8259.parseBytes (fun _ => none) b).bind fun v =>
    RecordIndex.ofJson v.value).elim (.error "invalid index") .ok
  streamCheckpoints _ := .error "expected value"
  anchorProofs _ := .error "expected value"
  revocationList _ := .error "expected value"
  rootsFile _ := .error "expected value"

theorem Serde.derived_parsed (K : Sink) : Serde.parsed.Derived K where
  manifest := by
    intro v c m hc hm
    have htext := (Rfc8785.valueText_print (fun _ => none) v.wf hc).jsonText
    have hparse : Rfc8259.parseBytes (fun _ => none) (utf8 (Rfc8785.print c)) =
        some ⟨c, Rfc8785.wf_canon v.wf hc⟩ :=
      Rfc8259.parseBytes_of_text (utf8Decode_utf8 _) htext
    simp only [Serde.parsed, hparse, Option.bind_some, hm, Option.elim_some]
  recordIndex := by
    intro v i hfloat hi
    have htext := (@Pretty.valueText_pretty (fun _ => none) K.formatFloat 0 _ v.wf hfloat).jsonText
    have hparse : Rfc8259.parseBytes (fun _ => none) (toVecPretty K v) = some v :=
      Rfc8259.parseBytes_of_text (utf8Decode_utf8 _) htext
    simp only [Serde.parsed, hparse, Option.bind_some, hi, Option.elim_some]

end Sealr.Bundle
