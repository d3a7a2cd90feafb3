import Sealr.Evidence.Hash
import Sealr.Evidence.Jcs

/-!
# Records

The record schema with the JSON that serde derives for it (optional fields and empty lists are
left out), and record hashing: the hash of a record is the BLAKE3 digest of its JCS bytes with
`record_hash` removed.
-/

namespace Sealr.Evidence

open Lib

def SCHEMA_VERSION : String := "1"

def GENESIS_PREFIX : String := "SEALR-GENESIS"

def SEGMENT_BREAK_PREFIX : String := "SEALR-SEGMENT-BREAK"

/-- `genesis_prev_hash`: BLAKE3 of the prefix and the stream id. -/
def genesisPrevHash (E : Externals) (streamId : Ulid) : String :=
  blake3Hex E (asBytes GENESIS_PREFIX ++ asBytes (E.ulidToString streamId))

/-- `segment_break_prev_hash`. -/
def segmentBreakPrevHash (E : Externals) (streamId segmentId : Ulid) : String :=
  blake3Hex E (asBytes SEGMENT_BREAK_PREFIX ++ asBytes (E.ulidToString streamId) ++
    asBytes (E.ulidToString segmentId))

/-- `parse_wall`. -/
def parseWall (E : Externals) (s : String) : Result DateTime :=
  match E.parseFromRfc3339 s with
  | .ok t => .ok t
  | .error e => .error (.schema ("invalid ts_wall " ++ E.debugStr s ++ ": " ++ e))

/-! ## Schema -/

inductive RecordType where
  | operation | outcome | approval | policyEvent | lifecycle | coverageGap | guardError
  | spoolShed | clockAnomaly | genericExec
  deriving DecidableEq

def RecordType.name : RecordType → String
  | operation => "operation"
  | outcome => "outcome"
  | approval => "approval"
  | policyEvent => "policy_event"
  | lifecycle => "lifecycle"
  | coverageGap => "coverage_gap"
  | guardError => "guard_error"
  | spoolShed => "spool_shed"
  | clockAnomaly => "clock_anomaly"
  | genericExec => "generic_exec"

structure RecorderInfo where
  recorderId : String
  version : String
  hostFingerprint : String
  platform : String

inductive Attribution where
  | attributed | inferred | unattributed
  deriving DecidableEq

def Attribution.name : Attribution → String
  | attributed => "attributed"
  | inferred => "inferred"
  | unattributed => "unattributed"

structure Subject where
  agentKind : String
  agentSession : String
  humanPrincipal : Option String
  attribution : Attribution
  source : String

structure Action where
  integration : String
  operation : String
  verbClass : String
  targetResource : String
  resourceLabels : List String

structure PayloadCommitment where
  alg : String
  commitment : String

structure PayloadRef where
  vaultUrl : String
  enc : String
  keyRef : String

structure GuardRef where
  name : String
  version : String

inductive Decision where
  | allow | warn | requireApproval | block
  deriving DecidableEq

def Decision.name : Decision → String
  | allow => "ALLOW"
  | warn => "WARN"
  | requireApproval => "REQUIRE_APPROVAL"
  | block => "BLOCK"

inductive RiskClass where
  | low | medium | high | critical
  deriving DecidableEq

def RiskClass.name : RiskClass → String
  | low => "LOW"
  | medium => "MEDIUM"
  | high => "HIGH"
  | critical => "CRITICAL"

inductive Mode where
  | observe | enforce
  deriving DecidableEq

def Mode.name : Mode → String
  | observe => "observe"
  | enforce => "enforce"

structure Verdict where
  decision : Decision
  mode : Mode
  riskClass : RiskClass
  policyVersion : UInt64
  ruleIds : List String
  reasonCodes : List String
  guard : GuardRef
  evalMs : UInt64

structure ApprovalRef where
  approvalRecordId : String

structure Links where
  requestRecordId : Option String

/-- One evidence record. -/
structure Record where
  schemaVersion : String
  recordId : String
  streamId : String
  segmentId : String
  seq : UInt64
  tsWall : String
  tsMonoNs : UInt64
  recordType : RecordType
  recorder : RecorderInfo
  subject : Subject
  action : Action
  actionDetail : Option Json
  payloadCommitment : Option PayloadCommitment
  payloadRef : Option PayloadRef
  verdict : Option Verdict
  approvalRef : Option ApprovalRef
  links : Option Links
  prevHash : String
  recordHash : String

/-! ## Serialization -/

/-- A list field that is left out when it is empty. -/
def listField (xs : List String) : Option Json :=
  if xs = [] then none else some (.array (xs.map .str))

def RecorderInfo.toJson (r : RecorderInfo) : Json :=
  .ofFields [("recorder_id", some (.str r.recorderId)), ("version", some (.str r.version)),
    ("host_fingerprint", some (.str r.hostFingerprint)), ("platform", some (.str r.platform))]
    (by simp)

def Subject.toJson (s : Subject) : Json :=
  .ofFields [("agent_kind", some (.str s.agentKind)), ("agent_session", some (.str s.agentSession)),
    ("human_principal", s.humanPrincipal.map .str),
    ("attribution", some (.str s.attribution.name)), ("source", some (.str s.source))] (by simp)

def Action.toJson (a : Action) : Json :=
  .ofFields [("integration", some (.str a.integration)), ("operation", some (.str a.operation)),
    ("verb_class", some (.str a.verbClass)), ("target_resource", some (.str a.targetResource)),
    ("resource_labels", listField a.resourceLabels)] (by simp)

def PayloadCommitment.toJson (p : PayloadCommitment) : Json :=
  .ofFields [("alg", some (.str p.alg)), ("commitment", some (.str p.commitment))] (by simp)

def PayloadRef.toJson (p : PayloadRef) : Json :=
  .ofFields [("vault_url", some (.str p.vaultUrl)), ("enc", some (.str p.enc)),
    ("key_ref", some (.str p.keyRef))] (by simp)

def GuardRef.toJson (g : GuardRef) : Json :=
  .ofFields [("name", some (.str g.name)), ("version", some (.str g.version))] (by simp)

def Verdict.toJson (v : Verdict) : Json :=
  .ofFields [("decision", some (.str v.decision.name)), ("mode", some (.str v.mode.name)),
    ("risk_class", some (.str v.riskClass.name)), ("policy_version", some (.u64 v.policyVersion)),
    ("rule_ids", listField v.ruleIds), ("reason_codes", listField v.reasonCodes),
    ("guard", some v.guard.toJson), ("eval_ms", some (.u64 v.evalMs))] (by simp)

def ApprovalRef.toJson (a : ApprovalRef) : Json :=
  .ofFields [("approval_record_id", some (.str a.approvalRecordId))] (by simp)

def Links.toJson (l : Links) : Json :=
  .ofFields [("request_record_id", l.requestRecordId.map .str)] (by simp)

namespace Record

/-- The fields of a record in declaration order. -/
def fields (r : Record) : List (String × Option Json) :=
  [("schema_version", some (.str r.schemaVersion)), ("record_id", some (.str r.recordId)),
    ("stream_id", some (.str r.streamId)), ("segment_id", some (.str r.segmentId)),
    ("seq", some (.u64 r.seq)), ("ts_wall", some (.str r.tsWall)),
    ("ts_mono_ns", some (.u64 r.tsMonoNs)), ("record_type", some (.str r.recordType.name)),
    ("recorder", some r.recorder.toJson), ("subject", some r.subject.toJson),
    ("action", some r.action.toJson), ("action_detail", r.actionDetail),
    ("payload_commitment", r.payloadCommitment.map (·.toJson)),
    ("payload_ref", r.payloadRef.map (·.toJson)), ("verdict", r.verdict.map (·.toJson)),
    ("approval_ref", r.approvalRef.map (·.toJson)), ("links", r.links.map (·.toJson)),
    ("prev_hash", some (.str r.prevHash)), ("record_hash", some (.str r.recordHash))]

/-- `serde_json::to_value` of a record. -/
def toJson (r : Record) : Json := .ofFields r.fields (by simp [fields])

end Record

/-! ## Hashing -/

/-- A raw record without `record_hash`: `Map::remove` swaps the last member into its place. -/
def withoutRecordHash (v : Json) : Result Json :=
  match h : v.value with
  | .object members =>
    .ok ⟨.object (Value.swapRemove "record_hash" members), Value.wf_swapRemove (h ▸ v.wf)⟩
  | _ => .error (.schema "record must be a JSON object")

/-- The bytes that are hashed for a raw record. -/
def hashInput (v : Json) : Result Bytes := do
  toJcsBytes (← withoutRecordHash v)

/-- `compute_hash_of_value`. -/
def computeHashOfValue (E : Externals) (v : Json) : Result String := do
  let bytes ← hashInput v
  return blake3Hex E bytes

namespace Record

def computeHash (E : Externals) (r : Record) : Result String := computeHashOfValue E r.toJson

/-- `finalize`: the record with its hash set. -/
def finalize (E : Externals) (r : Record) : Result Record := do
  let h ← r.computeHash E
  return { r with recordHash := h }

/-- `to_ndjson_line`. -/
def toNdjsonLine (r : Record) : Result Bytes := do
  let bytes ← toJcsBytes r.toJson
  return bytes ++ [0x0a]

end Record

/-! ## What a hash says about a record -/

theorem computeHashOfValue_eq_ok {E : Externals} {v : Json} {h : String} :
    computeHashOfValue E v = .ok h ↔ ∃ b, hashInput v = .ok b ∧ h = blake3Hex E b := by
  unfold computeHashOfValue
  rw [bind_eq_ok]
  constructor
  · rintro ⟨b, hb, heq⟩
    exact ⟨b, hb, (Except.ok.inj heq).symm⟩
  · rintro ⟨b, hb, rfl⟩
    exact ⟨b, hb, rfl⟩

theorem hashInput_eq_ok {v : Json} {b : Bytes} :
    hashInput v = .ok b ↔ ∃ w, withoutRecordHash v = .ok w ∧ toJcsBytes w = .ok b := by
  unfold hashInput
  rw [bind_eq_ok]

/-- A raw record that is hashed is an object; the hashed value is that object without
`record_hash`. -/
theorem withoutRecordHash_eq_ok {v w : Json} (h : withoutRecordHash v = .ok w) :
    ∃ members, v.value = .object members ∧
      w.value = .object (Value.swapRemove "record_hash" members) := by
  unfold withoutRecordHash at h
  split at h
  · next members hv =>
    obtain rfl := Except.ok.inj h
    exact ⟨members, hv, rfl⟩
  · cases h

theorem get_withoutRecordHash {v w : Json} (h : withoutRecordHash v = .ok w) {k : String}
    (hk : k ≠ "record_hash") : w.value.get k = v.value.get k := by
  obtain ⟨members, hv, hw⟩ := withoutRecordHash_eq_ok h
  rw [hv, hw]
  exact Value.get_swapRemove (hv ▸ v.wf) hk

/-- Records with one hash input hold equivalent values under every other key. -/
theorem get_of_hashInput_eq {v w : Json} {b : Bytes} (hv : hashInput v = .ok b)
    (hw : hashInput w = .ok b) {k : String} (hk : k ≠ "record_hash") {x : Value}
    (hx : v.value.get k = some x) : ∃ y, w.value.get k = some y ∧ x.Equiv y := by
  obtain ⟨v', hv', hvb⟩ := hashInput_eq_ok.mp hv
  obtain ⟨w', hw', hwb⟩ := hashInput_eq_ok.mp hw
  have hequiv := equiv_of_toJcsBytes_eq hvb hwb
  rw [← get_withoutRecordHash hv' hk] at hx
  rw [← get_withoutRecordHash hw' hk]
  exact hequiv.get v'.wf w'.wf hx

/-- Records with one hash input and one stored hash are equal up to member order and number
spelling. -/
theorem equiv_of_hashInput_eq {v w : Json} {b : Bytes} (hv : hashInput v = .ok b)
    (hw : hashInput w = .ok b) {s : String} (hvs : v.value.get "record_hash" = some (.string s))
    (hws : w.value.get "record_hash" = some (.string s)) : v.value.Equiv w.value := by
  obtain ⟨v', hv', hvb⟩ := hashInput_eq_ok.mp hv
  obtain ⟨w', hw', hwb⟩ := hashInput_eq_ok.mp hw
  have hequiv := equiv_of_toJcsBytes_eq hvb hwb
  obtain ⟨ms, hvm, hvm'⟩ := withoutRecordHash_eq_ok hv'
  obtain ⟨ns, hwm, hwm'⟩ := withoutRecordHash_eq_ok hw'
  rw [hvm'] at hequiv
  rw [hwm'] at hequiv
  rw [hvm] at hvs ⊢
  rw [hwm] at hws ⊢
  exact Value.equiv_of_swapRemove hvs hws (.refl _) hequiv

/-- The canonical form of a raw record is hashed as the record. -/
theorem hashInput_canon {v w : Json} (hc : Rfc8785.canon v.value = some w.value) {x : Value}
    (hx : v.value.get "record_hash" = some x) {b : Bytes} (h : hashInput v = .ok b) :
    hashInput w = .ok b := by
  obtain ⟨v', hv', hb⟩ := hashInput_eq_ok.mp h
  obtain ⟨ms, hms, hms'⟩ := withoutRecordHash_eq_ok hv'
  obtain ⟨d, hd, rfl⟩ := toJcsBytes_eq_ok.mp hb
  obtain ⟨value, wf⟩ := w
  rw [hms] at hc hx
  obtain ⟨ns, -, rfl⟩ := Rfc8785.canon_object.mp hc
  rw [hms'] at hd
  have hcanon := Rfc8785.canon_swapRemove (hms ▸ v.wf) hc hx hd
  exact hashInput_eq_ok.mpr ⟨_, rfl, toJcsBytes_eq_ok.mpr ⟨d, hcanon, rfl⟩⟩

namespace Record

theorem fields_eq (r : Record) : ∃ fs, r.fields = fs ++ [("record_hash", some (.str r.recordHash))] ∧
    "record_hash" ∉ fs.map Prod.fst ∧
    ∀ h, { r with recordHash := h }.fields = fs ++ [("record_hash", some (.str h))] := by
  refine ⟨r.fields.dropLast, rfl, ?_, fun h => rfl⟩
  simp [fields]

/-- The stored hash does not enter the hash. -/
theorem hashInput_setHash (r : Record) (h : String) :
    hashInput { r with recordHash := h }.toJson = hashInput r.toJson := by
  obtain ⟨fs, hr, hnot, hset⟩ := r.fields_eq
  have hdrop : ∀ s, Value.swapRemove "record_hash"
      (Json.members (fs ++ [("record_hash", some (.str s))])) = Json.members fs := by
    intro s
    rw [Json.members_append]
    exact Value.swapRemove_concat fun hm => hnot ((Json.keys_members_sublist fs).subset hm)
  have hsame : withoutRecordHash { r with recordHash := h }.toJson = withoutRecordHash r.toJson := by
    simp only [withoutRecordHash, toJson, Json.ofFields, hset, hdrop]
  rw [hashInput, hsame, hashInput]

/-- A finalized record stores its own hash and is otherwise the record. -/
theorem finalize_eq_ok {E : Externals} {r r' : Record} (h : r.finalize E = .ok r') :
    r'.computeHash E = .ok r'.recordHash ∧ r' = { r with recordHash := r'.recordHash } := by
  obtain ⟨s, hs, heq⟩ := bind_eq_ok.mp h
  obtain rfl := Except.ok.inj heq
  obtain ⟨b, hb, rfl⟩ := computeHashOfValue_eq_ok.mp hs
  refine ⟨computeHashOfValue_eq_ok.mpr ⟨b, ?_, rfl⟩, rfl⟩
  rw [hashInput_setHash, hb]

/-- The field of a record under a key. -/
theorem get_toJson {r : Record} {k : String} {j : Json} (h : (k, some j) ∈ r.fields) :
    r.toJson.value.get k = some j.value :=
  Json.get_ofFields h

/-- Only a record with a safe sequence number has a hash. -/
theorem seq_le_of_computeHash {E : Externals} {r : Record} {h : String}
    (hr : r.computeHash E = .ok h) : r.seq.toNat ≤ Rfc8785.maxSafe := by
  obtain ⟨b, hb, -⟩ := computeHashOfValue_eq_ok.mp hr
  obtain ⟨w, hw, hwb⟩ := hashInput_eq_ok.mp hb
  have hget : w.value.get "seq" = some (.number (.posInt r.seq)) := by
    rw [get_withoutRecordHash hw (by decide)]
    exact get_toJson (j := .u64 r.seq) (by simp [fields])
  obtain ⟨i, hi⟩ := safeInt_of_toJcsBytes hwb hget
  rw [Rfc8785.safeInt_posInt] at hi
  split_ifs at hi with hle
  exact hle

/-- A line is the canonical form and a line feed. -/
theorem toNdjsonLine_eq_ok {r : Record} {l : Bytes} :
    r.toNdjsonLine = .ok l ↔ ∃ b, toJcsBytes r.toJson = .ok b ∧ l = b ++ [0x0a] := by
  unfold toNdjsonLine
  rw [bind_eq_ok]
  constructor
  · intro h
    obtain ⟨b, hb, heq⟩ := h
    exact ⟨b, hb, (Except.ok.inj heq).symm⟩
  · intro h
    obtain ⟨b, hb, rfl⟩ := h
    exact ⟨b, hb, rfl⟩

/-- A record is written as an object, so its line is not blank. -/
theorem toJcsBytes_ne_nil {r : Record} {b : Bytes} (h : toJcsBytes r.toJson = .ok b) : b ≠ [] := by
  obtain ⟨c, hc, rfl⟩ := toJcsBytes_eq_ok.mp h
  obtain ⟨ns, -, rfl⟩ := Rfc8785.canon_object.mp hc
  simp [Rfc8785.print, String.utf8EncodeChar_ne_nil]

end Record

end Sealr.Evidence
