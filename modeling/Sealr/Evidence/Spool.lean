import Sealr.Lib.Decode
import Sealr.Evidence.Appendable
import Sealr.Evidence.Determined

/-!
# Reloading the spool

The typed parse of a line: the decoders that serde derives for the record schema. A line is read
back as the record that was written, with two exceptions. A detail that is null is written, but read
as no detail, which has another hash; and a detail that is nested too deeply is not read at all
(`spool_round_trip_iff`).
-/

namespace Sealr

open Lib Rfc8785

namespace Externals

/-- `serde_json` reads the line of a canonical value that is nested within its recursion limit, and
refuses one that is nested deeper. -/
structure ReadsNested (E : Externals) (limit : Nat) : Prop where
  reads : ∀ w : Json, canon w.value = some w.value → w.value.depth ≤ limit →
    E.fromSlice (utf8 (print w.value) ++ [0x0a]) = .ok w
  refuses : ∀ w : Json, canon w.value = some w.value → limit < w.value.depth →
    ∃ e, E.fromSlice (utf8 (print w.value) ++ [0x0a]) = .error e

/-- The functions as they were recorded, reading JSON up to a depth. -/
def limited (limit : Nat) (r : Recording) : Externals :=
  { recorded r with fromSlice := fun b =>
      match Rfc8259.parseBytes (fun _ => none) b with
      | some w => if w.value.depth ≤ limit then .ok w else .error "recursion limit exceeded"
      | none => .error "not JSON" }

theorem readsNested_limited (limit : Nat) (r : Recording) :
    (limited limit r).ReadsNested limit := by
  have hparse : ∀ w : Json, canon w.value = some w.value →
      Rfc8259.parseBytes (fun _ => none) (utf8 (print w.value) ++ [0x0a]) = some w := by
    intro w hw
    have hline : utf8 (print w.value) ++ [0x0a] = utf8 (print w.value ++ ['\n']) := by
      rw [utf8_append]
      rfl
    have hvalue := valueText_print (fun _ => none) w.wf hw
    have hend : Rfc8259.Ws ['\n'] := List.forall_mem_singleton.mpr rfl
    have htext : Rfc8259.JsonText (fun _ => none) (print w.value ++ ['\n']) w.value :=
      ⟨[], _, _, Rfc8259.Ws.nil, hvalue, hend, rfl⟩
    rw [hline]
    exact Rfc8259.parseBytes_of_text (utf8Decode_utf8 _) htext
  constructor
  · intro w hw hle
    simp only [limited, hparse w hw, if_pos hle]
  · intro w hw hlt
    simp only [limited, hparse w hw, if_neg (Nat.not_le.mpr hlt)]
    exact ⟨_, rfl⟩

end Externals

end Sealr

namespace Sealr.Evidence

open Lib Decoder

/-! ## The schema, read -/

def RecordType.ofJson : Decoder RecordType :=
  enum [operation, outcome, approval, policyEvent, lifecycle, coverageGap, guardError, spoolShed,
    clockAnomaly, genericExec] name

def RecorderInfo.ofJson : Decoder RecorderInfo :=
  strict ["recorder_id", "version", "host_fingerprint", "platform"] fun v => do
    let recorderId ← field "recorder_id" str v
    let version ← field "version" str v
    let hostFingerprint ← field "host_fingerprint" str v
    let platform ← field "platform" str v
    return { recorderId, version, hostFingerprint, platform }

def Attribution.ofJson : Decoder Attribution := enum [attributed, inferred, unattributed] name

def Subject.ofJson : Decoder Subject :=
  strict ["agent_kind", "agent_session", "human_principal", "attribution", "source"] fun v => do
    let agentKind ← field "agent_kind" str v
    let agentSession ← field "agent_session" str v
    let humanPrincipal ← optional "human_principal" str v
    let attribution ← field "attribution" Attribution.ofJson v
    let source ← field "source" str v
    return { agentKind, agentSession, humanPrincipal, attribution, source }

def Action.ofJson : Decoder Action :=
  strict ["integration", "operation", "verb_class", "target_resource", "resource_labels"] fun v => do
    let integration ← field "integration" str v
    let operation ← field "operation" str v
    let verbClass ← field "verb_class" str v
    let targetResource ← field "target_resource" str v
    let resourceLabels ← fieldOr "resource_labels" (list str) [] v
    return { integration, operation, verbClass, targetResource, resourceLabels }

def PayloadCommitment.ofJson : Decoder PayloadCommitment :=
  strict ["alg", "commitment"] fun v => do
    let alg ← field "alg" str v
    let commitment ← field "commitment" str v
    return { alg, commitment }

def PayloadRef.ofJson : Decoder PayloadRef :=
  strict ["vault_url", "enc", "key_ref"] fun v => do
    let vaultUrl ← field "vault_url" str v
    let enc ← field "enc" str v
    let keyRef ← field "key_ref" str v
    return { vaultUrl, enc, keyRef }

def GuardRef.ofJson : Decoder GuardRef :=
  strict ["name", "version"] fun v => do
    let name ← field "name" str v
    let version ← field "version" str v
    return { name, version }

def Decision.ofJson : Decoder Decision := enum [allow, warn, requireApproval, block] name

def RiskClass.ofJson : Decoder RiskClass := enum [low, medium, high, critical] name

def Mode.ofJson : Decoder Mode := enum [observe, enforce] name

def Verdict.ofJson : Decoder Verdict :=
  strict ["decision", "mode", "risk_class", "policy_version", "rule_ids", "reason_codes", "guard",
      "eval_ms"] fun v => do
    let decision ← field "decision" Decision.ofJson v
    let mode ← field "mode" Mode.ofJson v
    let riskClass ← field "risk_class" RiskClass.ofJson v
    let policyVersion ← field "policy_version" u64 v
    let ruleIds ← fieldOr "rule_ids" (list str) [] v
    let reasonCodes ← fieldOr "reason_codes" (list str) [] v
    let guard ← field "guard" GuardRef.ofJson v
    let evalMs ← field "eval_ms" u64 v
    return { decision, mode, riskClass, policyVersion, ruleIds, reasonCodes, guard, evalMs }

def ApprovalRef.ofJson : Decoder ApprovalRef :=
  strict ["approval_record_id"] fun v => do
    let approvalRecordId ← field "approval_record_id" str v
    return { approvalRecordId }

def Links.ofJson : Decoder Links :=
  strict ["request_record_id"] fun v => do
    let requestRecordId ← optional "request_record_id" str v
    return { requestRecordId }

namespace Record

/-- Everything but the detail. -/
def besides (actionDetail : Option Json) : Decoder Record := fun v => do
  let schemaVersion ← field "schema_version" str v
  let recordId ← field "record_id" str v
  let streamId ← field "stream_id" str v
  let segmentId ← field "segment_id" str v
  let seq ← field "seq" u64 v
  let tsWall ← field "ts_wall" str v
  let tsMonoNs ← field "ts_mono_ns" u64 v
  let recordType ← field "record_type" RecordType.ofJson v
  let recorder ← field "recorder" RecorderInfo.ofJson v
  let subject ← field "subject" Subject.ofJson v
  let action ← field "action" Action.ofJson v
  let payloadCommitment ← optional "payload_commitment" PayloadCommitment.ofJson v
  let payloadRef ← optional "payload_ref" PayloadRef.ofJson v
  let verdict ← optional "verdict" Verdict.ofJson v
  let approvalRef ← optional "approval_ref" ApprovalRef.ofJson v
  let links ← optional "links" Links.ofJson v
  let prevHash ← field "prev_hash" str v
  let recordHash ← field "record_hash" str v
  return { schemaVersion, recordId, streamId, segmentId, seq, tsWall, tsMonoNs, recordType,
           recorder, subject, action, actionDetail, payloadCommitment, payloadRef, verdict,
           approvalRef, links, prevHash, recordHash }

def ofJson : Decoder Record :=
  strict ["schema_version", "record_id", "stream_id", "segment_id", "seq", "ts_wall", "ts_mono_ns",
      "record_type", "recorder", "subject", "action", "action_detail", "payload_commitment",
      "payload_ref", "verdict", "approval_ref", "links", "prev_hash", "record_hash"] fun v => do
    let actionDetail ← optional "action_detail" json v
    besides actionDetail v

/-- `serde_json::from_slice::<Record>`. -/
def fromSlice (E : Externals) (b : Bytes) : Option Record := do
  let v ← (E.fromSlice b).toOption
  ofJson v.value

end Record

/-! ## Written and read -/

theorem fieldOr_listField {fields : List (String × Option Json)}
    {h : (fields.map Prod.fst).Nodup} {k : String} {xs : List String}
    (hk : (k, listField xs) ∈ fields) :
    fieldOr k (list str) [] (Json.ofFields fields h).value = some xs := by
  unfold listField at hk
  unfold fieldOr
  by_cases hxs : xs = []
  · rw [if_pos hxs] at hk
    rw [Json.get_ofFields_none hk, hxs]
  · rw [if_neg hxs] at hk
    rw [Json.get_ofFields hk]
    exact list_array str_str xs

@[simp]
theorem RecordType.ofJson_name (t : RecordType) : ofJson (Json.str t.name).value = some t := by
  cases t <;> rfl

@[simp]
theorem Attribution.ofJson_name (a : Attribution) : ofJson (Json.str a.name).value = some a := by
  cases a <;> rfl

@[simp]
theorem Decision.ofJson_name (d : Decision) : ofJson (Json.str d.name).value = some d := by
  cases d <;> rfl

@[simp]
theorem RiskClass.ofJson_name (r : RiskClass) : ofJson (Json.str r.name).value = some r := by
  cases r <;> rfl

@[simp]
theorem Mode.ofJson_name (m : Mode) : ofJson (Json.str m.name).value = some m := by
  cases m <;> rfl

@[simp]
theorem RecorderInfo.ofJson_toJson (r : RecorderInfo) : ofJson r.toJson.value = some r := by
  unfold ofJson toJson
  rw [strict_ofFields (by simp)]
  simp [field_ofFields]

@[simp]
theorem Subject.ofJson_toJson (s : Subject) : ofJson s.toJson.value = some s := by
  unfold ofJson toJson
  rw [strict_ofFields (by simp), @optional_str _ _ _ s.humanPrincipal (by simp)]
  simp [field_ofFields]

@[simp]
theorem Action.ofJson_toJson (a : Action) : ofJson a.toJson.value = some a := by
  unfold ofJson toJson
  rw [strict_ofFields (by simp), @fieldOr_listField _ _ _ a.resourceLabels (by simp)]
  simp [field_ofFields]

@[simp]
theorem PayloadCommitment.ofJson_toJson (p : PayloadCommitment) :
    ofJson p.toJson.value = some p := by
  unfold ofJson toJson
  rw [strict_ofFields (by simp)]
  simp [field_ofFields]

@[simp]
theorem PayloadRef.ofJson_toJson (p : PayloadRef) : ofJson p.toJson.value = some p := by
  unfold ofJson toJson
  rw [strict_ofFields (by simp)]
  simp [field_ofFields]

@[simp]
theorem GuardRef.ofJson_toJson (g : GuardRef) : ofJson g.toJson.value = some g := by
  unfold ofJson toJson
  rw [strict_ofFields (by simp)]
  simp [field_ofFields]

@[simp]
theorem Verdict.ofJson_toJson (v : Verdict) : ofJson v.toJson.value = some v := by
  unfold ofJson toJson
  rw [strict_ofFields (by simp), @fieldOr_listField _ _ _ v.ruleIds (by simp),
    @fieldOr_listField _ _ _ v.reasonCodes (by simp)]
  simp [field_ofFields]

@[simp]
theorem ApprovalRef.ofJson_toJson (a : ApprovalRef) : ofJson a.toJson.value = some a := by
  unfold ofJson toJson
  rw [strict_ofFields (by simp)]
  simp [field_ofFields]

@[simp]
theorem Links.ofJson_toJson (l : Links) : ofJson l.toJson.value = some l := by
  unfold ofJson toJson
  rw [strict_ofFields (by simp), @optional_str _ _ _ l.requestRecordId (by simp)]
  rfl

theorem Record.besides_toJson (r : Record) (d : Option Json) :
    besides d r.toJson.value = some { r with actionDetail := d } := by
  have hobj : ∀ {fields : List (String × Option Json)} {h : (fields.map Prod.fst).Nodup},
      (Json.ofFields fields h).value ≠ .null := Value.noConfusion
  have hcommitment := @optional_ofFields _ r.fields (by simp [fields]) "payload_commitment" _ _
    r.payloadCommitment (by simp [fields]) PayloadCommitment.ofJson_toJson fun _ => hobj
  have hpayload := @optional_ofFields _ r.fields (by simp [fields]) "payload_ref" _ _
    r.payloadRef (by simp [fields]) PayloadRef.ofJson_toJson fun _ => hobj
  have hverdict := @optional_ofFields _ r.fields (by simp [fields]) "verdict" _ _
    r.verdict (by simp [fields]) Verdict.ofJson_toJson fun _ => hobj
  have happroval := @optional_ofFields _ r.fields (by simp [fields]) "approval_ref" _ _
    r.approvalRef (by simp [fields]) ApprovalRef.ofJson_toJson fun _ => hobj
  have hlinks := @optional_ofFields _ r.fields (by simp [fields]) "links" _ _
    r.links (by simp [fields]) Links.ofJson_toJson fun _ => hobj
  unfold besides
  rw [toJson, hcommitment, hpayload, hverdict, happroval, hlinks]
  simp [field_ofFields, fields]

/-! ## The order of the members -/

theorem RecorderInfo.stable_ofJson : Stable ofJson :=
  stable_strict <| stable_bind (stable_field stable_str) fun _ =>
    stable_bind (stable_field stable_str) fun _ => stable_bind (stable_field stable_str) fun _ =>
    stable_bind (stable_field stable_str) fun _ => stable_pure _

theorem Subject.stable_ofJson : Stable ofJson :=
  stable_strict <| stable_bind (stable_field stable_str) fun _ =>
    stable_bind (stable_field stable_str) fun _ => stable_bind (stable_optional stable_str) fun _ =>
    stable_bind (stable_field stable_enum) fun _ => stable_bind (stable_field stable_str) fun _ =>
    stable_pure _

theorem Action.stable_ofJson : Stable ofJson :=
  stable_strict <| stable_bind (stable_field stable_str) fun _ =>
    stable_bind (stable_field stable_str) fun _ => stable_bind (stable_field stable_str) fun _ =>
    stable_bind (stable_field stable_str) fun _ =>
    stable_bind (stable_fieldOr (stable_list stable_str)) fun _ => stable_pure _

theorem PayloadCommitment.stable_ofJson : Stable ofJson :=
  stable_strict <| stable_bind (stable_field stable_str) fun _ =>
    stable_bind (stable_field stable_str) fun _ => stable_pure _

theorem PayloadRef.stable_ofJson : Stable ofJson :=
  stable_strict <| stable_bind (stable_field stable_str) fun _ =>
    stable_bind (stable_field stable_str) fun _ => stable_bind (stable_field stable_str) fun _ =>
    stable_pure _

theorem GuardRef.stable_ofJson : Stable ofJson :=
  stable_strict <| stable_bind (stable_field stable_str) fun _ =>
    stable_bind (stable_field stable_str) fun _ => stable_pure _

theorem Verdict.stable_ofJson : Stable ofJson :=
  stable_strict <| stable_bind (stable_field stable_enum) fun _ =>
    stable_bind (stable_field stable_enum) fun _ => stable_bind (stable_field stable_enum) fun _ =>
    stable_bind (stable_field stable_u64) fun _ =>
    stable_bind (stable_fieldOr (stable_list stable_str)) fun _ =>
    stable_bind (stable_fieldOr (stable_list stable_str)) fun _ =>
    stable_bind (stable_field GuardRef.stable_ofJson) fun _ =>
    stable_bind (stable_field stable_u64) fun _ => stable_pure _

theorem ApprovalRef.stable_ofJson : Stable ofJson :=
  stable_strict <| stable_bind (stable_field stable_str) fun _ => stable_pure _

theorem Links.stable_ofJson : Stable ofJson :=
  stable_strict <| stable_bind (stable_optional stable_str) fun _ => stable_pure _

/-- Everything but the detail is read from the canonical form as it was written. -/
theorem Record.stable_besides (d : Option Json) : Stable (besides d) :=
  stable_bind (stable_field stable_str) fun _ => stable_bind (stable_field stable_str) fun _ =>
    stable_bind (stable_field stable_str) fun _ => stable_bind (stable_field stable_str) fun _ =>
    stable_bind (stable_field stable_u64) fun _ => stable_bind (stable_field stable_str) fun _ =>
    stable_bind (stable_field stable_u64) fun _ => stable_bind (stable_field stable_enum) fun _ =>
    stable_bind (stable_field RecorderInfo.stable_ofJson) fun _ =>
    stable_bind (stable_field Subject.stable_ofJson) fun _ =>
    stable_bind (stable_field Action.stable_ofJson) fun _ =>
    stable_bind (stable_optional PayloadCommitment.stable_ofJson) fun _ =>
    stable_bind (stable_optional PayloadRef.stable_ofJson) fun _ =>
    stable_bind (stable_optional Verdict.stable_ofJson) fun _ =>
    stable_bind (stable_optional ApprovalRef.stable_ofJson) fun _ =>
    stable_bind (stable_optional Links.stable_ofJson) fun _ =>
    stable_bind (stable_field stable_str) fun _ => stable_bind (stable_field stable_str) fun _ =>
    stable_pure _

/-! ## The detail -/

/-- A detail and what is read back of it: null is lost, and everything else is in canonical form. -/
inductive ReadBack : Option Json → Option Json → Prop where
  | none : ReadBack none none
  | null {j : Json} (h : j.value = .null) : ReadBack (some j) none
  | canon {j k : Json} (hnull : j.value ≠ .null) (h : Rfc8785.canon j.value = some k.value) :
      ReadBack (some j) (some k)

theorem json_eq (j : Json) : json j.value = some j := dif_pos j.wf

theorem Record.readBack_detail {r : Record} {c : Value} (hc : Rfc8785.canon r.toJson.value = some c) :
    ∃ d, ReadBack r.actionDetail d ∧ Decoder.optional "action_detail" json c = some d := by
  unfold Decoder.optional
  cases hr : r.actionDetail with
  | none =>
    have hget : r.toJson.value.get "action_detail" = none :=
      Json.get_ofFields_none (by simp [fields, hr])
    rw [get_canon_none hc hget]
    exact ⟨none, .none, rfl⟩
  | some j =>
    have hget : r.toJson.value.get "action_detail" = some j.value :=
      get_toJson (by simp [fields, hr])
    obtain ⟨y, hy, hjy⟩ := Rfc8785.get_canon r.toJson.wf hc hget
    rw [hy]
    by_cases hnull : j.value = .null
    · rw [hnull] at hjy
      cases hjy
      exact ⟨none, .null hnull, rfl⟩
    · have hne : y ≠ .null := fun heq => hnull (canon_eq_null.mp (heq ▸ hjy))
      refine ⟨some ⟨y, Rfc8785.wf_canon j.wf hjy⟩, .canon hnull hjy, ?_⟩
      split
      · next heq => cases heq
      · next heq => exact absurd (Option.some.inj heq) hne
      · next heq =>
        rw [← Option.some.inj heq, json_eq ⟨y, _⟩]
        rfl

/-- From the canonical form of a record, everything but the detail is read as it was written. -/
theorem Record.ofJson_canon {r : Record} {c : Value} (hc : Rfc8785.canon r.toJson.value = some c) :
    ∃ d, ReadBack r.actionDetail d ∧ ofJson c = some { r with actionDetail := d } := by
  obtain ⟨d, hd, hread⟩ := readBack_detail hc
  refine ⟨d, hd, (strict_canon_ofFields hc (by simp [fields])).trans ?_⟩
  rw [hread]
  exact stable_besides d _ _ _ r.toJson.wf hc (besides_toJson r d)

/-! ## The hash of what is read -/

/-- Raw records with one canonical form have one hash. -/
theorem hashInput_eq_of_canon {v w : Json} {c : Value} {s t : String}
    (hv : Rfc8785.canon v.value = some c) (hw : Rfc8785.canon w.value = some c)
    (hs : v.value.get "record_hash" = some (.string s))
    (ht : w.value.get "record_hash" = some (.string t)) : hashInput v = hashInput w := by
  let j : Json := ⟨c, Rfc8785.wf_canon v.wf hv⟩
  obtain ⟨a, ha⟩ := (exists_hashInput_iff hs).mpr (Rfc8785.exists_canon_iff.mp ⟨c, hv⟩)
  obtain ⟨b, hb⟩ := (exists_hashInput_iff ht).mpr (Rfc8785.exists_canon_iff.mp ⟨c, hw⟩)
  have hja : hashInput j = .ok a := hashInput_canon hv hs ha
  have hjb : hashInput j = .ok b := hashInput_canon hw ht hb
  rw [ha, hb, ← hja, hjb]

theorem forall₂_replace {α β : Type} {R : α → β → Prop} {x y : α} {as bs : List α} {cs : List β}
    (hxy : ∀ c, R x c → R y c) (h : List.Forall₂ R (as ++ x :: bs) cs) :
    List.Forall₂ R (as ++ y :: bs) cs := by
  induction as generalizing cs with
  | nil =>
    obtain ⟨c, cs, hxc, hs, rfl⟩ := List.forall₂_cons_left_iff.mp h
    exact .cons (hxy c hxc) hs
  | cons a as ih =>
    obtain ⟨c, cs, hac, hs, rfl⟩ := List.forall₂_cons_left_iff.mp h
    exact .cons hac (ih hs)

namespace Record

variable {r : Record} {j k : Json}

theorem fields_detail (r : Record) :
    ∃ as bs, ∀ d, { r with actionDetail := d }.fields = as ++ ("action_detail", d) :: bs :=
  ⟨r.fields.take 11, r.fields.drop 12, fun _ => rfl⟩

/-- A detail in canonical form leaves the record its canonical form. -/
theorem canon_setDetail {c : Value} (hr : r.actionDetail = some j)
    (hk : Rfc8785.canon j.value = some k.value) (hc : Rfc8785.canon r.toJson.value = some c) :
    Rfc8785.canon { r with actionDetail := some k }.toJson.value = some c := by
  obtain ⟨as, bs, hfields⟩ := r.fields_detail
  have hmembers : ∀ i : Json, Json.members { r with actionDetail := some i }.fields =
      Json.members as ++ ("action_detail", i.value) :: Json.members bs := by
    intro i
    rw [hfields, Json.members_append]
    rfl
  obtain ⟨ns, hns, rfl⟩ := Rfc8785.canon_object.mp hc
  refine Rfc8785.canon_object.mpr ⟨ns, ?_, rfl⟩
  have hself : { r with actionDetail := some j } = r := by rw [← hr]
  rw [← hself, hmembers] at hns
  rw [hmembers]
  refine forall₂_replace ?_ hns
  rintro n ⟨hname, hn⟩
  refine ⟨hname, ?_⟩
  rw [← Option.some.inj (hk.symm.trans hn)]
  exact Rfc8785.canon_canon j.wf hk

/-- Without its detail, another record. -/
theorem hashInput_dropDetail (hr : r.actionDetail = some j) {b : Bytes}
    (hb : hashInput r.toJson = .ok b) :
    ∃ b', hashInput { r with actionDetail := none }.toJson = .ok b' ∧ b ≠ b' := by
  have hsafe := (exists_hashInput_iff r.view_of.get_recordHash).mp ⟨b, hb⟩
  have hless : ∀ n ∈ { r with actionDetail := none }.toJson.value.numbers, n.IsSafe := by
    intro n hn
    refine hsafe n (mem_numbers_toJson.mpr ?_)
    rcases mem_numbers_toJson.mp hn with h | h | ⟨i, ⟨⟩, -⟩ | h
    exacts [.inl h, .inr (.inl h), .inr (.inr (.inr h))]
  obtain ⟨b', hb'⟩ := (exists_hashInput_iff (view_of _).get_recordHash).mpr hless
  refine ⟨b', hb', ?_⟩
  rintro rfl
  have hget : r.toJson.value.get "action_detail" = some j.value := get_toJson (by simp [fields, hr])
  obtain ⟨y, hy, -⟩ := get_of_hashInput_eq hb hb' (by decide) hget
  have hnone : { r with actionDetail := none }.toJson.value.get "action_detail" = none :=
    Json.get_ofFields_none (by simp [fields])
  rw [hnone] at hy
  cases hy

end Record

/-! ## How deep a record is nested -/

theorem depth_ofFields_le {fields : List (String × Option Json)} {h : (fields.map Prod.fst).Nodup}
    {d : Nat} : (Json.ofFields fields h).value.depth ≤ d + 1 ↔
      ∀ f ∈ fields, ∀ j, f.2 = some j → j.value.depth ≤ d := by
  change Value.depthMembers (Json.members fields) + 1 ≤ d + 1 ↔ _
  rw [Nat.add_le_add_iff_right, Value.depthMembers_le]
  constructor
  · intro hm f hf j hj
    refine hm (f.1, j.value) (List.mem_filterMap.mpr ⟨f, hf, ?_⟩)
    rw [hj, Option.map_some]
  · intro hf m hm
    obtain ⟨f, hf', hfm⟩ := List.mem_filterMap.mp hm
    obtain ⟨j, hj, rfl⟩ := Option.map_eq_some_iff.mp hfm
    exact hf f hf' j hj

/-- A list of strings is one level. -/
theorem depth_listField {xs : List String} {j : Json} (h : listField xs = some j) :
    j.value.depth ≤ 1 := by
  unfold listField at h
  split_ifs at h
  obtain rfl := Option.some.inj h
  refine Nat.succ_le_succ (Value.depthItems_le.mpr fun x hx => ?_)
  obtain ⟨_, hs, rfl⟩ := List.mem_map.mp hx
  obtain ⟨s, -, rfl⟩ := List.mem_map.mp hs
  exact Nat.le_refl 0

theorem depth_str (s : String) : (Json.str s).value.depth = 0 := rfl

theorem depth_u64 (n : UInt64) : (Json.u64 n).value.depth = 0 := rfl

theorem RecorderInfo.depth_toJson (r : RecorderInfo) : r.toJson.value.depth ≤ 1 :=
  depth_ofFields_le.mpr (by simp [depth_str])

theorem Subject.depth_toJson (s : Subject) : s.toJson.value.depth ≤ 1 :=
  depth_ofFields_le.mpr (by simp [depth_str])

theorem Action.depth_toJson (a : Action) : a.toJson.value.depth ≤ 2 :=
  depth_ofFields_le.mpr (by
    simp only [List.forall_mem_cons, Option.some.injEq, forall_eq', depth_str, Nat.zero_le, true_and]
    exact ⟨fun _ hj => depth_listField hj, List.forall_mem_nil _⟩)

theorem PayloadCommitment.depth_toJson (p : PayloadCommitment) : p.toJson.value.depth ≤ 1 :=
  depth_ofFields_le.mpr (by simp [depth_str])

theorem PayloadRef.depth_toJson (p : PayloadRef) : p.toJson.value.depth ≤ 1 :=
  depth_ofFields_le.mpr (by simp [depth_str])

theorem GuardRef.depth_toJson (g : GuardRef) : g.toJson.value.depth ≤ 1 :=
  depth_ofFields_le.mpr (by simp [depth_str])

theorem Verdict.depth_toJson (v : Verdict) : v.toJson.value.depth ≤ 2 :=
  depth_ofFields_le.mpr (by
    simp only [List.forall_mem_cons, Option.some.injEq, forall_eq', depth_str, depth_u64,
      Nat.zero_le, true_and]
    exact ⟨fun _ hj => depth_listField hj, fun _ hj => depth_listField hj, v.guard.depth_toJson,
      List.forall_mem_nil _⟩)

theorem ApprovalRef.depth_toJson (a : ApprovalRef) : a.toJson.value.depth ≤ 1 :=
  depth_ofFields_le.mpr (by simp [depth_str])

theorem Links.depth_toJson (l : Links) : l.toJson.value.depth ≤ 1 :=
  depth_ofFields_le.mpr (by simp [depth_str])

/-- Only the detail of a record can be nested deeply. -/
theorem Record.depth_toJson_le {r : Record} {d : Nat} (hd : 2 ≤ d) :
    r.toJson.value.depth ≤ d + 1 ↔ ∀ j, r.actionDetail = some j → j.value.depth ≤ d := by
  have hone : 1 ≤ d := Nat.le_of_succ_le hd
  refine depth_ofFields_le.trans ?_
  simp only [fields, List.forall_mem_cons, Option.some.injEq, forall_eq', Option.map_eq_some_iff,
    forall_exists_index, and_imp, forall_apply_eq_imp_iff₂, depth_str, depth_u64, Nat.zero_le,
    true_and]
  constructor
  · rintro ⟨-, -, -, h, -⟩
    exact h
  · intro h
    exact ⟨r.recorder.depth_toJson.trans hone, r.subject.depth_toJson.trans hone,
      r.action.depth_toJson.trans hd, h, fun p _ => p.depth_toJson.trans hone,
      fun p _ => p.depth_toJson.trans hone, fun v _ => v.depth_toJson.trans hd,
      fun a _ => a.depth_toJson.trans hone, fun l _ => l.depth_toJson.trans hone,
      List.forall_mem_nil _⟩

/-! ## The line -/

section Line

variable {E : Externals} {r : Record} {line : Bytes}

/-- A record that is not nested too deeply is read back up to its detail. -/
theorem fromSlice_line {limit : Nat} (hE : E.ReadsNested limit) (hline : r.toNdjsonLine = .ok line)
    (hdepth : r.toJson.value.depth ≤ limit) :
    ∃ d, ReadBack r.actionDetail d ∧
      Record.fromSlice E line = some { r with actionDetail := d } := by
  obtain ⟨b, hb, rfl⟩ := Record.toNdjsonLine_eq_ok.mp hline
  obtain ⟨c, hc, rfl⟩ := toJcsBytes_eq_ok.mp hb
  obtain ⟨d, hd, hread⟩ := Record.ofJson_canon hc
  refine ⟨d, hd, ?_⟩
  have hslice := hE.reads ⟨c, Rfc8785.wf_canon r.toJson.wf hc⟩
    (Rfc8785.canon_canon r.toJson.wf hc) ((Rfc8785.depth_canon hc).trans_le hdepth)
  unfold Record.fromSlice
  rw [hslice]
  exact hread

theorem fromSlice_line_deep {limit : Nat} (hE : E.ReadsNested limit)
    (hline : r.toNdjsonLine = .ok line) (hdepth : limit < r.toJson.value.depth) :
    Record.fromSlice E line = none := by
  obtain ⟨b, hb, rfl⟩ := Record.toNdjsonLine_eq_ok.mp hline
  obtain ⟨c, hc, rfl⟩ := toJcsBytes_eq_ok.mp hb
  obtain ⟨e, he⟩ := hE.refuses ⟨c, Rfc8785.wf_canon r.toJson.wf hc⟩
    (Rfc8785.canon_canon r.toJson.wf hc) (hdepth.trans_eq (Rfc8785.depth_canon hc).symm)
  unfold Record.fromSlice
  rw [he]
  rfl

/-- What is read back of a record has its hash, unless a null was lost. -/
theorem computeHash_readBack (hline : r.toNdjsonLine = .ok line) {h : String}
    (hh : r.computeHash E = .ok h) {d : Option Json} (hd : ReadBack r.actionDetail d) :
    Record.computeHash E { r with actionDetail := d } = .ok h ↔
      ∀ j, r.actionDetail = some j → j.value = .null →
        Collides E.blake3 [inputOf r.toJson]
          [inputOf { r with actionDetail := none }.toJson] := by
  obtain ⟨b, hb, rfl⟩ := computeHashOfValue_eq_ok.mp hh
  generalize hr : r.actionDetail = o at hd
  cases hd with
  | none =>
    have hself : { r with actionDetail := none } = r := by rw [← hr]
    rw [hself]
    exact iff_of_true hh (by simp)
  | @null j hnull =>
    obtain ⟨b', hb', hne⟩ := Record.hashInput_dropDetail hr hb
    have hx : inputOf r.toJson = b := by rw [inputOf, hb]; rfl
    have hy : inputOf { r with actionDetail := none }.toJson = b' := by rw [inputOf, hb']; rfl
    rw [hx, hy]
    constructor
    · intro hdrop j' _ _
      obtain ⟨b'', hb'', heq⟩ := computeHashOfValue_eq_ok.mp hdrop
      obtain rfl : b' = b'' := Except.ok.inj (hb'.symm.trans hb'')
      exact ⟨b, List.mem_singleton_self b, b', List.mem_singleton_self b', hne,
        blake3Hex_inj.mp heq⟩
    · intro hcol
      obtain ⟨x, hx, y, hy, -, heq⟩ := hcol j rfl hnull
      rw [List.mem_singleton.mp hx, List.mem_singleton.mp hy] at heq
      exact computeHashOfValue_eq_ok.mpr ⟨b', hb', blake3Hex_inj.mpr heq⟩
  | @canon j k hnull hk =>
    obtain ⟨_, hb', -⟩ := Record.toNdjsonLine_eq_ok.mp hline
    obtain ⟨c, hc, -⟩ := toJcsBytes_eq_ok.mp hb'
    have hsame := hashInput_eq_of_canon hc (Record.canon_setDetail hr hk hc)
      r.view_of.get_recordHash (Record.view_of _).get_recordHash
    refine iff_of_true (computeHashOfValue_eq_ok.mpr ⟨b, hsame ▸ hb, rfl⟩) ?_
    rintro i ⟨⟩ hi
    exact absurd hi hnull

/-- **A finalized record survives the spool exactly when its detail is nested within the limit of
the reader and is not null**: a null is lost, so the hash is another one unless the record with the
null and the record without it collide. -/
theorem spool_round_trip_iff (hE : E.ReadsNested 127) {final : Record}
    (hfinal : r.finalize E = .ok final) (hline : final.toNdjsonLine = .ok line) :
    (∃ parsed, Record.fromSlice E line = some parsed ∧
        parsed.computeHash E = .ok final.recordHash) ↔
      ∀ j, r.actionDetail = some j → j.value.depth ≤ 126 ∧
        (j.value = .null → Collides E.blake3 [inputOf final.toJson]
          [inputOf { final with actionDetail := none }.toJson]) := by
  obtain ⟨hhash, hself⟩ := Record.finalize_eq_ok hfinal
  have hsame : final.actionDetail = r.actionDetail := by rw [hself]
  rw [← hsame]
  by_cases hdepth : final.toJson.value.depth ≤ 126 + 1
  · have hdetail := (Record.depth_toJson_le (by decide)).mp hdepth
    obtain ⟨d, hd, hread⟩ := fromSlice_line hE hline hdepth
    have hiff := computeHash_readBack hline hhash hd
    constructor
    · rintro ⟨parsed, hparsed, hcomp⟩ j hj
      obtain rfl := Option.some.inj (hread.symm.trans hparsed)
      exact ⟨hdetail j hj, hiff.mp hcomp j hj⟩
    · intro hall
      exact ⟨_, hread, hiff.mpr fun j hj => (hall j hj).2⟩
  · rw [fromSlice_line_deep hE hline (Nat.not_le.mp hdepth)]
    refine iff_of_false (by simp) fun hall => ?_
    exact hdepth ((Record.depth_toJson_le (by decide)).mpr fun j hj => (hall j hj).1)

end Line

/-! Record 0 with a detail, and with a detail that is null. -/

namespace Sample

def annotated : Record := { opened with
  actionDetail := some ⟨.object [("rows", .number (.float ⟨false, 1023, 0⟩)), ("limit", .null)],
    by decide⟩
  recordHash := "613b0d185707f1d600f8f03dfeedfeed818c937532a4ba6ec6570fe200a913f2" }

def nulled : Record := { opened with
  actionDetail := some ⟨.null, rfl⟩
  recordHash := "925aae4b09a0ab572df3018894a744e67d3b06a60b9e03f3d044f4ddb685d691" }

def spooling : Externals.Recording := { recording with
  blake3 := [
    ((hashInput annotated.toJson).toOption.getD [], ofHex annotated.recordHash),
    ((hashInput nulled.toJson).toOption.getD [], ofHex nulled.recordHash)] ++ recording.blake3 }

def spool : Externals := .limited 127 spooling

theorem finalize_annotated :
    { annotated with recordHash := "" }.finalize spool = .ok annotated := by
  have hhash : { annotated with recordHash := "" }.computeHash spool = .ok annotated.recordHash := by
    decide +kernel
  rw [Record.finalize, hhash]
  rfl

theorem finalize_nulled : { nulled with recordHash := "" }.finalize spool = .ok nulled := by
  have hhash : { nulled with recordHash := "" }.computeHash spool = .ok nulled.recordHash := by
    decide +kernel
  rw [Record.finalize, hhash]
  rfl

theorem exists_line (r : Record) (h : (toJcsBytes r.toJson).isOk = true) :
    ∃ line, r.toNdjsonLine = .ok line := by
  cases hb : toJcsBytes r.toJson with
  | ok b => exact ⟨_, Record.toNdjsonLine_eq_ok.mpr ⟨b, hb, rfl⟩⟩
  | error e =>
    rw [hb] at h
    cases h

end Sample

open Sample in
theorem spool_round_trip_iff_annotated : ∃ line, annotated.toNdjsonLine = .ok line ∧
    ∃ parsed, Record.fromSlice spool line = some parsed ∧
      parsed.computeHash spool = .ok annotated.recordHash := by
  obtain ⟨line, hline⟩ := exists_line annotated (by decide +kernel)
  refine ⟨line, hline, (spool_round_trip_iff (Externals.readsNested_limited 127 spooling)
    finalize_annotated hline).mpr ?_⟩
  rintro j ⟨⟩
  exact ⟨by decide, Value.noConfusion⟩

open Sample in
/-- With a detail that is null, what is read back has the hash of the record without it. -/
theorem null_detail_lost : ¬∀ (E : Externals) (r final : Record) (line : Bytes),
    E.ReadsNested 127 → r.finalize E = .ok final → final.toNdjsonLine = .ok line →
      ∃ parsed, Record.fromSlice E line = some parsed ∧
        parsed.computeHash E = .ok final.recordHash := by
  intro hall
  have hE := Externals.readsNested_limited 127 spooling
  obtain ⟨line, hline⟩ := exists_line nulled (by decide +kernel)
  obtain ⟨parsed, hparsed, hhash⟩ := hall _ _ _ line hE finalize_nulled hline
  have hdepth : nulled.toJson.value.depth ≤ 126 + 1 :=
    (Record.depth_toJson_le (by decide)).mpr (by rintro j ⟨⟩; decide)
  obtain ⟨d, hd, hread⟩ := fromSlice_line hE hline hdepth
  obtain rfl := Option.some.inj (hread.symm.trans hparsed)
  cases hd with
  | null _ =>
    have hopened : { nulled with actionDetail := none }.computeHash spool =
        .ok opened.recordHash := by
      decide +kernel
    have heq : nulled.recordHash = opened.recordHash :=
      Except.ok.inj (hhash.symm.trans hopened)
    exact absurd heq (by decide)
  | canon hnull _ => exact hnull rfl

end Sealr.Evidence
