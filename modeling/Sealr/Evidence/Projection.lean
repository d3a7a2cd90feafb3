import Sealr.Evidence.Record

/-!
# The Console projection

`ConsoleSafeRecord` is the record that may leave the customer's side: it has no field for
`action_detail` or `payload_ref`, and strings that were recorded are sanitized and capped. The hash
fields are carried over.
-/

namespace Sealr.Evidence

open Lib

def MAX_PROJECTED_STRING : Nat := 512

def MAX_PROJECTED_LABELS : Nat := 32

/-! ## Sanitized strings -/

/-- `char::is_control`, the general category Cc. -/
def isControl (c : Char) : Bool := c.toNat < 0x20 || (0x7f ≤ c.toNat && c.toNat < 0xa0)

/-- The loop of `sanitize`: what was pushed so far, and the characters to come. -/
def sanitizeFrom (maxLen : Nat) (out : List Char) : List Char → List Char
  | [] => out
  | c :: cs =>
    if maxLen ≤ (utf8 out).length then out ++ ['…']
    else if isControl c then sanitizeFrom maxLen out cs
    else sanitizeFrom maxLen (out ++ [c]) cs

def sanitize (s : String) (maxLen : Nat) : String :=
  String.ofList (sanitizeFrom maxLen [] s.toList)

/-- A text that is projected as it is: it has no control character, and what follows the cap, if
anything, is one ellipsis. -/
def Projectable (maxLen : Nat) (cs : List Char) : Prop :=
  (∀ c ∈ cs, isControl c = false) ∧
    ∀ pre rest, cs = pre ++ rest → maxLen ≤ (utf8 pre).length → rest = [] ∨ rest = ['…']

/-- At most one character is pushed for each that is read. -/
theorem length_sanitizeFrom_le (maxLen : Nat) (out cs : List Char) :
    (sanitizeFrom maxLen out cs).length ≤ out.length + cs.length := by
  induction cs generalizing out with
  | nil => exact Nat.le_refl out.length
  | cons c cs ih =>
    rw [sanitizeFrom]
    split_ifs with hcap hcontrol
    · simp
    · have := ih out
      simp only [List.length_cons]
      omega
    · have := ih (out ++ [c])
      simp only [List.length_append, List.length_cons, List.length_nil] at this ⊢
      omega

theorem isControl_ellipsis : ∀ c ∈ ['…'], isControl c = false :=
  List.forall_mem_singleton.mpr rfl

/-- When the loop pushes what it reads, to the end. -/
theorem sanitizeFrom_eq_append_iff {maxLen : Nat} {out cs : List Char} :
    sanitizeFrom maxLen out cs = out ++ cs ↔
      (∀ c ∈ cs, isControl c = false) ∧
        ∀ pre rest, cs = pre ++ rest → maxLen ≤ (utf8 (out ++ pre)).length →
          rest = [] ∨ rest = ['…'] := by
  induction cs generalizing out with
  | nil => simp [sanitizeFrom]
  | cons c cs ih =>
    rw [sanitizeFrom]
    by_cases hcap : maxLen ≤ (utf8 out).length
    · rw [if_pos hcap, List.append_cancel_left_eq]
      constructor
      · intro h
        rw [← h]
        refine ⟨isControl_ellipsis, ?_⟩
        intro pre rest hsplit _
        cases pre with
        | nil => exact .inr hsplit.symm
        | cons d pre =>
          left
          simp only [List.cons_append, List.cons.injEq, List.nil_eq, List.append_eq_nil_iff] at hsplit
          exact hsplit.2.2
      · intro h
        obtain hnil | hone := h.2 [] (c :: cs) rfl (by simpa using hcap)
        · cases hnil
        · exact hone.symm
    · rw [if_neg hcap]
      by_cases hcontrol : isControl c = true
      · rw [if_pos hcontrol]
        constructor
        · -- the character is dropped for good
          intro h
          have hlen := length_sanitizeFrom_le maxLen out cs
          rw [h] at hlen
          simp only [List.length_append, List.length_cons] at hlen
          omega
        · intro h
          rw [h.1 c List.mem_cons_self] at hcontrol
          cases hcontrol
      · have hsplit : out ++ c :: cs = (out ++ [c]) ++ cs := by simp
        rw [if_neg hcontrol, hsplit, ih, List.forall_mem_cons]
        have hc : isControl c = false := by simpa using hcontrol
        constructor
        · intro h
          refine ⟨⟨hc, h.1⟩, ?_⟩
          intro pre rest heq hlen
          cases pre with
          | nil =>
            rw [List.append_nil] at hlen
            exact absurd hlen hcap
          | cons d pre =>
            obtain ⟨rfl, htail⟩ := List.cons.inj heq
            apply h.2 pre rest htail
            simpa using hlen
        · intro h
          refine ⟨h.1.2, ?_⟩
          intro pre rest heq hlen
          apply h.2 (c :: pre) rest
          · rw [heq]
            rfl
          · simpa using hlen

theorem sanitize_eq_self_iff {s : String} {maxLen : Nat} :
    sanitize s maxLen = s ↔ Projectable maxLen s.toList := by
  have h := @sanitizeFrom_eq_append_iff maxLen [] s.toList
  simp only [List.nil_append] at h
  unfold Projectable
  rw [← h, sanitize]
  constructor
  · intro heq
    have := congrArg String.toList heq
    rwa [String.toList_ofList] at this
  · intro heq
    rw [heq, String.ofList_toList]

/-! ## The projection -/

structure ConsoleSafeRecord where
  schemaVersion : String
  recordId : String
  streamId : String
  segmentId : String
  seq : UInt64
  tsWall : String
  tsMonoNs : UInt64
  recordType : RecordType
  recorder : RecorderInfo
  subject : Subject
  action : Action
  payloadCommitment : Option PayloadCommitment
  verdict : Option Verdict
  approvalRef : Option ApprovalRef
  links : Option Links
  prevHash : String
  recordHash : String

namespace ConsoleSafeRecord

/-- `From<&Record>`. -/
def fromRecord (r : Record) : ConsoleSafeRecord :=
  let s := fun v => sanitize v MAX_PROJECTED_STRING
  { schemaVersion := r.schemaVersion
    recordId := r.recordId
    streamId := r.streamId
    segmentId := r.segmentId
    seq := r.seq
    tsWall := r.tsWall
    tsMonoNs := r.tsMonoNs
    recordType := r.recordType
    recorder := {
      recorderId := s r.recorder.recorderId
      version := s r.recorder.version
      hostFingerprint := s r.recorder.hostFingerprint
      platform := s r.recorder.platform }
    subject := {
      agentKind := s r.subject.agentKind
      agentSession := s r.subject.agentSession
      humanPrincipal := r.subject.humanPrincipal.map s
      attribution := r.subject.attribution
      source := s r.subject.source }
    action := {
      integration := s r.action.integration
      operation := s r.action.operation
      verbClass := s r.action.verbClass
      targetResource := s r.action.targetResource
      resourceLabels := (r.action.resourceLabels.take MAX_PROJECTED_LABELS).map s }
    payloadCommitment := r.payloadCommitment
    verdict := r.verdict
    approvalRef := r.approvalRef
    links := r.links
    prevHash := r.prevHash
    recordHash := r.recordHash }

def toJson (p : ConsoleSafeRecord) : Json :=
  .ofFields [("schema_version", some (.str p.schemaVersion)), ("record_id", some (.str p.recordId)),
    ("stream_id", some (.str p.streamId)), ("segment_id", some (.str p.segmentId)),
    ("seq", some (.u64 p.seq)), ("ts_wall", some (.str p.tsWall)),
    ("ts_mono_ns", some (.u64 p.tsMonoNs)), ("record_type", some (.str p.recordType.name)),
    ("recorder", some p.recorder.toJson), ("subject", some p.subject.toJson),
    ("action", some p.action.toJson),
    ("payload_commitment", p.payloadCommitment.map (·.toJson)),
    ("verdict", p.verdict.map (·.toJson)), ("approval_ref", p.approvalRef.map (·.toJson)),
    ("links", p.links.map (·.toJson)), ("prev_hash", some (.str p.prevHash)),
    ("record_hash", some (.str p.recordHash))] (by simp)

end ConsoleSafeRecord

/-! ## What is left of a record -/

namespace Record

/-- A record with only what is projected of it. -/
def redacted (r : Record) : Record :=
  let p := ConsoleSafeRecord.fromRecord r
  { r with
    recorder := p.recorder
    subject := p.subject
    action := p.action
    actionDetail := none
    payloadRef := none }

/-- A projection is written as the record with what is left of it. -/
theorem toJson_projection (r : Record) :
    (ConsoleSafeRecord.fromRecord r).toJson = r.redacted.toJson := rfl

/-- The strings that are sanitized. -/
def projectedStrings (r : Record) : List String :=
  [r.recorder.recorderId, r.recorder.version, r.recorder.hostFingerprint, r.recorder.platform,
    r.subject.agentKind, r.subject.agentSession, r.subject.source, r.action.integration,
    r.action.operation, r.action.verbClass, r.action.targetResource] ++
    r.subject.humanPrincipal.toList ++ r.action.resourceLabels

/-- A record of which nothing is lost: it has neither detail nor reference, its labels fit, and its
strings need no sanitizing. -/
structure Plain (r : Record) : Prop where
  actionDetail : r.actionDetail = none
  payloadRef : r.payloadRef = none
  labels : r.action.resourceLabels.length ≤ MAX_PROJECTED_LABELS
  strings : ∀ s ∈ r.projectedStrings, Projectable MAX_PROJECTED_STRING s.toList

theorem Plain.redacted_eq {r : Record} (h : r.Plain) : r.redacted = r := by
  have hstr : ∀ s ∈ r.projectedStrings, sanitize s MAX_PROJECTED_STRING = s :=
    fun s hs => sanitize_eq_self_iff.mpr (h.strings s hs)
  obtain ⟨hdetail, href, hlabels, -⟩ := h
  obtain ⟨_, _, _, _, _, _, _, _, ⟨_, _, _, _⟩, ⟨_, _, principal, _, _⟩, ⟨_, _, _, _, labels⟩, _, _, _,
    _, _, _, _, _⟩ := r
  simp only [projectedStrings, List.cons_append, List.nil_append, List.forall_mem_cons,
    List.forall_mem_append, Option.mem_toList] at hstr hdetail href hlabels
  obtain ⟨h1, h2, h3, h4, h5, h6, h7, h8, h9, h10, h11, hprincipal, hlabel⟩ := hstr
  have hmap : labels.map (fun l => sanitize l MAX_PROJECTED_STRING) = labels := by
    rw [List.map_congr_left hlabel, List.map_id']
  have hoption : principal.map (fun l => sanitize l MAX_PROJECTED_STRING) = principal := by
    cases principal with
    | none => rfl
    | some p => rw [Option.map_some, hprincipal p rfl]
  simp only [redacted, ConsoleSafeRecord.fromRecord, h1, h2, h3, h4, h5, h6, h7, h8, h9, h10, h11,
    hoption, List.take_of_length_le hlabels, hmap, hdetail, href]

theorem plain_of_redacted_eq {r : Record} (h : r.redacted = r) : r.Plain := by
  have hlabels : (r.action.resourceLabels.take MAX_PROJECTED_LABELS).map
      (fun l => sanitize l MAX_PROJECTED_STRING) = r.action.resourceLabels :=
    congrArg (fun r => r.action.resourceLabels) h
  have hfit : r.action.resourceLabels.length ≤ MAX_PROJECTED_LABELS := by
    rw [← hlabels, List.length_map]
    exact List.length_take_le MAX_PROJECTED_LABELS _
  refine ⟨(congrArg actionDetail h).symm, (congrArg payloadRef h).symm, hfit, ?_⟩
  intro s hs
  apply sanitize_eq_self_iff.mp
  simp only [projectedStrings, List.cons_append, List.nil_append, List.mem_cons, List.mem_append,
    Option.mem_toList] at hs
  obtain rfl | rfl | rfl | rfl | rfl | rfl | rfl | rfl | rfl | rfl | rfl | hs | hs := hs
  · exact congrArg (fun r => r.recorder.recorderId) h
  · exact congrArg (fun r => r.recorder.version) h
  · exact congrArg (fun r => r.recorder.hostFingerprint) h
  · exact congrArg (fun r => r.recorder.platform) h
  · exact congrArg (fun r => r.subject.agentKind) h
  · exact congrArg (fun r => r.subject.agentSession) h
  · exact congrArg (fun r => r.subject.source) h
  · exact congrArg (fun r => r.action.integration) h
  · exact congrArg (fun r => r.action.operation) h
  · exact congrArg (fun r => r.action.verbClass) h
  · exact congrArg (fun r => r.action.targetResource) h
  · have hprincipal : r.subject.humanPrincipal.map (fun l => sanitize l MAX_PROJECTED_STRING) =
        r.subject.humanPrincipal := congrArg (fun r => r.subject.humanPrincipal) h
    rw [hs] at hprincipal
    exact Option.some.inj hprincipal
  · rw [List.take_of_length_le hfit] at hlabels
    exact List.map_inj_left.mp (hlabels.trans (List.map_id _).symm) s hs

end Record

end Sealr.Evidence
