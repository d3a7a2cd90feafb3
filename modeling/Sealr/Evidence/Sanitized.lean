import Sealr.Evidence.Agreement
import Sealr.Evidence.Projection

/-!
# The strings of a projection

A string that was sanitized holds no control character and at most one character more than the cap.
The strings that a projection clones are as they were recorded, so what crosses the boundary is
clean exactly when these are.
-/

namespace Sealr.Evidence

open Lib

/-! ## Strings, wherever they stand -/

def RecorderInfo.strings (r : RecorderInfo) : List String :=
  [r.recorderId, r.version, r.hostFingerprint, r.platform]

def Subject.strings (s : Subject) : List String :=
  [s.agentKind, s.agentSession, s.source] ++ s.humanPrincipal.toList

def Action.strings (a : Action) : List String :=
  [a.integration, a.operation, a.verbClass, a.targetResource] ++ a.resourceLabels

def PayloadCommitment.strings (p : PayloadCommitment) : List String := [p.alg, p.commitment]

def Verdict.strings (v : Verdict) : List String :=
  v.ruleIds ++ v.reasonCodes ++ [v.guard.name, v.guard.version]

def ApprovalRef.strings (a : ApprovalRef) : List String := [a.approvalRecordId]

def Links.strings (l : Links) : List String := l.requestRecordId.toList

/-- The strings of a projection that `from` sanitizes. -/
def ConsoleSafeRecord.sanitizedStrings (p : ConsoleSafeRecord) : List String :=
  p.recorder.strings ++ p.subject.strings ++ p.action.strings

/-- The strings of a record that `from` clones. -/
def Record.clonedStrings (r : Record) : List String :=
  [r.schemaVersion, r.recordId, r.streamId, r.segmentId, r.tsWall, r.prevHash, r.recordHash] ++
    r.payloadCommitment.elim [] (·.strings) ++ r.verdict.elim [] (·.strings) ++
    r.approvalRef.elim [] (·.strings) ++ r.links.elim [] (·.strings)

/-- Every string of a projection. -/
def ConsoleSafeRecord.strings (p : ConsoleSafeRecord) : List String :=
  [p.schemaVersion, p.recordId, p.streamId, p.segmentId, p.tsWall, p.prevHash, p.recordHash] ++
    p.payloadCommitment.elim [] (·.strings) ++ p.verdict.elim [] (·.strings) ++
    p.approvalRef.elim [] (·.strings) ++ p.links.elim [] (·.strings) ++ p.sanitizedStrings

/-- No control character, and at most the cap and an ellipsis. -/
structure Clean (s : String) : Prop where
  plain : ∀ c ∈ s.toList, isControl c = false
  short : s.toList.length ≤ MAX_PROJECTED_STRING + 1

/-! ## What `sanitize` leaves -/

theorem length_le_utf8 (cs : List Char) : cs.length ≤ (utf8 cs).length := by
  induction cs with
  | nil => exact Nat.le_refl 0
  | cons c cs ih =>
    have hpos := String.length_utf8EncodeChar c
    have hsize := c.utf8Size_pos
    rw [utf8_cons, List.length_append, List.length_cons]
    omega

/-- The loop keeps control characters out, and pushes a character only below the cap. -/
theorem sanitizeFrom_clean {maxLen : Nat} {out : List Char} (cs : List Char)
    (hplain : ∀ c ∈ out, isControl c = false) (hshort : out.length ≤ maxLen) :
    (∀ c ∈ sanitizeFrom maxLen out cs, isControl c = false) ∧
      (sanitizeFrom maxLen out cs).length ≤ maxLen + 1 := by
  induction cs generalizing out with
  | nil => exact ⟨hplain, Nat.le_succ_of_le hshort⟩
  | cons c cs ih =>
    rw [sanitizeFrom]
    split_ifs with hcap hcontrol
    · constructor
      · rw [List.forall_mem_append]
        exact ⟨hplain, isControl_ellipsis⟩
      · simpa using hshort
    · exact ih hplain hshort
    · apply ih
      · rw [List.forall_mem_append]
        exact ⟨hplain, by simpa using hcontrol⟩
      · have hbytes := length_le_utf8 out
        rw [List.length_append, List.length_singleton]
        omega

theorem sanitize_clean (s : String) : Clean (sanitize s MAX_PROJECTED_STRING) := by
  obtain ⟨hplain, hshort⟩ :=
    @sanitizeFrom_clean MAX_PROJECTED_STRING [] s.toList (by simp) (Nat.zero_le _)
  constructor
  · rw [sanitize, String.toList_ofList]
    exact hplain
  · rw [sanitize, String.toList_ofList]
    exact hshort

/-- What `from` sanitizes. -/
theorem exists_sanitizedStrings_eq (r : Record) : ∃ vs : List String,
    (ConsoleSafeRecord.fromRecord r).sanitizedStrings =
      vs.map fun v => sanitize v MAX_PROJECTED_STRING := by
  refine ⟨r.recorder.strings ++ r.subject.strings ++
    { r.action with resourceLabels := r.action.resourceLabels.take MAX_PROJECTED_LABELS }.strings, ?_⟩
  have htoList : ∀ o : Option String, (o.map fun v => sanitize v MAX_PROJECTED_STRING).toList =
      o.toList.map fun v => sanitize v MAX_PROJECTED_STRING := by
    intro o
    cases o <;> rfl
  simp only [ConsoleSafeRecord.sanitizedStrings, RecorderInfo.strings, Subject.strings,
    Action.strings, ConsoleSafeRecord.fromRecord, htoList, List.map_append, List.map_cons,
    List.map_nil]

theorem sanitizedStrings_clean (r : Record) :
    ∀ s ∈ (ConsoleSafeRecord.fromRecord r).sanitizedStrings, Clean s := by
  intro s hs
  obtain ⟨vs, hvs⟩ := exists_sanitizedStrings_eq r
  rw [hvs] at hs
  obtain ⟨v, -, rfl⟩ := List.mem_map.mp hs
  exact sanitize_clean v

/-- **When everything projected is sanitized**: every string of a projection is free of control
characters and capped exactly when the strings that are cloned were recorded so. -/
theorem projection_clean_iff (r : Record) :
    (∀ s ∈ (ConsoleSafeRecord.fromRecord r).strings, Clean s) ↔ ∀ s ∈ r.clonedStrings, Clean s := by
  have hsplit : (ConsoleSafeRecord.fromRecord r).strings =
      r.clonedStrings ++ (ConsoleSafeRecord.fromRecord r).sanitizedStrings := rfl
  rw [hsplit, List.forall_mem_append]
  exact and_iff_left (sanitizedStrings_clean r)

/-! A verdict whose rule id ends in an escape sequence. -/

namespace Sample

def hostileVerdict : Verdict where
  decision := .block
  mode := .enforce
  riskClass := .high
  policyVersion := 7
  ruleIds := ["rule-1\x1b[31m"]
  reasonCodes := []
  guard := ⟨"guard", "0.1.0"⟩
  evalMs := 1

def hostile : Record := { update with verdict := some hostileVerdict }

end Sample

theorem rule_id_projected_unsanitized :
    ¬∀ s ∈ (ConsoleSafeRecord.fromRecord Sample.hostile).strings, Clean s := by
  intro h
  have hrule : "rule-1\x1b[31m" ∈ (ConsoleSafeRecord.fromRecord Sample.hostile).strings := by
    simp [ConsoleSafeRecord.strings, ConsoleSafeRecord.fromRecord, Sample.hostile,
      Sample.hostileVerdict, Verdict.strings]
  have hplain := (h _ hrule).plain '\x1b' (by simp)
  cases hplain

end Sealr.Evidence
