import Sealr.Evidence.Keys
import Sealr.Evidence.Record

/-!
# The signed revocation list
-/

namespace Sealr

/-- Strictly earlier. -/
def DateTime.lt (a b : DateTime) : Prop := a.secs < b.secs ∨ (a.secs = b.secs ∧ a.nanos < b.nanos)

theorem DateTime.le_eq_false {a b : DateTime} : a.le b = false ↔ b.lt a := by
  simp only [DateTime.le, DateTime.lt, Bool.or_eq_false_iff, Bool.and_eq_false_iff,
    decide_eq_false_iff_not]
  omega

namespace Evidence

open Lib

structure RevocationEntry where
  certFingerprint : String
  effectiveAt : String
  reason : String
  deriving DecidableEq

def RevocationEntry.toJson (e : RevocationEntry) : Json :=
  .ofFields [("cert_fingerprint", some (.str e.certFingerprint)),
    ("effective_at", some (.str e.effectiveAt)), ("reason", some (.str e.reason))] (by simp)

structure RevocationList where
  updatedAt : String
  revocations : List RevocationEntry
  deriving DecidableEq

def RevocationList.toJson (l : RevocationList) : Json :=
  .ofFields [("updated_at", some (.str l.updatedAt)),
    ("revocations", some (.array (l.revocations.map (·.toJson))))] (by simp)

structure SignedRevocationList where
  list : RevocationList
  consoleKeyId : String
  signature : String
  deriving DecidableEq

def SignedRevocationList.toJson (l : SignedRevocationList) : Json :=
  .ofFields [("list", some l.list.toJson), ("console_key_id", some (.str l.consoleKeyId)),
    ("signature", some (.str l.signature))] (by simp)

namespace SignedRevocationList

def create (E : Externals) (list : RevocationList) (consoleKeyId : String) (key : SigningKey) :
    Result SignedRevocationList := do
  let signature ← key.signJcs E list.toJson
  return { list, consoleKeyId, signature }

def verify (E : Externals) (l : SignedRevocationList) (consoleKey : VerifyingKey) : Result Unit :=
  consoleKey.verifyJcs E l.list.toJson l.signature "revocation list"

/-- `is_revoked_at`: an entry whose time does not parse revokes nothing. -/
def isRevokedAt (E : Externals) (l : SignedRevocationList) (certFingerprint : String)
    (at_ : DateTime) : Bool :=
  l.list.revocations.any fun r =>
    r.certFingerprint = certFingerprint &&
      match parseWall E r.effectiveAt with
      | .ok eff => eff.le at_
      | .error _ => false

/-- Only an entry whose time parses and has come revokes. -/
theorem isRevokedAt_eq_true {E : Externals} {l : SignedRevocationList} {fp : String}
    {at_ : DateTime} : l.isRevokedAt E fp at_ = true ↔ ∃ r ∈ l.list.revocations,
      r.certFingerprint = fp ∧ ∃ eff, parseWall E r.effectiveAt = .ok eff ∧ eff.le at_ = true := by
  simp only [isRevokedAt, List.any_eq_true, Bool.and_eq_true, decide_eq_true_eq]
  constructor
  · intro h
    obtain ⟨r, hr, hfp, htime⟩ := h
    cases hparse : parseWall E r.effectiveAt with
    | error e => simp [hparse] at htime
    | ok eff =>
      rw [hparse] at htime
      exact ⟨r, hr, hfp, eff, hparse, htime⟩
  · intro h
    obtain ⟨r, hr, hfp, eff, hparse, htime⟩ := h
    refine ⟨r, hr, hfp, ?_⟩
    rw [hparse]
    exact htime

end SignedRevocationList

end Evidence

end Sealr
