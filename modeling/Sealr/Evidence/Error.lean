import Sealr.Externals

/-!
# Errors of the evidence crate

The variants that the modelled functions return, with the texts `Display` gives them.
-/

namespace Sealr.Evidence

open Lib

/-- `EvidenceError`. -/
inductive EvidenceError where
  | unsafeNumber (n : Number)
  | json (text : String)
  | invalidHex (field detail : String)
  | signatureInvalid (context : String)
  | key (text : String)
  | certificate (text : String)
  | checkpoint (text : String)
  | merkleProof (text : String)
  | schema (text : String)
  deriving DecidableEq

/-- `Display` of an error. -/
def EvidenceError.display (E : Externals) : EvidenceError → String
  | unsafeNumber n => "non-integer or unsafe number in signed structure: " ++ E.showNumber n
  | json text => "JSON error: " ++ text
  | invalidHex field detail => "invalid hex in field " ++ field ++ ": " ++ detail
  | signatureInvalid context => "signature invalid: " ++ context
  | key text => "key error: " ++ text
  | certificate text => "certificate error: " ++ text
  | checkpoint text => "checkpoint invalid: " ++ text
  | merkleProof text => "merkle proof invalid: " ++ text
  | schema text => "schema violation: " ++ text

/-- `Result<T>`. -/
abbrev Result := Except EvidenceError

/-- A sequenced computation succeeds exactly when both halves do. -/
theorem bind_eq_ok {ε α β : Type} {x : Except ε α} {f : α → Except ε β} {b : β} :
    (x >>= f) = .ok b ↔ ∃ a, x = .ok a ∧ f a = .ok b := by
  rcases x with err | a
  · simp [bind, Except.bind]
  · simp [bind, Except.bind]

/-- A result whose first part is known. -/
theorem exists_of_fst {α β : Type} {r : Result (α × β)} {a : α}
    (h : r.toOption.map Prod.fst = some a) : ∃ b, r = .ok (a, b) := by
  cases r with
  | error e => simp [Except.toOption] at h
  | ok p =>
    obtain ⟨x, y⟩ := p
    simp only [Except.toOption, Option.map_some, Option.some.injEq] at h
    exact ⟨y, by rw [h]⟩

end Sealr.Evidence
