import Sealr.Evidence.Hexadecimal
import Sealr.Evidence.Spool

/-!
# Payload commitments

A record may carry a commitment to a payload, salted with 32 random bytes that are kept with the
payload. The hash of a record determines every field of it, the commitment among them
(`computeHash_binds`); so it determines the one payload and the one salt that can be disclosed for
it (`disclosure_iff`), up to a collision.
-/

namespace Sealr.Evidence

open Lib

def COMMITMENT_ALG : String := "blake3-salted"

/-- A commitment salt. -/
structure Salt where
  bytes : Digest
  deriving DecidableEq

namespace Salt

def toHex (salt : Salt) : String := hexEncode salt.bytes.toList

def fromHex (E : Externals) (hex : String) : Result Salt := do
  let v ← hexDecode E "salt" hex
  if h : v.length = 32 then return ⟨⟨v, h⟩⟩
  else .error (.invalidHex "salt" ("expected 32 bytes, got " ++ toString v.length))

end Salt

/-- What is hashed for a commitment. -/
def commitmentInput (payload : Bytes) (salt : Salt) : Bytes := salt.bytes.toList ++ payload

def commit (E : Externals) (payload : Bytes) (salt : Salt) : PayloadCommitment :=
  ⟨COMMITMENT_ALG, blake3Hex E (commitmentInput payload salt)⟩

def verifyCommitment (E : Externals) (payload : Bytes) (salt : Salt)
    (commitment : PayloadCommitment) : Bool :=
  commitment.alg = COMMITMENT_ALG ∧ (commit E payload salt).commitment = commitment.commitment

/-- Equal up to the order of members and the spelling of numbers inside the detail. -/
def SameDetail (d e : Option Json) : Prop :=
  (d = none ∧ e = none) ∨ ∃ i j, d = some i ∧ e = some j ∧ i.value.Equiv j.value

section

variable {E : Externals} {r s : Record} {h : String} {payload payload₀ : Bytes}
  {salt salt₀ : Salt} {commitment : PayloadCommitment}

/-- **The texts a salt is read from** are its spellings, in either case. -/
theorem Salt.fromHex_eq_ok_iff {hex : String} :
    Salt.fromHex E hex = .ok salt ↔ hex.toList.map Char.toLower = salt.toHex.toList := by
  unfold Salt.fromHex Salt.toHex
  rw [bind_eq_ok]
  constructor
  · rintro ⟨v, hv, heq⟩
    split_ifs at heq
    obtain rfl := Except.ok.inj heq
    exact hexDecode_eq_ok_iff.mp hv
  · intro hhex
    refine ⟨_, hexDecode_eq_ok_iff.mpr hhex, ?_⟩
    rw [dif_pos salt.bytes.toList_length]
    rfl

theorem commitmentInput_inj (heq : commitmentInput payload salt = commitmentInput payload₀ salt₀) :
    payload = payload₀ ∧ salt = salt₀ := by
  have hlen : salt.bytes.toList.length = salt₀.bytes.toList.length := by
    rw [salt.bytes.toList_length, salt₀.bytes.toList_length]
  obtain ⟨hsalt, hpayload⟩ := List.append_inj heq hlen
  refine ⟨hpayload, ?_⟩
  cases salt
  cases salt₀
  rw [Salt.mk.injEq]
  exact List.Vector.toList_injective hsalt

theorem verifyCommitment_eq_true :
    verifyCommitment E payload salt commitment = true ↔ commitment = commit E payload salt := by
  unfold verifyCommitment
  rw [decide_eq_true_eq]
  constructor
  · rintro ⟨halg, hhash⟩
    cases commitment
    rw [commit, PayloadCommitment.mk.injEq]
    exact ⟨halg, hhash.symm⟩
  · rintro rfl
    exact ⟨rfl, rfl⟩

/-- **The hash of a record determines it**: records of one hash agree in every field but the stored
hash, the detail up to member order and number spelling, or what is hashed for them collides. -/
theorem computeHash_binds (hr : r.computeHash E = .ok h) (hs : s.computeHash E = .ok h) :
    ({ r with actionDetail := none, recordHash := h } =
        { s with actionDetail := none, recordHash := h } ∧
      SameDetail r.actionDetail s.actionDetail) ∨
      Collides E.blake3 [inputOf r.toJson] [inputOf s.toJson] := by
  obtain ⟨a, ha, rfl⟩ := computeHashOfValue_eq_ok.mp hr
  obtain ⟨b, hb, hhash⟩ := computeHashOfValue_eq_ok.mp hs
  have hinput : ∀ {v : Json} {bytes : Bytes}, hashInput v = .ok bytes → inputOf v = bytes := by
    intro v bytes hv
    rw [inputOf, hv]
    rfl
  have hmem : a ∈ [inputOf r.toJson] := List.mem_singleton.mpr (hinput ha).symm
  have hmem' : b ∈ [inputOf s.toJson] := List.mem_singleton.mpr (hinput hb).symm
  refine (eq_or_collides hmem hmem' (blake3Hex_inj.mp hhash)).imp_left ?_
  rintro rfl
  rw [← Record.hashInput_setHash r (blake3Hex E a)] at ha
  rw [← Record.hashInput_setHash s (blake3Hex E a)] at hb
  have hget : ∀ t : Record, { t with recordHash := blake3Hex E a }.toJson.value.get "record_hash" =
      some (.string (blake3Hex E a)) := fun t => RecordView.Of.get_recordHash (Record.view_of _)
  have hequiv := equiv_of_hashInput_eq ha hb (hget r) (hget s)
  -- one canonical form, from which serde reads one record
  have hcanon : ∀ {v : Json}, hashInput v = .ok a →
      v.value.get "record_hash" = some (.string (blake3Hex E a)) →
      ∃ c, Rfc8785.canon v.value = some c :=
    fun h hs => Rfc8785.exists_canon_iff.mpr ((exists_hashInput_iff hs).mp ⟨_, h⟩)
  obtain ⟨c, hc⟩ := hcanon ha (hget r)
  obtain ⟨d, hd⟩ := hcanon hb (hget s)
  obtain rfl := (Rfc8785.canon_eq_iff (Json.wf _) (Json.wf _) hc hd).mpr hequiv
  have hread := Record.stable_besides none _ _ _ (Json.wf _) hc (Record.besides_toJson _ none)
  have hread' := Record.stable_besides none _ _ _ (Json.wf _) hd (Record.besides_toJson _ none)
  refine ⟨Option.some.inj (hread.symm.trans hread'), ?_⟩
  exact Json.field_of_equiv (k := "action_detail") hequiv (by simp [Record.fields])
    (by simp [Record.fields])

/-- **The hash of a record determines what can be disclosed for it**: in any record with the hash of
one that carries the commitment to a payload, that payload with its salt verifies and nothing else
does, or two inputs collide. -/
theorem disclosure_iff (hr : r.computeHash E = .ok h) (hs : s.computeHash E = .ok h)
    (hmade : r.payloadCommitment = some (commit E payload₀ salt₀)) :
    ((∃ c, s.payloadCommitment = some c ∧ verifyCommitment E payload salt c = true) ↔
        payload = payload₀ ∧ salt = salt₀) ∨
      Collides E.blake3 [inputOf r.toJson, commitmentInput payload₀ salt₀]
        [inputOf s.toJson, commitmentInput payload salt] := by
  rcases computeHash_binds hr hs with ⟨hsame, -⟩ | hcol
  swap
  · exact .inr (hcol.mono (by simp) (by simp))
  have hcarried : s.payloadCommitment = some (commit E payload₀ salt₀) := by
    have hfield := congrArg Record.payloadCommitment hsame
    exact hfield.symm.trans hmade
  by_cases hcol : Collides E.blake3 [inputOf r.toJson, commitmentInput payload₀ salt₀]
    [inputOf s.toJson, commitmentInput payload salt]
  · exact .inr hcol
  left
  constructor
  · rintro ⟨c, hc, hverify⟩
    obtain rfl := Option.some.inj (hcarried.symm.trans hc)
    have hhash := congrArg PayloadCommitment.commitment (verifyCommitment_eq_true.mp hverify)
    have hinput := (eq_or_collides (by simp) (by simp) (blake3Hex_inj.mp hhash)).resolve_right hcol
    obtain ⟨hpayload, hsalt⟩ := commitmentInput_inj hinput
    exact ⟨hpayload.symm, hsalt.symm⟩
  · rintro ⟨rfl, rfl⟩
    exact ⟨_, hcarried, verifyCommitment_eq_true.mpr rfl⟩

end

/-! An update with a commitment to the statement it ran. -/

namespace Sample

def salt : Salt := ⟨.replicate 32 7⟩

def statement : Bytes := asBytes "UPDATE t SET x = 1"

def disclosing : Record := { updated with
  payloadCommitment := some
    ⟨COMMITMENT_ALG, "5b55d9bd645d0f12ce704dc3807379aacf9520d23e8ce70deeb784591c07fc42"⟩
  recordHash := "4732faf4fc267649d21b6465e0281d3b64d9d9a95fae79664b3a0890fcc438c7" }

def disclosingExternals : Externals := .recorded { recording with
  blake3 := [
    (commitmentInput statement salt,
      ofHex "5b55d9bd645d0f12ce704dc3807379aacf9520d23e8ce70deeb784591c07fc42"),
    ((hashInput disclosing.toJson).toOption.getD [], ofHex disclosing.recordHash)] }

theorem computeHash_disclosing :
    disclosing.computeHash disclosingExternals = .ok disclosing.recordHash := by
  decide +kernel

/-- The record before its hash was stored. -/
def unfinished : Record := { disclosing with recordHash := "" }

theorem computeHash_unfinished :
    unfinished.computeHash disclosingExternals = .ok disclosing.recordHash := by
  have hsame := Record.hashInput_setHash disclosing ""
  rw [← computeHash_disclosing, Record.computeHash, Record.computeHash, computeHashOfValue,
    computeHashOfValue, unfinished, hsame]

end Sample

open Sample in
theorem computeHash_binds_unfinished :
    ({ disclosing with actionDetail := none, recordHash := disclosing.recordHash } =
        { unfinished with actionDetail := none, recordHash := disclosing.recordHash } ∧
      SameDetail disclosing.actionDetail unfinished.actionDetail) ∨
      Collides disclosingExternals.blake3 [inputOf disclosing.toJson]
        [inputOf unfinished.toJson] :=
  computeHash_binds computeHash_disclosing computeHash_unfinished

open Sample in
theorem disclosure_iff_other :
    ((∃ c, unfinished.payloadCommitment = some c ∧
        verifyCommitment disclosingExternals (asBytes "DELETE FROM t") salt c = true) ↔
      asBytes "DELETE FROM t" = statement ∧ salt = salt) ∨
      Collides disclosingExternals.blake3
        [inputOf disclosing.toJson, commitmentInput statement salt]
        [inputOf unfinished.toJson, commitmentInput (asBytes "DELETE FROM t") salt] := by
  have hcommitment : "5b55d9bd645d0f12ce704dc3807379aacf9520d23e8ce70deeb784591c07fc42" =
      blake3Hex disclosingExternals (commitmentInput statement salt) := by
    decide +kernel
  refine disclosure_iff computeHash_disclosing computeHash_unfinished ?_
  rw [commit, ← hcommitment]
  rfl

end Sealr.Evidence
