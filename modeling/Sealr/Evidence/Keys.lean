import Sealr.Evidence.Hash
import Sealr.Evidence.Jcs

/-!
# Ed25519 keys

Every signature is over the BLAKE3 digest of the JCS bytes of the signed structure.
-/

namespace Sealr.Evidence

open Lib

structure VerifyingKey where
  bytes : Digest
  deriving DecidableEq

structure SigningKey where
  seed : Digest

namespace SigningKey

def verifyingKey (E : Externals) (key : SigningKey) : VerifyingKey := ⟨E.ed25519Public key.seed⟩

def signDigest (E : Externals) (key : SigningKey) (digest : Digest) : String :=
  hexEncode (E.ed25519Sign key.seed digest).toList

def signJcs (E : Externals) (key : SigningKey) (value : Json) : Result String := do
  let bytes ← toJcsBytes value
  return key.signDigest E (blake3Raw E bytes)

end SigningKey

namespace VerifyingKey

def fromBytes (E : Externals) (bytes : Bytes) : Result VerifyingKey :=
  if h : bytes.length = 32 then
    match E.ed25519FromBytes ⟨bytes, h⟩ with
    | .ok _ => .ok ⟨⟨bytes, h⟩⟩
    | .error e => .error (.key ("invalid public key: " ++ e))
  else .error (.key "public key must be 32 bytes")

def fromSpkiPem (E : Externals) (pem : String) : Result VerifyingKey :=
  match E.ed25519FromPem pem with
  | .ok bytes => .ok ⟨bytes⟩
  | .error e => .error (.key ("spki import: " ++ e))

def verifyDigest (E : Externals) (key : VerifyingKey) (digest : Digest)
    (signatureHex context : String) : Result Unit := do
  let sigBytes ← hexDecode E "signature" signatureHex
  if h : sigBytes.length = 64 then
    if E.ed25519Verify key.bytes digest ⟨sigBytes, h⟩ then return ()
    else .error (.signatureInvalid context)
  else .error (.signatureInvalid (context ++ ": signature must be 64 bytes"))

def verifyJcs (E : Externals) (key : VerifyingKey) (value : Json) (signatureHex context : String) :
    Result Unit := do
  let bytes ← toJcsBytes value
  key.verifyDigest E (blake3Raw E bytes) signatureHex context

theorem fromBytes_toList {E : Externals} {k : Digest} (h : E.ed25519FromBytes k = .ok ()) :
    fromBytes E k.toList = .ok ⟨k⟩ := by
  have hk : (⟨k.toList, k.toList_length⟩ : Digest) = k := rfl
  unfold fromBytes
  rw [dif_pos k.toList_length, hk, h]

/-- What was signed verifies. -/
theorem verifyJcs_signJcs {E : Externals} (hE : E.AcceptsSigned) {key : SigningKey} {value : Json}
    {sig : String} (h : key.signJcs E value = .ok sig) (context : String) :
    (key.verifyingKey E).verifyJcs E value sig context = .ok () := by
  obtain ⟨bytes, hb, heq⟩ := bind_eq_ok.mp h
  obtain rfl := Except.ok.inj heq
  refine bind_eq_ok.mpr ⟨bytes, hb, bind_eq_ok.mpr ⟨_, hexDecode_hexEncode E _ _, ?_⟩⟩
  have hlen : (E.ed25519Sign key.seed (blake3Raw E bytes)).toList.length = 64 :=
    List.Vector.toList_length _
  rw [dif_pos hlen]
  have hsig : (⟨(E.ed25519Sign key.seed (blake3Raw E bytes)).toList, hlen⟩ : Signature) =
      E.ed25519Sign key.seed (blake3Raw E bytes) := rfl
  rw [hsig, SigningKey.verifyingKey, hE]
  rfl

end VerifyingKey

end Sealr.Evidence
