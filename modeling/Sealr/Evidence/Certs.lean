import Sealr.Evidence.Keys

/-!
# Certificate chains

Offline validation of a certificate against a pool of intermediates and one root. Issuance is left
out.
-/

namespace Sealr.Evidence

open Lib

structure ValidatedCert where
  subjectCommonName : String
  publicKey : VerifyingKey
  fingerprint : String
  notBeforeUnix : Int
  notAfterUnix : Int
  deriving DecidableEq

/-- The certificate blocks of a PEM file, up to the first block that does not parse. -/
def certificateBlocks : List (Except String Pem) → Result (List Bytes)
  | [] => .ok []
  | .error e :: _ => .error (.certificate ("PEM parse: " ++ e))
  | .ok pem :: rest => do
    let ders ← certificateBlocks rest
    return if pem.label = "CERTIFICATE" then pem.contents :: ders else ders

/-- `parse_pem_chain`. -/
def parsePemChain (E : Externals) (pem : String) : Result (List Bytes) := do
  let ders ← certificateBlocks (E.pemIter (asBytes pem))
  if ders = [] then .error (.certificate "no CERTIFICATE blocks in PEM") else return ders

def commonName (cert : X509Certificate) : String := cert.commonName.getD ""

def isCa (cert : X509Certificate) : Bool := cert.basicConstraintsCa

def checkValidity (E : Externals) (cert : X509Certificate) (at_ : Int) (what : String) :
    Result Unit :=
  if E.x509IsValidAt cert.notBefore cert.notAfter at_ then .ok ()
  else .error (.certificate (what ++ " certificate " ++ E.debugStr (commonName cert) ++
    " not valid at requested time"))

def verifySignedBy (E : Externals) (certDer : Bytes) (cert : X509Certificate) (issuerDer : Bytes)
    (what : String) : Result Unit :=
  match E.x509VerifySignature certDer issuerDer with
  | .ok _ => .ok ()
  | .error e => .error (.certificate (what ++ " signature verification failed for " ++
      E.debugStr (commonName cert) ++ ": " ++ e))

/-- `X509Certificate::from_der`, with the context of the error. -/
def certFromDer (E : Externals) (der : Bytes) (what : String) : Result X509Certificate :=
  match E.x509FromDer der with
  | .ok cert => .ok cert
  | .error e => .error (.certificate (what ++ " DER: " ++ e))

/-- The first certificate of the pool whose subject issued `current`; it must be a valid CA and
must have signed it. -/
def findIssuer (E : Externals) (at_ : Int) (currentDer : Bytes) (current : X509Certificate) :
    List Bytes → Result (Option Bytes)
  | [] => .ok none
  | candDer :: pool => do
    let cand ← certFromDer E candDer "pool"
    if cand.subject = current.issuer then
      checkValidity E cand at_ "intermediate"
      if isCa cand then
        verifySignedBy E currentDer current candDer "intermediate"
        return some candDer
      else .error (.certificate ("intermediate " ++ commonName cand ++ " is not a CA"))
    else findIssuer E at_ currentDer current pool

/-- The loop of `validate_chain`, up to the root. -/
def walkUp (E : Externals) (at_ : Int) (pool : List Bytes) (rootDer : Bytes)
    (root : X509Certificate) : Nat → Bytes → Result Unit
  | 0, _ => .error (.certificate "chain too deep")
  | hops + 1, currentDer => do
    let current ← certFromDer E currentDer "chain"
    if current.issuer = root.subject then
      verifySignedBy E currentDer current rootDer "root"
      if isCa root then return () else .error (.certificate "root is not a CA")
    else
      match ← findIssuer E at_ currentDer current pool with
      | some der => walkUp E at_ pool rootDer root hops der
      | none => .error (.certificate ("no issuer found for " ++ E.debugStr (commonName current)))

/-- `parse_pem_chain(..)?.remove(0)`. -/
def firstCert (E : Externals) (pem : String) : Result Bytes := do
  match ← parsePemChain E pem with
  | der :: _ => return der
  | [] => .error (.certificate "no CERTIFICATE blocks in PEM")

def parsePool (E : Externals) : List String → Result (List Bytes)
  | [] => .ok []
  | pem :: pems => do
    let ders ← parsePemChain E pem
    let rest ← parsePool E pems
    return ders ++ rest

/-- `validate_chain`. -/
def validateChain (E : Externals) (leafPem : String) (intermediatesPem : List String)
    (rootPem : String) (atUnix : Int) : Result ValidatedCert := do
  let leafDer ← firstCert E leafPem
  let rootDer ← firstCert E rootPem
  let pool ← parsePool E intermediatesPem
  let leaf ← certFromDer E leafDer "leaf"
  let root ← certFromDer E rootDer "root"
  match E.asn1TimeError atUnix with
  | some e => .error (.certificate ("timestamp: " ++ e))
  | none =>
    checkValidity E leaf atUnix "leaf"
    checkValidity E root atUnix "root"
    walkUp E atUnix pool rootDer root 8 leafDer
    let publicKey ← VerifyingKey.fromBytes E leaf.subjectPublicKey
    return {
      subjectCommonName := commonName leaf
      publicKey
      fingerprint := blake3Hex E leafDer
      notBeforeUnix := leaf.notBefore
      notAfterUnix := leaf.notAfter }

/-! ## Recorded certificates -/

section Recorded

variable {r : Externals.Recording}

theorem parsePemChain_blocks {text : String} {der : Bytes} {ders : List Bytes}
    (h : r.pems.lookup (asBytes text) = some ((der :: ders).map (⟨"CERTIFICATE", ·⟩))) :
    parsePemChain (.recorded r) text = .ok (der :: ders) := by
  have hblocks : ∀ ders : List Bytes, certificateBlocks
      ((ders.map fun d => (⟨"CERTIFICATE", d⟩ : Pem)).map .ok) = .ok ders := by
    intro ders
    induction ders with
    | nil => rfl
    | cons d ds ih =>
      simp only [List.map_cons, certificateBlocks, ih, bind, Except.bind, pure, Except.pure,
        ↓reduceIte]
  have hiter : (Externals.recorded r).pemIter (asBytes text) =
      ((der :: ders).map fun d => (⟨"CERTIFICATE", d⟩ : Pem)).map .ok := by
    simp only [Externals.recorded, h, Option.getD_some]
  rw [parsePemChain, hiter, hblocks]
  rfl

theorem firstCert_eq {text : String} {der : Bytes} {ders : List Bytes}
    (h : parsePemChain (.recorded r) text = .ok (der :: ders)) :
    firstCert (.recorded r) text = .ok der := by
  rw [firstCert, h]
  rfl

theorem x509FromDer_eq {der : Bytes} {cert : X509Certificate}
    (h : r.certificates.lookup der = some cert) :
    (Externals.recorded r).x509FromDer der = .ok cert := by
  simp [Externals.recorded, Externals.answer, h]

end Recorded

end Sealr.Evidence
