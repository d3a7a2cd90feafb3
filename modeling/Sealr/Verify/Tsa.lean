import Sealr.Bundle.Read

/-!
# RFC 3161 tokens

`verify_token` over the decoded CMS structures: the imprint must be the expected SHA-256 digest,
the message digest attribute must match the content, and the RSA signature over the signed
attributes must verify with the certificate found in the token.
-/

namespace Sealr.Verify

open Lib

inductive TsaError where
  | parse (text : String)
  | notGranted (status : Nat)
  | imprintMismatch
  | unsupportedAlgorithm (text : String)
  | signatureInvalid (text : String)
  | signerCertMissing
  deriving DecidableEq

def TsaError.display : TsaError → String
  | parse text => "token parse error: " ++ text
  | notGranted status => "timestamp not granted: PKIStatus " ++ toString status
  | imprintMismatch => "message imprint mismatch: token binds a different digest"
  | unsupportedAlgorithm text => "unsupported algorithm: " ++ text
  | signatureInvalid text => "token signature invalid: " ++ text
  | signerCertMissing => "signer certificate not found in token"

structure VerifiedToken where
  genTime : String
  signerSubject : String
  signatureVerified : Bool
  deriving DecidableEq

def OID_SIGNED_DATA : String := "1.2.840.113549.1.7.2"
def OID_SHA256 : String := "2.16.840.1.101.3.4.2.1"
def OID_SHA384 : String := "2.16.840.1.101.3.4.2.2"
def OID_SHA512 : String := "2.16.840.1.101.3.4.2.3"
def OID_MESSAGE_DIGEST : String := "1.2.840.113549.1.9.4"
def OID_RSA_ENCRYPTION : String := "1.2.840.113549.1.1.1"
def OID_SHA256_WITH_RSA : String := "1.2.840.113549.1.1.11"
def OID_SHA384_WITH_RSA : String := "1.2.840.113549.1.1.12"
def OID_SHA512_WITH_RSA : String := "1.2.840.113549.1.1.13"

/-- A decoder's error with its context. -/
def parsed {α : Type} (what : String) : Except String α → Except TsaError α
  | .ok a => .ok a
  | .error e => .error (.parse (what ++ ": " ++ e))

/-- `parse_token`: a response that was granted, or a bare token. -/
def parseToken (E : Externals) (tokenDer : Bytes) : Except TsaError ContentInfo :=
  match E.timeStampRespFromDer tokenDer with
  | .ok resp =>
    if resp.status ≠ 0 ∧ resp.status ≠ 1 then .error (.notGranted resp.status)
    else
      match resp.timeStampToken with
      | some token => .ok token
      | none => .error (.parse "granted response without token")
  | .error _ => parsed "ContentInfo" (E.contentInfoFromDer tokenDer)

/-- Does a certificate identify the signer? A key identifier matches any. -/
def matchesSigner (sid : SignerIdentifier) (cert : TsaCertificate) : Bool :=
  match sid with
  | .issuerAndSerialNumber issuer serial => cert.serialNumber = serial && cert.issuer = issuer
  | .subjectKeyIdentifier => true

/-- `find_signer_cert`. -/
def findSignerCert (signedData : SignedData) (signer : SignerInfo) :
    Except TsaError TsaCertificate :=
  match signedData.certificates with
  | none => .error .signerCertMissing
  | some certs =>
    let found := certs.findSome? fun choice =>
      match choice with
      | .certificate cert => if matchesSigner signer.sid cert then some cert else none
      | .other => none
    match found with
    | some cert => .ok cert
    | none => .error .signerCertMissing

def shaKind (oid : String) : Except TsaError ShaKind :=
  if oid = OID_SHA256 then .ok .sha256
  else if oid = OID_SHA384 then .ok .sha384
  else if oid = OID_SHA512 then .ok .sha512
  else .error (.unsupportedAlgorithm ("digest " ++ oid))

/-- `digest_bytes`. -/
def digestBytes (E : Externals) (oid : String) (bytes : Bytes) : Except TsaError Bytes := do
  match ← shaKind oid with
  | .sha256 => return (E.sha256 bytes).toList
  | .sha384 => return E.sha384 bytes
  | .sha512 => return E.sha512 bytes

/-- The loop over the signed attributes: the last message digest attribute with a value decides. -/
def messageDigestOk (E : Externals) (digest : Bytes) :
    List SignedAttribute → Bool → Except TsaError Bool
  | [], ok => .ok ok
  | attr :: attrs, ok =>
    if attr.oid = OID_MESSAGE_DIGEST then
      match attr.values with
      | v :: _ => do
        let od ← parsed "messageDigest" (E.octetStringFromAny v)
        messageDigestOk E digest attrs (od = digest)
      | [] => messageDigestOk E digest attrs ok
    else messageDigestOk E digest attrs ok

/-- The signature is over the attributes tagged as a set. -/
def retag : Bytes → Bytes
  | b :: bs => if b = 0xA0 then 0x31 :: bs else b :: bs
  | [] => []

/-- `verify_cms_signature`. -/
def verifyCmsSignature (E : Externals) (signer : SignerInfo) (cert : TsaCertificate)
    (econtentBytes : Bytes) : Except TsaError Unit := do
  match signer.signedAttrs with
  | none => .error (.parse "missing signedAttrs")
  | some signedAttrs =>
    let econtentDigest ← digestBytes E signer.digestAlg econtentBytes
    let mdOk ← messageDigestOk E econtentDigest signedAttrs false
    if mdOk then
      let attrsDer ← parsed "signedAttrs DER" signer.signedAttrsDer
      let signedDigest ← digestBytes E signer.digestAlg (retag attrsDer)
      let alg := signer.signatureAlgorithm
      if alg = OID_RSA_ENCRYPTION ∨ alg = OID_SHA256_WITH_RSA ∨ alg = OID_SHA384_WITH_RSA ∨
          alg = OID_SHA512_WITH_RSA then
        let spkiDer ← parsed "SPKI DER" cert.spkiDer
        let publicKey ← parsed "RSA SPKI" (E.rsaFromPublicKeyDer spkiDer)
        let kind ← shaKind signer.digestAlg
        match E.rsaVerify publicKey kind signedDigest signer.signature with
        | .ok _ => return ()
        | .error e => .error (.signatureInvalid ("RSA verify: " ++ e))
      else .error (.unsupportedAlgorithm ("signature " ++ alg))
    else .error (.signatureInvalid "messageDigest attribute mismatch")

/-- The `genTime` of a token as text. -/
def genTimeText (E : Externals) (tst : TstInfo) : Except TsaError String :=
  if tst.genTimeSecs.toNat ≤ 2 ^ 63 - 1 then
    match E.formatTimestamp tst.genTimeSecs.toNat tst.genTimeNanos with
    | some text => .ok text
    | none => .error (.parse "genTime out of range")
  else .error (.parse "genTime overflow")

/-- `verify_token`. -/
def verifyToken (E : Externals) (tokenDer : Bytes) (expectedSha256Imprint : Digest) :
    Except TsaError VerifiedToken := do
  let contentInfo ← parseToken E tokenDer
  if contentInfo.contentType ≠ OID_SIGNED_DATA then
    throw (.parse ("token content type " ++ contentInfo.contentType ++ " is not id-signedData"))
  let signedData ← parsed "SignedData" (E.signedDataFromAny contentInfo.content)
  match signedData.econtent with
  | none => .error (.parse "missing eContent")
  | some econtent =>
    let tstBytes ← parsed "eContent octet string" (E.octetStringFromAny econtent)
    let tstInfo ← parsed "TSTInfo" (E.tstInfoFromDer tstBytes)
    if tstInfo.imprintAlg ≠ OID_SHA256 then
      throw (.unsupportedAlgorithm ("imprint digest " ++ tstInfo.imprintAlg))
    if tstInfo.hashedMessage ≠ expectedSha256Imprint.toList then throw .imprintMismatch
    let genTime ← genTimeText E tstInfo
    match signedData.signerInfos with
    | [] => .error (.parse "no SignerInfo")
    | signerInfo :: _ =>
      let signerCert ← findSignerCert signedData signerInfo
      verifyCmsSignature E signerInfo signerCert tstBytes
      return { genTime, signerSubject := signerCert.subjectText, signatureVerified := true }

end Sealr.Verify
