import Mathlib.Data.Vector.Basic
import Sealr.Lib.Crockford
import Sealr.Lib.Accepts

/-!
# What the crates take from other packages

`Externals` collects the third-party functions the three crates call: hash functions, Ed25519,
`serde_json`, `ulid`, `chrono`, `x509-parser`, `cms`, `rsa`, `zip` and `zstd`. The model is a
function of it. Decoders return records of what the code reads from the decoded object; errors are
their texts.

Properties of these packages that a result needs are the named predicates at the end.
-/

namespace Sealr

open Lib

/-- `[u8; 32]`. -/
abbrev Digest := List.Vector UInt8 32

/-- `[u8; 64]`, an Ed25519 signature. -/
abbrev Signature := List.Vector UInt8 64

/-- `Ulid`, a 128-bit number. -/
abbrev Ulid := BitVec 128

/-- `chrono::DateTime<Utc>`: seconds since the epoch and nanoseconds. -/
structure DateTime where
  secs : Int
  nanos : Nat
  deriving DecidableEq, Repr

namespace DateTime

/-- `timestamp_millis`. -/
def timestampMillis (t : DateTime) : Int := t.secs * 1000 + (t.nanos / 1000000 : Nat)

/-- Instants are ordered by seconds, then nanoseconds. -/
def le (a b : DateTime) : Bool := a.secs < b.secs || (a.secs = b.secs && a.nanos ≤ b.nanos)

end DateTime

/-- What is read from an `X509Certificate`. Names are their DER, compared as such. -/
structure X509Certificate where
  subject : Bytes
  issuer : Bytes
  commonName : Option String
  subjectPublicKey : Bytes
  notBefore : Int
  notAfter : Int
  basicConstraintsCa : Bool
  deriving DecidableEq

/-- One block of a PEM file. -/
structure Pem where
  label : String
  contents : Bytes

/-- `cms::content_info::ContentInfo`: the content is kept encoded. -/
structure ContentInfo where
  contentType : String
  content : Bytes

/-- `x509_tsp::TimeStampResp`. -/
structure TimeStampResp where
  status : Nat
  timeStampToken : Option ContentInfo

/-- What is read from an `x509_cert::Certificate`. -/
structure TsaCertificate where
  serialNumber : Bytes
  issuer : Bytes
  subjectText : String
  spkiDer : Except String Bytes

/-- `CertificateChoices`. -/
inductive CertificateChoices where
  | certificate (cert : TsaCertificate)
  | other

/-- `SignerIdentifier`. -/
inductive SignerIdentifier where
  | issuerAndSerialNumber (issuer serialNumber : Bytes)
  | subjectKeyIdentifier

/-- One signed attribute; its values are kept encoded. -/
structure SignedAttribute where
  oid : String
  values : List Bytes

/-- `cms::signed_data::SignerInfo`, with the DER of its signed attributes. -/
structure SignerInfo where
  sid : SignerIdentifier
  digestAlg : String
  signedAttrs : Option (List SignedAttribute)
  signedAttrsDer : Except String Bytes
  signatureAlgorithm : String
  signature : Bytes

/-- `cms::signed_data::SignedData`. -/
structure SignedData where
  econtent : Option Bytes
  certificates : Option (List CertificateChoices)
  signerInfos : List SignerInfo

/-- `x509_tsp::TstInfo`. -/
structure TstInfo where
  imprintAlg : String
  hashedMessage : Bytes
  genTimeSecs : UInt64
  genTimeNanos : Nat

/-- The digest a PKCS#1 v1.5 signature is made over. -/
inductive ShaKind where
  | sha256
  | sha384
  | sha512
  deriving DecidableEq

/-- The functions of other packages. -/
structure Externals where
  /-- `blake3::hash` -/
  blake3 : Bytes → Digest
  sha256 : Bytes → Digest
  sha384 : Bytes → Bytes
  sha512 : Bytes → Bytes
  /-- `ed25519_dalek::VerifyingKey::from_bytes`, which refuses what is not a curve point -/
  ed25519FromBytes : Digest → Except String Unit
  /-- `from_public_key_pem` -/
  ed25519FromPem : String → Except String Digest
  /-- `verify(key, message, signature)` -/
  ed25519Verify : Digest → Digest → Signature → Bool
  ed25519Sign : Digest → Digest → Signature
  /-- The public key of a seed -/
  ed25519Public : Digest → Digest
  /-- `serde_json::from_slice::<Value>` -/
  fromSlice : Bytes → Except String Json
  /-- How `serde_json` reads a literal that is not an integer in range -/
  readFloat : List Char → Option F64
  /-- How `serde_json` prints a double -/
  showFloat : F64 → String
  /-- `Ulid::from_string` -/
  ulidFromString : String → Except String Ulid
  ulidToString : Ulid → String
  /-- `DateTime::parse_from_rfc3339`, converted to UTC -/
  parseFromRfc3339 : String → Except String DateTime
  /-- `DateTime::from_timestamp` printed with `%Y-%m-%dT%H:%M:%S%.3fZ` -/
  formatTimestamp : Int → Nat → Option String
  /-- `ASN1Time::from_timestamp`: the text of the error, if it refuses -/
  asn1TimeError : Int → Option String
  /-- The Unicode table behind `{:?}` -/
  isPrintable : Char → Bool
  /-- `Pem::iter_from_buffer` -/
  pemIter : Bytes → List (Except String Pem)
  /-- `X509Certificate::from_der` -/
  x509FromDer : Bytes → Except String X509Certificate
  /-- `verify_signature` of the first certificate with the public key of the second -/
  x509VerifySignature : Bytes → Bytes → Except String Unit
  /-- `Validity::is_valid_at` of the two ends of a validity period -/
  x509IsValidAt : Int → Int → Int → Bool
  timeStampRespFromDer : Bytes → Except String TimeStampResp
  contentInfoFromDer : Bytes → Except String ContentInfo
  signedDataFromAny : Bytes → Except String SignedData
  octetStringFromAny : Bytes → Except String Bytes
  tstInfoFromDer : Bytes → Except String TstInfo
  /-- `RsaPublicKey::from_public_key_der` -/
  rsaFromPublicKeyDer : Bytes → Except String Bytes
  /-- `verify` with PKCS#1 v1.5 padding: key, digest kind, digest, signature -/
  rsaVerify : Bytes → ShaKind → Bytes → Bytes → Except String Unit
  /-- `zstd::stream::Decoder` over a source that delivers bytes and may then fail: what it
  delivers in turn, and the failure that ends it -/
  zstdDecode : Bytes → Option String → Except String (Bytes × Option String)
  /-- The text of `ZipError::FileNotFound` -/
  zipFileNotFound : String
  /-- The text of the error of `String::from_utf8` -/
  fromUtf8Error : Bytes → String
  /-- `EMBEDDED_ROOTS_PEM` -/
  embeddedRootsPem : String

namespace Externals

/-- `serde_json::from_slice` implements RFC 8259: what is a JSON text is read as the value it
denotes. -/
def ReadsJson (E : Externals) : Prop :=
  ∀ b cs (v : Json), utf8Decode b = some cs → Rfc8259.JsonText E.readFloat cs v.value →
    E.fromSlice b = .ok v

/-- `serde_json::from_slice` accepts exactly the JSON texts in UTF-8, each as the value it denotes. -/
def ReadsExactly (E : Externals) : Prop :=
  ∀ b (v : Json), E.fromSlice b = .ok v ↔
    ∃ cs, utf8Decode b = some cs ∧ Rfc8259.JsonText E.readFloat cs v.value

theorem ReadsExactly.readsJson {E : Externals} (h : E.ReadsExactly) : E.ReadsJson :=
  fun b cs v hb hv => (h b v).mpr ⟨cs, hb, hv⟩

/-- The literal `-0` is read as a zero. -/
def ReadsMinusZero (E : Externals) : Prop :=
  ∀ f, E.readFloat ['-', '0'] = some f → f.toRat = 0

/-- Printing a ULID and parsing it again gives it back. -/
def UlidRoundTrip (E : Externals) : Prop :=
  ∀ u, E.ulidFromString (E.ulidToString u) = .ok u

/-- Ed25519 accepts the signatures made with the key's own seed. -/
def AcceptsSigned (E : Externals) : Prop :=
  ∀ seed msg, E.ed25519Verify (E.ed25519Public seed) msg (E.ed25519Sign seed msg) = true

/-! ## Recorded calls -/

/-- Some calls of these functions, each with what it returned. -/
structure Recording where
  blake3 : List (Bytes × Digest) := []
  sha256 : List (Bytes × Digest) := []
  /-- seeds and their public keys -/
  keys : List (Digest × Digest) := []
  /-- public keys and messages, with the signature -/
  signatures : List ((Digest × Digest) × Signature) := []
  keyPems : List (String × Digest) := []
  times : List (String × DateTime) := []
  timestamps : List ((Int × Nat) × String) := []
  pems : List (Bytes × List Pem) := []
  certificates : List (Bytes × X509Certificate) := []
  /-- certificates and that of their issuer -/
  issued : List (Bytes × Bytes) := []
  responses : List (Bytes × TimeStampResp) := []
  signedData : List (Bytes × SignedData) := []
  octetStrings : List (Bytes × Bytes) := []
  tstInfos : List (Bytes × TstInfo) := []
  rsaKeys : List (Bytes × Bytes) := []
  rsaSignatures : List (Bytes × ShaKind × Bytes × Bytes) := []
  /-- compressed files and their contents -/
  frames : List (Bytes × Bytes) := []

/-- A recorded answer, or the error of a decoder. -/
def answer {α β : Type} [BEq α] (calls : List (α × β)) (text : String) (a : α) : Except String β :=
  (calls.lookup a).elim (.error text) .ok

/-- The functions as they were recorded; elsewhere decoders refuse and digests are zero. JSON and
ULIDs are read and written in full, and no root is embedded. -/
def recorded (r : Recording) : Externals where
  blake3 b := (r.blake3.lookup b).getD (.replicate 32 0)
  sha256 b := (r.sha256.lookup b).getD (.replicate 32 0)
  sha384 _ := []
  sha512 _ := []
  ed25519FromBytes k := if k ∈ r.keys.map Prod.snd then .ok () else .error "not a curve point"
  ed25519FromPem := answer r.keyPems "not a public key"
  ed25519Verify k m s := (r.signatures.lookup (k, m)).getD (.replicate 64 0) = s
  ed25519Sign seed m :=
    (r.signatures.lookup ((r.keys.lookup seed).getD seed, m)).getD (.replicate 64 0)
  ed25519Public seed := (r.keys.lookup seed).getD seed
  fromSlice b := (Rfc8259.parseBytes (fun _ => none) b).elim (.error "not JSON") .ok
  readFloat _ := none
  showFloat _ := ""
  ulidFromString s :=
    if (chars s).length = 26 then
      (Crockford.decode (chars s)).elim (.error "invalid character") fun n => .ok (.ofNat 128 n)
    else .error "invalid length"
  ulidToString u := String.ofList (Crockford.encode 26 u.toNat)
  parseFromRfc3339 := answer r.times "input contains invalid characters"
  formatTimestamp secs nanos := r.timestamps.lookup (secs, nanos)
  asn1TimeError _ := none
  isPrintable c := 0x20 ≤ c.toNat && c.toNat < 0x7f
  pemIter b := ((r.pems.lookup b).getD []).map .ok
  x509FromDer := answer r.certificates "not a certificate"
  x509VerifySignature cert issuer :=
    if (cert, issuer) ∈ r.issued then .ok () else .error "signature verification error"
  x509IsValidAt notBefore notAfter t := notBefore ≤ t && t ≤ notAfter
  timeStampRespFromDer := answer r.responses "not a response"
  contentInfoFromDer _ := .error "not a content info"
  signedDataFromAny := answer r.signedData "not signed data"
  octetStringFromAny := answer r.octetStrings "not an octet string"
  tstInfoFromDer := answer r.tstInfos "not a TSTInfo"
  rsaFromPublicKeyDer := answer r.rsaKeys "not an RSA key"
  rsaVerify key kind digest sig :=
    if (key, kind, digest, sig) ∈ r.rsaSignatures then .ok () else .error "verification error"
  zstdDecode b fault := .ok ((r.frames.lookup b).getD [], fault)
  zipFileNotFound := "specified file not found in archive"
  fromUtf8Error _ := "invalid utf-8 sequence"
  embeddedRootsPem := ""

theorem readsExactly_recorded (r : Recording) : (recorded r).ReadsExactly := by
  intro b v
  change (Rfc8259.parseBytes (fun _ => none) b).elim (.error "not JSON") .ok = Except.ok v ↔ _
  rw [show (recorded r).readFloat = fun _ => none from rfl, ← Rfc8259.parseBytes_eq_some_iff]
  cases Rfc8259.parseBytes (fun _ => none) b <;> simp

theorem readsJson_recorded (r : Recording) : (recorded r).ReadsJson :=
  (readsExactly_recorded r).readsJson

theorem readsMinusZero_recorded (r : Recording) : (recorded r).ReadsMinusZero := by
  intro f hf
  cases hf

theorem ulidRoundTrip_recorded (r : Recording) : (recorded r).UlidRoundTrip := by
  intro u
  have hlt : u.toNat < 32 ^ 26 := u.isLt.trans (by norm_num)
  simp [recorded, Crockford.length_encode hlt, Crockford.decode_encode]

/-- `Number::to_string`. -/
def showNumber (E : Externals) : Number → String
  | .posInt n => toString n.toNat
  | .negInt i _ => toString i
  | .float f => E.showFloat f

/-- A character escaped by `{:?}`; the surrounding quote is escaped too. -/
def escapeDebug (E : Externals) (quote c : Char) : List Char :=
  if c = '\x00' then ['\\', '0']
  else if c = '\t' then ['\\', 't']
  else if c = '\r' then ['\\', 'r']
  else if c = '\n' then ['\\', 'n']
  else if c = quote ∨ c = '\\' then ['\\', c]
  else if E.isPrintable c then [c]
  else ['\\', 'u', '\x7b'] ++ Nat.toDigits 16 c.toNat ++ ['\x7d']

/-- `format!("{:?}", s)` of a string. -/
def debugStr (E : Externals) (s : String) : String :=
  String.ofList ('\"' :: ((chars s).flatMap (E.escapeDebug '\"') ++ ['\"']))

/-- `format!("{:?}", c)` of a character. -/
def debugChar (E : Externals) (c : Char) : String :=
  String.ofList ('\x27' :: (E.escapeDebug '\x27' c ++ ['\x27']))

end Externals

end Sealr
