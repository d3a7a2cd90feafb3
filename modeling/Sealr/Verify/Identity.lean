import Std.Data.TreeMap.Lemmas
import Sealr.Evidence.Certs
import Sealr.Lib.Log
import Sealr.Verify.Report

/-!
# Roots, certificates and console keys

Pass 2 of the verifier: which roots are trusted, which recorder certificates validate against
them, and which console keys may countersign.
-/

namespace Sealr.Verify

open Lib Evidence Bundle

structure VerifyOptions where
  rootPemOverride : Option String
  consoleKeyOverride : Option String
  nowUnix : Option Int
  /-- the extents pinned out of band, by stream -/
  expectedHighWater : String → Option UInt64

/-- Fingerprint to validated certificate. -/
abbrev CertMap := Std.TreeMap String ValidatedCert

abbrev ConsoleKeys := Std.TreeMap String VerifyingKey

/-- The identity material that the later passes use. -/
structure Identity where
  certMap : CertMap
  consoleKeys : ConsoleKeys
  revocations : Option SignedRevocationList

/-- Does a text occur in another? -/
def containsText (pat : List Char) : List Char → Bool
  | [] => pat.isEmpty
  | c :: cs => pat.isPrefixOf (c :: cs) || containsText pat cs

/-- `select_roots`: the roots, where they come from, and the findings. A PEM text that contains a
certificate header is not blank. -/
def selectRoots (E : Externals) (opts : VerifyOptions) (bundleRoots : Option RootsFile) :
    (List String × String) × List Finding :=
  match opts.rootPemOverride with
  | some pem => (([pem], "root source: --root override"), [])
  | none =>
    if containsText (chars "BEGIN CERTIFICATE") (chars E.embeddedRootsPem) then
      (([E.embeddedRootsPem], "root source: embedded release roots"), [])
    else
      let noRoot := (([], ""), [add .error .noTrustRoot
        "no trusted root available (bundle has none, none embedded, none supplied)"])
      match bundleRoots with
      | some roots =>
        if roots.roots.isEmpty then noRoot
        else
          ((roots.roots.map (·.certPem),
            "root source: bundle-pinned (see root_bundle_pinned finding)"),
            [add .warning .rootBundlePinned "no embedded or supplied root; trusting the bundle's own roots.json (a forged bundle could pin its own root — pass --root to pin an out-of-band root)"])
      | none => noRoot

/-! ## PEM encoding -/

def base64Table : List Char :=
  "ABCDEFGHIJKLMNOPQRSTUVWXYZabcdefghijklmnopqrstuvwxyz0123456789+/".toList

def base64Char (n : Nat) : Char := base64Table.getD (n % 64) 'A'

/-- `base64_encode`, three bytes at a time. -/
def base64Chars : Bytes → List Char
  | a :: b :: c :: rest =>
    let n := a.toNat * 0x10000 + b.toNat * 0x100 + c.toNat
    base64Char (n / 0x40000) :: base64Char (n / 0x1000) :: base64Char (n / 0x40) ::
      base64Char n :: base64Chars rest
  | [a, b] =>
    let n := a.toNat * 0x10000 + b.toNat * 0x100
    [base64Char (n / 0x40000), base64Char (n / 0x1000), base64Char (n / 0x40), '=']
  | [a] =>
    let n := a.toNat * 0x10000
    [base64Char (n / 0x40000), base64Char (n / 0x1000), '=', '=']
  | [] => []

/-- Lines of 64 characters, each with its line feed. -/
def pemLines : Nat → List Char → List Char
  | 0, _ => []
  | _, [] => []
  | fuel + 1, cs => cs.take 64 ++ '\n' :: pemLines fuel (cs.drop 64)

/-- `der_to_pem`. -/
def derToPem (der : Bytes) : String :=
  let b64 := base64Chars der
  "-----BEGIN CERTIFICATE-----\n" ++ String.ofList (pemLines b64.length b64) ++
    "-----END CERTIFICATE-----\n"

/-! ## Recorder certificates -/

/-- One turn of the loop of `build_cert_map`. -/
def certStep (E : Externals) (pems : List String) (rootPem : String) (nowUnix : Int)
    (map : CertMap) (pem : String) : CertMap × List Finding :=
  match validateChain E pem (pems.filter (· ≠ pem)) rootPem nowUnix with
  | .ok validated => (map.insert validated.fingerprint validated, [])
  | .error e =>
    (map, [add .warning .certUnvalidated
      ("a certificate in identity/certs.pem did not validate: " ++ e.display E)])

/-- `build_cert_map`. -/
def buildCertMap (E : Externals) (certsPem : Option String) (rootPems : List String)
    (nowUnix : Int) : CertMap × List Finding :=
  match certsPem with
  | none => ({}, [add .warning .identityMissing "bundle has no identity/certs.pem"])
  | some certsPem =>
    if rootPems.isEmpty then ({}, [])
    else
      match parsePemChain E certsPem with
      | .error _ =>
        ({}, [add .error .identityUnparseable "identity/certs.pem could not be parsed"])
      | .ok ders =>
        let pems := ders.map derToPem
        foldLog (certStep E pems ("\n".intercalate rootPems) nowUnix) {} pems

/-! ## Console keys -/

/-- The public keys of the roots that parse. -/
def rootKeys (E : Externals) (rootPems : List String) : List VerifyingKey :=
  rootPems.flatMap fun pem =>
    match parsePemChain E pem with
    | .error _ => []
    | .ok ders => ders.filterMap fun der =>
      match E.x509FromDer der with
      | .error _ => none
      | .ok cert => (VerifyingKey.fromBytes E cert.subjectPublicKey).toOption

/-- Does a check succeed? -/
def succeeds {ε α : Type} : Except ε α → Bool
  | .ok _ => true
  | .error _ => false

/-- One turn of the loop of `resolve_console_keys`. -/
def consoleKeyStep (E : Externals) (roots : List VerifyingKey) (keys : ConsoleKeys)
    (entry : AttestedConsoleKey) : ConsoleKeys × List Finding :=
  let keyId := entry.statement.keyId
  match VerifyingKey.fromSpkiPem E entry.statement.publicKeyPem with
  | .error e =>
    (keys, [add .warning .consoleKeyUnparseable ("console key " ++ keyId ++ ": " ++ e.display E)])
  | .ok key =>
    match entry.signature with
    | some sig =>
      if roots.any fun rk => succeeds (rk.verifyJcs E entry.statement.toJson sig
          "console key statement") then
        (keys.insert keyId key, [])
      else
        (keys, [add .error .consoleKeyAttestationInvalid ("console key " ++ keyId ++
          " statement signature does not verify with any trusted root")])
    | none =>
      (keys.insert keyId key, [add .warning .consoleKeyUnattested ("console key " ++ keyId ++
        " is bundle-pinned without root attestation")])

/-- `resolve_console_keys`. -/
def resolveConsoleKeys (E : Externals) (opts : VerifyOptions) (bundleRoots : Option RootsFile)
    (rootPems : List String) : ConsoleKeys × List Finding :=
  match opts.consoleKeyOverride with
  | some pem =>
    match VerifyingKey.fromSpkiPem E pem with
    | .ok k => (({} : ConsoleKeys).insert "override" k, [])
    | .error e => ({}, [add .error .consoleKeyInvalid ("--console-key: " ++ e.display E)])
  | none =>
    match bundleRoots with
    | none => ({}, [])
    | some roots => foldLog (consoleKeyStep E (rootKeys E rootPems)) {} roots.consoleKeys

end Sealr.Verify
