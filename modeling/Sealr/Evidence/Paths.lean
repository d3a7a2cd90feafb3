import Sealr.Lib.Walks
import Sealr.Evidence.Certs

/-!
# Certificate paths

`validate_chain` follows issuers up to the root, each time to the first certificate of the pool that
bears the issuer's name. A chain that it accepts is a path to the root in which every certificate is
signed by the next one's key (`validateChain_path`).
-/

namespace Sealr.Evidence

open Lib

section Defs

variable (E : Externals) (at_ : Int)

/-- The scan for an issuer of this name stops here: at its bearer, or at what does not parse. -/
def bears (name der : Bytes) : Bool :=
  match E.x509FromDer der with
  | .ok cert => cert.subject = name
  | .error _ => true

/-- The certificate is within its validity period. -/
def IsValid (der : Bytes) : Prop :=
  ∃ cert, E.x509FromDer der = .ok cert ∧ E.x509IsValidAt cert.notBefore cert.notAfter at_ = true

/-- The certificate is that of a CA. -/
def IsAuthority (der : Bytes) : Prop := ∃ cert, E.x509FromDer der = .ok cert ∧ isCa cert = true

/-- The certificate names the other one as its issuer and is signed by its key. -/
def IssuedBy (der issuerDer : Bytes) : Prop :=
  ∃ cert issuer, E.x509FromDer der = .ok cert ∧ E.x509FromDer issuerDer = .ok issuer ∧
    cert.issuer = issuer.subject ∧ E.x509VerifySignature der issuerDer = .ok ()

/-- What the certificate at which the scan stops has to pass. -/
def checkIssuer (currentDer : Bytes) (current : X509Certificate) (candDer : Bytes) : Result Unit := do
  let cand ← certFromDer E candDer "pool"
  checkValidity E cand at_ "intermediate"
  if isCa cand then verifySignedBy E currentDer current candDer "intermediate"
  else .error (.certificate ("intermediate " ++ commonName cand ++ " is not a CA"))

/-- One turn of the loop of `validate_chain`. -/
def stepUp (pool : List Bytes) (rootDer : Bytes) (root : X509Certificate) (currentDer : Bytes) :
    Result (Step Bytes) := do
  let current ← certFromDer E currentDer "chain"
  if current.issuer = root.subject then
    verifySignedBy E currentDer current rootDer "root"
    if isCa root then return .arrived else .error (.certificate "root is not a CA")
  else
    match ← findIssuer E at_ currentDer current pool with
    | some der => return .on der
    | none => .error (.certificate ("no issuer found for " ++ E.debugStr (commonName current)))

/-- The two ends of a chain: what `validate_chain` reads of leaf and root, both valid at the time. -/
structure Ends (leafPem rootPem : String) where
  leafDer : Bytes
  rootDer : Bytes
  leaf : X509Certificate
  root : X509Certificate
  publicKey : VerifyingKey
  firstCert_leaf : firstCert E leafPem = .ok leafDer
  firstCert_root : firstCert E rootPem = .ok rootDer
  fromDer_leaf : E.x509FromDer leafDer = .ok leaf
  fromDer_root : E.x509FromDer rootDer = .ok root
  asn1Time : E.asn1TimeError at_ = none
  valid_leaf : E.x509IsValidAt leaf.notBefore leaf.notAfter at_ = true
  valid_root : E.x509IsValidAt root.notBefore root.notAfter at_ = true
  fromBytes_leaf : VerifyingKey.fromBytes E leaf.subjectPublicKey = .ok publicKey

end Defs

section Chains

variable {E : Externals} {at_ : Int} {leafPem rootPem : String} {pems : List String}
  {pool : List Bytes} {v : ValidatedCert}

/-- The texts and the time determine the ends. -/
instance : Subsingleton (Ends E at_ leafPem rootPem) := by
  refine ⟨?_⟩
  rintro ⟨leafDer, rootDer, leaf, root, key, hleafDer, hrootDer, hleaf, hroot, -, -, -, hkey⟩
    ⟨leafDer', rootDer', leaf', root', key', hleafDer', hrootDer', hleaf', hroot', -, -, -, hkey'⟩
  obtain rfl : leafDer = leafDer' := Except.ok.inj (hleafDer.symm.trans hleafDer')
  obtain rfl : rootDer = rootDer' := Except.ok.inj (hrootDer.symm.trans hrootDer')
  obtain rfl : leaf = leaf' := Except.ok.inj (hleaf.symm.trans hleaf')
  obtain rfl : root = root' := Except.ok.inj (hroot.symm.trans hroot')
  obtain rfl : key = key' := Except.ok.inj (hkey.symm.trans hkey')
  rfl

/-- What is returned of the leaf. -/
def Ends.validated (ends : Ends E at_ leafPem rootPem) : ValidatedCert where
  subjectCommonName := commonName ends.leaf
  publicKey := ends.publicKey
  fingerprint := blake3Hex E ends.leafDer
  notBeforeUnix := ends.leaf.notBefore
  notAfterUnix := ends.leaf.notAfter

/-- The turn of the loop below the root of the chain. -/
abbrev Ends.step (ends : Ends E at_ leafPem rootPem) (pool : List Bytes) :
    Bytes → Result (Step Bytes) :=
  stepUp E at_ pool ends.rootDer ends.root

/-! ## The checks -/

section Checks

variable {der currentDer rootDer : Bytes} {cert current root : X509Certificate} {what : String}

@[simp]
theorem certFromDer_eq_ok : certFromDer E der what = .ok cert ↔ E.x509FromDer der = .ok cert := by
  unfold certFromDer
  cases E.x509FromDer der with
  | ok c => simp
  | error e => simp

@[simp]
theorem checkValidity_eq_ok {u : Unit} :
    checkValidity E cert at_ what = .ok u ↔
      E.x509IsValidAt cert.notBefore cert.notAfter at_ = true := by
  unfold checkValidity
  split_ifs with h <;> simp [h]

@[simp]
theorem verifySignedBy_eq_ok {u : Unit} :
    verifySignedBy E currentDer current der what = .ok u ↔
      E.x509VerifySignature currentDer der = .ok () := by
  unfold verifySignedBy
  cases h : E.x509VerifySignature currentDer der with
  | ok _ => exact iff_of_true rfl rfl
  | error e => simp

theorem checkIssuer_eq_ok {u : Unit} :
    checkIssuer E at_ currentDer current der = .ok u ↔ IsValid E at_ der ∧ IsAuthority E der ∧
      E.x509VerifySignature currentDer der = .ok () := by
  unfold checkIssuer IsValid IsAuthority
  simp only [bind_eq_ok, certFromDer_eq_ok, checkValidity_eq_ok]
  constructor
  · rintro ⟨cand, hcand, -, hvalid, h⟩
    split_ifs at h with hca
    exact ⟨⟨cand, hcand, hvalid⟩, ⟨cand, hcand, hca⟩, verifySignedBy_eq_ok.mp h⟩
  · rintro ⟨⟨cand, hcand, hvalid⟩, ⟨cand', hcand', hca⟩, hsigned⟩
    obtain rfl : cand = cand' := Except.ok.inj (hcand.symm.trans hcand')
    refine ⟨cand, hcand, (), hvalid, ?_⟩
    rw [hca, if_pos rfl]
    exact verifySignedBy_eq_ok.mpr hsigned

theorem bears_of_ok {name : Bytes} (h : E.x509FromDer der = .ok cert) :
    bears E name der = decide (cert.subject = name) := by
  rw [bears, h]

theorem bears_of_error {name : Bytes} {e : String} (h : E.x509FromDer der = .error e) :
    bears E name der = true := by
  rw [bears, h]

/-- **The search for an issuer** asks the first certificate at which it stops. -/
theorem findIssuer_eq (pool : List Bytes) :
    findIssuer E at_ currentDer current pool =
      match pool.find? (bears E current.issuer) with
      | none => .ok none
      | some der => (checkIssuer E at_ currentDer current der).map fun _ => some der := by
  induction pool with
  | nil => rfl
  | cons candDer pool ih =>
    rw [List.find?_cons]
    cases hcand : E.x509FromDer candDer with
    | error e =>
      rw [bears_of_error hcand]
      dsimp only
      unfold findIssuer checkIssuer certFromDer
      rw [hcand]
      rfl
    | ok cand =>
      rw [bears_of_ok hcand]
      by_cases hname : cand.subject = current.issuer
      · rw [decide_eq_true hname]
        dsimp only
        unfold findIssuer checkIssuer certFromDer
        rw [hcand]
        simp only [bind, Except.bind, hname, ↓reduceIte]
        cases hvalid : checkValidity E cand at_ "intermediate" with
        | error e => rfl
        | ok u =>
          cases hca : isCa cand with
          | false => rfl
          | true => cases verifySignedBy E currentDer current candDer "intermediate" <;> rfl
      · rw [decide_eq_false hname]
        unfold findIssuer certFromDer
        rw [hcand]
        simp only [bind, Except.bind, hname, ↓reduceIte]
        exact ih

theorem findIssuer_eq_some {next : Bytes} :
    findIssuer E at_ currentDer current pool = .ok (some next) ↔
      pool.find? (bears E current.issuer) = some next ∧ IsValid E at_ next ∧
        IsAuthority E next ∧ E.x509VerifySignature currentDer next = .ok () := by
  rw [findIssuer_eq]
  cases pool.find? (bears E current.issuer) with
  | none => simp
  | some cand =>
    dsimp only
    constructor
    · intro h
      cases hu : checkIssuer E at_ currentDer current cand with
      | error e =>
        rw [hu] at h
        cases h
      | ok u =>
        rw [hu] at h
        obtain rfl : cand = next := Option.some.inj (Except.ok.inj h)
        exact ⟨rfl, checkIssuer_eq_ok.mp hu⟩
    · rintro ⟨hcand, h⟩
      obtain rfl : cand = next := Option.some.inj hcand
      have hu : checkIssuer E at_ currentDer current cand = .ok () := checkIssuer_eq_ok.mpr h
      rw [hu]
      rfl

end Checks

/-! ## The walk -/

section Walk

variable {der next rootDer : Bytes} {root : X509Certificate}

theorem stepUp_eq_arrived :
    stepUp E at_ pool rootDer root der = .ok .arrived ↔
      ∃ cert, E.x509FromDer der = .ok cert ∧ cert.issuer = root.subject ∧
        E.x509VerifySignature der rootDer = .ok () ∧ isCa root = true := by
  unfold stepUp
  simp only [bind_eq_ok, certFromDer_eq_ok]
  refine exists_congr fun cert => and_congr_right fun _ => ?_
  by_cases hroot : cert.issuer = root.subject
  · rw [if_pos hroot]
    simp only [bind_eq_ok, verifySignedBy_eq_ok, hroot, true_and, exists_const]
    refine and_congr_right fun _ => ?_
    cases isCa root <;> simp [pure, Except.pure]
  · rw [if_neg hroot]
    refine iff_of_false ?_ fun h => hroot h.1
    rw [bind_eq_ok]
    rintro ⟨found, -, h⟩
    cases found <;> cases h

theorem stepUp_eq_on :
    stepUp E at_ pool rootDer root der = .ok (.on next) ↔
      ∃ cert, E.x509FromDer der = .ok cert ∧ cert.issuer ≠ root.subject ∧
        pool.find? (bears E cert.issuer) = some next ∧ IsValid E at_ next ∧
        IsAuthority E next ∧ E.x509VerifySignature der next = .ok () := by
  unfold stepUp
  simp only [bind_eq_ok, certFromDer_eq_ok]
  refine exists_congr fun cert => and_congr_right fun _ => ?_
  by_cases hroot : cert.issuer = root.subject
  · rw [if_pos hroot]
    refine iff_of_false ?_ fun h => h.1 hroot
    rw [bind_eq_ok]
    rintro ⟨-, -, h⟩
    cases hca : isCa root <;> simp [hca, pure, Except.pure] at h
  · rw [if_neg hroot, bind_eq_ok, ← findIssuer_eq_some]
    simp only [hroot, ne_eq, not_false_eq_true, true_and]
    constructor
    · rintro ⟨found, hfound, h⟩
      cases found with
      | none => cases h
      | some cand =>
        obtain rfl : cand = next := Step.on.inj (Except.ok.inj h)
        exact hfound
    · exact fun hfound => ⟨some next, hfound, rfl⟩

theorem walkUp_eq_walk (hops : Nat) :
    walkUp E at_ pool rootDer root hops der =
      walk (stepUp E at_ pool rootDer root) (.certificate "chain too deep") hops der := by
  induction hops generalizing der with
  | zero => rfl
  | succ hops ih =>
    unfold walkUp walk stepUp
    cases certFromDer E der "chain" with
    | error e => rfl
    | ok cert =>
      by_cases hroot : cert.issuer = root.subject
      · simp only [bind, Except.bind, if_pos hroot]
        cases verifySignedBy E der cert rootDer "root" with
        | error e => rfl
        | ok u => cases isCa root <;> rfl
      · simp only [bind, Except.bind, if_neg hroot]
        cases findIssuer E at_ der cert pool with
        | error e => rfl
        | ok found =>
          cases found with
          | none => rfl
          | some next => exact ih

end Walk

/-! ## The chain -/

/-- **`validate_chain` accepts exactly the leaves with a trail to the root.** -/
theorem validateChain_eq_ok :
    validateChain E leafPem pems rootPem at_ = .ok v ↔
      ∃ (ends : Ends E at_ leafPem rootPem) (pool : List Bytes) (path : List Bytes),
        parsePool E pems = .ok pool ∧ Trail (ends.step pool) ends.leafDer path ∧
          path.length < 8 ∧ v = ends.validated := by
  unfold validateChain
  simp only [bind_eq_ok, certFromDer_eq_ok]
  constructor
  · rintro ⟨leafDer, hleafDer, rootDer, hrootDer, pool, hpool, leaf, hleaf, root, hroot, h⟩
    cases htime : E.asn1TimeError at_ with
    | some e => simp [htime] at h
    | none =>
      simp only [htime, bind_eq_ok, checkValidity_eq_ok, walkUp_eq_walk] at h
      obtain ⟨-, hvalidLeaf, -, hvalidRoot, ⟨⟩, hwalk, publicKey, hkey, h⟩ := h
      obtain ⟨path, htrail, hlt⟩ := walk_eq_ok.mp hwalk
      exact ⟨⟨leafDer, rootDer, leaf, root, publicKey, hleafDer, hrootDer, hleaf, hroot, htime,
        hvalidLeaf, hvalidRoot, hkey⟩, pool, path, hpool, htrail, hlt, (Except.ok.inj h).symm⟩
  · rintro ⟨ends, pool, path, hpool, htrail, hlt, rfl⟩
    refine ⟨_, ends.firstCert_leaf, _, ends.firstCert_root, pool, hpool, _, ends.fromDer_leaf, _,
      ends.fromDer_root, ?_⟩
    simp only [ends.asn1Time, bind_eq_ok, checkValidity_eq_ok, walkUp_eq_walk]
    exact ⟨(), ends.valid_leaf, (), ends.valid_root, (), walk_eq_ok.mpr ⟨path, htrail, hlt⟩, _,
      ends.fromBytes_leaf, rfl⟩

/-- What a trail of the loop is: a path of certificates of the pool to the root. -/
theorem Ends.path_of_trail (ends : Ends E at_ leafPem rootPem) {der : Bytes} {path : List Bytes}
    (h : Trail (ends.step pool) der path) :
    path ⊆ pool ∧ (der :: (path ++ [ends.rootDer])).IsChain (IssuedBy E) ∧
      (∀ d ∈ path ++ [ends.rootDer], IsAuthority E d) ∧ ∀ d ∈ path, IsValid E at_ d := by
  have hon : ∀ a b, ends.step pool a = .ok (.on b) →
      IssuedBy E a b ∧ b ∈ pool ∧ IsAuthority E b ∧ IsValid E at_ b := by
    intro a b hstep
    obtain ⟨cert, hcert, -, hfind, hvalid, hca, hsigned⟩ := stepUp_eq_on.mp hstep
    obtain ⟨issuer, hissuer, hin⟩ := hvalid
    have hname : decide (issuer.subject = cert.issuer) = true :=
      (bears_of_ok hissuer).symm.trans (List.find?_some hfind)
    exact ⟨⟨cert, issuer, hcert, hissuer, (of_decide_eq_true hname).symm, hsigned⟩,
      List.mem_of_find?_eq_some hfind, hca, issuer, hissuer, hin⟩
  have harrived : ∀ a, ends.step pool a = .ok .arrived →
      IssuedBy E a ends.rootDer ∧ isCa ends.root = true := by
    intro a hstep
    obtain ⟨cert, hcert, hname, hsigned, hca⟩ := stepUp_eq_arrived.mp hstep
    exact ⟨⟨cert, ends.root, hcert, ends.fromDer_root, hname, hsigned⟩, hca⟩
  have hroot : IsAuthority E ends.rootDer := ⟨ends.root, ends.fromDer_root, (harrived _ h.last).2⟩
  have hpath := h.forall_mem fun a b hstep => (hon a b hstep).2
  refine ⟨fun d hd => (hpath d hd).1,
    h.isChain (fun a b hstep => (hon a b hstep).1) fun a hstep => (harrived a hstep).1, ?_,
    fun d hd => (hpath d hd).2.2⟩
  intro d hd
  rcases List.mem_append.mp hd with hd | hd
  · exact (hpath d hd).2.1
  · rwa [List.mem_singleton.mp hd]

/-- **Certificate path soundness**: what `validate_chain` accepts has a path of certificates of the
pool, at most seven, each signed by the next one's key and the last by the root's, all of them CAs
and all valid at the time; and what is returned is the leaf's. -/
theorem validateChain_path (h : validateChain E leafPem pems rootPem at_ = .ok v) :
    ∃ (leafDer rootDer : Bytes) (leaf : X509Certificate) (key : VerifyingKey)
      (pool path : List Bytes),
      firstCert E leafPem = .ok leafDer ∧ firstCert E rootPem = .ok rootDer ∧
        parsePool E pems = .ok pool ∧ path.length ≤ 7 ∧ path ⊆ pool ∧
        (leafDer :: (path ++ [rootDer])).IsChain (IssuedBy E) ∧
        (∀ der ∈ path ++ [rootDer], IsAuthority E der) ∧
        (∀ der ∈ leafDer :: (path ++ [rootDer]), IsValid E at_ der) ∧
        E.x509FromDer leafDer = .ok leaf ∧ VerifyingKey.fromBytes E leaf.subjectPublicKey = .ok key ∧
        v.publicKey = key ∧ v.fingerprint = blake3Hex E leafDer ∧ v.notBeforeUnix = leaf.notBefore ∧
        v.notAfterUnix = leaf.notAfter := by
  obtain ⟨ends, pool, path, hpool, htrail, hlt, rfl⟩ := validateChain_eq_ok.mp h
  obtain ⟨hsub, hchain, hca, hpathValid⟩ := ends.path_of_trail htrail
  have hvalid : ∀ der ∈ ends.leafDer :: (path ++ [ends.rootDer]), IsValid E at_ der := by
    intro der hder
    rcases List.mem_cons.mp hder with rfl | hder
    · exact ⟨ends.leaf, ends.fromDer_leaf, ends.valid_leaf⟩
    · rcases List.mem_append.mp hder with hder | hder
      · exact hpathValid der hder
      · rw [List.mem_singleton.mp hder]
        exact ⟨ends.root, ends.fromDer_root, ends.valid_root⟩
  exact ⟨ends.leafDer, ends.rootDer, ends.leaf, ends.publicKey, pool, path, ends.firstCert_leaf,
    ends.firstCert_root, hpool, Nat.le_of_lt_succ hlt, hsub, hchain, hca, hvalid,
    ends.fromDer_leaf, ends.fromBytes_leaf, rfl, rfl, rfl, rfl⟩

end Chains

/-! A root, a tenant CA with its certificates of now and before, a CA below the tenant, and a
recorder at the tenant and at that CA. -/

namespace Sample.Chain

/-- The PEM text of a certificate in base64. -/
def pem (lines : List String) : String :=
  "-----BEGIN CERTIFICATE-----\n" ++ String.join (lines.map (· ++ "\n")) ++
    "-----END CERTIFICATE-----\n"

def rootName : Bytes := bytesBE 17 0x300f310d300b06035504030c04526f6f74

def tenantName : Bytes := bytesBE 19 0x3011310f300d06035504030c0654656e616e74

def subName : Bytes := bytesBE 16 0x300e310c300a06035504030c03537562

def leafName : Bytes := bytesBE 18 0x3010310e300c06035504030c057265632d31

def rootDer : Bytes :=
  [0x3081df308192a003020102020101300506032b6570300f310d300b0603550403,
    0x0c04526f6f74301e170d3236303130313030303030305a170d33363031303130,
    0x30303030305a300f310d300b06035504030c04526f6f74302a300506032b6570,
    0x0321008a88e3dd7409f195fd52db2d3cba5d72ca6709bf1d94121bf3748801b4,
    0x0f6f5ca3133011300f0603551d130101ff040530030101ff300506032b657003,
    0x410069dc1e37edc77f8730a461f9d40e1c93680e2a4c06ad2615d74837f18c03,
    0x99d83b3238c7e0bf25079fdd6d0a71f6a189b0b534844aebcf056fc5ccded892].flatMap (bytesBE 32) ++
    bytesBE 2 0x5e00

def rootPem : String := pem [
  "MIHfMIGSoAMCAQICAQEwBQYDK2VwMA8xDTALBgNVBAMMBFJvb3QwHhcNMjYwMTAx",
  "MDAwMDAwWhcNMzYwMTAxMDAwMDAwWjAPMQ0wCwYDVQQDDARSb290MCowBQYDK2Vw",
  "AyEAiojj3XQJ8ZX9UtstPLpdcspnCb8dlBIb83SIAbQPb1yjEzARMA8GA1UdEwEB",
  "/wQFMAMBAf8wBQYDK2VwA0EAadweN+3Hf4cwpGH51A4ck2gOKkwGrSYV10g38YwD",
  "mdg7MjjH4L8lB5/dbQpx9qGJsLU0hErrzwVvxcze2JJeAA=="]

def rootCert : X509Certificate where
  subject := rootName
  issuer := rootName
  commonName := some "Root"
  subjectPublicKey := bytesBE 32 0x8a88e3dd7409f195fd52db2d3cba5d72ca6709bf1d94121bf3748801b40f6f5c
  notBefore := 1767225600
  notAfter := 2082758400
  basicConstraintsCa := true

/-- Issued by the root, with a path length of 0. -/
def tenantDer : Bytes :=
  [0x3081e5308198a003020102020201f4300506032b6570300f310d300b06035504,
    0x030c04526f6f74301e170d3236303130313030303030305a170d333630313031,
    0x3030303030305a3011310f300d06035504030c0654656e616e74302a30050603,
    0x2b65700321006e7a1cdd29b0b78fd13af4c5598feff4ef2a97166e3ca6f2e4fb,
    0xfccd80505bf1a316301430120603551d130101ff040830060101ff0201003005,
    0x06032b6570034100ad14ebea4890990e873b02cba748d90b4e99097fe385413a,
    0x67b1b39b43a35d2561a707881c47b0829d389dfa5c8998442cb1a4eac2af972c].flatMap (bytesBE 32) ++
    bytesBE 8 0x8c2671bfe471cc07

def tenantPem : String := pem [
  "MIHlMIGYoAMCAQICAgH0MAUGAytlcDAPMQ0wCwYDVQQDDARSb290MB4XDTI2MDEw",
  "MTAwMDAwMFoXDTM2MDEwMTAwMDAwMFowETEPMA0GA1UEAwwGVGVuYW50MCowBQYD",
  "K2VwAyEAbnoc3Smwt4/ROvTFWY/v9O8qlxZuPKby5Pv8zYBQW/GjFjAUMBIGA1Ud",
  "EwEB/wQIMAYBAf8CAQAwBQYDK2VwA0EArRTr6kiQmQ6HOwLLp0jZC06ZCX/jhUE6",
  "Z7Gzm0OjXSVhpweIHEewgp04nfpciZhELLGk6sKvlyyMJnG/5HHMBw=="]

def tenantCert : X509Certificate where
  subject := tenantName
  issuer := rootName
  commonName := some "Tenant"
  subjectPublicKey := bytesBE 32 0x6e7a1cdd29b0b78fd13af4c5598feff4ef2a97166e3ca6f2e4fbfccd80505bf1
  notBefore := 1767225600
  notAfter := 2082758400
  basicConstraintsCa := true

/-- The tenant's certificate before it was renewed. -/
def expiredDer : Bytes :=
  [0x3081e4308197a003020102020110300506032b6570300f310d300b0603550403,
    0x0c04526f6f74301e170d3236303130313030303030305a170d32363036303130,
    0x30303030305a3011310f300d06035504030c0654656e616e74302a300506032b,
    0x65700321006e7a1cdd29b0b78fd13af4c5598feff4ef2a97166e3ca6f2e4fbfc,
    0xcd80505bf1a316301430120603551d130101ff040830060101ff020100300506,
    0x032b657003410010d05f0b0ba6c744db0d0776ba03649b0187c72f76057a74b2,
    0xc85c7037d9b9bde88ffea46c6d1cf19bccef3c32d1b0543d9a62d7e9b504d38b].flatMap (bytesBE 32) ++
    bytesBE 7 0x0b98a6164cab08

def expiredPem : String := pem [
  "MIHkMIGXoAMCAQICARAwBQYDK2VwMA8xDTALBgNVBAMMBFJvb3QwHhcNMjYwMTAx",
  "MDAwMDAwWhcNMjYwNjAxMDAwMDAwWjARMQ8wDQYDVQQDDAZUZW5hbnQwKjAFBgMr",
  "ZXADIQBuehzdKbC3j9E69MVZj+/07yqXFm48pvLk+/zNgFBb8aMWMBQwEgYDVR0T",
  "AQH/BAgwBgEB/wIBADAFBgMrZXADQQAQ0F8LC6bHRNsNB3a6A2SbAYfHL3YFenSy",
  "yFxwN9m5veiP/qRsbRzxm8zvPDLRsFQ9mmLX6bUE04sLmKYWTKsI"]

def expiredCert : X509Certificate where
  subject := tenantName
  issuer := rootName
  commonName := some "Tenant"
  subjectPublicKey := bytesBE 32 0x6e7a1cdd29b0b78fd13af4c5598feff4ef2a97166e3ca6f2e4fbfccd80505bf1
  notBefore := 1767225600
  notAfter := 1780272000
  basicConstraintsCa := true

/-- Issued by the tenant. -/
def leafDer : Bytes :=
  [0x3081cd308180a003020102020112300506032b65703011310f300d0603550403,
    0x0c0654656e616e74301e170d3236303130313030303030305a170d3336303130,
    0x313030303030305a3010310e300c06035504030c057265632d31302a30050603,
    0x2b65700321008139770ea87d175f56a35466c34c7ecccb8d8a91b4ee37a25df6,
    0x0f5b8fc9b394300506032b65700341001a537a6e9515b72b06b305108d8a42f7,
    0xb4bba5f0be2df68be22b5cbdf90498d9a7ed763367b5261d75d8def41c59f624].flatMap (bytesBE 32) ++
    bytesBE 16 0x174c567f94602ae6eacea4920f5d0908

def leafPem : String := pem [
  "MIHNMIGAoAMCAQICARIwBQYDK2VwMBExDzANBgNVBAMMBlRlbmFudDAeFw0yNjAx",
  "MDEwMDAwMDBaFw0zNjAxMDEwMDAwMDBaMBAxDjAMBgNVBAMMBXJlYy0xMCowBQYD",
  "K2VwAyEAgTl3Dqh9F19Wo1Rmw0x+zMuNipG07jeiXfYPW4/Js5QwBQYDK2VwA0EA",
  "GlN6bpUVtysGswUQjYpC97S7pfC+LfaL4itcvfkEmNmn7XYzZ7UmHXXY3vQcWfYk",
  "F0xWf5RgKubqzqSSD10JCA=="]

def leafCert : X509Certificate where
  subject := leafName
  issuer := tenantName
  commonName := some "rec-1"
  subjectPublicKey := bytesBE 32 0x8139770ea87d175f56a35466c34c7ecccb8d8a91b4ee37a25df60f5b8fc9b394
  notBefore := 1767225600
  notAfter := 2082758400
  basicConstraintsCa := false

/-- A CA issued by the tenant. -/
def subDer : Bytes :=
  [0x3081e0308193a003020102020111300506032b65703011310f300d0603550403,
    0x0c0654656e616e74301e170d3236303130313030303030305a170d3336303130,
    0x313030303030305a300e310c300a06035504030c03537562302a300506032b65,
    0x700321008a875fff1eb38451577acd5afee405456568dd7c89e090863a0557bc,
    0x7af49f17a3133011300f0603551d130101ff040530030101ff300506032b6570,
    0x03410045d9cf754cc343b6e59c81df36c09194f34bfa28d7697a9db8474ea854,
    0x25b06d317ead2b362bf254b05d9720cd5e7f877b78ac01b4151c076de02799c6].flatMap (bytesBE 32) ++
    bytesBE 3 0x2bf20d

def subPem : String := pem [
  "MIHgMIGToAMCAQICAREwBQYDK2VwMBExDzANBgNVBAMMBlRlbmFudDAeFw0yNjAx",
  "MDEwMDAwMDBaFw0zNjAxMDEwMDAwMDBaMA4xDDAKBgNVBAMMA1N1YjAqMAUGAytl",
  "cAMhAIqHX/8es4RRV3rNWv7kBUVlaN18ieCQhjoFV7x69J8XoxMwETAPBgNVHRMB",
  "Af8EBTADAQH/MAUGAytlcANBAEXZz3VMw0O25ZyB3zbAkZTzS/oo12l6nbhHTqhU",
  "JbBtMX6tKzYr8lSwXZcgzV5/h3t4rAG0FRwHbeAnmcYr8g0="]

def subCert : X509Certificate where
  subject := subName
  issuer := tenantName
  commonName := some "Sub"
  subjectPublicKey := bytesBE 32 0x8a875fff1eb38451577acd5afee405456568dd7c89e090863a0557bc7af49f17
  notBefore := 1767225600
  notAfter := 2082758400
  basicConstraintsCa := true

/-- Issued by the CA below the tenant. -/
def subLeafDer : Bytes :=
  [0x3081c9307da003020102020113300506032b6570300e310c300a06035504030c,
    0x03537562301e170d3236303130313030303030305a170d333630313031303030,
    0x3030305a3010310e300c06035504030c057265632d31302a300506032b657003,
    0x21008139770ea87d175f56a35466c34c7ecccb8d8a91b4ee37a25df60f5b8fc9,
    0xb394300506032b6570034100bd45203245ae3efdd7ababb101d8fb43cc1a69e3,
    0x229dd0ab2fa85433f1c83a0db8212de54b7f06ff5a420f30ec9761e2c2809f51].flatMap (bytesBE 32) ++
    bytesBE 12 0x748e4dfbc09d9b67cba6dc0d

def subLeafPem : String := pem [
  "MIHJMH2gAwIBAgIBEzAFBgMrZXAwDjEMMAoGA1UEAwwDU3ViMB4XDTI2MDEwMTAw",
  "MDAwMFoXDTM2MDEwMTAwMDAwMFowEDEOMAwGA1UEAwwFcmVjLTEwKjAFBgMrZXAD",
  "IQCBOXcOqH0XX1ajVGbDTH7My42KkbTuN6Jd9g9bj8mzlDAFBgMrZXADQQC9RSAy",
  "Ra4+/derq7EB2PtDzBpp4yKd0KsvqFQz8cg6DbghLeVLfwb/WkIPMOyXYeLCgJ9R",
  "dI5N+8Cdm2fLptwN"]

def subLeafCert : X509Certificate where
  subject := leafName
  issuer := subName
  commonName := some "rec-1"
  subjectPublicKey := bytesBE 32 0x8139770ea87d175f56a35466c34c7ecccb8d8a91b4ee37a25df60f5b8fc9b394
  notBefore := 1767225600
  notAfter := 2082758400
  basicConstraintsCa := false

/-- The recorder's public key, of seed 2. -/
def leafKey : Digest :=
  ⟨bytesBE 32 0x8139770ea87d175f56a35466c34c7ecccb8d8a91b4ee37a25df60f5b8fc9b394, by decide⟩

def recording : Externals.Recording where
  blake3 := [
    (leafDer, ofHex "9217b2a56c7d20a9b39e3524ef8d4f56cf84bd7ba80ffea7d533343906252f1e"),
    (subLeafDer, ofHex "f6830299eb6edb49c3e2419cca11e263738072a99afd35c5d5705c2eead60644")]
  keys := [(.replicate 32 2, leafKey)]
  pems := [(asBytes rootPem, [⟨"CERTIFICATE", rootDer⟩]),
    (asBytes tenantPem, [⟨"CERTIFICATE", tenantDer⟩]),
    (asBytes expiredPem, [⟨"CERTIFICATE", expiredDer⟩]),
    (asBytes leafPem, [⟨"CERTIFICATE", leafDer⟩]),
    (asBytes subPem, [⟨"CERTIFICATE", subDer⟩]),
    (asBytes subLeafPem, [⟨"CERTIFICATE", subLeafDer⟩])]
  certificates := [(rootDer, rootCert), (tenantDer, tenantCert), (expiredDer, expiredCert),
    (leafDer, leafCert), (subDer, subCert), (subLeafDer, subLeafCert)]
  issued := [(rootDer, rootDer), (tenantDer, rootDer), (expiredDer, rootDer), (leafDer, tenantDer),
    (leafDer, expiredDer), (subDer, tenantDer), (subDer, expiredDer), (subLeafDer, subDer)]

def externals : Externals := .recorded recording

theorem firstLine_pem {line : String} (h : line.length = 64) (lines : List String) :
    ((pem (line :: lines)).toList.drop 28).take 64 = line.toList := by
  have hheader : "-----BEGIN CERTIFICATE-----\n".toList.length = 28 := by decide
  have hline : line.toList.length = 64 := by rw [String.length_toList, h]
  unfold pem
  rw [String.toList_append, String.toList_append, List.append_assoc, List.drop_left' hheader,
    List.map_cons, String.join_cons, String.toList_append, String.toList_append, List.append_assoc,
    List.append_assoc, List.take_left' hline]

theorem nodup_pems : (recording.pems.map Prod.fst).Nodup := by
  have htexts : [rootPem, tenantPem, expiredPem, leafPem, subPem, subLeafPem].Nodup := by
    refine List.Nodup.of_map (fun text => (text.toList.drop 28).take 64) ?_
    simp only [rootPem, tenantPem, expiredPem, leafPem, subPem, subLeafPem, List.map_cons]
    repeat rw [firstLine_pem rfl]
    decide
  have hkeys : recording.pems.map Prod.fst =
      [rootPem, tenantPem, expiredPem, leafPem, subPem, subLeafPem].map asBytes := by
    simp only [recording, List.map_cons, List.map_nil]
  rw [hkeys]
  exact htexts.map asBytes_injective

theorem parsePemChain_eq {text : String} {der : Bytes}
    (h : (asBytes text, [⟨"CERTIFICATE", der⟩]) ∈ recording.pems) :
    parsePemChain externals text = .ok [der] :=
  parsePemChain_blocks ((Value.lookup_eq_some_iff nodup_pems).mpr h)

theorem parsePemChain_root : parsePemChain externals rootPem = .ok [rootDer] :=
  parsePemChain_eq (.head _)

theorem parsePemChain_tenant : parsePemChain externals tenantPem = .ok [tenantDer] :=
  parsePemChain_eq (.tail _ (.head _))

theorem parsePemChain_leaf : parsePemChain externals leafPem = .ok [leafDer] :=
  parsePemChain_eq (.tail _ (.tail _ (.tail _ (.head _))))

theorem nodup_certificates : (recording.certificates.map Prod.fst).Nodup := by
  have hders : [rootDer, tenantDer, expiredDer, leafDer, subDer, subLeafDer].Nodup := by decide
  exact hders

theorem fromDer_eq {der : Bytes} {cert : X509Certificate}
    (h : (der, cert) ∈ recording.certificates) : externals.x509FromDer der = .ok cert :=
  x509FromDer_eq ((Value.lookup_eq_some_iff nodup_certificates).mpr h)

theorem fromDer_tenant : externals.x509FromDer tenantDer = .ok tenantCert :=
  fromDer_eq (.tail _ (.head _))

theorem fromDer_root : externals.x509FromDer rootDer = .ok rootCert :=
  fromDer_eq (.head _)

theorem firstCert_root : firstCert externals rootPem = .ok rootDer :=
  firstCert_eq parsePemChain_root

theorem asn1Time_none : externals.asn1TimeError 1786453200 = none := rfl

theorem valid_root :
    externals.x509IsValidAt rootCert.notBefore rootCert.notAfter 1786453200 = true := by
  decide

def ends : Ends externals 1786453200 leafPem rootPem where
  leafDer := leafDer
  rootDer := rootDer
  leaf := leafCert
  root := rootCert
  publicKey := ⟨leafKey⟩
  firstCert_leaf := firstCert_eq parsePemChain_leaf
  firstCert_root := firstCert_root
  fromDer_leaf := fromDer_eq (.tail _ (.tail _ (.tail _ (.head _))))
  fromDer_root := fromDer_root
  asn1Time := asn1Time_none
  valid_leaf := by decide
  valid_root := valid_root
  fromBytes_leaf := by decide

theorem trail (rest : List Bytes) :
    Trail (ends.step (tenantDer :: rest)) leafDer [tenantDer] := by
  have hfind : (tenantDer :: rest).find? (bears externals leafCert.issuer) = some tenantDer := by
    rw [List.find?_cons, bears_of_ok fromDer_tenant]
    rfl
  refine .on (stepUp_eq_on.mpr ⟨leafCert, ends.fromDer_leaf, ?_, hfind,
    ⟨tenantCert, fromDer_tenant, by decide⟩, ⟨tenantCert, fromDer_tenant, rfl⟩, ?_⟩)
    (.arrived (stepUp_eq_arrived.mpr ⟨tenantCert, fromDer_tenant, ?_, ?_, ?_⟩))
  · decide
  · simp [externals, Externals.recorded, recording]
  · decide
  · simp [externals, Externals.recorded, recording, ends]
  · decide

end Sample.Chain

/-- The chain of the recorder leads through the tenant. -/
theorem validateChain_path_sample :
    ∃ path ⊆ [Sample.Chain.tenantDer], Sample.Chain.tenantDer ∈ path ∧
      (Sample.Chain.leafDer :: (path ++ [Sample.Chain.rootDer])).IsChain
        (IssuedBy Sample.Chain.externals) := by
  have hpool : parsePool Sample.Chain.externals [Sample.Chain.tenantPem] =
      .ok [Sample.Chain.tenantDer] := by
    rw [parsePool, Sample.Chain.parsePemChain_tenant]
    rfl
  have hok : validateChain Sample.Chain.externals Sample.Chain.leafPem [Sample.Chain.tenantPem]
      Sample.Chain.rootPem 1786453200 = .ok Sample.Chain.ends.validated :=
    validateChain_eq_ok.mpr ⟨Sample.Chain.ends, _, _, hpool, Sample.Chain.trail [], by decide, rfl⟩
  obtain ⟨leafDer, rootDer, leaf, key, pool, path, hleafDer, hrootDer, hpool', -, hsub, hchain, -⟩ :=
    validateChain_path hok
  obtain rfl := Except.ok.inj (hpool.symm.trans hpool')
  obtain rfl := Except.ok.inj (Sample.Chain.ends.firstCert_leaf.symm.trans hleafDer)
  obtain rfl := Except.ok.inj (Sample.Chain.ends.firstCert_root.symm.trans hrootDer)
  refine ⟨path, hsub, ?_, hchain⟩
  cases path with
  | nil =>
    obtain ⟨cert, issuer, hcert, hissuer, hname, -⟩ := List.isChain_pair.mp hchain
    obtain rfl := Except.ok.inj (Sample.Chain.ends.fromDer_leaf.symm.trans hcert)
    obtain rfl := Except.ok.inj (Sample.Chain.ends.fromDer_root.symm.trans hissuer)
    exact absurd hname (by decide)
  | cons der path =>
    rw [← List.mem_singleton.mp (hsub List.mem_cons_self)]
    exact List.mem_cons_self

end Sealr.Evidence
