import Sealr.Evidence.Paths
import Sealr.Verify.Soundness

/-!
# Which roots count

The trusted roots are a list of PEM texts, each of which may hold several certificates. For recorder
certificates the texts are joined and handed to `validate_chain`, which takes the first certificate of
its root text as the root.
-/

namespace Sealr.Verify

open Lib Evidence Bundle

/-- The certificates of a PEM text; none when it does not parse. -/
def pemCerts (E : Externals) (pem : String) : List Bytes := (parsePemChain E pem).toOption.getD []

/-- The certificates of `identity/certs.pem`, one text each. -/
def certTexts (E : Externals) (certsPem : String) : List String := (pemCerts E certsPem).map derToPem

/-- One of the texts, validated with the others as intermediates. -/
def validateAmong (E : Externals) (texts : List String) (rootPem : String) (at_ : Int)
    (pem : String) : Result ValidatedCert :=
  validateChain E pem (texts.filter (· ≠ pem)) rootPem at_

/-- A text that validates against one root certificate. -/
def AcceptedBy (E : Externals) (texts : List String) (at_ : Int) (root : Bytes) (pem : String)
    (v : ValidatedCert) : Prop :=
  ∃ rootPem, firstCert E rootPem = .ok root ∧ validateAmong E texts rootPem at_ pem = .ok v

/-- The map after the texts `done`: every entry validates, and every text that does has one. -/
structure CertsOf (E : Externals) (texts : List String) (rootPem : String) (at_ : Int)
    (done : List String) (map : CertMap) : Prop where
  get : ∀ fp v, map[fp]? = some v → v.fingerprint = fp ∧
    ∃ pem ∈ done, validateAmong E texts rootPem at_ pem = .ok v
  mem : ∀ pem ∈ done, ∀ v, validateAmong E texts rootPem at_ pem = .ok v → v.fingerprint ∈ map

section Validate

variable {E : Externals} {texts pems : List String} {pem rootPem rootPem' : String} {at_ : Int}
  {v : ValidatedCert}

/-- The root text matters through its first certificate only. -/
theorem validateChain_congr (h : firstCert E rootPem = firstCert E rootPem') :
    validateChain E pem pems rootPem at_ = validateChain E pem pems rootPem' at_ := by
  unfold validateChain
  rw [h]

theorem firstCert_of_validateChain (h : validateChain E pem pems rootPem at_ = .ok v) :
    ∃ root, firstCert E rootPem = .ok root := by
  obtain ⟨ends, -⟩ := validateChain_eq_ok.mp h
  exact ⟨ends.rootDer, ends.firstCert_root⟩

theorem AcceptedBy.validate {root : Bytes} (h : AcceptedBy E texts at_ root pem v)
    (hroot : firstCert E rootPem = .ok root) : validateAmong E texts rootPem at_ pem = .ok v := by
  obtain ⟨text, htext, hv⟩ := h
  have hsame : firstCert E rootPem = firstCert E text := hroot.trans htext.symm
  rw [validateAmong, validateChain_congr hsame]
  exact hv

/-- One turn of `build_cert_map`. -/
theorem CertsOf.step {done : List String} {map : CertMap}
    (h : CertsOf E texts rootPem at_ done map) :
    CertsOf E texts rootPem at_ (done ++ [pem]) (certStep E texts rootPem at_ map pem).1 := by
  unfold certStep
  cases hv : validateChain E pem (texts.filter (· ≠ pem)) rootPem at_ with
  | error e =>
    constructor
    · intro fp v hget
      obtain ⟨hfp, q, hq, hval⟩ := h.get fp v hget
      exact ⟨hfp, q, List.mem_append_left _ hq, hval⟩
    · intro q hq v hval
      rcases List.mem_append.mp hq with hq | hq
      · exact h.mem q hq v hval
      · rw [List.mem_singleton.mp hq, validateAmong, hv] at hval
        cases hval
  | ok w =>
    constructor
    · intro fp v hget
      simp only [Std.TreeMap.getElem?_insert] at hget
      split_ifs at hget with hcmp
      · obtain rfl : w = v := Option.some.inj hget
        exact ⟨Std.LawfulEqCmp.eq_of_compare hcmp, pem, by simp, hv⟩
      · obtain ⟨hfp, q, hq, hval⟩ := h.get fp v hget
        exact ⟨hfp, q, List.mem_append_left _ hq, hval⟩
    · intro q hq v hval
      rw [Std.TreeMap.mem_insert]
      rcases List.mem_append.mp hq with hq | hq
      · exact .inr (h.mem q hq v hval)
      · rw [List.mem_singleton.mp hq, validateAmong, hv] at hval
        obtain rfl : w = v := Except.ok.inj hval
        exact .inl Std.ReflCmp.compare_self

/-- **The recorder certificates** are those of the file that validate against the joined roots. -/
theorem certsOf_buildCertMap {certsPem : String} {rootPems : List String} (hroots : rootPems ≠ []) :
    CertsOf E (certTexts E certsPem) ("\n".intercalate rootPems) at_ (certTexts E certsPem)
      (buildCertMap E (some certsPem) rootPems at_).1 := by
  have hempty : ∀ texts rootPem, CertsOf E texts rootPem at_ [] {} := by
    intro texts rootPem
    constructor
    · intro fp v hget
      simp at hget
    · intro q hq
      cases hq
  have hfalse : rootPems.isEmpty = false := by simpa using hroots
  unfold buildCertMap certTexts pemCerts
  simp only [hfalse, Bool.false_eq_true, ↓reduceIte]
  cases hparse : parsePemChain E certsPem with
  | error e => exact hempty _ _
  | ok ders =>
    refine foldLog_invariant (I := CertsOf E _ _ at_) _ (hempty _ _) ?_
    intro pre x map hmap _
    exact hmap.step

end Validate

section Roots

variable {E : Externals} {certsPem : String} {rootPems : List String} {at_ : Int}

/-- **When every trusted root counts**: the certificates that validate against some trusted root are
in the map exactly when each of them, or one with its fingerprint, validates against the first
certificate of the joined texts. -/
theorem roots_counted_iff :
    (∀ pem ∈ certTexts E certsPem, ∀ root ∈ rootPems.flatMap (pemCerts E), ∀ v,
      AcceptedBy E (certTexts E certsPem) at_ root pem v →
        v.fingerprint ∈ (buildCertMap E (some certsPem) rootPems at_).1) ↔
    ∀ pem ∈ certTexts E certsPem, ∀ root ∈ rootPems.flatMap (pemCerts E), ∀ v,
      AcceptedBy E (certTexts E certsPem) at_ root pem v →
        ∃ first, firstCert E ("\n".intercalate rootPems) = .ok first ∧
          ∃ pem' ∈ certTexts E certsPem, ∃ v',
            AcceptedBy E (certTexts E certsPem) at_ first pem' v' ∧
              v'.fingerprint = v.fingerprint := by
  have hne : ∀ root ∈ rootPems.flatMap (pemCerts E), rootPems ≠ [] := by
    intro root hroot hnil
    rw [hnil] at hroot
    cases hroot
  constructor
  · intro h pem hpem root hroot v hacc
    have hmem := h pem hpem root hroot v hacc
    have hcerts := @certsOf_buildCertMap E at_ certsPem rootPems (hne root hroot)
    obtain ⟨hfp, pem', hpem', hval⟩ := hcerts.get _ _ (Std.TreeMap.getElem?_eq_some_getElem hmem)
    obtain ⟨first, hfirst⟩ := firstCert_of_validateChain hval
    exact ⟨first, hfirst, pem', hpem', _, ⟨_, hfirst, hval⟩, hfp⟩
  · intro h pem hpem root hroot v hacc
    obtain ⟨first, hfirst, pem', hpem', v', hacc', hfp⟩ := h pem hpem root hroot v hacc
    rw [← hfp]
    exact (certsOf_buildCertMap (hne root hroot)).mem pem' hpem' v' (hacc'.validate hfirst)

end Roots

/-! Two trusted roots, the second of which issued the recorder's certificate. -/

namespace Sample

open Evidence.Sample

def otherRootDer : Bytes :=
  [0x3081e3308196a003020102020103300506032b65703011310f300d0603550403,
    0x0c06526f6f742042301e170d3236303130313030303030305a170d3336303130,
    0x313030303030305a3011310f300d06035504030c06526f6f742042302a300506,
    0x032b65700321006e7a1cdd29b0b78fd13af4c5598feff4ef2a97166e3ca6f2e4,
    0xfbfccd80505bf1a3133011300f0603551d130101ff040530030101ff30050603,
    0x2b65700341004235c619f2f54886eae03e75a7abaf2c02783a6eb379dc5c4f95,
    0x2e66a0653daadd9a2f3dfd40fd1bab6f216c1d774a799443d453c627f3f8d6b5].flatMap (bytesBE 32) ++
    bytesBE 6 0x80944f150507

def otherRootCert : X509Certificate where
  subject := bytesBE 19 0x3011310f300d06035504030c06526f6f742042
  issuer := bytesBE 19 0x3011310f300d06035504030c06526f6f742042
  commonName := some "Root B"
  subjectPublicKey :=
    bytesBE 32 0x6e7a1cdd29b0b78fd13af4c5598feff4ef2a97166e3ca6f2e4fbfccd80505bf1
  notBefore := 1767225600
  notAfter := 2082758400
  basicConstraintsCa := true

def twoRoots : List String := [derToPem otherRootDer, derToPem rootDer]

def twoRootsRecording : Externals.Recording := { bundleRecording with
  blake3 := [(leafDer, ofHex fingerprint)]
  pems := bundleRecording.pems ++
    [(asBytes ("\n".intercalate twoRoots),
        [⟨"CERTIFICATE", otherRootDer⟩, ⟨"CERTIFICATE", rootDer⟩]),
      (asBytes (derToPem otherRootDer), [⟨"CERTIFICATE", otherRootDer⟩])]
  certificates := bundleRecording.certificates ++ [(otherRootDer, otherRootCert)]
  issued := bundleRecording.issued ++ [(otherRootDer, otherRootDer)] }

def twoRootsExternals : Externals := .recorded twoRootsRecording

theorem twoRoots_leafPem :
    parsePemChain (.recorded twoRootsRecording) (derToPem leafDer) = .ok [leafDer] := by
  refine parsePemChain_eq ?_
  unfold twoRootsRecording bundleRecording
  exact List.lookup_cons_self

theorem twoRoots_rootPem :
    parsePemChain (.recorded twoRootsRecording) (derToPem rootDer) = .ok [rootDer] := by
  have hne : asBytes (derToPem rootDer) ≠ asBytes (derToPem leafDer) :=
    asBytes_injective.ne rootPem_ne_leafPem
  refine parsePemChain_eq ?_
  unfold twoRootsRecording bundleRecording
  rw [List.cons_append, List.lookup_cons, beq_false_of_ne hne]
  exact List.lookup_cons_self

theorem twoRoots_lookup :
    twoRootsRecording.pems.lookup (asBytes ("\n".intercalate twoRoots)) =
      some [⟨"CERTIFICATE", otherRootDer⟩, ⟨"CERTIFICATE", rootDer⟩] := by
  have hjoined : ("\n".intercalate twoRoots).toList =
      (derToPem otherRootDer).toList ++ '\n' :: (derToPem rootDer).toList := by
    simp [twoRoots]
  have hneLeaf : asBytes ("\n".intercalate twoRoots) ≠ asBytes (derToPem leafDer) := by
    refine asBytes_injective.ne fun heq => ?_
    refine derToPem_append_ne ?_ ?_ ?_ _ (hjoined.symm.trans (congrArg String.toList heq))
    all_goals decide +kernel
  have hneRoot : asBytes ("\n".intercalate twoRoots) ≠ asBytes (derToPem rootDer) := by
    refine asBytes_injective.ne fun heq => ?_
    refine derToPem_append_ne ?_ ?_ ?_ _ (hjoined.symm.trans (congrArg String.toList heq))
    all_goals decide +kernel
  unfold twoRootsRecording bundleRecording
  rw [List.cons_append, List.lookup_cons, beq_false_of_ne hneLeaf, List.cons_append,
    List.lookup_cons, beq_false_of_ne hneRoot]
  exact List.lookup_cons_self

theorem twoRoots_joined :
    firstCert (.recorded twoRootsRecording) ("\n".intercalate twoRoots) = .ok otherRootDer :=
  firstCert_eq (@parsePemChain_blocks _ _ _ [rootDer] twoRoots_lookup)

theorem twoRoots_leafCert :
    (Externals.recorded twoRootsRecording).x509FromDer leafDer = .ok leafCert := by
  refine x509FromDer_eq ?_
  unfold twoRootsRecording bundleRecording
  exact List.lookup_cons_self

theorem twoRoots_rootCert :
    (Externals.recorded twoRootsRecording).x509FromDer rootDer = .ok rootCert := by
  have hne : rootDer ≠ leafDer := by decide
  refine x509FromDer_eq ?_
  change List.lookup rootDer ((leafDer, leafCert) :: (rootDer, rootCert) :: _) = _
  rw [List.lookup_cons, beq_false_of_ne hne]
  exact List.lookup_cons_self

theorem twoRoots_otherCert :
    (Externals.recorded twoRootsRecording).x509FromDer otherRootDer = .ok otherRootCert := by
  have hneLeaf : otherRootDer ≠ leafDer := by decide
  have hneRoot : otherRootDer ≠ rootDer := by decide
  refine x509FromDer_eq ?_
  change List.lookup otherRootDer ((leafDer, leafCert) :: (rootDer, rootCert) ::
    (otherRootDer, otherRootCert) :: []) = _
  rw [List.lookup_cons, beq_false_of_ne hneLeaf]
  change List.lookup otherRootDer ((rootDer, rootCert) :: _) = _
  rw [List.lookup_cons, beq_false_of_ne hneRoot]
  exact List.lookup_cons_self

/-- Against the first root the chain ends at the leaf. -/
theorem twoRoots_refused (v : ValidatedCert) :
    validateChain (.recorded twoRootsRecording) (derToPem leafDer) [] ("\n".intercalate twoRoots)
      1786453200 ≠ .ok v := by
  intro hok
  obtain ⟨leaf, hleaf, hok⟩ := bind_eq_ok.mp hok
  obtain ⟨root, hroot, hok⟩ := bind_eq_ok.mp hok
  obtain rfl : otherRootDer = root := Except.ok.inj (twoRoots_joined.symm.trans hroot)
  obtain rfl : leafDer = leaf :=
    Except.ok.inj ((firstCert_eq twoRoots_leafPem).symm.trans hleaf)
  have hcert : ∀ what, certFromDer (.recorded twoRootsRecording) leafDer what = .ok leafCert := by
    intro what
    rw [certFromDer, twoRoots_leafCert]
  have hother : certFromDer (.recorded twoRootsRecording) otherRootDer "root" =
      .ok otherRootCert := by
    rw [certFromDer, twoRoots_otherCert]
  have hissuer : ¬leafCert.issuer = otherRootCert.subject := by decide
  have hwalk : ∃ e, walkUp (.recorded twoRootsRecording) 1786453200 [] otherRootDer otherRootCert 8
      leafDer = .error e := by
    simp [walkUp, hcert, hissuer, findIssuer, bind, Except.bind]
  obtain ⟨e, hwalk⟩ := hwalk
  simp only [parsePool, hcert, hother, hwalk, bind, Except.bind] at hok
  split at hok
  · cases hok
  · split at hok
    · cases hok
    · split at hok <;> cases hok

end Sample

theorem second_root_ignored :
    ¬∀ pem ∈ certTexts Sample.twoRootsExternals (derToPem Sample.leafDer),
      ∀ root ∈ Sample.twoRoots.flatMap (pemCerts Sample.twoRootsExternals), ∀ v,
        AcceptedBy Sample.twoRootsExternals (certTexts Sample.twoRootsExternals
          (derToPem Sample.leafDer)) 1786453200 root pem v →
        v.fingerprint ∈ (buildCertMap Sample.twoRootsExternals (some (derToPem Sample.leafDer))
          Sample.twoRoots 1786453200).1 := by
  intro h
  have htexts : certTexts Sample.twoRootsExternals (derToPem Sample.leafDer) =
      [derToPem Sample.leafDer] := by
    rw [certTexts, pemCerts, Sample.twoRootsExternals, Sample.twoRoots_leafPem]
    rfl
  have hroot : Sample.rootDer ∈ Sample.twoRoots.flatMap (pemCerts Sample.twoRootsExternals) := by
    refine List.mem_flatMap.mpr ⟨derToPem Sample.rootDer, by simp [Sample.twoRoots], ?_⟩
    rw [pemCerts, Sample.twoRootsExternals, Sample.twoRoots_rootPem]
    exact List.mem_singleton_self _
  have hrootPem : firstCert Sample.twoRootsExternals (derToPem Sample.rootDer) =
      .ok Sample.rootDer := firstCert_eq Sample.twoRoots_rootPem
  have hsigned : (Externals.recorded Sample.twoRootsRecording).x509VerifySignature Sample.leafDer
      Sample.rootDer = .ok () := by
    simp [Externals.recorded, Sample.twoRootsRecording, Sample.bundleRecording]
  have hhash : blake3Hex (.recorded Sample.twoRootsRecording) Sample.leafDer =
      Sample.fingerprint := by decide
  have hchain : validateChain Sample.twoRootsExternals (derToPem Sample.leafDer) []
      (derToPem Sample.rootDer) 1786453200 = .ok Sample.validated :=
    Sample.validateChain_leaf Sample.twoRoots_leafPem hrootPem Sample.twoRoots_leafCert
      Sample.twoRoots_rootCert hsigned rfl hhash
  have hothers : [derToPem Sample.leafDer].filter (· ≠ derToPem Sample.leafDer) = [] := by simp
  have hacc : AcceptedBy Sample.twoRootsExternals [derToPem Sample.leafDer] 1786453200
      Sample.rootDer (derToPem Sample.leafDer) Sample.validated := by
    refine ⟨_, hrootPem, ?_⟩
    rw [validateAmong, hothers]
    exact hchain
  have hmem := h (derToPem Sample.leafDer) (by simp [htexts]) Sample.rootDer hroot Sample.validated
    (htexts ▸ hacc)
  have hcerts := @certsOf_buildCertMap Sample.twoRootsExternals 1786453200
    (derToPem Sample.leafDer) Sample.twoRoots (by simp [Sample.twoRoots])
  obtain ⟨-, pem, hpem, hval⟩ := hcerts.get _ _ (Std.TreeMap.getElem?_eq_some_getElem hmem)
  rw [htexts] at hpem hval
  obtain rfl : pem = derToPem Sample.leafDer := List.mem_singleton.mp hpem
  rw [validateAmong, hothers] at hval
  exact Sample.twoRoots_refused _ hval

end Sealr.Verify
