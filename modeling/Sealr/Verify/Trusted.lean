import Sealr.Verify.Answered
import Sealr.Verify.Authentic

/-!
# Where trust comes from

A bundle brings certificates, console keys and even roots of its own. In a run that passes none of
them counts by itself (`pass_vouched`): the certificates are issued, step by step, from a root that
the operator or the release supplies, and the console keys are the operator's or signed by that
root. So whoever assembles a bundle decides nothing about whom it is trusted from.
-/

namespace Sealr.Verify

open Lib Evidence Bundle

section Defs

variable (E : Externals) (opts : VerifyOptions) (at_ : Int)

/-- The roots on which the bundle has no say: the operator's, or else those of the release. -/
def outsideRoots : List String :=
  match opts.rootPemOverride with
  | some pem => [pem]
  | none =>
    if containsText (chars "BEGIN CERTIFICATE") (chars E.embeddedRootsPem) then
      [E.embeddedRootsPem]
    else []

/-- The certificate of an outside root, or one that a valid authority among these has issued. -/
inductive Vouched : Bytes → Prop where
  | root {pem : String} {der : Bytes} (hroot : pem ∈ outsideRoots E opts)
    (hder : firstCert E pem = .ok der) : Vouched der
  | issued {der issuer : Bytes} (hissuer : Vouched issuer) (hauthority : IsAuthority E issuer)
    (hvalid : IsValid E at_ issuer) (hissued : IssuedBy E der issuer) : Vouched der

/-- The key in a vouched certificate of this fingerprint. -/
inductive RecorderKey (fingerprint : String) (key : VerifyingKey) : Prop where
  | certified {der : Bytes} {cert : X509Certificate} (hvouched : Vouched E opts at_ der)
    (hvalid : IsValid E at_ der) (hcert : E.x509FromDer der = .ok cert)
    (hkey : VerifyingKey.fromBytes E cert.subjectPublicKey = .ok key)
    (hfingerprint : fingerprint = blake3Hex E der)

/-- A console key of the operator's, or one with the signature of an outside root on it. -/
inductive ConsoleKey (key : VerifyingKey) : Prop where
  | given {pem : String} (hpem : opts.consoleKeyOverride = some pem)
    (hkey : VerifyingKey.fromSpkiPem E pem = .ok key)
  | attested {statement : ConsoleKeyStatement} {sig : String} {root : VerifyingKey}
    (hroot : root ∈ rootKeys E (outsideRoots E opts))
    (hkey : VerifyingKey.fromSpkiPem E statement.publicKeyPem = .ok key)
    (hsig : root.verifyJcs E statement.toJson sig "console key statement" = .ok ())

end Defs

section Vouched

variable {E : Externals} {opts : VerifyOptions} {at_ : Int} {pem rootPem : String}
  {pems : List String} {v : ValidatedCert}

/-- A path of issuers to a vouched certificate vouches for its first member. -/
theorem Vouched.of_chain {root : Bytes} (hroot : Vouched E opts at_ root)
    (hvalidRoot : IsValid E at_ root) {path : List Bytes} {der : Bytes}
    (hchain : (der :: (path ++ [root])).IsChain (IssuedBy E))
    (hauthority : ∀ d ∈ path ++ [root], IsAuthority E d) (hvalid : ∀ d ∈ path, IsValid E at_ d) :
    Vouched E opts at_ der := by
  induction path generalizing der with
  | nil =>
    simp only [List.nil_append, List.isChain_cons_cons] at hchain
    exact .issued hroot (hauthority root (by simp)) hvalidRoot hchain.1
  | cons next path ih =>
    rw [List.cons_append, List.isChain_cons_cons] at hchain
    have hnext : Vouched E opts at_ next := by
      apply ih hchain.2
      · intro d hd
        exact hauthority d (List.mem_cons_of_mem _ hd)
      · intro d hd
        exact hvalid d (List.mem_cons_of_mem _ hd)
    exact .issued hnext (hauthority next (by simp)) (hvalid next List.mem_cons_self) hchain.1

/-- What validates against an outside root is vouched for. -/
theorem recorderKey_of_validateChain (h : validateChain E pem pems rootPem at_ = .ok v)
    (hroot : rootPem ∈ outsideRoots E opts) :
    RecorderKey E opts at_ v.fingerprint v.publicKey := by
  obtain ⟨ends, pool, path, -, htrail, -, rfl⟩ := validateChain_eq_ok.mp h
  obtain ⟨-, hchain, hauthority, hvalid⟩ := ends.path_of_trail htrail
  have hvouched : Vouched E opts at_ ends.leafDer := by
    refine Vouched.of_chain (.root hroot ends.firstCert_root) ?_ hchain hauthority hvalid
    exact ⟨ends.root, ends.fromDer_root, ends.valid_root⟩
  exact .certified hvouched ⟨ends.leaf, ends.fromDer_leaf, ends.valid_leaf⟩ ends.fromDer_leaf
    ends.fromBytes_leaf rfl

end Vouched

/-! ## The identity pass -/

theorem exists_get_of_mem_values {keys : ConsoleKeys} {key : VerifyingKey} (h : key ∈ keys.values) :
    ∃ id : String, keys[id]? = some key := by
  have hvalues : keys.values = keys.toList.map Prod.snd := by
    have hfold : keys.values = keys.foldr (fun _ v vs => v :: vs) [] := rfl
    rw [hfold, Std.TreeMap.foldr_eq_foldr_toList]
    induction keys.toList with
    | nil => rfl
    | cons p ps ih => rw [List.foldr_cons, List.map_cons, ih]
  rw [hvalues] at h
  obtain ⟨⟨id, k⟩, hmem, rfl⟩ := List.mem_map.mp h
  exact ⟨id, Std.TreeMap.mem_toList_iff_getElem?_eq_some.mp hmem⟩

section Pass

variable {E : Externals} {S : Serde} {now : Int} {reader : BundleReader} {opts : VerifyOptions}

/-- Roots that are selected without a warning are outside roots. -/
theorem selectRoots_quiet {roots : Option RootsFile}
    (h : ∀ f ∈ (selectRoots E opts roots).2, f.severity = .info) :
    (selectRoots E opts roots).1.1 = outsideRoots E opts ∧
      ∃ pem, outsideRoots E opts = [pem] := by
  unfold selectRoots outsideRoots at *
  cases hroot : opts.rootPemOverride with
  | some pem => exact ⟨rfl, pem, rfl⟩
  | none =>
    simp only [hroot] at h ⊢
    split_ifs at h ⊢ with hembedded
    · exact ⟨rfl, _, rfl⟩
    · cases roots with
      | none => cases h _ (List.mem_singleton_self _)
      | some file =>
        by_cases hempty : file.roots.isEmpty = true
        · simp only [hempty, ↓reduceIte] at h
          cases h _ (List.mem_singleton_self _)
        · simp only [hempty] at h
          cases h _ (List.mem_singleton_self _)

/-- One turn over the console keys that reports nothing. -/
theorem consoleKeyStep_quiet {keys : ConsoleKeys} {entry : AttestedConsoleKey}
    {roots : List VerifyingKey}
    (h : ∀ f ∈ (consoleKeyStep E roots keys entry).2, f.severity = .info) :
    ∃ key sig root, root ∈ roots ∧
      VerifyingKey.fromSpkiPem E entry.statement.publicKeyPem = .ok key ∧
      root.verifyJcs E entry.statement.toJson sig "console key statement" = .ok () ∧
      (consoleKeyStep E roots keys entry).1 = keys.insert entry.statement.keyId key := by
  unfold consoleKeyStep at *
  cases hkey : VerifyingKey.fromSpkiPem E entry.statement.publicKeyPem with
  | error e =>
    simp only [hkey] at h
    cases h _ (List.mem_singleton_self _)
  | ok key =>
    simp only [hkey] at h ⊢
    cases hsig : entry.signature with
    | none =>
      simp only [hsig] at h
      cases h _ (List.mem_singleton_self _)
    | some sig =>
      simp only [hsig] at h ⊢
      split_ifs at h ⊢ with hattested
      · obtain ⟨root, hroot, hverify⟩ := List.any_eq_true.mp hattested
        exact ⟨key, sig, root, hroot, rfl, succeeds_iff.mp hverify, rfl⟩
      · cases h _ (List.mem_singleton_self _)

/-- Console keys that are resolved without a warning are the operator's or attested. -/
theorem consoleKey_of_quiet {roots : Option RootsFile} {key : VerifyingKey}
    (h : ∀ f ∈ (resolveConsoleKeys E opts roots (outsideRoots E opts)).2, f.severity = .info)
    (hkey : key ∈ (resolveConsoleKeys E opts roots (outsideRoots E opts)).1.values) :
    ConsoleKey E opts key := by
  unfold resolveConsoleKeys at h hkey
  cases hoverride : opts.consoleKeyOverride with
  | some pem =>
    simp only [hoverride] at h hkey
    cases hgiven : VerifyingKey.fromSpkiPem E pem with
    | error e =>
      simp only [hgiven] at h
      cases h _ (List.mem_singleton_self _)
    | ok given =>
      simp only [hgiven] at hkey
      obtain ⟨id, hget⟩ := exists_get_of_mem_values hkey
      rw [Std.TreeMap.getElem?_insert] at hget
      split_ifs at hget with hid
      · obtain rfl := Option.some.inj hget
        exact .given hoverride hgiven
      · simp at hget
  | none =>
    simp only [hoverride] at h hkey
    cases roots with
    | none =>
      obtain ⟨id, hget⟩ := exists_get_of_mem_values hkey
      simp at hget
    | some file =>
      -- every key that a turn inserts is attested
      have hall := foldLog_induction (I := fun _ (keys : ConsoleKeys) =>
        ∀ (id : String) (k : VerifyingKey), keys[id]? = some k → ConsoleKey E opts k) ?_ ?_ h
      · obtain ⟨id, hget⟩ := exists_get_of_mem_values hkey
        exact hall id key hget
      · intro id k hget
        simp at hget
      · intro pre entry keys hkeys _ hquiet id k hget
        obtain ⟨new, sig, root, hroot, hnew, hsig, hinsert⟩ := consoleKeyStep_quiet hquiet
        rw [hinsert, Std.TreeMap.getElem?_insert] at hget
        split_ifs at hget with hid
        · obtain rfl := Option.some.inj hget
          exact .attested hroot hnew hsig
        · exact hkeys id k hget

/-- What a passing run trusts. -/
theorem trust_of_pass (hpass : (verifyBundle E S now reader opts).result = .pass) :
    rootPemsOf E S reader opts = outsideRoots E opts ∧ (∃ pem, outsideRoots E opts = [pem]) ∧
      (∀ key ∈ (trustOf E S now reader opts).consoleKeys.values, ConsoleKey E opts key) ∧
      ∀ rev, (trustOf E S now reader opts).revocations = some rev →
        ∃ key ∈ (trustOf E S now reader opts).consoleKeys.values, rev.verify E key = .ok () := by
  have hinfo : ∀ f ∈ (identityPass E S (opts.nowUnix.getD now) reader opts).2,
      f.severity = .info := by
    have hall : ∀ f ∈ (verifyBundle E S now reader opts).findings, f.severity = .info :=
      computeResult_eq_pass.mp hpass
    intro f hf
    apply hall f
    rw [findings_verifyBundle]
    simp [hf]
  unfold identityPass at hinfo
  simp only [List.mem_append] at hinfo
  obtain ⟨hroots, hone⟩ := selectRoots_quiet fun f hf =>
    hinfo f (.inl (.inl (.inl (.inl hf))))
  refine ⟨hroots, hone, ?_, ?_⟩
  · intro key hkey
    refine @consoleKey_of_quiet E opts ((reader.identity E S).toOption.map (·.roots)) key ?_ ?_
    · intro f hf
      rw [← hroots] at hf
      exact hinfo f (.inl (.inl (.inr hf)))
    · rw [← hroots]
      exact hkey
  · intro rev hrev
    by_contra hunverified
    obtain ⟨f, hf, hsev⟩ := revocationFindings_loud (fun h => hunverified h)
    refine hsev (hinfo f (.inl (.inr ?_)))
    rw [revocations_trustOf] at hrev
    rw [hrev]
    exact hf

/-- The key of a certificate that a passing run looks up. -/
theorem recorderKey_of_pass (hpass : (verifyBundle E S now reader opts).result = .pass)
    {fingerprint : String} {cert : ValidatedCert}
    (hcert : (trustOf E S now reader opts).certMap[fingerprint]? = some cert) :
    RecorderKey E opts (opts.nowUnix.getD now) fingerprint cert.publicKey := by
  obtain ⟨hroots, ⟨pem, hone⟩, -⟩ := trust_of_pass hpass
  have hat : (trustOf E S now reader (opts.atTime (opts.nowUnix.getD now))).certMap =
      (trustOf E S now reader opts).certMap := rfl
  rw [← hat] at hcert
  obtain ⟨⟨-, text, -, hval⟩, rfl⟩ := validAt_of_get hcert
  have hroot : "\n".intercalate (rootPemsOf E S reader opts) = pem := by
    rw [hroots, hone]
    rfl
  rw [validateAmong, hroot] at hval
  exact recorderKey_of_validateChain hval (hone ▸ List.mem_singleton_self pem)

/-- **A pass rests on outside trust alone.** Every record is attested by a checkpoint with the
signature of a recorder's key whose certificate an outside root vouches for; every extent that is
countersigned is so by a console key of the operator's or one that such a root has signed; and so is
the revocation list. -/
theorem pass_vouched (hpass : (verifyBundle E S now reader opts).result = .pass) :
    (∀ streamId ∈ scopeIds reader, ∀ v ∈ fileRecords E S reader streamId, ∀ s, seqOf v = some s →
      ∃ bc key, AttestsThrough E S reader streamId (checkpointsOf S reader streamId)
          (trustOf E S now reader opts) bc s ∧
        RecorderKey E opts (opts.nowUnix.getD now) bc.checkpoint.note.recorderCertFingerprint key ∧
        bc.checkpoint.verify E key = .ok ()) ∧
    (∀ streamId ∈ scopeIds reader, ∀ hw,
      (checkedData E S reader (trustOf E S now reader opts) streamId).countersignedHighWater =
          some hw →
        ∃ bc ∈ checkpointsOf S reader streamId, ∃ cs key, bc.countersignature = some cs ∧
          cs.note.streamHighWaterSeq = some hw ∧ ConsoleKey E opts key ∧
          cs.verify E key = .ok ()) ∧
    ∀ i rev, reader.identity E S = .ok i → i.revocations = some rev →
      ∃ key, ConsoleKey E opts key ∧ rev.verify E key = .ok () := by
  obtain ⟨-, -, hkeys, hrevs⟩ := trust_of_pass hpass
  refine ⟨?_, ?_, ?_⟩
  · intro streamId hscope v hv s hseq
    obtain ⟨bc, hattests⟩ := attestsThrough_of_pass hpass hscope hv hseq
    have hsigned := hattests.attests
    simp only [Verify.attests, Bool.and_eq_true] at hsigned
    obtain ⟨-, cert, hcert, hverify, -⟩ := signed_iff.mp hsigned.1
    exact ⟨bc, cert.publicKey, hattests, recorderKey_of_pass hpass hcert, hverify⟩
  · intro streamId hscope hw hmark
    have hnone := (verifyStreamChain_unchecked E S reader streamId).countersignedHighWater
    have hfold := (turns_highWater _).symm.trans hmark
    rw [hnone] at hfold
    obtain ⟨hmem | hmem, -, -⟩ := foldl_raiseHighWater_eq_some.mp hfold
    · obtain ⟨⟨bc, cs⟩, htaken, hhw⟩ := List.mem_filterMap.mp hmem
      obtain ⟨bc', hbc, hpair⟩ := List.mem_filterMap.mp htaken
      obtain ⟨cs', hcs, heq⟩ := Option.map_eq_some_iff.mp hpair
      obtain ⟨rfl, rfl⟩ := Prod.mk.inj heq
      obtain ⟨hcs, -, -, hverified⟩ := takenCountersignature_eq_some.mp hcs
      obtain ⟨key, hkey, hverify⟩ := countersigned_iff.mp hverified
      exact ⟨bc', hbc, cs', key, hcs, hhw, hkeys key hkey, hverify⟩
    · cases hmem
  · intro i rev hi hrev
    have hlist : (trustOf E S now reader opts).revocations = some rev := by
      rw [revocations_trustOf, hi]
      exact hrev
    obtain ⟨key, hkey, hverify⟩ := hrevs rev hlist
    exact ⟨key, hkeys key hkey, hverify⟩

end Pass

/-- The bundle that passes, with the root and the console key from outside. -/
theorem pass_vouched_sample :
    ∃ v ∈ fileRecords Sample.bundleExternals Sample.bundleDocuments.serde Sample.bundle
        Evidence.Sample.opened.streamId,
      ∃ bc key, bc ∈ checkpointsOf Sample.bundleDocuments.serde Sample.bundle
          Evidence.Sample.opened.streamId ∧
        RecorderKey Sample.bundleExternals Sample.options 1786453200
          bc.checkpoint.note.recorderCertFingerprint key ∧
        bc.checkpoint.verify Sample.bundleExternals key = .ok () := by
  have hscope : Evidence.Sample.opened.streamId ∈ scopeIds Sample.bundle :=
    List.mem_singleton_self _
  have hany : (fileRecords Sample.bundleExternals Sample.bundleDocuments.serde Sample.bundle
      Evidence.Sample.opened.streamId).any (fun v => seqOf v = some 0) = true := by
    decide +kernel
  obtain ⟨v, hv, hseq⟩ := List.any_eq_true.mp hany
  obtain ⟨bc, key, hattests, hkey, hverify⟩ :=
    (pass_vouched Sample.bundle_pass).1 _ hscope v hv 0 (of_decide_eq_true hseq)
  exact ⟨v, hv, bc, key, hattests.mem, hkey, hverify⟩

end Sealr.Verify
