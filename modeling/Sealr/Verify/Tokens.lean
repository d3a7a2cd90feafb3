import Sealr.Verify.Stamped

/-!
# What a token shows

A token that verifies is signed data over a statement of imprint and time (`verifyToken_eq_ok`). The
statement is bound by the digest in the signed attributes, and they by the signature. So if the
signer has the key of an authority whose signatures nobody else makes, the imprint and the time are
those of a statement that the authority signed, or two inputs of one hash function collide
(`token_issued`). Nothing is said of a signer with another key: any key may be in a token.
-/

namespace Sealr.Verify

open Lib Evidence Bundle

/-- What `verify_token` takes from a token. -/
structure TokenContents where
  signedData : SignedData
  tstBytes : Bytes
  tst : TstInfo
  signer : SignerInfo
  cert : TsaCertificate

/-- The contents are found in the token. -/
structure TokenContents.In (c : TokenContents) (E : Externals) (tokenDer : Bytes) : Prop where
  token : ∃ info, parseToken E tokenDer = .ok info ∧ info.contentType = OID_SIGNED_DATA ∧
    E.signedDataFromAny info.content = .ok c.signedData
  content : ∃ econtent, c.signedData.econtent = some econtent ∧
    E.octetStringFromAny econtent = .ok c.tstBytes
  tst : E.tstInfoFromDer c.tstBytes = .ok c.tst
  signer : c.signedData.signerInfos.head? = some c.signer
  cert : findSignerCert c.signedData c.signer = .ok c.cert

/-- The hash function of a kind. -/
def hashOf (E : Externals) : ShaKind → Bytes → Bytes
  | .sha256, b => (E.sha256 b).toList
  | .sha384, b => E.sha384 b
  | .sha512, b => E.sha512 b

/-- A signer vouches for a content under a key. -/
structure Vouches (E : Externals) (signer : SignerInfo) (key content : Bytes) : Prop where
  attested : ∃ kind attrs, shaKind signer.digestAlg = .ok kind ∧ signer.signedAttrs = some attrs ∧
    messageDigestOk E (hashOf E kind content) attrs false = .ok true
  signed : ∃ kind der, shaKind signer.digestAlg = .ok kind ∧ signer.signedAttrsDer = .ok der ∧
    E.rsaVerify key kind (hashOf E kind (retag der)) signer.signature = .ok ()

/-- The key of a certificate. -/
def KeyOf (E : Externals) (cert : TsaCertificate) (key : Bytes) : Prop :=
  ∃ spki, cert.spkiDer = .ok spki ∧ E.rsaFromPublicKeyDer spki = .ok key

theorem KeyOf.unique {E : Externals} {cert : TsaCertificate} {key key' : Bytes}
    (h : KeyOf E cert key) (h' : KeyOf E cert key') : key = key' := by
  obtain ⟨spki, hspki, hkey⟩ := h
  obtain ⟨spki', hspki', hkey'⟩ := h'
  obtain rfl := Except.ok.inj (hspki.symm.trans hspki')
  exact Except.ok.inj (hkey.symm.trans hkey')

/-- The algorithms that `verify_cms_signature` knows. -/
def IsRsa (alg : String) : Prop :=
  alg = OID_RSA_ENCRYPTION ∨ alg = OID_SHA256_WITH_RSA ∨ alg = OID_SHA384_WITH_RSA ∨
    alg = OID_SHA512_WITH_RSA

section Parts

variable {E : Externals} {oid : String} {b d : Bytes} {kind : ShaKind} {signer : SignerInfo}
  {cert : TsaCertificate} {content tokenDer : Bytes} {imprint : Digest} {t : VerifiedToken}

theorem parsed_eq_ok {α : Type} {what : String} {r : Except String α} {a : α} :
    parsed what r = .ok a ↔ r = .ok a := by
  cases r <;> simp [parsed]

/-- A check that throws. -/
theorem guard_eq_ok {ε α : Type} {p : Prop} [Decidable p] {e : ε} {x y : Except ε α} {a : α} :
    (if p then (throw e : Except ε PUnit) >>= fun _ => x else y) = .ok a ↔ ¬p ∧ y = .ok a := by
  by_cases hp : p
  · simp [hp, bind, Except.bind, throw, throwThe, MonadExceptOf.throw]
  · simp [hp]

theorem digestBytes_eq_ok :
    digestBytes E oid b = .ok d ↔ ∃ kind, shaKind oid = .ok kind ∧ hashOf E kind b = d := by
  unfold digestBytes
  rw [bind_eq_ok]
  constructor
  · rintro ⟨kind, hkind, hd⟩
    refine ⟨kind, hkind, ?_⟩
    cases kind <;> exact Except.ok.inj hd
  · rintro ⟨kind, hkind, rfl⟩
    refine ⟨kind, hkind, ?_⟩
    cases kind <;> rfl

/-- A message digest attribute admits one digest: the last one of the attributes decides. -/
theorem messageDigestOk_unique {attrs : List SignedAttribute} {d d' : Bytes} {ok ok' : Bool}
    (hstart : ok = true → ok' = true → d = d') (h : messageDigestOk E d attrs ok = .ok true)
    (h' : messageDigestOk E d' attrs ok' = .ok true) : d = d' := by
  induction attrs generalizing ok ok' with
  | nil => exact hstart (Except.ok.inj h) (Except.ok.inj h')
  | cons attr attrs ih =>
    unfold messageDigestOk at h h'
    split_ifs at h h' with hoid
    · cases hvalues : attr.values with
      | nil =>
        rw [hvalues] at h h'
        exact ih hstart h h'
      | cons v vs =>
        rw [hvalues] at h h'
        obtain ⟨od, hod, h⟩ := bind_eq_ok.mp h
        obtain ⟨od', hod', h'⟩ := bind_eq_ok.mp h'
        obtain rfl := Except.ok.inj (hod.symm.trans hod')
        refine ih (fun hd hd' => ?_) h h'
        exact (of_decide_eq_true hd).symm.trans (of_decide_eq_true hd')
    · exact ih hstart h h'

theorem verifyCmsSignature_eq_ok : verifyCmsSignature E signer cert content = .ok () ↔
    IsRsa signer.signatureAlgorithm ∧ ∃ key, KeyOf E cert key ∧ Vouches E signer key content := by
  unfold verifyCmsSignature
  constructor
  · intro h
    cases hattrs : signer.signedAttrs with
    | none => simp [hattrs] at h
    | some attrs =>
      rw [hattrs] at h
      obtain ⟨d, hd, h⟩ := bind_eq_ok.mp h
      obtain ⟨ok, hok, h⟩ := bind_eq_ok.mp h
      obtain ⟨kind, hkind, rfl⟩ := digestBytes_eq_ok.mp hd
      cases ok with
      | false => simp at h
      | true =>
        rw [if_pos rfl] at h
        obtain ⟨der, hder, h⟩ := bind_eq_ok.mp h
        obtain ⟨digest, hdigest, h⟩ := bind_eq_ok.mp h
        obtain ⟨kind₂, hkind₂, rfl⟩ := digestBytes_eq_ok.mp hdigest
        dsimp only at h
        split_ifs at h with halg
        obtain ⟨spki, hspki, h⟩ := bind_eq_ok.mp h
        obtain ⟨key, hkey, h⟩ := bind_eq_ok.mp h
        obtain ⟨kind₃, hkind₃, h⟩ := bind_eq_ok.mp h
        obtain rfl := Except.ok.inj (hkind₂.symm.trans hkind₃)
        cases hverify : E.rsaVerify key kind₂ (hashOf E kind₂ (retag der)) signer.signature with
        | error e => simp [hverify] at h
        | ok u =>
          exact ⟨halg, key, ⟨spki, parsed_eq_ok.mp hspki, parsed_eq_ok.mp hkey⟩,
            ⟨kind, attrs, hkind, hattrs, hok⟩, ⟨kind₂, der, hkind₂, parsed_eq_ok.mp hder, hverify⟩⟩
  · rintro ⟨halg, key, ⟨spki, hspki, hkey⟩, ⟨kind, attrs, hkind, hattrs, hok⟩,
      ⟨kind', der, hkind', hder, hverify⟩⟩
    obtain rfl := Except.ok.inj (hkind.symm.trans hkind')
    rw [hattrs]
    refine bind_eq_ok.mpr ⟨_, digestBytes_eq_ok.mpr ⟨kind, hkind, rfl⟩, ?_⟩
    refine bind_eq_ok.mpr ⟨true, hok, ?_⟩
    rw [if_pos rfl]
    refine bind_eq_ok.mpr ⟨der, parsed_eq_ok.mpr hder, ?_⟩
    refine bind_eq_ok.mpr ⟨_, digestBytes_eq_ok.mpr ⟨kind, hkind, rfl⟩, ?_⟩
    refine (if_pos halg).trans ?_
    refine bind_eq_ok.mpr ⟨spki, parsed_eq_ok.mpr hspki, ?_⟩
    refine bind_eq_ok.mpr ⟨key, parsed_eq_ok.mpr hkey, ?_⟩
    refine bind_eq_ok.mpr ⟨kind, hkind, ?_⟩
    rw [hverify]
    rfl

/-- **What is accepted.** -/
theorem verifyToken_eq_ok : verifyToken E tokenDer imprint = .ok t ↔
    ∃ c : TokenContents, c.In E tokenDer ∧ c.tst.imprintAlg = OID_SHA256 ∧
      c.tst.hashedMessage = imprint.toList ∧ genTimeText E c.tst = .ok t.genTime ∧
      verifyCmsSignature E c.signer c.cert c.tstBytes = .ok () ∧
      t.signerSubject = c.cert.subjectText ∧ t.signatureVerified = true := by
  unfold verifyToken
  simp only [bind_eq_ok, guard_eq_ok, parsed_eq_ok, not_not]
  constructor
  · rintro ⟨info, hinfo, htype, signedData, hsigned, h⟩
    cases hcontent : signedData.econtent with
    | none => simp [hcontent] at h
    | some econtent =>
      simp only [hcontent, bind_eq_ok, guard_eq_ok, parsed_eq_ok, not_not] at h
      obtain ⟨tstBytes, hbytes, tst, htst, halg, himprint, genTime, htime, h⟩ := h
      cases hsigners : signedData.signerInfos with
      | nil => simp [hsigners] at h
      | cons signer rest =>
        simp only [hsigners, bind_eq_ok] at h
        obtain ⟨cert, hcert, _, hcms, h⟩ := h
        cases h
        exact ⟨⟨signedData, tstBytes, tst, signer, cert⟩, ⟨⟨info, hinfo, htype, hsigned⟩,
          ⟨econtent, hcontent, hbytes⟩, htst, by rw [hsigners]; rfl, hcert⟩, halg, himprint, htime,
          hcms, rfl, rfl⟩
  · rintro ⟨c, ⟨⟨info, hinfo, htype, hsigned⟩, ⟨econtent, hcontent, hbytes⟩, htst, hsigners, hcert⟩,
      halg, himprint, htime, hcms, hsubject, hverified⟩
    obtain ⟨rest, hrest⟩ := List.head?_eq_some_iff.mp hsigners
    refine ⟨info, hinfo, htype, c.signedData, hsigned, ?_⟩
    simp only [hcontent, bind_eq_ok, guard_eq_ok, parsed_eq_ok, not_not]
    refine ⟨c.tstBytes, hbytes, c.tst, htst, halg, himprint, t.genTime, htime, ?_⟩
    simp only [hrest, bind_eq_ok]
    refine ⟨c.cert, hcert, (), hcms, ?_⟩
    rw [← hsubject, ← hverified]
    rfl

end Parts

/-! ## Authorities -/

/-- A statement of imprint and time that an authority signed, with the signed attributes. -/
structure Statement where
  digestAlg : String
  attrs : List SignedAttribute
  attrsDer : Bytes
  tstBytes : Bytes

/-- A timestamp authority: its key, and what it signed. The attributes carry the digest of the
statement. -/
structure Authority (E : Externals) where
  key : Bytes
  statements : List Statement
  digested : ∀ s ∈ statements, ∃ kind, shaKind s.digestAlg = .ok kind ∧
    messageDigestOk E (hashOf E kind s.tstBytes) s.attrs false = .ok true

namespace Authority

variable {E : Externals}

/-- A signature under the key is over attributes that the authority signed. -/
def Unforged (A : Authority E) : Prop :=
  ∀ kind digest sig, E.rsaVerify A.key kind digest sig = .ok () →
    ∃ s ∈ A.statements, shaKind s.digestAlg = .ok kind ∧ hashOf E kind (retag s.attrsDer) = digest

/-- The encoding of the attributes that it signed determines them. -/
def Encodes (A : Authority E) : Prop :=
  ∀ any signedData, E.signedDataFromAny any = .ok signedData →
    ∀ signer ∈ signedData.signerInfos, ∀ der, signer.signedAttrsDer = .ok der →
      ∀ s ∈ A.statements, retag der = retag s.attrsDer → signer.signedAttrs = some s.attrs

/-- What was hashed for the statements. -/
def inputs (A : Authority E) : List Bytes :=
  A.statements.flatMap fun s => [s.tstBytes, retag s.attrsDer]

theorem mem_inputs {A : Authority E} {s : Statement} (hs : s ∈ A.statements) :
    s.tstBytes ∈ A.inputs ∧ retag s.attrsDer ∈ A.inputs := by
  constructor
  · exact List.mem_flatMap.mpr ⟨s, hs, List.mem_cons_self⟩
  · exact List.mem_flatMap.mpr ⟨s, hs, List.mem_cons_of_mem _ (List.mem_singleton_self _)⟩

end Authority

/-- What is hashed for a token. -/
def TokenContents.inputs (c : TokenContents) : List Bytes :=
  c.tstBytes :: (c.signer.signedAttrsDer.toOption.map retag).toList

section Issued

variable {E : Externals} {A : Authority E} {tokenDer : Bytes} {imprint : Digest}
  {t : VerifiedToken} {c : TokenContents}

/-- A content that a signer vouches for under the key of the authority is a statement of its. -/
theorem statement_of_vouches (hunforged : A.Unforged) (hencodes : A.Encodes)
    (hin : c.In E tokenDer) (h : Vouches E c.signer A.key c.tstBytes) :
    (∃ s ∈ A.statements, s.tstBytes = c.tstBytes) ∨
      ∃ kind, Collides (hashOf E kind) c.inputs A.inputs := by
  obtain ⟨⟨kind, attrs, hkind, hattrs, hok⟩, kind', der, hkind', hder, hverify⟩ := h
  obtain rfl := Except.ok.inj (hkind.symm.trans hkind')
  obtain ⟨s, hs, hskind, hdigest⟩ := hunforged _ _ _ hverify
  obtain ⟨hmemTst, hmemAttrs⟩ := A.mem_inputs hs
  have hmemDer : retag der ∈ c.inputs := by
    rw [TokenContents.inputs, hder]
    exact List.mem_cons_of_mem _ (List.mem_singleton_self _)
  rcases eq_or_collides hmemDer hmemAttrs hdigest.symm with hsame | hcol
  · -- the signed attributes are the authority's, and so is the digest in them
    obtain ⟨info, -, -, hsigned⟩ := hin.token
    have hsigner : c.signer ∈ c.signedData.signerInfos := List.mem_of_mem_head? hin.signer
    have hattrs' := hencodes _ _ hsigned c.signer hsigner der hder s hs hsame
    obtain rfl := Option.some.inj (hattrs.symm.trans hattrs')
    obtain ⟨skind, hskind', hsok⟩ := A.digested s hs
    obtain rfl := Except.ok.inj (hskind.symm.trans hskind')
    have hcontent := messageDigestOk_unique (by simp) hok hsok
    rcases eq_or_collides (List.mem_cons_self) hmemTst hcontent with heq | hcol
    · exact .inl ⟨s, hs, heq.symm⟩
    · exact .inr ⟨kind, hcol⟩
  · exact .inr ⟨kind, hcol⟩

/-- The authority signed a statement with this imprint and this time. -/
def Authority.Issued (A : Authority E) (imprint : Bytes) (genTime : String) : Prop :=
  ∃ s ∈ A.statements, ∃ tst, E.tstInfoFromDer s.tstBytes = .ok tst ∧ tst.imprintAlg = OID_SHA256 ∧
    tst.hashedMessage = imprint ∧ genTimeText E tst = .ok genTime

/-- A token that verifies has a signer with another key than the authority, or the authority issued
its imprint and its time, or two inputs of one hash function collide. -/
theorem issued_of_verifyToken (hunforged : A.Unforged) (hencodes : A.Encodes)
    (h : verifyToken E tokenDer imprint = .ok t) : ∃ c : TokenContents, c.In E tokenDer ∧
      (¬KeyOf E c.cert A.key ∨ A.Issued imprint.toList t.genTime ∨
        ∃ kind, Collides (hashOf E kind) c.inputs A.inputs) := by
  obtain ⟨c, hin, halg, himprint, htime, hcms, -, -⟩ := verifyToken_eq_ok.mp h
  obtain ⟨-, key, hkey, hvouches⟩ := verifyCmsSignature_eq_ok.mp hcms
  refine ⟨c, hin, ?_⟩
  by_cases hsame : KeyOf E c.cert A.key
  · obtain rfl := hsame.unique hkey
    refine .inr ((statement_of_vouches hunforged hencodes hin hvouches).imp_left ?_)
    rintro ⟨s, hs, hbytes⟩
    exact ⟨s, hs, c.tst, hbytes ▸ hin.tst, halg, himprint, htime⟩
  · exact .inl hsame

end Issued

/-! ## The tokens of a bundle -/

/-- The files of the tokens. -/
def tokenFiles (proofs : AnchorProofs) : List String :=
  proofs.batches.filterMap (·.tsrFile) ++ proofs.daily.filterMap (·.qtsFile)

/-- The roots of the batches and of the days. -/
def proofRoots (E : Externals) (proofs : AnchorProofs) : List Bytes :=
  anchorRoots E proofs ++ proofs.daily.filterMap fun day =>
    (hexDecodeDigest E "daily.root_blake3" day.rootBlake3).toOption.map List.Vector.toList

/-- A token of the bundle has these contents. -/
def HasToken (E : Externals) (reader : BundleReader) (proofs : AnchorProofs) (c : TokenContents) :
    Prop :=
  ∃ path ∈ tokenFiles proofs, ∃ bytes, reader.entryBytes path = .ok bytes ∧ c.In E bytes

section Bundle

variable {E : Externals} {S : Serde} {now : Int} {reader : BundleReader} {opts : VerifyOptions}
  {proofs : AnchorProofs} {A : Authority E} {t : VerifiedToken} {text : String}

theorem verifyToken_of_batch {batch : AnchorBatch} (hmem : batch ∈ proofs.batches)
    (h : verifiedBatchToken E reader batch = some t) :
    ∃ path ∈ tokenFiles proofs, ∃ bytes, reader.entryBytes path = .ok bytes ∧
      ∃ root ∈ proofRoots E proofs, verifyToken E bytes (sha256Raw E root) = .ok t := by
  unfold verifiedBatchToken checkBatch at h
  cases hroot : hexDecodeDigest E "root_blake3" batch.rootBlake3 with
  | error e => simp [hroot] at h
  | ok root =>
    by_cases hsha : sha256Hex E root.toList = batch.rootSha256
    · cases hpath : batch.tsrFile with
      | none => simp [hroot, hsha, hpath] at h
      | some path =>
        rw [← hsha, sha256Hex] at h
        simp only [hroot, sha256Hex, ne_eq, not_true_eq_false, ↓reduceIte, hpath,
          hexDecodeDigest_hexEncode, batchToken] at h
        cases hread : reader.entryBytes path with
        | error e => simp [hread] at h
        | ok bytes =>
          cases htoken : verifyToken E bytes (E.sha256 root.toList) with
          | error e => simp [hread, htoken] at h
          | ok token =>
            simp only [hread, htoken, Sum.getLeft?_inl, Option.some.injEq] at h
            refine ⟨path, ?_, bytes, hread, root.toList, ?_, h ▸ htoken⟩
            · exact List.mem_append_left _ (List.mem_filterMap.mpr ⟨batch, hmem, hpath⟩)
            · refine List.mem_append_left _ (List.mem_filterMap.mpr ⟨batch, hmem, ?_⟩)
              rw [hroot]
              rfl
    · simp [hroot, hsha] at h

theorem verifyToken_of_daily {day : DailyRoot} (hmem : day ∈ proofs.daily)
    (h : verifiedDailyToken E reader day = some t) :
    ∃ path ∈ tokenFiles proofs, ∃ bytes, reader.entryBytes path = .ok bytes ∧
      ∃ root ∈ proofRoots E proofs, verifyToken E bytes (sha256Raw E root) = .ok t := by
  unfold verifiedDailyToken at h
  simp only [Option.bind_eq_bind, Option.bind_eq_some_iff] at h
  obtain ⟨leaves, -, -, -, path, hpath, root, hroot, bytes, hread, htoken⟩ := h
  have hok : ∀ {ε α : Type} {r : Except ε α} {a : α}, r.toOption = some a → r = .ok a := by
    intro ε α r a hr
    cases r with
    | error e => cases hr
    | ok b => rw [Option.some.inj hr]
  refine ⟨path, ?_, bytes, hok hread, root.toList, ?_, hok htoken⟩
  · exact List.mem_append_right _ (List.mem_filterMap.mpr ⟨day, hmem, hpath⟩)
  · exact List.mem_append_right _ (List.mem_filterMap.mpr ⟨day, hmem, by rw [hroot]; rfl⟩)

/-- **The earliest anchor is a time that was issued**: the time that a report gives is one that the
authority signed for the digest of a root in the bundle, unless some token has a signer with another
key, or two inputs of one hash function collide. -/
theorem earliest_issued (A : Authority E) (hunforged : A.Unforged) (hencodes : A.Encodes)
    (h : (verifyBundle E S now reader opts).proven.earliestAnchor = some text) :
    (∃ root ∈ proofRoots E (proofsOf S reader), A.Issued (sha256Raw E root).toList text) ∨
      ∃ c, HasToken E reader (proofsOf S reader) c ∧
        (¬KeyOf E c.cert A.key ∨ ∃ kind, Collides (hashOf E kind) c.inputs A.inputs) := by
  obtain ⟨t, htext, path, hpath, bytes, hread, root, hroot, htoken⟩ : ∃ t : VerifiedToken,
      t.genTime = text ∧ ∃ path ∈ tokenFiles (proofsOf S reader), ∃ bytes,
        reader.entryBytes path = .ok bytes ∧ ∃ root ∈ proofRoots E (proofsOf S reader),
          verifyToken E bytes (sha256Raw E root) = .ok t := by
    rcases (earliestAnchor_eq_some.mp h).1 with
      ⟨batch, hmem, t, ht, htime⟩ | ⟨day, hmem, t, ht, htime⟩
    · exact ⟨t, htime, verifyToken_of_batch hmem ht⟩
    · exact ⟨t, htime, verifyToken_of_daily hmem ht⟩
  obtain ⟨c, hin, hforeign | hissued | hcol⟩ := issued_of_verifyToken hunforged hencodes htoken
  · exact .inr ⟨c, ⟨path, hpath, bytes, hread, hin⟩, .inl hforeign⟩
  · exact .inl ⟨root, hroot, htext ▸ hissued⟩
  · exact .inr ⟨c, ⟨path, hpath, bytes, hread, hin⟩, .inr hcol⟩

end Bundle

/-! The authority of the sample token signed one statement. -/

section Recorded

variable {r : Externals.Recording} {A : Authority (.recorded r)}

theorem unforged_of_recording (h : ∀ p ∈ r.rsaSignatures, p.1 = A.key → ∃ s ∈ A.statements,
    shaKind s.digestAlg = .ok p.2.1 ∧
      hashOf (.recorded r) p.2.1 (retag s.attrsDer) = p.2.2.1) : A.Unforged := by
  intro kind digest sig hverify
  have hmem : (A.key, kind, digest, sig) ∈ r.rsaSignatures := by
    by_contra hnot
    have herr : (Externals.recorded r).rsaVerify A.key kind digest sig =
        .error "verification error" := if_neg hnot
    rw [herr] at hverify
    cases hverify
  exact h _ hmem rfl

theorem encodes_of_recording (h : ∀ p ∈ r.signedData, ∀ signer ∈ p.2.signerInfos,
    ∀ s ∈ A.statements, signer.signedAttrs = some s.attrs) : A.Encodes := by
  intro any signedData hany signer hsigner der _ s hs _
  have hlookup : r.signedData.lookup any = some signedData := by
    have hanswer : (r.signedData.lookup any).elim (.error "not signed data") .ok =
        (.ok signedData : Except String SignedData) := hany
    cases hfound : r.signedData.lookup any with
    | none => simp [hfound] at hanswer
    | some found =>
      rw [hfound] at hanswer
      exact congrArg some (Except.ok.inj hanswer)
  obtain ⟨before, after, heq, -⟩ := List.lookup_eq_some_iff.mp hlookup
  exact h (any, signedData) (by simp [heq]) signer hsigner s hs

end Recorded

namespace Sample

def stamped : Statement where
  digestAlg := OID_SHA256
  attrs := signerInfo.signedAttrs.getD []
  attrsDer := signedAttributes
  tstBytes := tokenPart 71 86

def authority : Authority anchorExternals where
  key := spki
  statements := [stamped]
  digested := by
    intro s hs
    obtain rfl := List.mem_singleton.mp hs
    exact ⟨.sha256, rfl, by decide +kernel⟩

theorem authority_unforged : authority.Unforged := by
  apply unforged_of_recording
  intro p hp _
  obtain rfl := List.mem_singleton.mp hp
  exact ⟨stamped, List.mem_singleton_self _, rfl, by decide +kernel⟩

theorem authority_encodes : authority.Encodes := by
  apply encodes_of_recording
  intro p hp signer hsigner s hs
  obtain rfl := List.mem_singleton.mp hp
  obtain rfl := List.mem_singleton.mp hsigner
  obtain rfl := List.mem_singleton.mp hs
  rfl

theorem unrelated_earliest :
    (verifyBundle anchorExternals anchorDocuments.serde 0 unrelatedBundle
      options).proven.earliestAnchor = some "2026-11-18T04:21:15.000Z" := by
  have htoken : verifiedBatchToken anchorExternals unrelatedBundle batch =
      some ⟨"2026-11-18T04:21:15.000Z", "CN=TSA", true⟩ := by
    decide +kernel
  rw [earliestAnchor_eq_some, proofsOf_eq rfl]
  refine ⟨.inl ⟨_, List.mem_singleton_self _, _, htoken, rfl⟩, ?_⟩
  rintro u (⟨batch, hbatch, token, hverified, rfl⟩ | ⟨day, hday, -⟩)
  · obtain rfl := List.mem_singleton.mp hbatch
    rw [htoken] at hverified
    obtain rfl := Option.some.inj hverified
    exact le_refl _
  · cases hday

end Sample

open Sample in
theorem earliest_issued_sample :
    (∃ root ∈ proofRoots anchorExternals (proofsOf anchorDocuments.serde unrelatedBundle),
        authority.Issued (sha256Raw anchorExternals root).toList "2026-11-18T04:21:15.000Z") ∨
      ∃ c, HasToken anchorExternals unrelatedBundle
          (proofsOf anchorDocuments.serde unrelatedBundle) c ∧
        (¬KeyOf anchorExternals c.cert authority.key ∨
          ∃ kind, Collides (hashOf anchorExternals kind) c.inputs authority.inputs) :=
  earliest_issued authority authority_unforged authority_encodes unrelated_earliest

end Sealr.Verify
