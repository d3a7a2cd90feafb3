import Sealr.Verify.Extent
import Sealr.Verify.Reads
import Sealr.Verify.Revoked

/-!
# More revocations

Two bundles that differ in their revocation lists, one of which holds the entries of the other. A
checkpoint that is revoked leaves the loop before its other checks, so its other errors vanish; but
it leaves an error of its own, so more revocations never turn `Fail` into anything else, and they
never attest a record.
-/

namespace Sealr.Verify

open Lib Evidence Bundle

/-- Two bundles with the same streams in scope and equally intact containers that agree on every
name that is read, except that they hold the revocation lists `list` and `list'`. -/
structure SameButRevocations (E : Externals) (S : Serde) (reader reader' : BundleReader)
    (list list' : SignedRevocationList) : Prop where
  ids : scopeIds reader = scopeIds reader'
  container : containerFindings E reader = containerFindings E reader'
  agree : ∀ role name, role ≠ .revocations → Reads E S reader role name →
    AgreeOn reader reader' name
  list : readRevocations S reader = .ok (some list)
  list' : readRevocations S reader' = .ok (some list')

section Refusals

variable {E : Externals} {streamId : String} {trust trust' : Identity} {bc : BundleCheckpoint}

/-- Identity material that revokes more, and is otherwise the same. -/
structure RevokesMore (E : Externals) (trust trust' : Identity) : Prop where
  certMap : trust.certMap = trust'.certMap
  consoleKeys : trust.consoleKeys = trust'.consoleKeys
  isRevoked : ∀ note, isRevoked E trust.revocations note = true →
    isRevoked E trust'.revocations note = true

theorem RevokesMore.signed (h : RevokesMore E trust trust')
    (hsigned : signed E streamId trust' bc = true) : signed E streamId trust bc = true := by
  rw [signed_iff] at hsigned ⊢
  obtain ⟨hstream, cert, hcert, hsig, hrev⟩ := hsigned
  refine ⟨hstream, cert, h.certMap ▸ hcert, hsig, ?_⟩
  by_contra hrevoked
  rw [h.isRevoked _ (by simpa using hrevoked)] at hrev
  cases hrev

theorem RevokesMore.attests (h : RevokesMore E trust trust') {hashes : Std.TreeMap UInt64 String}
    (hattests : attests E streamId trust' hashes bc = true) :
    attests E streamId trust hashes bc = true := by
  simp only [Verify.attests, Bool.and_eq_true] at hattests ⊢
  exact ⟨h.signed hattests.1, hattests.2⟩

/-- A checkpoint that is refused without a list is refused for the same reason with one. -/
theorem refuse_of_none {certMap : CertMap} {revs : Option SignedRevocationList} {f : Finding}
    (h : refuse E streamId certMap none bc = some f) :
    refuse E streamId certMap revs bc = some f := by
  have hnone : isRevoked E none bc.checkpoint.note = false := rfl
  unfold refuse at h ⊢
  by_cases hstream : bc.checkpoint.note.streamId = streamId
  · simp only [hstream, ne_eq, not_true_eq_false, ↓reduceIte] at h ⊢
    cases hcert : certMap[bc.checkpoint.note.recorderCertFingerprint]? with
    | none =>
      simp only [hcert] at h ⊢
      exact h
    | some cert =>
      simp only [hcert, hnone] at h ⊢
      by_cases hsig : succeeds (bc.checkpoint.verify E cert.publicKey) = true
      · simp [hsig] at h
      · simp only [hsig] at h ⊢
        exact h
  · simp only [hstream, ne_eq, not_false_eq_true, ↓reduceIte] at h ⊢
    exact h

/-- A checkpoint that was refused, or is still signed, is met as before. -/
theorem RevokesMore.refuse (h : RevokesMore E trust trust')
    (hstill : Verify.signed E streamId trust bc = true →
      Verify.signed E streamId trust' bc = true) :
    refuse E streamId trust.certMap trust.revocations bc =
      refuse E streamId trust'.certMap trust'.revocations bc := by
  rw [← h.certMap]
  cases hunrevoked : Verify.refuse E streamId trust.certMap none bc with
  | some f => rw [refuse_of_none hunrevoked, refuse_of_none hunrevoked]
  | none =>
    have hsame : Verify.isRevoked E trust.revocations bc.checkpoint.note =
        Verify.isRevoked E trust'.revocations bc.checkpoint.note := by
      cases hrev : Verify.isRevoked E trust.revocations bc.checkpoint.note with
      | true => rw [h.isRevoked _ hrev]
      | false =>
        have hun : Verify.signed E streamId trust.unrevoked bc = true := by
          simp [Verify.signed, Identity.unrevoked, hunrevoked]
        have hsigned := hstill (signed_iff_unrevoked.mpr ⟨hun, hrev⟩)
        rw [(signed_iff_unrevoked.mp hsigned).2]
    unfold Verify.refuse
    dsimp only
    rw [hsame]

theorem RevokesMore.verifyCheckpoints (h : RevokesMore E trust trust') {data : StreamData}
    {cps : List BundleCheckpoint}
    (hstill : ∀ bc ∈ cps, Verify.signed E streamId trust bc = true →
      Verify.signed E streamId trust' bc = true) :
    verifyCheckpoints E streamId data cps trust.certMap trust.revocations trust.consoleKeys =
      verifyCheckpoints E streamId data cps trust'.certMap trust'.revocations
        trust'.consoleKeys := by
  unfold Verify.verifyCheckpoints
  rw [@foldLog_congr _ _ _ (checkpointStep E streamId trust.certMap trust.revocations
    trust.consoleKeys) (checkpointStep E streamId trust'.certMap trust'.revocations
      trust'.consoleKeys) cps]
  intro bc hbc st
  unfold checkpointStep
  rw [h.refuse (hstill bc hbc), h.consoleKeys]

/-- A checkpoint that is not signed is reported with an error. -/
theorem error_of_unsigned {cps : List BundleCheckpoint} {data : StreamData} (hbc : bc ∈ cps)
    (hunsigned : signed E streamId trust bc = false) :
    ∃ f ∈ (verifyCheckpoints E streamId data cps trust.certMap trust.revocations
      trust.consoleKeys).2, f.severity = .error := by
  cases hrefuse : refuse E streamId trust.certMap trust.revocations bc with
  | none => simp [signed, hrefuse] at hunsigned
  | some f =>
    obtain ⟨pre, hturn⟩ := exists_turn (checkpointStep E streamId trust.certMap trust.revocations
      trust.consoleKeys) ⟨data, []⟩ hbc
    refine ⟨f, hturn f ?_, ?_⟩
    · simp [checkpointStep, hrefuse]
    · exact (refuse_eq_some hrefuse).1

end Refusals

section Runs

variable {E : Externals} {S : Serde} {now : Int} {reader reader' : BundleReader}
  {opts : VerifyOptions} {list list' : SignedRevocationList}

/-- The identity files of the two bundles. -/
theorem SameButRevocations.identity (h : SameButRevocations E S reader reader' list list') :
    (∃ i : BundleIdentity, reader.identity E S = .ok { i with revocations := some list } ∧
        reader'.identity E S = .ok { i with revocations := some list' }) ∨
      (reader.identity E S).toOption = none ∧ (reader'.identity E S).toOption = none := by
  have hiff : ∀ i : BundleIdentity, reader.identity E S = .ok { i with revocations := some list } ↔
      reader'.identity E S = .ok { i with revocations := some list' } := fun i =>
    identity_agree_iff (h.agree .certs · (by simp)) (h.agree .roots · (by simp)) h.list h.list'
  cases hread : reader.identity E S with
  | ok i =>
    left
    have hown : i.revocations = some list := by
      obtain ⟨-, -, -, -, -, hrevs, -⟩ := identity_eq_ok.mp hread
      exact Except.ok.inj (hrevs.symm.trans h.list)
    have hi : { i with revocations := some list } = i := by rw [← hown]
    refine ⟨i, by rw [hi], (hiff i).mp ?_⟩
    rw [hi, hread]
  | error e =>
    right
    cases hread' : reader'.identity E S with
    | error e' => exact ⟨rfl, rfl⟩
    | ok i =>
      have hown : i.revocations = some list' := by
        obtain ⟨-, -, -, -, -, hrevs, -⟩ := identity_eq_ok.mp hread'
        exact Except.ok.inj (hrevs.symm.trans h.list')
      have hi : { i with revocations := some list' } = i := by rw [← hown]
      rw [(hiff i).mpr (by rw [hi, hread'])] at hread
      cases hread

/-- The two identity passes: more is revoked, and the same is found. -/
theorem SameButRevocations.identityPass (h : SameButRevocations E S reader reader' list list')
    (houtcome : (∃ k ∈ (trustOf E S now reader opts).consoleKeys.values, list.verify E k = .ok ()) ↔
      ∃ k ∈ (trustOf E S now reader opts).consoleKeys.values, list'.verify E k = .ok ())
    (hentries : ∀ r ∈ list.list.revocations, r ∈ list'.list.revocations) :
    RevokesMore E (trustOf E S now reader opts) (trustOf E S now reader' opts) ∧
      (identityPass E S (opts.nowUnix.getD now) reader opts).2 =
        (identityPass E S (opts.nowUnix.getD now) reader' opts).2 := by
  obtain ⟨i, hread, hread'⟩ | ⟨hnone, hnone'⟩ := h.identity
  · constructor
    · refine ⟨?_, ?_, ?_⟩
      · simp only [trustOf, Verify.identityPass, hread, hread', Except.toOption, Option.map_some]
      · simp only [trustOf, Verify.identityPass, hread, hread', Except.toOption, Option.map_some]
      · intro note hrevoked
        have hlist : (trustOf E S now reader opts).revocations = some list := by
          simp [trustOf, Verify.identityPass, hread, Except.toOption]
        have hlist' : (trustOf E S now reader' opts).revocations = some list' := by
          simp [trustOf, Verify.identityPass, hread', Except.toOption]
        rw [hlist, isRevoked_eq_true] at hrevoked
        obtain ⟨ts, hts, r, hr, eff, heff, hle⟩ := hrevoked
        rw [hlist', isRevoked_eq_true]
        refine ⟨ts, hts, r, ?_, eff, heff, hle⟩
        obtain ⟨rev, hrev, hmem, hnamed⟩ := mem_entriesNaming.mp hr
        obtain rfl := Option.some.inj hrev
        exact mem_entriesNaming.mpr ⟨list', rfl, hentries r hmem, hnamed⟩
    · have hkeys : (resolveConsoleKeys E opts (some i.roots)
          (selectRoots E opts (some i.roots)).1.1).1 =
            (trustOf E S now reader opts).consoleKeys := by
        simp only [trustOf, Verify.identityPass, hread, Except.toOption, Option.map_some]
      have hlists : revocationFindings E (trustOf E S now reader opts).consoleKeys (some list) =
          revocationFindings E (trustOf E S now reader opts).consoleKeys (some list') := by
        have hany : ((trustOf E S now reader opts).consoleKeys.values.any fun k =>
            succeeds (list.verify E k)) = (trustOf E S now reader opts).consoleKeys.values.any
              fun k => succeeds (list'.verify E k) := by
          rw [Bool.eq_iff_iff]
          simpa [succeeds_iff] using houtcome
        simp only [revocationFindings, hany]
      simp only [Verify.identityPass, hread, hread', Except.toOption, Option.map_some,
        Option.bind_some, hkeys, hlists]
  · have hsame : Verify.identityPass E S (opts.nowUnix.getD now) reader opts =
        Verify.identityPass E S (opts.nowUnix.getD now) reader' opts := by
      unfold Verify.identityPass
      rw [hnone, hnone']
    have htrust : trustOf E S now reader opts = trustOf E S now reader' opts :=
      congrArg Prod.fst hsame
    rw [hsame, htrust]
    exact ⟨⟨rfl, rfl, fun _ hrev => hrev⟩, rfl⟩

theorem SameButRevocations.chainPass (h : SameButRevocations E S reader reader' list list') :
    chainPass E S reader = chainPass E S reader' :=
  chainPass_agree h.ids (h.agree .index · (by simp)) (h.agree .shard · (by simp))

theorem SameButRevocations.streamCheckpoints
    (h : SameButRevocations E S reader reader' list list') {streamId : String}
    (hscope : streamId ∈ scopeIds reader) :
    reader.streamCheckpoints S streamId = reader'.streamCheckpoints S streamId :=
  streamCheckpoints_agree (h.agree _ _ (by simp) (.checkpoints hscope))

/-- While no checkpoint of a stream in scope loses its standing, the findings are the same. -/
theorem SameButRevocations.findings (h : SameButRevocations E S reader reader' list list')
    (hmore : RevokesMore E (trustOf E S now reader opts) (trustOf E S now reader' opts))
    (hidentity : (Verify.identityPass E S (opts.nowUnix.getD now) reader opts).2 =
      (Verify.identityPass E S (opts.nowUnix.getD now) reader' opts).2)
    (hstill : ∀ streamId ∈ scopeIds reader, ∀ bc ∈ checkpointsOf S reader streamId,
      signed E streamId (trustOf E S now reader opts) bc = true →
        signed E streamId (trustOf E S now reader' opts) bc = true) :
    (verifyBundle E S now reader opts).findings = (verifyBundle E S now reader' opts).findings := by
  have hturn : ∀ s ∈ (Verify.chainPass E S reader).1,
      checkpointTurn E S reader (trustOf E S now reader opts) s =
        checkpointTurn E S reader' (trustOf E S now reader' opts) s := by
    rintro ⟨streamId, data⟩ hs
    have hscope := (mem_chainPass.mp hs).1
    have hcps := hstill streamId hscope
    unfold checkpointTurn
    unfold checkpointsOf at hcps
    rw [← h.streamCheckpoints hscope]
    cases hfile : reader.streamCheckpoints S streamId with
    | error e => rfl
    | ok file =>
      simp only [hfile, Except.toOption, Option.elim_some] at hcps
      dsimp only
      rw [hmore.verifyCheckpoints hcps]
  have hcheckpoints : checkpointPass E S reader (trustOf E S now reader opts)
      (Verify.chainPass E S reader).1 = checkpointPass E S reader' (trustOf E S now reader' opts)
        (Verify.chainPass E S reader').1 := by
    rw [← h.chainPass]
    unfold checkpointPass
    refine Prod.ext ?_ ?_
    · exact List.map_congr_left fun s hs => by rw [hturn s hs]
    · exact List.flatMap_congr fun s hs => by rw [hturn s hs]
  have hproofs : proofsOf S reader = proofsOf S reader' :=
    @proofsOf_agree E _ _ _ (h.agree .proofs · (by simp))
  have hanchors : verifyAnchors E reader (proofsOf S reader) (checkedStreams E S now reader opts)
      (trustOf E S now reader opts).consoleKeys = verifyAnchors E reader' (proofsOf S reader')
        (checkedStreams E S now reader' opts) (trustOf E S now reader' opts).consoleKeys := by
    have hchecked : checkedStreams E S now reader opts = checkedStreams E S now reader' opts :=
      congrArg Prod.fst hcheckpoints
    rw [← hchecked, ← hmore.consoleKeys, ← hproofs]
    exact verifyAnchors_agree (h.agree .token · (by simp))
  have hfinal : anchoredState E S now reader opts = anchoredState E S now reader' opts :=
    congrArg Prod.fst hanchors
  rw [findings_verifyBundle, findings_verifyBundle, h.container, hidentity, hcheckpoints,
    h.chainPass, hanchors, hfinal]

/-- What a stream has attested in the end is what its checkpoints attest. -/
theorem attestedSeqs_final {streamId : String} {data : StreamData}
    (h : (streamId, data) ∈ (anchoredState E S now reader opts).streams) :
    streamId ∈ scopeIds reader ∧ data.attestedSeqs =
      (checkedData E S reader (trustOf E S now reader opts) streamId).attestedSeqs := by
  obtain ⟨hscope, anchored, hdata⟩ := final_data h
  dsimp only at hdata
  refine ⟨hscope, ?_⟩
  rw [hdata]

/-- **Revocation is monotone**: with more entries in the revocation list, and the same outcome of
the check of its signature, no stream has more records attested, and a bundle that fails still
fails. -/
theorem revocation_monotone (h : SameButRevocations E S reader reader' list list')
    (houtcome : (∃ k ∈ (trustOf E S now reader opts).consoleKeys.values, list.verify E k = .ok ()) ↔
      ∃ k ∈ (trustOf E S now reader opts).consoleKeys.values, list'.verify E k = .ok ())
    (hentries : ∀ r ∈ list.list.revocations, r ∈ list'.list.revocations) :
    (∀ streamId data data', (streamId, data) ∈ (anchoredState E S now reader opts).streams →
        (streamId, data') ∈ (anchoredState E S now reader' opts).streams →
          data'.attestedSeqs ⊆ data.attestedSeqs) ∧
      ((verifyBundle E S now reader opts).result = .fail →
        (verifyBundle E S now reader' opts).result = .fail) := by
  obtain ⟨hmore, hidentity⟩ := h.identityPass houtcome hentries
  constructor
  · intro streamId data data' hdata hdata' seq hseq
    obtain ⟨hscope, hattested⟩ := attestedSeqs_final hdata
    obtain ⟨-, hattested'⟩ := attestedSeqs_final hdata'
    have hcps : checkpointsOf S reader' streamId = checkpointsOf S reader streamId := by
      unfold checkpointsOf
      rw [h.streamCheckpoints hscope]
    have hchain : verifyStreamChain E S reader' streamId = verifyStreamChain E S reader streamId :=
      (verifyStreamChain_agree hscope (h.agree .index · (by simp))
        (h.agree .shard · (by simp))).symm
    rw [hattested'] at hseq
    rw [hattested]
    have hseq' := (mem_turns_attestedSeqs _).mp hseq
    rw [hcps, hchain] at hseq'
    refine (mem_turns_attestedSeqs _).mpr ?_
    obtain hold | ⟨bc, hbc, hattests, hin⟩ := hseq'
    · exact .inl hold
    · exact .inr ⟨bc, hbc, hmore.attests hattests, hin⟩
  · intro hfail
    by_cases hstill : ∀ streamId ∈ scopeIds reader, ∀ bc ∈ checkpointsOf S reader streamId,
        signed E streamId (trustOf E S now reader opts) bc = true →
          signed E streamId (trustOf E S now reader' opts) bc = true
    · rw [result_verifyBundle, ← h.findings hmore hidentity hstill]
      exact hfail
    · -- a checkpoint that has lost its standing is an error
      push Not at hstill
      obtain ⟨streamId, hscope, bc, hbc, -, hunsigned⟩ := hstill
      rw [result_verifyBundle, computeResult_eq_fail]
      unfold checkpointsOf at hbc
      rw [h.streamCheckpoints hscope] at hbc
      cases hfile : reader'.streamCheckpoints S streamId with
      | error e => simp [hfile, Except.toOption] at hbc
      | ok file =>
        simp only [hfile, Except.toOption, Option.elim_some] at hbc
        obtain ⟨f, hf, herr⟩ := error_of_unsigned hbc (by simpa using hunsigned)
        refine ⟨f, ?_, herr⟩
        rw [findings_verifyBundle]
        refine List.mem_append_left _ (List.mem_append_left _ (List.mem_append_right _ ?_))
        refine List.mem_flatMap.mpr ⟨(streamId, (verifyStreamChain E S reader' streamId).1),
          mem_chainPass.mpr ⟨h.ids ▸ hscope, rfl⟩, ?_⟩
        unfold checkpointTurn
        simp only [hfile]
        exact hf

end Runs

/-! The bundle with a list that revokes nothing, and with one that revokes its certificate. -/

namespace Sample

open Evidence.Sample

def emptyList : SignedRevocationList := ⟨⟨"2026-08-01T00:00:00.000Z", []⟩, "console-1",
  "26dbb6467985b3af9235aa19292c9ee3d212dcd40f436d9324195d82ced96bafeea402fca281b55bd2343279c61a583ee2c2c4710c397aa445f92d6adce1b50a"⟩

def revokedList : SignedRevocationList := revokedTrust.revocations.getD emptyList

def listEntries (list : SignedRevocationList) (hash : String) : List (ZipEntry × String) :=
  entries ++ [(file "identity/revocations.json" (documentBytes list.toJson), hash)]

def listBundle (list : SignedRevocationList) (hash : String) : BundleReader where
  zip := ⟨(listEntries list hash).map Prod.fst ++
    [file "manifest.json" (documentBytes (manifestFor (listEntries list hash)).toJson)],
    by simp [listEntries, entries, entriesAround, file, shardPath]⟩
  manifest := manifestFor (listEntries list hash)

def emptyListed : BundleReader :=
  listBundle emptyList "4c8a6e1b04391531e8a554a8dc9a2ee4b383c376867c401e4ffdfe399646279c"

def revokedListed : BundleReader :=
  listBundle revokedList "a1944794156b8dc5ba5985c59a3e148df7cfa51b8df835bdbb29038ebfdee67f"

def emptyListHash : String := "c8d850ebc57c1e3e1b1f3c1803ac38b68cacda6d1201dbd5deab6fb968bad35c"

def revokedListHash : String := "07b1eb4cb619b9b903ac3a9da1a4ca9be1ef8ef3f6b935a22f7969afcfc1581b"

def listExternals : Externals := .recorded { bundleRecording with
  blake3 := [
    (documentBytes emptyList.toJson,
      ofHex "4c8a6e1b04391531e8a554a8dc9a2ee4b383c376867c401e4ffdfe399646279c"),
    (documentBytes revokedList.toJson,
      ofHex "a1944794156b8dc5ba5985c59a3e148df7cfa51b8df835bdbb29038ebfdee67f"),
    digested emptyList.list.toJson emptyListHash,
    digested revokedList.list.toJson revokedListHash] ++ bundleRecording.blake3
  signatures := bundleRecording.signatures ++ [
    ((consoleKey.bytes, ofHex emptyListHash), ofHex emptyList.signature),
    ((consoleKey.bytes, ofHex revokedListHash), ofHex revokedList.signature)]
  times := (revocationEntry.effectiveAt, ⟨1785542400, 0⟩) :: bundleRecording.times }

def listDocuments : Documents := { bundleDocuments with
  manifests := [emptyListed.manifest, revokedListed.manifest]
  revocations := [emptyList, revokedList] }

theorem listBundle_agree {list list' : SignedRevocationList} {hash hash' name : String}
    (hrevs : name ≠ "identity/revocations.json") (hmanifest : name ≠ "manifest.json") :
    AgreeOn (listBundle list hash) (listBundle list' hash') name := by
  simp [AgreeOn, ZipArchive.byName, listBundle, listEntries, file, hrevs.symm, hmanifest.symm,
    List.find?_append]

theorem scopeIds_listBundle (list : SignedRevocationList) (hash : String) :
    scopeIds (listBundle list hash) = [opened.streamId] := rfl

theorem emptyListed_agree {role : Role} {name : String} (hrole : role ≠ .revocations)
    (h : Reads listExternals listDocuments.serde emptyListed role name) :
    AgreeOn emptyListed revokedListed name := by
  have hproofs : proofsOf listDocuments.serde emptyListed = .default := rfl
  have hread : emptyListed.recordIndex listDocuments.serde = .ok index := by
    have hentry : readEntry emptyListed.zip "records/index.json" =
        .ok (documentBytes index.toJson) := rfl
    refine BundleReader.recordIndex_of_read hentry ?_
    simp only [listDocuments, bundleDocuments, Documents.serde, readsBack_self]
  obtain ⟨hmanifest, hrevs⟩ := name_of_reads hread hproofs (scopeIds_listBundle _ _) h
  exact listBundle_agree (hrevs hrole) hmanifest

theorem lists_verify : emptyList.verify listExternals consoleKey = .ok () ∧
    revokedList.verify listExternals consoleKey = .ok () := by
  rw [← succeeds_iff, ← succeeds_iff]
  constructor
  · decide +kernel
  · decide +kernel

theorem list_keys : (trustOf listExternals listDocuments.serde 0 emptyListed
    options).consoleKeys.values = [consoleKey] := by
  apply values_override
  simp [VerifyingKey.fromSpkiPem, listExternals, Externals.recorded, Externals.answer,
    bundleRecording]

theorem list_intact {list : SignedRevocationList} {hash : String}
    (h : blake3Hex listExternals (documentBytes list.toJson) = hash) :
    containerFindings listExternals (listBundle list hash) = [] := by
  have hentries : ∀ e ∈ entries, blake3Hex listExternals e.1.data = e.2 := by decide +kernel
  have hok : (listBundle list hash).verifyContentHashes listExternals = .ok [] := by
    refine verifyContentHashes_manifestFor rfl rfl ?_ ?_
    · intro e he
      simp only [listEntries, entries, entriesAround, List.mem_append, List.mem_cons,
        List.not_mem_nil, or_false] at he
      obtain (rfl | rfl | rfl | rfl | rfl) | rfl := he
      all_goals rfl
    · intro e he
      obtain he | he := List.mem_append.mp he
      · exact hentries e he
      · rw [List.mem_singleton.mp he]
        exact h
  have hschema : (listBundle list hash).manifest.schemaVersion = BUNDLE_SCHEMA_VERSION := rfl
  simp [containerFindings, hok, hschema]

theorem listed_same : SameButRevocations listExternals listDocuments.serde emptyListed
    revokedListed emptyList revokedList := by
  refine ⟨?_, ?_, ?_, ?_, ?_⟩
  · rw [emptyListed, revokedListed, scopeIds_listBundle, scopeIds_listBundle]
  · rw [emptyListed, revokedListed, list_intact (by decide +kernel), list_intact (by decide +kernel)]
  · intro role name
    exact emptyListed_agree
  · have hentry : readEntry emptyListed.zip "identity/revocations.json" =
        .ok (documentBytes emptyList.toJson) := rfl
    refine readRevocations_of_read hentry ?_
    simp only [listDocuments, Documents.serde, readsBack_self]
  · have hentry : readEntry revokedListed.zip "identity/revocations.json" =
        .ok (documentBytes revokedList.toJson) := rfl
    have hdiffer : documentBytes emptyList.toJson ≠ documentBytes revokedList.toJson := by
      decide +kernel
    refine readRevocations_of_read hentry ?_
    simp only [listDocuments, Documents.serde, readsBack_next hdiffer, readsBack_self]

end Sample

theorem revocation_monotone_sample :
    (∀ streamId data data',
        (streamId, data) ∈ (anchoredState Sample.listExternals Sample.listDocuments.serde 0
          Sample.emptyListed Sample.options).streams →
        (streamId, data') ∈ (anchoredState Sample.listExternals Sample.listDocuments.serde 0
          Sample.revokedListed Sample.options).streams →
          data'.attestedSeqs ⊆ data.attestedSeqs) ∧
      ((verifyBundle Sample.listExternals Sample.listDocuments.serde 0 Sample.emptyListed
          Sample.options).result = .fail →
        (verifyBundle Sample.listExternals Sample.listDocuments.serde 0 Sample.revokedListed
          Sample.options).result = .fail) := by
  refine revocation_monotone Sample.listed_same ?_ ?_
  · obtain ⟨hempty, hrevoked⟩ := Sample.lists_verify
    rw [Sample.list_keys]
    simp [hempty, hrevoked]
  · intro r hr
    cases hr

end Sealr.Verify
