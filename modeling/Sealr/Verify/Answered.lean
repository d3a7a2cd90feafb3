import Sealr.Verify.Extent
import Sealr.Verify.Reads

/-!
# Console signatures that go unanswered

The console signs countersignatures, revocation lists and daily roots. Each of the three is checked
in a place of its own, with guards of its own. A countersignature is always answered: a resolved key
verifies it, or the report complains about it. A daily root is not when it names no key or when no
key is known, and a revocation list is not when the identity files around it cannot be read.
-/

namespace Sealr.Verify

open Lib Evidence Bundle

/-- A console signature is answered: a resolved key verifies it, or its own check puts a warning or
an error into the report. -/
def Answered (report : Report) (keys : ConsoleKeys) (verify : VerifyingKey → Result Unit)
    (own : List Finding) : Prop :=
  (∃ k ∈ keys.values, verify k = .ok ()) ∨ ∃ f ∈ own, f ∈ report.findings ∧ f.severity ≠ .info

/-- The revocation list in a container, whether or not the other identity files can be read. -/
def revocationListOf (S : Serde) (reader : BundleReader) : Option SignedRevocationList :=
  (readEntry reader.zip "identity/revocations.json").toOption.bind fun bytes =>
    (decode S.revocationList bytes).toOption

/-- The check of a daily root's signature. -/
def DailyRoot.verifySignature (E : Externals) (day : DailyRoot) (sig : String)
    (k : VerifyingKey) : Result Unit :=
  k.verifyJcs E { day with signature := none }.toJson sig "daily root"

section Run

variable (E : Externals) (S : Serde) (now : Int) (reader : BundleReader) (opts : VerifyOptions)

/-- Every console signature that the run comes to is answered. -/
structure SignaturesAnswered : Prop where
  countersignatures : ∀ streamId ∈ scopeIds reader, ∀ bc ∈ checkpointsOf S reader streamId,
    ∀ cs, bc.countersignature = some cs →
      signed E streamId (trustOf E S now reader opts) bc = true →
      rootStands E (verifyStreamChain E S reader streamId).1.hashesBySeq bc = true →
      Answered (verifyBundle E S now reader opts) (trustOf E S now reader opts).consoleKeys
        (cs.verify E) (countersignatureStep E streamId (trustOf E S now reader opts).consoleKeys
          (verifyStreamChain E S reader streamId).1 bc).2.1
  revocations : ∀ rev, revocationListOf S reader = some rev →
    Answered (verifyBundle E S now reader opts) (trustOf E S now reader opts).consoleKeys
      (rev.verify E) (revocationFindings E (trustOf E S now reader opts).consoleKeys
        (trustOf E S now reader opts).revocations)
  daily : ∀ day ∈ (proofsOf S reader).daily, ∀ sig, day.signature = some sig →
    DayRecomputes E day →
    Answered (verifyBundle E S now reader opts) (trustOf E S now reader opts).consoleKeys
      (DailyRoot.verifySignature E day sig)
      (dailySignatureFindings E (trustOf E S now reader opts).consoleKeys day)

end Run

section Answers

variable {E : Externals} {S : Serde} {now : Int} {reader : BundleReader} {opts : VerifyOptions}
  {streamId : String} {keys : ConsoleKeys}

theorem any_succeeds_iff {verify : VerifyingKey → Result Unit} :
    (keys.values.any fun k => succeeds (verify k)) = true ↔
      ∃ k ∈ keys.values, verify k = .ok () := by
  simp [succeeds_iff]

/-! ## Countersignatures -/

/-- The findings of a countersignature depend on nothing that earlier turns left. -/
theorem countersignatureStep_findings (data data' : StreamData) (bc : BundleCheckpoint) :
    (countersignatureStep E streamId keys data bc).2.1 =
      (countersignatureStep E streamId keys data' bc).2.1 := by
  unfold countersignatureStep
  dsimp only
  split
  · rfl
  · split_ifs <;> rfl

/-- The turn of a checkpoint that gets as far as its countersignature reports on it. -/
theorem mem_checkpointStep {trust : Identity} {bc : BundleCheckpoint} {st : CheckpointState}
    {f : Finding} (hsigned : signed E streamId trust bc = true)
    (hstands : rootStands E st.data.hashesBySeq bc = true)
    (hf : f ∈ (countersignatureStep E streamId trust.consoleKeys st.data bc).2.1) :
    f ∈ (checkpointStep E streamId trust.certMap trust.revocations trust.consoleKeys st bc).2 := by
  have hrefuse : refuse E streamId trust.certMap trust.revocations bc = none := by
    simpa [signed] using hsigned
  have hgo : (rootStep E streamId st.data bc).2.2 = true := by
    rw [rootStep_data.2]
    exact hstands
  rw [countersignatureStep_findings st.data (rootStep E streamId st.data bc).1] at hf
  unfold checkpointStep
  rw [hrefuse]
  apply List.mem_append_right
  unfold signedStep
  dsimp only
  rw [hgo]
  simp only [↓reduceIte]
  split_ifs
  · exact List.mem_append_right _ hf
  · exact List.mem_append_right _ hf

theorem mem_checkpointTurn {trust : Identity} {bc : BundleCheckpoint} {f : Finding}
    (hbc : bc ∈ checkpointsOf S reader streamId) (hsigned : signed E streamId trust bc = true)
    (hstands : rootStands E (verifyStreamChain E S reader streamId).1.hashesBySeq bc = true)
    (hf : f ∈ (countersignatureStep E streamId trust.consoleKeys
      (verifyStreamChain E S reader streamId).1 bc).2.1) :
    f ∈ (checkpointTurn E S reader trust (streamId, (verifyStreamChain E S reader streamId).1)).2 := by
  unfold checkpointTurn
  unfold checkpointsOf at hbc
  cases hfile : reader.streamCheckpoints S streamId with
  | error e => simp [hfile, Except.toOption] at hbc
  | ok file =>
    simp only [hfile, Except.toOption, Option.elim_some] at hbc
    obtain ⟨pre, hturn⟩ := exists_turn (checkpointStep E streamId trust.certMap trust.revocations
      trust.consoleKeys) ⟨(verifyStreamChain E S reader streamId).1, []⟩ hbc
    apply hturn
    -- the hashes are those of the chain, whatever turns came before
    have hhashes : (verifyCheckpoints E streamId (verifyStreamChain E S reader streamId).1 pre
        trust.certMap trust.revocations trust.consoleKeys).1.hashesBySeq =
          (verifyStreamChain E S reader streamId).1.hashesBySeq := by
      rw [verifyCheckpoints_data, turns_hashes]
    apply mem_checkpointStep hsigned
    · rw [← hhashes] at hstands
      exact hstands
    · rw [countersignatureStep_findings] at hf
      exact hf

theorem countersignature_answered (hscope : streamId ∈ scopeIds reader) {bc : BundleCheckpoint}
    (hbc : bc ∈ checkpointsOf S reader streamId) {cs : Countersignature}
    (hcs : bc.countersignature = some cs)
    (hsigned : signed E streamId (trustOf E S now reader opts) bc = true)
    (hstands : rootStands E (verifyStreamChain E S reader streamId).1.hashesBySeq bc = true) :
    Answered (verifyBundle E S now reader opts) (trustOf E S now reader opts).consoleKeys
      (cs.verify E) (countersignatureStep E streamId (trustOf E S now reader opts).consoleKeys
        (verifyStreamChain E S reader streamId).1 bc).2.1 := by
  by_cases hverified : ∃ k ∈ (trustOf E S now reader opts).consoleKeys.values, cs.verify E k = .ok ()
  · exact .inl hverified
  · right
    rw [← countersigned_iff] at hverified
    have hloud : ¬∀ f ∈ (countersignatureStep E streamId (trustOf E S now reader opts).consoleKeys
        (verifyStreamChain E S reader streamId).1 bc).2.1, f.severity = .info := by
      rw [countersignatureStep_quiet_iff]
      intro h
      exact hverified (h cs hcs)
    push Not at hloud
    obtain ⟨f, hf, hsev⟩ := hloud
    refine ⟨f, hf, ?_, hsev⟩
    rw [findings_verifyBundle]
    refine List.mem_append_left _ (List.mem_append_left _ (List.mem_append_right _ ?_))
    exact List.mem_flatMap.mpr ⟨_, mem_chainPass.mpr ⟨hscope, rfl⟩,
      mem_checkpointTurn hbc hsigned hstands hf⟩

/-! ## The revocation list -/

theorem revocations_of_identity {i : BundleIdentity} (h : reader.identity E S = .ok i) :
    i.revocations = revocationListOf S reader := by
  obtain ⟨-, -, -, -, -, hrevs, -⟩ := identity_eq_ok.mp h
  unfold readRevocations at hrevs
  unfold revocationListOf
  split at hrevs
  · next bytes hread =>
    rw [hread]
    cases hdecode : decode S.revocationList bytes with
    | error e =>
      rw [hdecode] at hrevs
      cases hrevs
    | ok rev =>
      rw [hdecode] at hrevs
      rw [← Except.ok.inj hrevs]
      simp [Except.toOption, hdecode]
  · next path hread =>
    rw [hread, ← Except.ok.inj hrevs]
    rfl
  · cases hrevs

theorem revocations_trustOf : (trustOf E S now reader opts).revocations =
    (reader.identity E S).toOption.bind (·.revocations) := rfl

/-- With the identity files read, the revocation list is answered. -/
theorem revocationFindings_loud {rev : SignedRevocationList}
    (hunverified : ¬∃ k ∈ keys.values, rev.verify E k = .ok ()) :
    ∃ f ∈ revocationFindings E keys (some rev), f.severity ≠ .info := by
  have hnot : (keys.values.any fun k => succeeds (rev.verify E k)) = false := by
    rw [← Bool.not_eq_true, any_succeeds_iff]
    exact hunverified
  unfold revocationFindings
  simp only [hnot]
  by_cases hempty : keys.isEmpty = true
  · simp [hempty, add]
  · simp [hempty, add]

theorem revocations_answered_iff {rev : SignedRevocationList}
    (hrev : revocationListOf S reader = some rev) :
    Answered (verifyBundle E S now reader opts) (trustOf E S now reader opts).consoleKeys
        (rev.verify E) (revocationFindings E (trustOf E S now reader opts).consoleKeys
          (trustOf E S now reader opts).revocations) ↔
      (∃ k ∈ (trustOf E S now reader opts).consoleKeys.values, rev.verify E k = .ok ()) ∨
        ∃ i, reader.identity E S = .ok i := by
  constructor
  · intro h
    obtain hverified | ⟨f, hf, -⟩ := h
    · exact .inl hverified
    · right
      rw [revocations_trustOf] at hf
      cases hidentity : reader.identity E S with
      | error e =>
        rw [hidentity] at hf
        cases hf
      | ok i => exact ⟨i, rfl⟩
  · intro h
    by_cases hverified : ∃ k ∈ (trustOf E S now reader opts).consoleKeys.values,
        rev.verify E k = .ok ()
    · exact .inl hverified
    · right
      obtain ⟨i, hidentity⟩ := h.resolve_left hverified
      have hlist : (trustOf E S now reader opts).revocations = some rev := by
        rw [revocations_trustOf, hidentity, ← hrev]
        exact revocations_of_identity hidentity
      obtain ⟨f, hf, hsev⟩ := revocationFindings_loud hverified
      rw [hlist]
      refine ⟨f, hf, ?_, hsev⟩
      have hmem : f ∈ (identityPass E S (opts.nowUnix.getD now) reader opts).2 := by
        rw [← hlist] at hf
        exact List.mem_append_left _ (List.mem_append_right _ hf)
      rw [findings_verifyBundle]
      simp [hmem]

/-! ## Daily roots -/

theorem mem_dailyStep {earliest : Option String} {day : DailyRoot} {f : Finding}
    (hday : DayRecomputes E day) (hf : f ∈ dailySignatureFindings E keys day) :
    f ∈ (dailyStep E reader keys earliest day).2 := by
  obtain ⟨leaves, hleaves, hroot⟩ := hday
  unfold dailyStep
  simp only [hleaves, hroot, ne_eq, not_true_eq_false, ↓reduceIte]
  exact List.mem_append_left _ hf

theorem daily_answered_iff {day : DailyRoot} (hmem : day ∈ (proofsOf S reader).daily) {sig : String}
    (hsig : day.signature = some sig) (hday : DayRecomputes E day) :
    Answered (verifyBundle E S now reader opts) (trustOf E S now reader opts).consoleKeys
        (DailyRoot.verifySignature E day sig)
        (dailySignatureFindings E (trustOf E S now reader opts).consoleKeys day) ↔
      (∃ k ∈ (trustOf E S now reader opts).consoleKeys.values,
          DailyRoot.verifySignature E day sig k = .ok ()) ∨
        day.consoleKeyId.isSome ∧ (trustOf E S now reader opts).consoleKeys.isEmpty = false := by
  generalize hkeys : (trustOf E S now reader opts).consoleKeys = keys
  constructor
  · intro h
    obtain hverified | ⟨f, hf, -⟩ := h
    · exact .inl hverified
    · right
      unfold dailySignatureFindings at hf
      rw [hsig] at hf
      cases hid : day.consoleKeyId with
      | none => simp [hid] at hf
      | some id =>
        simp only [hid] at hf
        split_ifs at hf with hbad
        · exact ⟨rfl, by simpa using hbad.2⟩
        · cases hf
  · intro h
    by_cases hverified : ∃ k ∈ keys.values, DailyRoot.verifySignature E day sig k = .ok ()
    · exact .inl hverified
    · right
      obtain ⟨hid, hempty⟩ := h.resolve_left hverified
      obtain ⟨id, hid⟩ := Option.isSome_iff_exists.mp hid
      have hnot : (keys.values.any fun k => succeeds (k.verifyJcs E
          { day with signature := none }.toJson sig "daily root")) = false := by
        rw [← Bool.not_eq_true, any_succeeds_iff]
        exact hverified
      have hown : dailySignatureFindings E keys day = [add .error .dailyRootSignatureInvalid
          ("day " ++ day.day ++ ": signature does not verify")] := by
        unfold dailySignatureFindings
        split
        · next sig' id' hsig' _ =>
          obtain rfl : sig = sig' := Option.some.inj (hsig.symm.trans hsig')
          simp only [hnot, hempty]
          rfl
        · next hnone => exact absurd hid (hnone sig id hsig)
      refine ⟨_, hown ▸ List.mem_singleton_self _, ?_, by simp [add]⟩
      obtain ⟨pre, hturn⟩ := exists_turn (dailyStep E reader keys)
        (foldLog (batchStep E reader) ⟨none, checkedStreams E S now reader opts⟩
          (proofsOf S reader).batches).1.earliest hmem
      have hfound := hturn _ (mem_dailyStep hday (hown ▸ List.mem_singleton_self _))
      rw [findings_verifyBundle, hkeys]
      refine List.mem_append_left _ (List.mem_append_right _ ?_)
      exact List.mem_append_right _ hfound

/-- **Which console signatures are answered**: countersignatures always are. So are all others
exactly when every signed daily root whose root recomputes is verified by a resolved key, or names
its key while some key is known, and the revocation list is verified by a resolved key or stands
among identity files that can be read. -/
theorem signatures_answered_iff : SignaturesAnswered E S now reader opts ↔
    (∀ day ∈ (proofsOf S reader).daily, ∀ sig, day.signature = some sig → DayRecomputes E day →
      (∃ k ∈ (trustOf E S now reader opts).consoleKeys.values,
          DailyRoot.verifySignature E day sig k = .ok ()) ∨
        day.consoleKeyId.isSome ∧ (trustOf E S now reader opts).consoleKeys.isEmpty = false) ∧
      ∀ rev, revocationListOf S reader = some rev →
        (∃ k ∈ (trustOf E S now reader opts).consoleKeys.values, rev.verify E k = .ok ()) ∨
          ∃ i, reader.identity E S = .ok i := by
  constructor
  · intro h
    constructor
    · intro day hmem sig hsig hday
      exact (daily_answered_iff hmem hsig hday).mp (h.daily day hmem sig hsig hday)
    · intro rev hrev
      exact (revocations_answered_iff hrev).mp (h.revocations rev hrev)
  · intro h
    obtain ⟨hdaily, hrevs⟩ := h
    refine ⟨?_, ?_, ?_⟩
    · intro streamId hscope bc hbc cs hcs hsigned hstands
      exact countersignature_answered hscope hbc hcs hsigned hstands
    · intro rev hrev
      exact (revocations_answered_iff hrev).mpr (hrevs rev hrev)
    · intro day hmem sig hsig hday
      exact (daily_answered_iff hmem hsig hday).mpr (hdaily day hmem sig hsig hday)

end Answers

namespace Sample

def recorderSignature : String := "6e2daf7f5b76af4f7d8b30024160017f135902ee102eb2508f729dc2ea616a87354d7c8676f4c110ec3f30732f8fd0dae8a39653446afaa24ee5f4abe19c8d0e"

/-- A day signed with the recorder's key, which does not say which console key made the signature. -/
def unnamedDay : DailyRoot where
  day := "2026-08-11"
  rootBlake3 := "aebdc82beaae2145d6ddab15bc583029e792f96a5a1d2805afbc688521eacccf"
  rootSha256 := "4d23d5c460c760f8df75538ae6165da3f82a7a004f253496b3c753ccb01ba4cf"
  prevDayHash := none
  batchRoots := ["efd3c031ae76aec19f43c2bb7ef0a0934d446a6e5e97fbf0f4eaa2884310f29d"]
  qtsFile := none
  signature := some recorderSignature
  consoleKeyId := none

def dayProofs : AnchorProofs := ⟨[], [unnamedDay]⟩

def dayEntries : List (ZipEntry × String) := entries ++
  [(file "anchors/proofs.json" (documentBytes dayProofs.toJson),
    "6c6cc017fd93ce967cc2f7cd783e274e5a5144d4807629bcbfb6bfd7bfaafc85")]

def dayBundle : BundleReader where
  zip := ⟨dayEntries.map Prod.fst ++
    [file "manifest.json" (documentBytes (manifestFor dayEntries).toJson)],
    by simp [dayEntries, entries, entriesAround, file, shardPath]⟩
  manifest := manifestFor dayEntries

def dayExternals : Externals := .recorded { bundleRecording with
  blake3 := (0x00 :: unnamedDay.batchRoots.flatMap bytesOfHex, ofHex unnamedDay.rootBlake3) ::
    digested { unnamedDay with signature := none }.toJson
      "ba78fcb92d3c21749067ed8a73811517dcc986cc93fa1f9d199a0b42666385ff" ::
    bundleRecording.blake3 ++ hashesOf dayEntries }

def dayDocuments : Documents := { bundleDocuments with
  manifests := [manifestFor dayEntries]
  proofs := [dayProofs] }

theorem dayProofs_eq : proofsOf dayDocuments.serde dayBundle = dayProofs := by
  have hentry : readEntry dayBundle.zip "anchors/proofs.json" =
      .ok (documentBytes dayProofs.toJson) := rfl
  have hread : dayDocuments.serde.anchorProofs (documentBytes dayProofs.toJson) =
      .ok dayProofs := by
    simp only [dayDocuments, Documents.serde, readsBack_self]
  rw [proofsOf, BundleReader.anchorProofs_of_read hentry hread]
  rfl

theorem unnamedDay_recomputes : DayRecomputes dayExternals unnamedDay := by
  refine ⟨[ofHex "efd3c031ae76aec19f43c2bb7ef0a0934d446a6e5e97fbf0f4eaa2884310f29d"], ?_, ?_⟩
  · decide
  · decide

theorem day_keys :
    (trustOf dayExternals dayDocuments.serde 0 dayBundle options).consoleKeys.values =
      [consoleKey] := by
  apply values_override
  simp [VerifyingKey.fromSpkiPem, dayExternals, Externals.recorded, Externals.answer,
    bundleRecording]

end Sample

/-- A daily root carries a signature that the console never made, and nothing is said about it. -/
theorem daily_signature_unanswered : ¬SignaturesAnswered Sample.dayExternals
    Sample.dayDocuments.serde 0 Sample.dayBundle Sample.options := by
  intro h
  have hmem : Sample.unnamedDay ∈ (proofsOf Sample.dayDocuments.serde Sample.dayBundle).daily := by
    rw [Sample.dayProofs_eq]
    exact List.mem_singleton_self _
  obtain ⟨k, hk, hverified⟩ | ⟨f, hf, -⟩ :=
    h.daily _ hmem _ rfl Sample.unnamedDay_recomputes
  · rw [Sample.day_keys, List.mem_singleton] at hk
    rw [hk] at hverified
    have hrefused : succeeds (DailyRoot.verifySignature Sample.dayExternals Sample.unnamedDay
        Sample.recorderSignature Sample.consoleKey) = false := by
      decide +kernel
    rw [hverified] at hrefused
    cases hrefused
  · cases hf

end Sealr.Verify
