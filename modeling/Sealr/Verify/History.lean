import Sealr.Verify.Links
import Sealr.Verify.Unordered

/-!
# What a checkpoint says about the past

Each note names the hash of the note before it. Two bundles of a stream may be exported at different
times and by different hands; if neither fails and both hold one note, then they hold the same notes
before it, and the same records wherever both export the range of such a note (`history_pinned`), up
to a collision.
-/

namespace Sealr.Verify

open Lib Evidence Bundle

/-- The text by which a note is named in the one after it. -/
def noteText (E : Externals) (note : CheckpointNote) : String :=
  hexEncode (noteDigest E note).toList

/-- A note leads back to itself, and to the accepted notes named by a note it leads back to. -/
inductive LeadsBack (E : Externals) (accepted : CheckpointNote → Prop) (note : CheckpointNote) :
    CheckpointNote → Prop where
  | here (h : accepted note) : LeadsBack E accepted note note
  | link {m p : CheckpointNote} (h : LeadsBack E accepted note m)
      (hprev : m.prevCheckpointHash = some (noteText E p)) (hp : accepted p) :
      LeadsBack E accepted note p

/-- `verify_bundle` accepts a checkpoint with this note for the stream. -/
def AcceptsNote (E : Externals) (S : Serde) (now : Int) (reader : BundleReader)
    (opts : VerifyOptions) (streamId : String) (note : CheckpointNote) : Prop :=
  ∃ bc ∈ checkpointsOf S reader streamId, bc.checkpoint.note = note ∧
    accepts E streamId (trustOf E S now reader opts)
      (verifyStreamChain E S reader streamId).1.hashesBySeq bc = true

/-- The file of the stream has a record under every number of a note's range. -/
def ExportsRange (E : Externals) (S : Serde) (reader : BundleReader) (streamId : String)
    (note : CheckpointNote) : Prop :=
  ∀ s, note.seqFrom ≤ s → s ≤ note.seqTo → ∃ v ∈ fileRecords E S reader streamId, seqOf v = some s

/-- What is hashed for the notes, the roots and the records of a stream. -/
def historyInputs (E : Externals) (S : Serde) (reader : BundleReader) (streamId : String) :
    List Bytes :=
  (checkpointsOf S reader streamId).flatMap fun bc =>
    noteBytes bc :: hashedInputs E S reader streamId bc.checkpoint.note

section

variable {E : Externals} {S : Serde} {now now₁ now₂ : Int} {reader reader₁ reader₂ : BundleReader}
  {opts opts₁ opts₂ : VerifyOptions} {streamId : String} {note m : CheckpointNote}
  {accepted : CheckpointNote → Prop}

theorem LeadsBack.ends (h : LeadsBack E accepted note m) : accepted m := by
  cases h with
  | here h => exact h
  | link _ _ hp => exact hp

/-- Where a note is accepted whenever it is named, other accepted notes lead back to no other ones.
-/
theorem LeadsBack.transfer {accepted' : CheckpointNote → Prop} (h : LeadsBack E accepted note m)
    (hnote : accepted' note)
    (hresolved : ∀ a, accepted' a → ∀ text, a.prevCheckpointHash = some text →
      ∃ b, accepted' b ∧ text = noteText E b)
    (hinj : ∀ a b, accepted a → accepted' b → noteText E a = noteText E b → a = b) :
    LeadsBack E accepted' note m := by
  induction h with
  | here _ => exact .here hnote
  | @link m p _ hprev hp ih =>
    obtain ⟨q, hq, htext⟩ := hresolved m ih.ends _ hprev
    obtain rfl := hinj p q hp hq htext
    exact .link ih hprev hq

/-! ## One bundle -/

/-- A bundle that does not fail resolves the links of the notes it accepts. -/
theorem AcceptsNote.resolved (h : AcceptsNote E S now reader opts streamId note)
    (hunfailed : (verifyBundle E S now reader opts).Unfailed)
    (hscope : streamId ∈ scopeIds reader) {text : String}
    (hprev : note.prevCheckpointHash = some text) :
    ∃ p, AcceptsNote E S now reader opts streamId p ∧ text = noteText E p := by
  obtain ⟨bc, hbc, rfl, hacc⟩ := h
  have hunchecked := verifyStreamChain_unchecked E S reader streamId
  have hlink : (bc.checkpoint.note.checkpointId, text) ∈
      (checkedData E S reader (trustOf E S now reader opts) streamId).checkpointLinks := by
    have hlinks : (checkedData E S reader (trustOf E S now reader opts) streamId).checkpointLinks =
        ((checkpointsOf S reader streamId).filter (accepts E streamId (trustOf E S now reader opts)
          (verifyStreamChain E S reader streamId).1.hashesBySeq)).flatMap fun bc =>
            (bc.checkpoint.note.prevCheckpointHash.map
              (bc.checkpoint.note.checkpointId, ·)).toList := by
      refine (turns_links _).trans ?_
      rw [hunchecked.checkpointLinks, List.nil_append]
    rw [hlinks]
    refine List.mem_flatMap.mpr ⟨bc, List.mem_filter.mpr ⟨hbc, hacc⟩, ?_⟩
    simp [hprev]
  have hnamed : text ∈
      (checkedData E S reader (trustOf E S now reader opts) streamId).checkpointNoteHashes := by
    by_contra hloose
    obtain ⟨anchored, hs⟩ := @exists_final E S now reader opts streamId hscope
    have hfound : ∃ f ∈ linkChainFindings streamId
        { checkedData E S reader (trustOf E S now reader opts) streamId with
          anchoredSeqs := anchored }, f.severity = .error :=
      ⟨_, List.mem_filterMap.mpr ⟨_, hlink, if_neg hloose⟩, rfl⟩
    obtain ⟨f, hf, herr⟩ := hfound
    have hmem := mem_findings_of_coverage (f := f) hs (by simp [coverageFindings, hf])
    exact hunfailed f hmem herr
  obtain hempty | ⟨bc', hbc', hacc', htext⟩ := (mem_turns_noteHashes _).mp hnamed
  · rw [hunchecked.checkpointNoteHashes] at hempty
    exact absurd hempty (Finset.notMem_empty text)
  · exact ⟨_, ⟨bc', hbc', rfl, hacc'⟩, htext⟩

/-- The passes over one stream find no error in a bundle that does not fail. -/
theorem verifyStream_noError (hunfailed : (verifyBundle E S now reader opts).Unfailed)
    (hscope : streamId ∈ scopeIds reader) : ∀ f ∈ (verifyStream E S reader streamId
      (checkpointsOf S reader streamId) (trustOf E S now reader opts)).2, f.severity ≠ .error := by
  intro f hf
  refine hunfailed f ?_
  rw [findings_verifyBundle]
  simp only [List.mem_append]
  rcases List.mem_append.mp hf with hf | hf
  · exact .inl (.inl (.inl (.inr (mem_chainPass_findings.mpr ⟨streamId, hscope, hf⟩))))
  · refine .inl (.inl (.inr ?_))
    refine List.mem_flatMap.mpr ⟨_, mem_chainPass.mpr ⟨hscope, rfl⟩, ?_⟩
    unfold checkpointTurn
    unfold checkpointsOf at hf
    cases hfile : reader.streamCheckpoints S streamId with
    | error e =>
      rw [hfile] at hf
      cases hf
    | ok file =>
      rw [hfile] at hf
      exact hf

/-- The bytes of an accepted note. -/
theorem AcceptsNote.bytes (h : AcceptsNote E S now reader opts streamId note) :
    ∃ jcs, toJcsBytes note.toJson = .ok jcs ∧ noteDigest E note = E.blake3 jcs ∧
      jcs ∈ historyInputs E S reader streamId := by
  obtain ⟨bc, hbc, rfl, hacc⟩ := h
  obtain ⟨jcs, hjcs⟩ := toJcsBytes_of_signed (signed_of_accepts hacc)
  refine ⟨jcs, hjcs, ?_, List.mem_flatMap.mpr ⟨bc, hbc, ?_⟩⟩
  · rw [noteDigest, hjcs]
    rfl
  · rw [noteBytes, documentBytes, hjcs]
    exact List.mem_cons_self

/-- An accepted note whose range is exported attests this range. -/
theorem AcceptsNote.attests (h : AcceptsNote E S now reader opts streamId note)
    (hunfailed : (verifyBundle E S now reader opts).Unfailed) (hscope : streamId ∈ scopeIds reader)
    (hrange : ExportsRange E S reader streamId note) {s : UInt64} (hfrom : note.seqFrom ≤ s)
    (hto : s ≤ note.seqTo) :
    ∃ bc ∈ checkpointsOf S reader streamId, bc.checkpoint.note = note ∧
      AttestsThrough E S reader streamId (checkpointsOf S reader streamId)
        (trustOf E S now reader opts) bc s := by
  obtain ⟨bc, hbc, rfl, hacc⟩ := h
  obtain ⟨-, hnum, -, hholds⟩ := verifyStreamChain_quiet (P := fun f => f.severity ≠ .error)
    (fun _ hf => hf) fun f hf =>
      verifyStream_noError hunfailed hscope f (List.mem_append_left _ hf)
  have hexported := (@exported_iff (verifyStreamChain E S reader streamId).1.hashesBySeq
    (seqList bc.checkpoint.note.seqFrom bc.checkpoint.note.seqTo) _).mpr ⟨?_, rfl⟩
  · have hfull : fullyExported (covered (verifyStreamChain E S reader streamId).1.hashesBySeq
        bc.checkpoint.note) bc.checkpoint.note = true := by
      rw [covered, coveredHashes_of_exported hexported, fullyExported_iff,
        ← hexported.length_eq]
      exact ofNat_length_seqList (UInt64.le_trans hfrom hto)
    simp only [accepts, rootStands, hfull, Bool.not_true, Bool.false_or, Bool.and_eq_true] at hacc
    refine ⟨bc, hbc, rfl, hbc, ?_, hfrom, hto⟩
    simp only [Verify.attests, Bool.and_eq_true]
    exact hacc.1
  · intro t ht
    obtain ⟨hfrom', hto'⟩ := mem_seqList.mp ht
    obtain ⟨v, hv, hseq⟩ := hrange t hfrom' hto'
    obtain ⟨view, hview⟩ := hnum.viewed v hv
    have hget := (hholds.get t view.recordHash).mpr ⟨v, hv, hseq, hview.recordHash⟩
    rw [Std.TreeMap.mem_iff_isSome_getElem?, hget]
    rfl

/-! ## Two bundles -/

/-- Accepted notes of one hash are one note, or BLAKE3 collides. -/
theorem AcceptsNote.eq_of_text {n₁ n₂ : CheckpointNote}
    (h₁ : AcceptsNote E S now₁ reader₁ opts₁ streamId n₁)
    (h₂ : AcceptsNote E S now₂ reader₂ opts₂ streamId n₂) (htext : noteText E n₁ = noteText E n₂) :
    n₁ = n₂ ∨ Collides E.blake3 (historyInputs E S reader₁ streamId)
      (historyInputs E S reader₂ streamId) := by
  obtain ⟨jcs₁, hjcs₁, hdigest₁, hmem₁⟩ := h₁.bytes
  obtain ⟨jcs₂, hjcs₂, hdigest₂, hmem₂⟩ := h₂.bytes
  have hdigest : E.blake3 jcs₁ = E.blake3 jcs₂ := by
    rw [← hdigest₁, ← hdigest₂]
    exact List.Vector.toList_injective (hexEncode_injective htext)
  refine (eq_or_collides hmem₁ hmem₂ hdigest).imp_left ?_
  rintro rfl
  have hnote : Signable.checkpoint n₁ = .checkpoint n₂ := Signable.eq_of_toJcsBytes hjcs₁ hjcs₂
  exact Signable.checkpoint.inj hnote

/-- Records that two bundles attest through one note are equal, or BLAKE3 collides. -/
theorem AttestsThrough.equiv {cps₁ cps₂ : List BundleCheckpoint} {trust₁ trust₂ : Identity}
    {bc₁ bc₂ : BundleCheckpoint} {s : UInt64}
    (h₁ : AttestsThrough E S reader₁ streamId cps₁ trust₁ bc₁ s)
    (h₂ : AttestsThrough E S reader₂ streamId cps₂ trust₂ bc₂ s)
    (hquiet₁ : ∀ f ∈ (verifyStream E S reader₁ streamId cps₁ trust₁).2, f.severity ≠ .error)
    (hquiet₂ : ∀ f ∈ (verifyStream E S reader₂ streamId cps₂ trust₂).2, f.severity ≠ .error)
    (hnote : bc₁.checkpoint.note = bc₂.checkpoint.note) {v w : Json}
    (hv : v ∈ fileRecords E S reader₁ streamId) (hw : w ∈ fileRecords E S reader₂ streamId)
    (hvs : seqOf v = some s) (hws : seqOf w = some s) :
    v.value.Equiv w.value ∨ Collides E.blake3
      (hashedInputs E S reader₁ streamId bc₁.checkpoint.note)
      (hashedInputs E S reader₂ streamId bc₂.checkpoint.note) := by
  obtain ⟨ds₁, hleaves₁, hne₁, hroot₁, hall₁⟩ := h₁.digests hquiet₁
  obtain ⟨ds₂, hleaves₂, hne₂, hroot₂, hall₂⟩ := h₂.digests hquiet₂
  obtain ⟨-, hnum₁, -, -⟩ := verifyStreamChain_quiet (P := fun f => f.severity ≠ .error)
    (fun _ hf => hf) fun f hf => hquiet₁ f (List.mem_append_left _ hf)
  obtain ⟨-, hnum₂, -, -⟩ := verifyStreamChain_quiet (P := fun f => f.severity ≠ .error)
    (fun _ hf => hf) fun f hf => hquiet₂ f (List.mem_append_left _ hf)
  have hroots : merkleRoot E (ds₁.map List.Vector.toList) =
      merkleRoot E (ds₂.map List.Vector.toList) := by
    apply List.Vector.toList_injective
    apply hexEncode_injective
    rw [hroot₁, hroot₂, hnote]
  rcases merkleRoot_binds (by simpa using hne₁) (by simpa using hne₂) hroots with hleaves | hcol
  · -- one list of digests, so the records under `s` have one digest
    obtain rfl : ds₁ = ds₂ := List.map_injective_iff.mpr List.Vector.toList_injective hleaves
    have hin : s ∈ seqList bc₁.checkpoint.note.seqFrom bc₁.checkpoint.note.seqTo :=
      mem_seqList.mpr ⟨h₁.seqFrom_le, h₁.le_seqTo⟩
    obtain ⟨i, hi, rfl⟩ := List.getElem_of_mem hin
    rw [← hnote] at hall₂
    have hi' := hall₁.length_eq ▸ hi
    obtain ⟨v', hv', hseq₁, hd₁⟩ := hall₁.get hi hi'
    obtain ⟨w', hw', hseq₂, hd₂⟩ := hall₂.get hi hi'
    obtain rfl := hnum₁.unique hv hv' hvs hseq₁
    obtain rfl := hnum₂.unique hw hw' hws hseq₂
    have hmem₁ : inputOf v ∈ hashedInputs E S reader₁ streamId bc₁.checkpoint.note :=
      List.mem_append_left _ (List.mem_map_of_mem hv)
    have hmem₂ : inputOf w ∈ hashedInputs E S reader₂ streamId bc₂.checkpoint.note :=
      List.mem_append_left _ (List.mem_map_of_mem hw)
    refine (eq_or_collides hmem₁ hmem₂ (hd₁.trans hd₂.symm)).imp_left fun hinput => ?_
    obtain ⟨a, ha⟩ := hnum₁.viewed v hv
    obtain ⟨b, hb⟩ := hnum₂.viewed w hw
    exact (inputOf_inj (hnum₁.hashed v hv) (hnum₂.hashed w hw) ha hb hinput).2.2
  · right
    refine hcol.mono ?_ ?_
    · rw [hashedInputs, hleaves₁]
      exact List.subset_append_right _ _
    · rw [hashedInputs, hleaves₂]
      exact List.subset_append_right _ _

theorem hashedInputs_subset {bc : BundleCheckpoint} (h : bc ∈ checkpointsOf S reader streamId) :
    hashedInputs E S reader streamId bc.checkpoint.note ⊆ historyInputs E S reader streamId := by
  intro x hx
  exact List.mem_flatMap.mpr ⟨bc, h, List.mem_cons_of_mem _ hx⟩

/-- **A note pins the history of its stream.** Two bundles that do not fail and accept one note: the
note leads back to the same accepted notes in both, and wherever both export the whole range of such
a note, their records in it are equal up to member order and number spelling, or two of the byte
strings that they hash collide. -/
theorem history_pinned
    (hresult₁ : (verifyBundle E S now₁ reader₁ opts₁).result ≠ .fail)
    (hresult₂ : (verifyBundle E S now₂ reader₂ opts₂).result ≠ .fail)
    (hscope₁ : streamId ∈ scopeIds reader₁) (hscope₂ : streamId ∈ scopeIds reader₂)
    (h₁ : AcceptsNote E S now₁ reader₁ opts₁ streamId note)
    (h₂ : AcceptsNote E S now₂ reader₂ opts₂ streamId note) :
    (∀ m, (LeadsBack E (AcceptsNote E S now₁ reader₁ opts₁ streamId) note m ↔
        LeadsBack E (AcceptsNote E S now₂ reader₂ opts₂ streamId) note m) ∧
      (LeadsBack E (AcceptsNote E S now₁ reader₁ opts₁ streamId) note m →
        ExportsRange E S reader₁ streamId m → ExportsRange E S reader₂ streamId m →
        ∀ v ∈ fileRecords E S reader₁ streamId, ∀ w ∈ fileRecords E S reader₂ streamId,
          ∀ s, m.seqFrom ≤ s → s ≤ m.seqTo → seqOf v = some s → seqOf w = some s →
            v.value.Equiv w.value)) ∨
    Collides E.blake3 (historyInputs E S reader₁ streamId)
      (historyInputs E S reader₂ streamId) := by
  have hunfailed₁ := noError_of_unfailed hresult₁
  have hunfailed₂ := noError_of_unfailed hresult₂
  by_cases hcol : Collides E.blake3 (historyInputs E S reader₁ streamId)
    (historyInputs E S reader₂ streamId)
  · exact .inr hcol
  refine .inl fun m => ?_
  have hinj : ∀ a b, AcceptsNote E S now₁ reader₁ opts₁ streamId a →
      AcceptsNote E S now₂ reader₂ opts₂ streamId b → noteText E a = noteText E b → a = b :=
    fun a b ha hb htext => (ha.eq_of_text hb htext).resolve_right hcol
  have hback : LeadsBack E (AcceptsNote E S now₁ reader₁ opts₁ streamId) note m ↔
      LeadsBack E (AcceptsNote E S now₂ reader₂ opts₂ streamId) note m := by
    constructor
    · intro h
      exact h.transfer h₂ (fun a ha _ hprev => ha.resolved hunfailed₂ hscope₂ hprev) hinj
    · intro h
      exact h.transfer h₁ (fun a ha _ hprev => ha.resolved hunfailed₁ hscope₁ hprev)
        fun a b ha hb htext => (hinj b a hb ha htext.symm).symm
  refine ⟨hback, ?_⟩
  intro hm hrange₁ hrange₂ v hv w hw s hfrom hto hvs hws
  obtain ⟨bc₁, hbc₁, hnote₁, hattests₁⟩ :=
    hm.ends.attests hunfailed₁ hscope₁ hrange₁ hfrom hto
  obtain ⟨bc₂, hbc₂, hnote₂, hattests₂⟩ :=
    (hback.mp hm).ends.attests hunfailed₂ hscope₂ hrange₂ hfrom hto
  obtain hequiv | hcol' := hattests₁.equiv hattests₂ (verifyStream_noError hunfailed₁ hscope₁)
    (verifyStream_noError hunfailed₂ hscope₂) (hnote₁.trans hnote₂.symm) hv hw hvs hws
  · exact hequiv
  · exact absurd (hcol'.mono (hashedInputs_subset hbc₁) (hashedInputs_subset hbc₂)) hcol

end

theorem history_pinned_sample :
    let accepted := AcceptsNote Sample.bundleExternals Sample.bundleDocuments.serde 0 Sample.bundle
      Sample.options Evidence.Sample.opened.streamId
    (∀ m, (LeadsBack Sample.bundleExternals accepted Sample.exported.checkpoint.note m ↔
        LeadsBack Sample.bundleExternals accepted Sample.exported.checkpoint.note m) ∧
      (LeadsBack Sample.bundleExternals accepted Sample.exported.checkpoint.note m →
        ExportsRange Sample.bundleExternals Sample.bundleDocuments.serde Sample.bundle
          Evidence.Sample.opened.streamId m →
        ExportsRange Sample.bundleExternals Sample.bundleDocuments.serde Sample.bundle
          Evidence.Sample.opened.streamId m →
        ∀ v ∈ fileRecords Sample.bundleExternals Sample.bundleDocuments.serde Sample.bundle
            Evidence.Sample.opened.streamId,
          ∀ w ∈ fileRecords Sample.bundleExternals Sample.bundleDocuments.serde Sample.bundle
            Evidence.Sample.opened.streamId,
          ∀ s, m.seqFrom ≤ s → s ≤ m.seqTo → seqOf v = some s → seqOf w = some s →
            v.value.Equiv w.value)) ∨
    Collides Sample.bundleExternals.blake3
      (historyInputs Sample.bundleExternals Sample.bundleDocuments.serde Sample.bundle
        Evidence.Sample.opened.streamId)
      (historyInputs Sample.bundleExternals Sample.bundleDocuments.serde Sample.bundle
        Evidence.Sample.opened.streamId) := by
  intro accepted
  have hresult : (verifyBundle Sample.bundleExternals Sample.bundleDocuments.serde 0 Sample.bundle
      Sample.options).result ≠ .fail := by
    rw [Sample.bundle_pass]
    decide
  have hscope : Evidence.Sample.opened.streamId ∈ scopeIds Sample.bundle :=
    List.mem_singleton_self _
  have hmem : Sample.exported ∈ checkpointsOf Sample.bundleDocuments.serde Sample.bundle
      Evidence.Sample.opened.streamId := by
    rw [Sample.bundle_checkpoints]
    exact List.mem_singleton_self _
  have haccepted : accepted Sample.exported.checkpoint.note :=
    ⟨Sample.exported, hmem, rfl, Sample.bundle_accepts _ hmem⟩
  exact history_pinned hresult hresult hscope hscope haccepted haccepted

end Sealr.Verify
