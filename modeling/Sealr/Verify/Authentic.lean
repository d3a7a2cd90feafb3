import Sealr.Lib.Runs
import Sealr.Verify.History
import Sealr.Verify.Honest

/-!
# What a passing bundle shows

A recorder chains records and builds notes over consecutive runs of them. Whoever assembles a bundle
for its stream, and whatever is put into it: if it passes, its records are a contiguous piece of the
recorder's, and reach the recorder's last one where that is pinned (`pass_authentic`), unless some
checkpoint of the bundle has a signature of a certified key under a note that the recorder did not
build, or two byte strings that were hashed collide.
-/

namespace Sealr.Verify

open Lib Evidence Bundle

/-- The records of an honest stream, and the runs of them that notes were built over. -/
structure HonestStream (E : Externals) (stream : Ulid) where
  records : List Record
  runs : List (List Record)
  chained : Chained E stream records
  consecutive : ∀ run ∈ runs, run <:+: records

def recordInput (r : Record) : Bytes := inputOf r.toJson

/-- The leaves over which the root of a run is built. -/
def runLeaves (E : Externals) (run : List Record) : List Bytes :=
  run.map fun r => (E.blake3 (recordInput r)).toList

namespace HonestStream

variable {E : Externals} {stream : Ulid}

/-- A note that was built over one of the runs. -/
def Built (H : HonestStream E stream) (note : CheckpointNote) : Prop :=
  ∃ run ∈ H.runs, ∃ cpId tsWall fingerprint prev,
    buildNoteLinked E cpId run tsWall fingerprint prev = .ok note

/-- What the recorder hashed for its records and its roots. -/
def inputs (H : HonestStream E stream) : List Bytes :=
  H.records.map recordInput ++ H.runs.flatMap fun run => merkleInputs E (runLeaves E run)

end HonestStream

/-- A checkpoint of the bundle verifies with a certified key, but its note was not built. -/
def Forged (E : Externals) (S : Serde) (reader : BundleReader) (trust : Identity) {stream : Ulid}
    (H : HonestStream E stream) : Prop :=
  ∃ bc ∈ checkpointsOf S reader (E.ulidToString stream),
    bc.checkpoint.note.streamId = E.ulidToString stream ∧
    (∃ cert, trust.certMap[bc.checkpoint.note.recorderCertFingerprint]? = some cert ∧
      bc.checkpoint.verify E cert.publicKey = .ok ()) ∧
    ¬H.Built bc.checkpoint.note

/-- A value is a record, up to member order and number spelling. -/
structure CopyOf (v : Json) (r : Record) : Prop where
  seq : seqOf v = some r.seq
  prevHash : prevHashOf v = some r.prevHash
  recordHash : recordHashOf v = some r.recordHash
  same : v.value.Equiv r.toJson.value

section

variable {E : Externals} {S : Serde} {now : Int} {reader : BundleReader} {opts : VerifyOptions}
  {stream : Ulid} {streamId : String} {H : HonestStream E stream} {r : Record} {v : Json}

theorem recordHash_of_computeHash (h : r.computeHash E = .ok r.recordHash) :
    SelfHashed E r.toJson ∧ r.recordHash = blake3Hex E (recordInput r) := by
  have hself := selfHashed_of_view r.view_of h
  obtain ⟨input, hinput, hhash⟩ := computeHashOfValue_eq_ok.mp h
  refine ⟨hself, ?_⟩
  rw [recordInput, inputOf, hinput]
  exact hhash

/-- A value that is hashed as a record is one. -/
theorem copyOf_of_input {view : RecordView} (hself : SelfHashed E v) (hview : view.Of v)
    (hhash : r.computeHash E = .ok r.recordHash) (h : inputOf v = recordInput r) : CopyOf v r := by
  obtain ⟨hrself, hr⟩ := recordHash_of_computeHash hhash
  obtain ⟨hprev, hseq, hsame⟩ := inputOf_inj hself hrself hview r.view_of h
  refine ⟨hseq.trans r.view_of.seq, hprev.trans r.view_of.prevHash, ?_, hsame⟩
  obtain ⟨input, s, hinput, hs, rfl⟩ := hself
  have hsame : inputOf v = input := by
    rw [inputOf, hinput]
    rfl
  rw [hs, hr, ← h, hsame]

/-! ## One attested record -/

theorem numberedFrom_of_chained {rs : List Record} (h : Chained E stream rs) :
    NumberedFrom 0 rs := by
  intro i hi
  rw [h.seq_getElem i hi, Nat.zero_add]

/-- The root over a run. -/
theorem merkleRoot_of_run {run : List Record}
    (hhash : ∀ r ∈ run, r.computeHash E = .ok r.recordHash) :
    merkleRootOfRecordHashes E (run.map (·.recordHash)) =
      .ok (hexEncode (merkleRoot E (runLeaves E run)).toList) := by
  have hhashes : run.map (·.recordHash) =
      (run.map fun r => E.blake3 (recordInput r)).map fun d => hexEncode d.toList := by
    rw [List.map_map]
    exact List.map_congr_left fun r hr => (recordHash_of_computeHash (hhash r hr)).2
  rw [merkleRootOfRecordHashes, hhashes, decodeHashes_hexEncode]
  simp [bind, Except.bind, pure, Except.pure, runLeaves, Function.comp_def]

/-- **An attested record is the recorder's.** -/
theorem AttestsThrough.authentic {cps : List BundleCheckpoint} {trust : Identity}
    {bc : BundleCheckpoint} {s : UInt64}
    (h : AttestsThrough E S reader streamId cps trust bc s)
    (hquiet : ∀ f ∈ (verifyStream E S reader streamId cps trust).2, f.severity ≠ .error)
    (hbuilt : H.Built bc.checkpoint.note) (hv : v ∈ fileRecords E S reader streamId)
    (hseq : seqOf v = some s) :
    (∃ r ∈ H.records, CopyOf v r) ∨
      Collides E.blake3 (hashedInputs E S reader streamId bc.checkpoint.note) H.inputs := by
  obtain ⟨run, hrun, cpId, tsWall, fingerprint, prev, hnote⟩ := hbuilt
  obtain ⟨first, last, hfirst, hlast, -, -, hfrom, hto, -, hmade, -⟩ := buildNoteLinked_eq_ok hnote
  obtain ⟨before, after, hrecords⟩ := H.consecutive run hrun
  have hhash : ∀ r ∈ run, r.computeHash E = .ok r.recordHash := by
    intro r hr
    exact H.chained.computeHash r (hrecords ▸ List.mem_append_left _ (List.mem_append_right _ hr))
  obtain ⟨-, hnum, -, -⟩ := verifyStreamChain_quiet (P := fun f => f.severity ≠ .error)
    (fun _ hf => hf) fun f hf => hquiet f (List.mem_append_left _ hf)
  obtain ⟨ds, hleaves, hne, hroot, hall⟩ := h.digests hquiet
  -- the root that was recomputed is the one that was built
  have hroots : merkleRoot E (ds.map List.Vector.toList) = merkleRoot E (runLeaves E run) := by
    apply List.Vector.toList_injective
    apply hexEncode_injective
    rw [hroot]
    exact Except.ok.inj (hmade.symm.trans (merkleRoot_of_run hhash))
  have hrunne : runLeaves E run ≠ [] := by
    rintro hnil
    rw [List.map_eq_nil_iff.mp hnil] at hfirst
    cases hfirst
  rcases merkleRoot_binds (by simpa using hne) hrunne hroots with heq | hcol
  · have hrange : seqList bc.checkpoint.note.seqFrom bc.checkpoint.note.seqTo =
        run.map (·.seq) := by
      have hnumbered := (hrecords ▸ numberedFrom_of_chained H.chained).append.1.append.2
      rw [hfrom, hto]
      exact seqList_of_numberedFrom hnumbered hfirst hlast
    rw [hrange] at hall
    have hin : s ∈ run.map (·.seq) := by
      rw [← hrange]
      exact mem_seqList.mpr ⟨h.seqFrom_le, h.le_seqTo⟩
    obtain ⟨i, hi, rfl⟩ := List.getElem_of_mem hin
    have hi' : i < run.length := by simpa using hi
    have hids : i < ds.length := hall.length_eq ▸ hi
    obtain ⟨w, hw, hwseq, hdigest⟩ := hall.get hi hids
    obtain rfl := hnum.unique hv hw hseq hwseq
    have hleaf : ds[i] = E.blake3 (recordInput run[i]) := by
      have hget := List.getElem_of_eq heq (i := i) (by simpa using hids)
      rw [List.getElem_map] at hget
      refine List.Vector.toList_injective (hget.trans ?_)
      simp [runLeaves]
    have hmem : run[i] ∈ H.records := by
      rw [← hrecords]
      exact List.mem_append_left _ (List.mem_append_right _ (List.getElem_mem hi'))
    have hmem₁ : inputOf v ∈ hashedInputs E S reader streamId bc.checkpoint.note :=
      List.mem_append_left _ (List.mem_map_of_mem hv)
    have hmem₂ : recordInput run[i] ∈ H.inputs :=
      List.mem_append_left _ (List.mem_map_of_mem hmem)
    refine (eq_or_collides hmem₁ hmem₂ (hdigest.trans hleaf)).imp_left fun hinput => ?_
    obtain ⟨view, hview⟩ := hnum.viewed v hv
    exact ⟨run[i], hmem, copyOf_of_input (hnum.hashed v hv) hview
      (hhash _ (List.getElem_mem hi')) hinput⟩
  · right
    refine hcol.mono ?_ ?_
    · rw [hashedInputs, hleaves]
      exact List.subset_append_right _ _
    · intro x hx
      exact List.mem_append_right _ (List.mem_flatMap.mpr ⟨run, hrun, hx⟩)

/-! ## A passing bundle -/

/-- In a passing bundle every record is attested. -/
theorem attestsThrough_of_pass (hpass : (verifyBundle E S now reader opts).result = .pass)
    (hscope : streamId ∈ scopeIds reader) (hv : v ∈ fileRecords E S reader streamId) {s : UInt64}
    (hseq : seqOf v = some s) :
    ∃ bc, AttestsThrough E S reader streamId (checkpointsOf S reader streamId)
      (trustOf E S now reader opts) bc s := by
  have hinfo : ∀ f ∈ (verifyBundle E S now reader opts).findings, f.severity = .info :=
    computeResult_eq_pass.mp hpass
  obtain ⟨anchored, hs⟩ := @exists_final E S now reader opts streamId hscope
  have hempty := (verifyStreamChain_unchecked E S reader streamId).attestedSeqs
  have hquiet : ∀ f ∈ unattestedFindings streamId { checkedData E S reader
      (trustOf E S now reader opts) streamId with anchoredSeqs := anchored },
        f.severity = .info := by
    intro f hf
    exact hinfo f (mem_findings_of_coverage hs (by simp [coverageFindings, hf]))
  have hall := attested_eq_keys ?_ (unattestedFindings_quiet hquiet)
  · obtain ⟨-, hnum, -, hholds⟩ := verifyStreamChain_quiet (P := fun f => f.severity = .info)
      (fun f hf => by simp [hf]) fun f hf => hinfo f (by
        rw [findings_verifyBundle]
        simp only [List.mem_append]
        exact .inl (.inl (.inl (.inr (mem_chainPass_findings.mpr ⟨_, hscope, hf⟩)))))
    obtain ⟨view, hview⟩ := hnum.viewed v hv
    have hmem :
        s ∈ (checkedData E S reader (trustOf E S now reader opts) streamId).attestedSeqs := by
      have hget := (hholds.get _ _).mpr ⟨v, hv, hseq, hview.recordHash⟩
      refine hall ▸ ?_
      rw [List.mem_toFinset, Std.TreeMap.mem_keys, hashes_checkedData,
        Std.TreeMap.mem_iff_isSome_getElem?, hget]
      rfl
    rcases (mem_turns_attestedSeqs _).mp hmem with hmem | ⟨bc, hbc, hattests, hfrom, hto⟩
    · rw [hempty] at hmem
      simp at hmem
    · exact ⟨bc, hbc, hattests, hfrom, hto⟩
  · rw [hashes_checkedData]
    exact attested_subset hempty

/-- A step from one record of a stream to another. -/
def Follows (a b : Record) : Prop := b.prevHash = a.recordHash ∧ a.seq < b.seq

theorem follows_of_chained {rs : List Record} (h : Chained E stream rs) : rs.IsChain Follows := by
  induction h with
  | nil => exact .nil
  | @snoc rs r hrs _ hseq hprev _ ih =>
    refine List.isChain_append.mpr ⟨ih, .singleton r, ?_⟩
    intro a ha b hb
    obtain rfl : r = b := by simpa using hb
    have hlast : rs.getLast? = some a := ha
    refine ⟨?_, ?_⟩
    · rw [hprev, headHashOf, hlast]
    · have hcount := hrs.seq_last hlast
      rw [UInt64.lt_iff_toNat_lt, hseq]
      omega

/-- A record has one predecessor in an honest stream, or its hashes collide. -/
theorem follows_unique {a b c : Record} (ha : a ∈ H.records) (hb : b ∈ H.records)
    (hac : Follows a c) (hbc : Follows b c) : a = b ∨ Collides E.blake3 H.inputs H.inputs := by
  have hrecords : ∀ r ∈ H.records, r.recordHash = blake3Hex E (recordInput r) ∧
      recordInput r ∈ H.inputs := by
    intro r hr
    exact ⟨(recordHash_of_computeHash (H.chained.computeHash r hr)).2,
      List.mem_append_left _ (List.mem_map_of_mem hr)⟩
  obtain ⟨hahash, hain⟩ := hrecords a ha
  obtain ⟨hbhash, hbin⟩ := hrecords b hb
  have hsame : blake3Hex E (recordInput a) = blake3Hex E (recordInput b) := by
    rw [← hahash, ← hbhash, ← hac.1, hbc.1]
  refine (eq_or_collides hain hbin (blake3Hex_inj.mp hsame)).imp_left fun hinput => ?_
  obtain ⟨haself, -⟩ := recordHash_of_computeHash (H.chained.computeHash a ha)
  obtain ⟨hbself, -⟩ := recordHash_of_computeHash (H.chained.computeHash b hb)
  obtain ⟨-, hseq, -⟩ := inputOf_inj haself hbself a.view_of b.view_of hinput
  refine H.chained.seq_inj ha hb (Option.some.inj ?_)
  exact a.view_of.seq.symm.trans (hseq.trans b.view_of.seq)

/-- The numbers in a piece of an honest stream are its places. -/
theorem HonestStream.seq_of_split {before part after : List Record}
    (h : H.records = before ++ part ++ after) (hr : r ∈ part) :
    before.length ≤ r.seq.toNat ∧ r.seq.toNat < before.length + part.length := by
  obtain ⟨i, hi, rfl⟩ := List.getElem_of_mem hr
  have hplace : before.length + i < H.records.length := by
    simp only [h, List.length_append]
    omega
  have hget : H.records[before.length + i] = part[i] := by
    simp [h, hi]
  have hseq := H.chained.seq_getElem (before.length + i) hplace
  rw [hget] at hseq
  omega

/-- Values in order that are copies of records follow each other as these do. -/
theorem follows_of_copies {values : List Json} {part : List Record}
    (hcopies : List.Forall₂ CopyOf values part) (hlinked : Linked values)
    (hrises : values.Pairwise fun a b => ∀ s t, seqOf a = some s → seqOf b = some t → s < t) :
    part.IsChain Follows := by
  refine List.isChain_iff_getElem.mpr fun i hi => ?_
  have hlen := hcopies.length_eq
  have hsucc : i + 1 < values.length := by omega
  have hcopy := hcopies.get (show i < values.length by omega) (show i < part.length by omega)
  have hnext := hcopies.get hsucc hi
  have hpair : [values[i], values[i + 1]] <:+: values := by
    refine ⟨values.take i, values.drop (i + 2), ?_⟩
    rw [List.append_assoc, List.cons_append, List.cons_append, List.nil_append,
      ← List.drop_eq_getElem_cons hsucc, ← List.drop_eq_getElem_cons (by omega),
      List.take_append_drop]
  refine ⟨?_, ?_⟩
  · have hlink := hlinked _ _ hpair
    simp only [List.get_eq_getElem] at hcopy hnext
    rw [hnext.prevHash, hcopy.recordHash] at hlink
    exact Option.some.inj hlink
  · exact List.pairwise_iff_getElem.mp hrises i (i + 1) (by omega) hsucc (Nat.lt_succ_self i) _ _
      hcopy.seq hnext.seq

/-- Short of a forgery or a collision, every record of a passing bundle is the recorder's. -/
theorem copies_of_pass (hpass : (verifyBundle E S now reader opts).result = .pass)
    (hscope : E.ulidToString stream ∈ scopeIds reader)
    (hforged : ¬Forged E S reader (trustOf E S now reader opts) H)
    (hcol : ¬Collides E.blake3 (historyInputs E S reader (E.ulidToString stream) ++ H.inputs)
      H.inputs) :
    ∀ v ∈ fileRecords E S reader (E.ulidToString stream), ∃ r ∈ H.records, CopyOf v r := by
  have hunfailed : (verifyBundle E S now reader opts).Unfailed := fun f hf => by
    simp [computeResult_eq_pass.mp hpass f hf]
  obtain ⟨-, hnum, -, -⟩ := verifyStreamChain_quiet (P := fun f => f.severity ≠ .error)
    (fun _ hf => hf) fun f hf =>
      verifyStream_noError hunfailed hscope f (List.mem_append_left _ hf)
  intro v hv
  obtain ⟨view, hview⟩ := hnum.viewed v hv
  obtain ⟨bc, hattests⟩ := attestsThrough_of_pass hpass hscope hv hview.seq
  have hsigned := hattests.attests
  simp only [Verify.attests, Bool.and_eq_true] at hsigned
  obtain ⟨hstream, cert, hcert, hverify, -⟩ := signed_iff.mp hsigned.1
  have hbuilt : H.Built bc.checkpoint.note := by
    by_contra hnot
    exact hforged ⟨bc, hattests.mem, hstream, ⟨cert, hcert, hverify⟩, hnot⟩
  refine (hattests.authentic (verifyStream_noError hunfailed hscope) hbuilt hv
    hview.seq).resolve_right fun hcol' => hcol (hcol'.mono ?_ (List.Subset.refl _))
  exact fun x hx => List.mem_append_left _ (hashedInputs_subset hattests.mem hx)

/-- Copies of records of a stream that are linked in order are copies of a piece of it. -/
theorem piece_of_copies {values : List Json} (hfree : ¬Collides E.blake3 H.inputs H.inputs)
    (hcopies : ∀ v ∈ values, ∃ r ∈ H.records, CopyOf v r) (hlinked : Linked values)
    (hrises : values.Pairwise fun a b => ∀ s t, seqOf a = some s → seqOf b = some t → s < t) :
    ∃ before part after, H.records = before ++ part ++ after ∧
      List.Forall₂ CopyOf values part := by
  obtain ⟨part, hall, hmem⟩ : ∃ part, List.Forall₂ CopyOf values part ∧
      ∀ r ∈ part, r ∈ H.records := by
    clear hlinked hrises
    induction values with
    | nil => exact ⟨[], .nil, by simp⟩
    | cons v values ih =>
      rw [List.forall_mem_cons] at hcopies
      obtain ⟨⟨r, hr, hcopy⟩, hrest⟩ := hcopies
      obtain ⟨part, hall, hmem⟩ := ih hrest
      exact ⟨r :: part, .cons hcopy hall, List.forall_mem_cons.mpr ⟨hr, hmem⟩⟩
  have hback : ∀ a ∈ H.records, ∀ b ∈ H.records, ∀ c ∈ H.records, Follows a c → Follows b c →
      a = b :=
    fun a ha b hb _ _ hac hbc => (follows_unique ha hb hac hbc).resolve_right hfree
  have hfirst : ∀ a ∈ H.records, ∀ c ∈ H.records.head?, ¬Follows a c := by
    intro a _ c hc hstep
    obtain ⟨hpos, rfl⟩ := List.getElem?_eq_some_iff.mp (List.head?_eq_getElem? ▸ hc)
    have hzero := H.chained.seq_getElem 0 hpos
    have hlt := UInt64.lt_iff_toNat_lt.mp hstep.2
    omega
  obtain ⟨before, after, hrecords⟩ := infix_of_steps (follows_of_chained H.chained) hback hfirst
    hmem (follows_of_copies hall hlinked hrises)
  exact ⟨before, part, after, hrecords.symm, hall⟩

/-- A piece that reaches a pin on the last record ends with it. -/
theorem end_of_pin {before part after : List Record} {hw : UInt64}
    (h : H.records = before ++ part ++ after) (htop : ∀ r ∈ H.records, r.seq ≤ hw) (hr : r ∈ part)
    (hle : hw ≤ r.seq) : after = [] := by
  by_contra hne
  obtain ⟨b, hb⟩ := List.exists_mem_of_ne_nil after hne
  have hsplit : H.records = (before ++ part) ++ after ++ [] := by rw [h, List.append_nil]
  obtain ⟨hbelow, -⟩ := H.seq_of_split hsplit hb
  obtain ⟨-, habove⟩ := H.seq_of_split h hr
  have hlast := UInt64.le_iff_toNat_le.mp (htop b (h ▸ List.mem_append_right _ hb))
  have hpin := UInt64.le_iff_toNat_le.mp hle
  rw [List.length_append] at hbelow
  omega

/-- **A passing bundle shows a piece of what was recorded.** Whatever the bundle of an honest
stream, if it passes, its records are copies of consecutive records of the stream: from the first
one on, if the bundle has a record numbered 0, and up to the last one, if the options pin it.
Otherwise a signature was forged, or two byte strings collide. -/
theorem pass_authentic (hpass : (verifyBundle E S now reader opts).result = .pass)
    (hscope : E.ulidToString stream ∈ scopeIds reader) (H : HonestStream E stream) :
    (∃ before part after, H.records = before ++ part ++ after ∧
      List.Forall₂ CopyOf (fileRecords E S reader (E.ulidToString stream)) part ∧
      ((∃ v ∈ fileRecords E S reader (E.ulidToString stream), seqOf v = some 0) → before = []) ∧
      ∀ hw, opts.expectedHighWater (E.ulidToString stream) = some hw →
        (∀ r ∈ H.records, r.seq ≤ hw) → after = [] ∧ part ≠ []) ∨
    Forged E S reader (trustOf E S now reader opts) H ∨
    Collides E.blake3 (historyInputs E S reader (E.ulidToString stream) ++ H.inputs) H.inputs := by
  by_cases hcol : Collides E.blake3
    (historyInputs E S reader (E.ulidToString stream) ++ H.inputs) H.inputs
  · exact .inr (.inr hcol)
  by_cases hforged : Forged E S reader (trustOf E S now reader opts) H
  · exact .inr (.inl hforged)
  left
  have hinfo : ∀ f ∈ (verifyBundle E S now reader opts).findings, f.severity = .info :=
    computeResult_eq_pass.mp hpass
  have hchain : ∀ f ∈ (verifyStreamChain E S reader (E.ulidToString stream)).2,
      f.severity = .info := by
    intro f hf
    refine hinfo f ?_
    rw [findings_verifyBundle]
    simp only [List.mem_append]
    exact .inl (.inl (.inl (.inr (mem_chainPass_findings.mpr ⟨_, hscope, hf⟩))))
  obtain ⟨-, hnum, hlinked, -⟩ := verifyStreamChain_quiet (P := fun f => f.severity = .info)
    (fun f hf => by simp [hf]) hchain
  obtain ⟨before, part, after, hrecords, hcopies⟩ := piece_of_copies
    (fun hcol' => hcol (hcol'.mono (List.subset_append_right _ _) (List.Subset.refl _)))
    (copies_of_pass hpass hscope hforged hcol) (hlinked fun f hf => by simp [hf]) hnum.increasing
  refine ⟨before, part, after, hrecords, hcopies, ?_, ?_⟩
  · rintro ⟨v, hv, hseq⟩
    obtain ⟨r, hr, hvr⟩ := Rfc8785.exists_of_mem_forall₂ hcopies.flip hv
    obtain ⟨hle, -⟩ := H.seq_of_split hrecords hr
    have hzero : r.seq = 0 := Option.some.inj (hvr.seq.symm.trans hseq)
    rw [hzero] at hle
    exact List.length_eq_zero_iff.mp (Nat.le_zero.mp hle)
  · intro hw hpin htop
    have hreached : ¬Unreached E S reader (E.ulidToString stream) hw := by
      intro hshort
      have hfail : (verifyBundle E S now reader opts).result = .fail :=
        fail_of_unreached hscope hpin hshort
      rw [hpass] at hfail
      cases hfail
    simp only [Unreached, not_forall, UInt64.not_lt] at hreached
    obtain ⟨line, hline, v, hparse, s, hseq, hle⟩ := hreached
    have hv : v ∈ fileRecords E S reader (E.ulidToString stream) :=
      List.mem_filterMap.mpr ⟨line, hline, by rw [hparse]; rfl⟩
    obtain ⟨r, hr, hvr⟩ := Rfc8785.exists_of_mem_forall₂ hcopies.flip hv
    obtain rfl := Option.some.inj (hseq.symm.trans hvr.seq)
    exact ⟨end_of_pin hrecords htop hr hle, List.ne_nil_of_mem hr⟩

end

/-! The passing bundle holds the first of two records. -/

namespace Sample

open Evidence.Sample

theorem bundle_run :
    Run bundleExternals stream ⟨stream, updated.recordHash, some 1⟩ [opened, updated] :=
  run (by decide +kernel) (by decide +kernel) (by decide +kernel) (by decide +kernel)

def recorded : HonestStream bundleExternals stream where
  records := [opened, updated]
  runs := [[opened]]
  chained := bundle_run.inv.chained
  consecutive := fun _ hrun => ⟨[], [updated], by rw [List.mem_singleton.mp hrun]; rfl⟩

theorem bundle_scope : bundleExternals.ulidToString stream ∈ scopeIds bundle := by
  have hid : bundleExternals.ulidToString stream = opened.streamId := by decide +kernel
  rw [hid]
  exact List.mem_singleton_self _

end Sample

open Sample in
theorem pass_authentic_sample :
    (∃ before part after, [Evidence.Sample.opened, Evidence.Sample.updated] =
        before ++ part ++ after ∧
      List.Forall₂ CopyOf (fileRecords bundleExternals bundleDocuments.serde bundle
        (bundleExternals.ulidToString Evidence.Sample.stream)) part ∧
      ((∃ v ∈ fileRecords bundleExternals bundleDocuments.serde bundle
        (bundleExternals.ulidToString Evidence.Sample.stream), seqOf v = some 0) → before = []) ∧
      ∀ hw, options.expectedHighWater
          (bundleExternals.ulidToString Evidence.Sample.stream) = some hw →
        (∀ r ∈ recorded.records, r.seq ≤ hw) → after = [] ∧ part ≠ []) ∨
    Forged bundleExternals bundleDocuments.serde bundle
      (trustOf bundleExternals bundleDocuments.serde 0 bundle options) recorded ∨
    Collides bundleExternals.blake3 (historyInputs bundleExternals bundleDocuments.serde bundle
      (bundleExternals.ulidToString Evidence.Sample.stream) ++ recorded.inputs) recorded.inputs :=
  pass_authentic bundle_pass bundle_scope recorded

end Sealr.Verify
