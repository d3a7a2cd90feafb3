import Sealr.Verify.Extent
import Sealr.Verify.Honest

/-!
# Exports of a part of a stream

Of an honestly recorded stream some consecutive records are exported, with all checkpoints of the
stream. A checkpoint whose records are not all there is passed over, and the export may begin
anywhere. But it has to reach the highest extent that the console countersigned: an export that
stops earlier is told to be truncated, and that is the only error it can get.
-/

namespace Sealr.Verify

open Lib Evidence Bundle

/-! ## Turns over a part of the records -/

section Turns

variable {E : Externals} {streamId : String} {trust : Identity}
  {hashes : Std.TreeMap UInt64 String} {part : List Record} {bc : BundleCheckpoint} {n : Nat}

theorem BuiltOver.le (h : BuiltOver E streamId trust part bc) :
    bc.checkpoint.note.seqFrom.toNat ≤ bc.checkpoint.note.seqTo.toNat ∧
      bc.checkpoint.note.seqTo.toNat + 1 = bc.checkpoint.note.seqFrom.toNat + part.length := by
  have hlen := congrArg List.length h.range
  rw [length_seqList, List.length_map] at hlen
  have hpos : 0 < (part.map (·.recordHash)).length :=
    List.length_pos_of_mem (List.mem_of_getLast? h.chainHead)
  rw [List.length_map] at hpos
  omega

/-- The root of a checkpoint stands on whatever part of its records is exported: it is recomputed
over all of them or not at all. -/
theorem BuiltOver.rootStands (h : BuiltOver E streamId trust part bc)
    (hagree : ∀ r ∈ part, ∀ x, hashes[r.seq]? = some x → x = r.recordHash)
    (hsafe : bc.checkpoint.note.seqTo.toNat + 1 < 2 ^ 64) : rootStands E hashes bc = true := by
  unfold Verify.rootStands
  by_cases hfull : fullyExported (covered hashes bc.checkpoint.note) bc.checkpoint.note = true
  · have hcount : (coveredHashes hashes (part.map (·.seq))).length = (part.map (·.seq)).length := by
      rw [fullyExported_iff, covered, h.range] at hfull
      have hle := @length_coveredHashes_le hashes (part.map (·.seq))
      have hone : (1 : UInt64).toNat = 1 := rfl
      obtain ⟨hfrom, hlen⟩ := h.le
      have hnum := congrArg UInt64.toNat hfull
      rw [UInt64.toNat_add, UInt64.toNat_sub, UInt64.toNat_ofNat'] at hnum
      rw [List.length_map] at hle ⊢
      omega
    have hexported := exported_coveredHashes hcount
    have hverified : Verify.rootVerified E hashes bc = true := by
      refine h.rootVerified (List.forall₂_map_left_iff.mpr (List.forall₂_map_right_iff.mpr
        (List.forall₂_same.mpr fun r hr => ?_)))
      obtain ⟨x, -, hx⟩ :=
        Rfc8785.exists_of_mem_forall₂ (List.forall₂_map_left_iff.mp hexported).flip hr
      rw [hx, hagree r hr x hx]
    rw [hverified, Bool.or_true]
  · rw [Bool.not_eq_true] at hfull
    rw [hfull]
    rfl

/-- Checkpoints over consecutive runs begin at different numbers. -/
theorem built_unforked {parts : List (List Record)} {cps : List BundleCheckpoint}
    (h : List.Forall₂ (BuiltOver E streamId trust) parts cps)
    (hnum : NumberedFrom n parts.flatten) :
    (∀ bc ∈ cps, n ≤ bc.checkpoint.note.seqFrom.toNat) ∧
      cps.Pairwise fun a b => ¬Forked a.checkpoint.note b.checkpoint.note := by
  induction h generalizing n with
  | nil => exact ⟨by simp, .nil⟩
  | @cons part bc parts cps hbuilt _ ih =>
    rw [List.flatten_cons] at hnum
    obtain ⟨hpart, hparts⟩ := hnum.append
    obtain ⟨hafter, hpair⟩ := ih hparts
    obtain ⟨hle, hlen⟩ := hbuilt.le
    have hpos : 0 < part.length := by omega
    have hfirst : bc.checkpoint.note.seqFrom.toNat = n := by
      have hmem : bc.checkpoint.note.seqFrom ∈ part.map (·.seq) := by
        rw [← hbuilt.range, mem_seqList]
        exact ⟨UInt64.le_refl _, UInt64.le_iff_toNat_le.mpr hle⟩
      have hzero : part[0].seq ∈ seqList bc.checkpoint.note.seqFrom bc.checkpoint.note.seqTo := by
        rw [hbuilt.range]
        exact List.mem_map_of_mem (List.getElem_mem hpos)
      have hn := hpart 0 hpos
      obtain ⟨hfrom, -⟩ := mem_seqList.mp hzero
      obtain ⟨r, hr, hseq⟩ := List.mem_map.mp hmem
      obtain ⟨i, hi, rfl⟩ := List.getElem_of_mem hr
      have hi' := hpart i hi
      rw [hseq] at hi'
      rw [UInt64.le_iff_toNat_le] at hfrom
      omega
    constructor
    · rw [List.forall_mem_cons]
      refine ⟨hfirst.ge, fun b hb => ?_⟩
      have hb' := hafter b hb
      omega
    · rw [List.pairwise_cons]
      refine ⟨fun b hb hfork => ?_, hpair⟩
      have hb' := hafter b hb
      rw [← hfork.1.1, hfirst] at hb'
      omega

end Turns

/-! ## Extents -/

section Extents

variable {opts : VerifyOptions} {streamId : String} {data : StreamData} {a b : Option UInt64}

/-- What holds up to the larger of two extents holds up to both. -/
theorem forall_maxExtent {P : UInt64 → Prop} (hP : ∀ x y, x ≤ y → P y → P x) :
    (∀ hw, maxExtent a b = some hw → P hw) ↔
      (∀ hw, a = some hw → P hw) ∧ ∀ hw, b = some hw → P hw := by
  cases a with
  | none => simp [maxExtent]
  | some x =>
    cases b with
    | none => simp [maxExtent]
    | some y =>
      simp only [maxExtent, Option.some.injEq, forall_eq']
      rw [UInt64.max_def]
      split_ifs with hle
      · exact ⟨fun h => ⟨hP x y hle h, h⟩, fun h => h.2⟩
      · have hge : y ≤ x := UInt64.le_of_lt (UInt64.not_le.mp hle)
        exact ⟨fun h => ⟨h, hP y x hge h⟩, fun h => h.1⟩

/-- Truncation is reported when no record present reaches the extent. -/
theorem truncationFindings_eq_nil {pinned : Option UInt64} :
    truncationFindings pinned streamId data = [] ↔
      ∀ hw, maxExtent pinned data.countersignedHighWater = some hw →
        ∃ s ∈ data.hashesBySeq, hw ≤ s := by
  unfold truncationFindings
  cases maxExtent pinned data.countersignedHighWater with
  | none => simp
  | some hw =>
    simp only [Option.some.injEq, forall_eq']
    constructor
    · intro h
      split_ifs at h with hshort
      rw [Option.all_eq_true] at hshort
      push Not at hshort
      obtain ⟨m, hm, hnot⟩ := hshort
      refine ⟨m, Std.TreeMap.mem_keys.mp (List.mem_of_getLast? hm), ?_⟩
      simpa using hnot
    · intro h
      obtain ⟨s, hs, hle⟩ := h
      obtain ⟨m, hm, hsm⟩ := le_maxPresent hs
      have hnot : ¬m < hw := UInt64.not_lt.mpr (UInt64.le_trans hle hsm)
      simp [hm, hnot]

theorem truncationFindings_class {pinned : Option UInt64} {f : Finding}
    (hf : f ∈ truncationFindings pinned streamId data) :
    f.findingClass = .truncationDetected ∧ f.severity = .error := by
  unfold truncationFindings at hf
  split at hf
  · cases hf
  · split_ifs at hf
    · rw [List.mem_singleton.mp hf]
      exact ⟨rfl, rfl⟩
    · cases hf

end Extents

/-! ## Slices -/

/-- The scope of a bundle declares what it exports of a stream. -/
def DeclaresSlice (reader : BundleReader) (streamId : String) (slice : List Record) : Prop :=
  ∃ first last, slice.head? = some first ∧ slice.getLast? = some last ∧
    ⟨streamId, first.seq, last.seq, UInt64.ofNat slice.length⟩ ∈ reader.manifest.scope.streams

/-- An honest partial export: the records of a run of the writer with clocks that are reported,
honest checkpoints over consecutive runs of them, and a bundle that holds all of these checkpoints,
consecutive records of the stream, and a scope that declares them. -/
structure PartialExport (E : Externals) (S : Serde) (reader : BundleReader) (trust : Identity)
    (stream : Ulid) (rs : List Record) (parts : List (List Record)) (cps : List BundleCheckpoint)
    (slice : List Record) : Prop where
  recorded : ∃ head, Run E stream head rs
  clocks : ReportedClocks E rs
  runs : parts.flatten <+: rs
  checkpoints : HonestCheckpoints E trust none parts cps
  file : reader.streamCheckpoints S (E.ulidToString stream) = .ok ⟨E.ulidToString stream, cps⟩
  consecutive : slice <:+: rs
  exported : CompleteExport E S reader (E.ulidToString stream) slice
  declared : DeclaresSlice reader (E.ulidToString stream) slice

section Slice

variable {E : Externals} {S : Serde} {now : Int} {reader : BundleReader} {opts : VerifyOptions}
  {trust : Identity} {stream : Ulid} {rs : List Record} {parts : List (List Record)}
  {cps : List BundleCheckpoint} {slice : List Record}

theorem PartialExport.chained (h : PartialExport E S reader trust stream rs parts cps slice) :
    Chained E stream rs := by
  obtain ⟨head, hrun⟩ := h.recorded
  exact hrun.inv.chained

theorem PartialExport.checkpointsOf (h : PartialExport E S reader trust stream rs parts cps slice) :
    checkpointsOf S reader (E.ulidToString stream) = cps := by
  unfold Verify.checkpointsOf
  rw [h.file]
  rfl

/-- The chain pass on the slice: no finding, and the hashes of its records. -/
theorem PartialExport.chainPass (h : PartialExport E S reader trust stream rs parts cps slice)
    (hU : E.UlidRoundTrip) (hE : E.ReadsJson) :
    (verifyStreamChain E S reader (E.ulidToString stream)).2 = [] ∧
      ∀ s x, (verifyStreamChain E S reader (E.ulidToString stream)).1.hashesBySeq[s]? = some x ↔
        ∃ r ∈ slice, r.seq = s ∧ r.recordHash = x := by
  obtain ⟨before, after, heq⟩ := h.consecutive
  have hchain : Chained E stream (before ++ slice) := by
    have hall := h.chained
    rw [← heq] at hall
    exact hall.of_append
  obtain ⟨hfindings, -, -, hholds⟩ :=
    verifyStreamChain_honest hU hE hchain (h.clocks.of_infix h.consecutive) h.exported
  exact ⟨hfindings, hholds⟩

/-- Every checkpoint of the stream has a quiet turn and is countersigned at its own end. -/
theorem PartialExport.turns (h : PartialExport E S reader trust stream rs parts cps slice)
    (hU : E.UlidRoundTrip) (hE : E.ReadsJson) (hS : E.AcceptsSigned) :
    (∀ bc ∈ cps, QuietTurn E (E.ulidToString stream) trust
        (verifyStreamChain E S reader (E.ulidToString stream)).1.hashesBySeq bc ∧
      ∃ cs, bc.countersignature = some cs ∧ countersigned E trust.consoleKeys cs = true ∧
        cs.note.streamHighWaterSeq = some bc.checkpoint.note.seqTo) ∧
      cps.Pairwise fun a b => ¬Forked a.checkpoint.note b.checkpoint.note := by
  have hchain := h.chained
  obtain ⟨-, hholds⟩ := h.chainPass hU hE
  have hmem : ∀ r ∈ parts.flatten, r ∈ rs := fun r hr => h.runs.subset hr
  have hnum : NumberedFrom 0 parts.flatten := by
    intro i hi
    rw [h.runs.getElem hi, hchain.seq_getElem, Nat.zero_add]
  have hbuilt := h.checkpoints.built hS hnum fun r hr => hchain.streamId r (hmem r hr)
  refine ⟨fun bc hbc => ?_, (built_unforked hbuilt hnum).2⟩
  obtain ⟨part, hpart, hturn⟩ := Rfc8785.exists_of_mem_forall₂ hbuilt hbc
  have hrecords : ∀ r ∈ part, r ∈ rs := fun r hr =>
    hmem r (List.mem_flatten.mpr ⟨part, hpart, hr⟩)
  have hsafe : bc.checkpoint.note.seqTo.toNat + 1 < 2 ^ 64 := by
    have hend : bc.checkpoint.note.seqTo ∈ part.map (·.seq) := by
      rw [← hturn.range, mem_seqList]
      exact ⟨UInt64.le_iff_toNat_le.mpr hturn.le.1, UInt64.le_refl _⟩
    obtain ⟨r, hr, hseq⟩ := List.mem_map.mp hend
    rw [← hseq]
    exact hchain.seq_lt r (hrecords r hr)
  -- a record that is exported under the number of another is that record
  have hagree : ∀ r ∈ part, ∀ x, (verifyStreamChain E S reader
      (E.ulidToString stream)).1.hashesBySeq[r.seq]? = some x → x = r.recordHash := by
    intro r hr x hx
    obtain ⟨r', hr', hseq, rfl⟩ := (hholds _ _).mp hx
    rw [hchain.seq_inj (h.consecutive.subset hr') (hrecords r hr) hseq]
  obtain ⟨cs, hcs, hver, hhw⟩ := hturn.countersignature
  refine ⟨⟨hturn.signed, hturn.rootStands hagree hsafe, ?_⟩, cs, hcs, hver, hhw⟩
  intro cs' hcs'
  rw [hcs] at hcs'
  rw [← Option.some.inj hcs']
  exact hver

/-- What the coverage pass sees of the slice: links that are resolved, the hashes of the records
exported, and the end of the last checkpoint as the highest mark. -/
theorem PartialExport.checkedData (h : PartialExport E S reader trust stream rs parts cps slice)
    (hU : E.UlidRoundTrip) (hE : E.ReadsJson) (hS : E.AcceptsSigned) :
    let data := checkedData E S reader trust (E.ulidToString stream)
    (∀ l ∈ data.checkpointLinks, l.2 ∈ data.checkpointNoteHashes) ∧
      (∀ s, s ∈ data.hashesBySeq ↔ ∃ r ∈ slice, r.seq = s) ∧
      data.countersignedHighWater =
        (cps.map (·.checkpoint.note.seqTo)).foldl raiseHighWater none := by
  intro data
  obtain ⟨-, hholds⟩ := h.chainPass hU hE
  obtain ⟨hturns, -⟩ := h.turns hU hE hS
  have hunchecked := verifyStreamChain_unchecked E S reader (E.ulidToString stream)
  refine ⟨?_, ?_, ?_⟩
  · rw [links_resolved_iff]
    · rw [h.checkpointsOf]
      intro bc hbc prev hprev
      obtain hnone | hlinked := h.checkpoints.links bc hbc prev hprev
      · cases hnone
      · exact hlinked
    · rw [h.checkpointsOf]
      exact fun bc hbc => (hturns bc hbc).1.accepts
  · intro s
    rw [hashes_checkedData, Std.TreeMap.mem_iff_isSome_getElem?, Option.isSome_iff_exists]
    simp only [hholds]
    constructor
    · intro hs
      obtain ⟨x, r, hr, hseq, -⟩ := hs
      exact ⟨r, hr, hseq⟩
    · intro hs
      obtain ⟨r, hr, hseq⟩ := hs
      exact ⟨_, r, hr, hseq, rfl⟩
  · have hfold : data.countersignedHighWater = _ := turns_highWater _
    rw [hfold, h.checkpointsOf, marks_eq_ends, hunchecked.countersignedHighWater]
    intro bc hbc
    obtain ⟨hquiet, cs, hcs, hver, hhw⟩ := hturns bc hbc
    exact ⟨cs, takenCountersignature_eq_some.mpr ⟨hcs, hquiet.signed, hquiet.stands, hver⟩, hhw⟩

end Slice

namespace Sample

open Evidence.Sample

end Sample

end Sealr.Verify
