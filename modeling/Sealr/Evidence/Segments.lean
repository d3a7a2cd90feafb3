import Sealr.Lib.Runs
import Sealr.Evidence.Clean

/-!
# Segments

The verifier compares a record with the one before it. Over a clean sequence this makes the rules
of a segment hold between any two of its records exactly when no segment is entered again after
another one (`segmentWide_iff`): a segment that comes back is not compared with what it was.
-/

namespace Sealr.Evidence

open Lib

/-- The rules of a segment, between any two of its records. -/
structure SegmentWide (views : List RecordView) : Prop where
  contiguous : Contiguous RecordView.segmentId views
  seq : ∀ i j (hi : i < views.length) (hj : j < views.length), i ≤ j →
    views[i].segmentId = views[j].segmentId → views[j].seq.toNat = views[i].seq.toNat + (j - i)
  mono : ∀ i j (hi : i < views.length) (hj : j < views.length), i ≤ j →
    views[i].segmentId = views[j].segmentId → views[i].tsMonoNs ≤ views[j].tsMonoNs

section

variable {E : Externals} {stream : String} {raws : List Json} {a b : RecordView}

/-- Numbers do not wrap: the next one is above. -/
theorem Follows.seq_toNat (h : Follows E a b) (hseg : a.segmentId = b.segmentId) :
    b.seq.toNat = a.seq.toNat + 1 := by
  have hlt := UInt64.lt_iff_toNat_lt.mp h.seq
  have hone : (1 : UInt64).toNat = 1 := rfl
  rw [h.seq_succ hseg, UInt64.toNat_add, hone] at hlt ⊢
  omega

/-- The rules between neighbours carry over to a segment that is contiguous. -/
theorem segmentWide_of_contiguous {views : List RecordView} (h : views.IsChain (Follows E))
    (hcontig : Contiguous RecordView.segmentId views) : SegmentWide views := by
  have hcount : views.IsChain fun a b => a.segmentId = b.segmentId →
      b.seq.toNat = a.seq.toNat + 1 := h.imp fun _ _ hab => hab.seq_toNat
  have hmono : views.IsChain fun a b => a.segmentId = b.segmentId →
      a.tsMonoNs.toNat ≤ b.tsMonoNs.toNat :=
    h.imp fun _ _ hab hseg => UInt64.le_iff_toNat_le.mp (hab.mono hseg)
  refine ⟨hcontig, ?_, ?_⟩
  · intro i j hi hj hij heq
    exact count_in_group hcontig hcount hij hj heq
  · intro i j hi hj hij heq
    exact UInt64.le_iff_toNat_le.mpr (le_in_group hcontig hmono hij hj heq)

/-- **When the rules of a segment hold segment-wide**: over a clean sequence, exactly when no
record that changes the segment enters one that an earlier record was in. -/
theorem segmentWide_iff (h : CleanRun E stream raws) :
    ∃ views, ViewedAs raws views ∧
      (SegmentWide views ↔ FreshKeys RecordView.segmentId views) := by
  obtain ⟨views, hviews, hchain⟩ := h.follows
  refine ⟨views, hviews, ?_⟩
  rw [freshKeys_iff]
  constructor
  · intro hwide
    exact hwide.contiguous
  · intro hcontig
    exact segmentWide_of_contiguous hchain hcontig

end

/-! A segment that is left and entered again. -/

namespace Sample

def elsewhere : Record := {
  draft "000000002D000000000000003D" "2026-08-11T12:00:01.000Z" 300 .operation "read" with
  segmentId := "000000002D000000000000002F"
  seq := 1
  prevHash := opened.recordHash
  recordHash := "c83566db2d1c66161ed882da15b8ce69040c16151c33bea07bb3ab988a2c671c" }

/-- Back in the first segment, with a gap and a clock that ran backwards. -/
def back : Record := {
  draft "000000002D000000000000003E" "2026-08-11T12:00:01.000Z" 500 .operation "read" with
  seq := 5
  prevHash := elsewhere.recordHash
  recordHash := "cd8e655be143c6cf0cde34a0abe8ee3babea399c64cce554490d7069b32efe36" }

def reopeningExternals : Externals := .recorded { recording with
  blake3 := recording.blake3 ++ [
    ((hashInput elsewhere.toJson).toOption.getD [], ofHex elsewhere.recordHash),
    ((hashInput back.toJson).toOption.getD [], ofHex back.recordHash)] }

end Sample

theorem segmentWide_iff_sample :
    CleanRun Sample.externals "000000002D000000000000002D"
        [Sample.opened.toJson, Sample.updated.toJson] ∧
      ∃ views, ViewedAs [Sample.opened.toJson, Sample.updated.toJson] views ∧
        (SegmentWide views ↔ FreshKeys RecordView.segmentId views) :=
  ⟨Sample.clean_recorded, segmentWide_iff Sample.clean_recorded⟩

/-- A clean sequence whose first and last records share a segment that another one interrupts,
with a gap in the numbers and a monotonic clock that ran backwards. -/
theorem segment_reopened :
    CleanRun Sample.reopeningExternals "000000002D000000000000002D"
        [Sample.opened.toJson, Sample.elsewhere.toJson, Sample.back.toJson] ∧
      ViewedAs [Sample.opened.toJson, Sample.elsewhere.toJson, Sample.back.toJson]
        [Sample.opened.view, Sample.elsewhere.view, Sample.back.view] ∧
      Sample.opened.segmentId = Sample.back.segmentId ∧
      Sample.elsewhere.segmentId ≠ Sample.opened.segmentId ∧
      Sample.back.seq.toNat ≠ Sample.opened.seq.toNat + 2 ∧
      Sample.back.tsMonoNs < Sample.opened.tsMonoNs := by
  refine ⟨by decide +kernel, ?_, rfl, by decide, by decide, by decide⟩
  exact .cons (Record.view_of _) (.cons (Record.view_of _) (.cons (Record.view_of _) .nil))

end Sealr.Evidence
