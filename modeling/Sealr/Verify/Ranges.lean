import Sealr.Verify.Countersigned

/-!
# The length of a checkpoint's range

`seq_to - seq_from + 1` is computed over two numbers of a signed note. With overflow checks it is
`rangeLength`; without them it wraps, and decides whether the range counts as fully exported.
-/

namespace Sealr.Verify

open Lib Evidence Bundle

/-- `a - b`, refused where it underflows. -/
def checkedSub (a b : UInt64) : Option UInt64 := if b ≤ a then some (a - b) else none

/-- `a + b`, refused where it overflows. -/
def checkedAdd (a b : UInt64) : Option UInt64 :=
  if a.toNat + b.toNat < UInt64.size then some (a + b) else none

/-- `seq_to - seq_from + 1` with overflow checks. -/
def rangeLength (note : CheckpointNote) : Option UInt64 := do
  let d ← checkedSub note.seqTo note.seqFrom
  checkedAdd d 1

/-- The whole range is there: it is not inverted, and no number of it is missing. -/
def RangePresent (hashes : Std.TreeMap UInt64 String) (note : CheckpointNote) : Prop :=
  note.seqFrom ≤ note.seqTo ∧ ∀ s, note.seqFrom ≤ s → s ≤ note.seqTo → s ∈ hashes

section Ranges

variable {E : Externals} {streamId : String} {trust : Identity}
  {hashes : Std.TreeMap UInt64 String} {bc : BundleCheckpoint} {note : CheckpointNote}

/-- A signed note has JCS bytes, so its numbers are safe integers. -/
theorem seqTo_le_of_signed (h : signed E streamId trust bc = true) :
    bc.checkpoint.note.seqTo.toNat ≤ Rfc8785.maxSafe := by
  obtain ⟨jcs, hjcs⟩ := toJcsBytes_of_signed h
  have hget : bc.checkpoint.note.toJson.value.get "seq_to" =
      some (.number (.posInt bc.checkpoint.note.seqTo)) :=
    Json.get_ofFields (j := .u64 bc.checkpoint.note.seqTo) (by simp [CheckpointNote.fields])
  obtain ⟨i, hi⟩ := safeInt_of_toJcsBytes hjcs hget
  rw [Rfc8785.safeInt_posInt] at hi
  split_ifs at hi with hle
  exact hle

/-- As many hashes as numbers exactly when none is missing. -/
theorem length_coveredHashes_eq_iff {seqs : List UInt64} :
    (coveredHashes hashes seqs).length = seqs.length ↔ ∀ s ∈ seqs, s ∈ hashes := by
  induction seqs with
  | nil => simp [coveredHashes]
  | cons s seqs ih =>
    rw [List.forall_mem_cons, Std.TreeMap.mem_iff_isSome_getElem?]
    cases hget : hashes[s]? with
    | none => simp [coveredHashes, hget]
    | some x => simp [coveredHashes, hget, ih]

/-- With the ends in order and no overflow, the test is true exactly when the range is there. -/
theorem fullyExported_iff_present (hle : note.seqFrom ≤ note.seqTo)
    (hto : note.seqTo.toNat + 1 < UInt64.size) :
    fullyExported (covered hashes note) note = true ↔ RangePresent hashes note := by
  have hfrom : note.seqFrom.toNat ≤ note.seqTo.toNat := UInt64.le_iff_toNat_le.mp hle
  have hpresent : RangePresent hashes note ↔
      (covered hashes note).length = (seqList note.seqFrom note.seqTo).length := by
    unfold covered
    rw [length_coveredHashes_eq_iff]
    simp only [RangePresent, hle, true_and, mem_seqList, and_imp]
  have hlen : (covered hashes note).length ≤ note.seqTo.toNat + 1 - note.seqFrom.toNat := by
    rw [← length_seqList]
    exact length_coveredHashes_le
  have hone : (1 : UInt64).toNat = 1 := rfl
  have hsize : UInt64.size = 2 ^ 64 := rfl
  rw [hpresent, length_seqList, fullyExported_iff, ← UInt64.toNat_inj, UInt64.toNat_add,
    UInt64.toNat_sub_of_le _ _ hle, UInt64.toNat_ofNat', hone]
  omega

theorem covered_of_inverted (h : ¬note.seqFrom ≤ note.seqTo) : covered hashes note = [] := by
  have hempty : seqList note.seqFrom note.seqTo = [] := by
    apply List.eq_nil_of_length_eq_zero
    rw [length_seqList]
    rw [UInt64.le_iff_toNat_le] at h
    omega
  rw [covered, hempty]
  rfl

/-- Where the count wraps, only the range that ends just before it begins is taken for a whole
one. -/
theorem fullyExported_inverted (h : ¬note.seqFrom ≤ note.seqTo) :
    fullyExported (covered hashes note) note = true ↔ note.seqFrom = note.seqTo + 1 := by
  have hone : (1 : UInt64).toNat = 1 := rfl
  have hfrom := note.seqFrom.toNat_lt
  rw [UInt64.le_iff_toNat_le] at h
  rw [covered_of_inverted (by rwa [UInt64.le_iff_toNat_le]), fullyExported_iff, List.length_nil,
    ← UInt64.toNat_inj, ← UInt64.toNat_inj, UInt64.toNat_add, UInt64.toNat_add, UInt64.toNat_sub,
    UInt64.toNat_ofNat', hone]
  omega

theorem rangeLength_eq (hle : note.seqFrom ≤ note.seqTo)
    (hto : note.seqTo.toNat + 1 < UInt64.size) :
    rangeLength note = some (note.seqTo - note.seqFrom + 1) := by
  have hsub : (note.seqTo - note.seqFrom).toNat = note.seqTo.toNat - note.seqFrom.toNat :=
    UInt64.toNat_sub_of_le _ _ hle
  have hone : (1 : UInt64).toNat = 1 := rfl
  have hadd : (note.seqTo - note.seqFrom).toNat + (1 : UInt64).toNat < UInt64.size := by
    rw [hsub, hone]
    omega
  simp only [rangeLength, checkedSub, checkedAdd, hle, hadd, ↓reduceIte, Option.bind_eq_bind,
    Option.bind_some]

/-- **When the arithmetic on a signed checkpoint is safe**: the expression neither underflows nor
overflows, and the test it stands in is true exactly when the range is there, for every checkpoint
that passes the checks before it whose range is not inverted, and for no other. -/
theorem range_arithmetic_iff (hashes : Std.TreeMap UInt64 String)
    (h : signed E streamId trust bc = true) :
    (rangeLength bc.checkpoint.note =
        some (bc.checkpoint.note.seqTo - bc.checkpoint.note.seqFrom + 1) ∧
      (fullyExported (covered hashes bc.checkpoint.note) bc.checkpoint.note = true ↔
        RangePresent hashes bc.checkpoint.note)) ↔
      bc.checkpoint.note.seqFrom ≤ bc.checkpoint.note.seqTo := by
  have hto : bc.checkpoint.note.seqTo.toNat + 1 < UInt64.size :=
    Nat.lt_of_le_of_lt (Nat.succ_le_succ (seqTo_le_of_signed h)) (by decide)
  constructor
  · intro hsafe
    by_contra hinverted
    have hnone : rangeLength bc.checkpoint.note = none := by
      simp [rangeLength, checkedSub, hinverted]
    rw [hnone] at hsafe
    cases hsafe.1
  · intro hle
    exact ⟨rangeLength_eq hle hto, fullyExported_iff_present hle hto⟩

end Ranges

/-! A signed checkpoint over the range from 1 to 0. -/

namespace Sample

def invertedNote : CheckpointNote :=
  { firstNote with checkpointId := "01CHECKPOINT000000000000A4", seqFrom := 1, treeSize := 0 }

def invertedHash : String := "fcc547f898432de5e93da72e7c2c441e6e587f6d5ff61189f0a8840f7260efad"

def inverted : BundleCheckpoint where
  checkpoint := ⟨invertedNote, "89418eff71dbc02520b8bd743643b92c1859c49bfd801a471011dd45dd9b35724cf06cd77bcc08173b5db3f74e1712a85d237d211fd0f5f56c4ef7205793750a"⟩
  countersignature := none

def invertedExternals : Externals := .recorded { recording with
  blake3 := digested invertedNote.toJson invertedHash :: recording.blake3
  signatures := ((recorderKey.bytes, ofHex invertedHash), ofHex inverted.checkpoint.signature) ::
    recording.signatures }

end Sample

theorem range_arithmetic_first :
    rangeLength Sample.firstNote = some 1 ∧ RangePresent Sample.chained.hashesBySeq
      Sample.firstNote := by
  have hsigned : signed Sample.externals Sample.firstNote.streamId Sample.trust
      ⟨Sample.first, none⟩ = true := by decide +kernel
  obtain ⟨hlen, htest⟩ := (range_arithmetic_iff Sample.chained.hashesBySeq hsigned).mpr (by decide)
  exact ⟨hlen, htest.mp (by decide)⟩

/-- The subtraction underflows; where it wraps, the empty range is taken for a whole one. -/
theorem range_inverted :
    signed Sample.invertedExternals Sample.invertedNote.streamId Sample.trust Sample.inverted =
        true ∧
      rangeLength Sample.invertedNote = none ∧
      fullyExported (covered Sample.chained.hashesBySeq Sample.invertedNote) Sample.invertedNote =
        true ∧
      ¬RangePresent Sample.chained.hashesBySeq Sample.invertedNote := by
  refine ⟨by decide +kernel, by decide, by decide +kernel, ?_⟩
  intro h
  exact absurd h.1 (by decide)

end Sealr.Verify
