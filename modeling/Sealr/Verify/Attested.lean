import Mathlib.Data.Finset.Lattice.Basic
import Sealr.Verify.Checkpoints

/-!
# What the checkpoints of a stream leave behind

The turns of `verify_checkpoints` read nothing that earlier turns wrote except the ranges seen,
which only enter the fork findings. So the loop is a fold of `turn`, which decides from the
exported hashes and the checkpoint alone (`verifyCheckpoints_data`), and every set or map it fills
is described over the list of checkpoints.
-/

namespace Sealr.Verify

open Lib Evidence Bundle

theorem succeeds_iff {ε : Type} {r : Except ε Unit} : succeeds r = true ↔ r = .ok () := by
  cases r <;> simp [succeeds]

section Predicates

variable (E : Externals) (streamId : String) (trust : Identity)
  (hashes : Std.TreeMap UInt64 String) (bc : BundleCheckpoint)

/-- The exported hashes of a checkpoint's range, up to the first that is missing. -/
def covered (note : CheckpointNote) : List String :=
  coveredHashes hashes (seqList note.seqFrom note.seqTo)

/-- The stream, the certificate, the signature and the revocation check stand. -/
def signed : Bool := (refuse E streamId trust.certMap trust.revocations bc).isNone

/-- The root was recomputed over the whole range and agrees. -/
def rootVerified : Bool :=
  fullyExported (covered hashes bc.checkpoint.note) bc.checkpoint.note &&
    succeeds (bc.checkpoint.verifyRoot E (covered hashes bc.checkpoint.note))

/-- The root agrees, or the range is not fully exported and the root was not looked at. -/
def rootStands : Bool :=
  !fullyExported (covered hashes bc.checkpoint.note) bc.checkpoint.note ||
    rootVerified E hashes bc

/-- The turn of this checkpoint attests its range. -/
def attests : Bool := signed E streamId trust bc && rootVerified E hashes bc

/-- The countersignature that the turn of this checkpoint takes as verified. -/
def takenCountersignature : Option Countersignature :=
  bc.countersignature.filter fun cs =>
    signed E streamId trust bc && rootStands E hashes bc && countersigned E trust.consoleKeys cs

/-- The turn of this checkpoint runs to its end. -/
def accepts : Bool :=
  signed E streamId trust bc && rootStands E hashes bc &&
    bc.countersignature.all fun cs =>
      countersigned E trust.consoleKeys cs || trust.consoleKeys.isEmpty

end Predicates

def attestRange (note : CheckpointNote) (data : StreamData) : StreamData :=
  { data with attestedSeqs := data.attestedSeqs ∪ (seqList note.seqFrom note.seqTo).toFinset }

/-- What the turn of a checkpoint does to the stream data. -/
def turn (E : Externals) (streamId : String) (trust : Identity)
    (hashes : Std.TreeMap UInt64 String) (data : StreamData) (bc : BundleCheckpoint) :
    StreamData :=
  let note := bc.checkpoint.note
  let data₁ := if attests E streamId trust hashes bc then attestRange note data else data
  let data₂ := match takenCountersignature E streamId trust hashes bc with
    | some cs => acceptCountersignature note.checkpointId cs data₁
    | none => data₁
  if accepts E streamId trust hashes bc then acceptCheckpoint E note data₂ else data₂

section Turn

variable {E : Externals} {streamId : String} {trust : Identity}
  {hashes : Std.TreeMap UInt64 String} {data : StreamData} {bc : BundleCheckpoint}

theorem turn_hashes : (turn E streamId trust hashes data bc).hashesBySeq = data.hashesBySeq := by
  unfold turn acceptCheckpoint acceptCountersignature attestRange
  dsimp only
  split_ifs <;> split <;> rfl

theorem rootStep_data :
    (rootStep E streamId data bc).1 =
        (if rootVerified E data.hashesBySeq bc then attestRange bc.checkpoint.note data
          else data) ∧
      (rootStep E streamId data bc).2.2 = rootStands E data.hashesBySeq bc := by
  unfold rootStep rootStands rootVerified covered
  dsimp only
  by_cases hfull : fullyExported (coveredHashes data.hashesBySeq
      (seqList bc.checkpoint.note.seqFrom bc.checkpoint.note.seqTo)) bc.checkpoint.note = true
  · cases hroot : bc.checkpoint.verifyRoot E (coveredHashes data.hashesBySeq
        (seqList bc.checkpoint.note.seqFrom bc.checkpoint.note.seqTo)) with
    | error e => simp [hfull, succeeds]
    | ok u => simp [hfull, succeeds, attestRange]
  · simp [hfull]

theorem countersignatureStep_data (keys : ConsoleKeys) :
    (countersignatureStep E streamId keys data bc).1 =
        (match bc.countersignature.filter (countersigned E keys) with
          | some cs => acceptCountersignature bc.checkpoint.note.checkpointId cs data
          | none => data) ∧
      (countersignatureStep E streamId keys data bc).2.2 =
        bc.countersignature.all fun cs => countersigned E keys cs || keys.isEmpty := by
  unfold countersignatureStep
  dsimp only
  cases bc.countersignature with
  | none => simp
  | some cs =>
    by_cases hcs : countersigned E keys cs = true
    · simp [Option.filter, hcs]
    · by_cases hempty : keys.isEmpty = true
      · simp [Option.filter, hcs, hempty]
      · simp [Option.filter, hcs, hempty]

/-- One turn of the loop, as it acts on the data. -/
theorem checkpointStep_data (st : CheckpointState) :
    (checkpointStep E streamId trust.certMap trust.revocations trust.consoleKeys st bc).1.data =
      turn E streamId trust st.data.hashesBySeq st.data bc := by
  unfold checkpointStep turn attests takenCountersignature accepts
  cases hrefuse : refuse E streamId trust.certMap trust.revocations bc with
  | some f => simp [signed, hrefuse]
  | none =>
    obtain ⟨hdata₁, hgo₁⟩ := @rootStep_data E streamId st.data bc
    obtain ⟨hdata₂, hgo₂⟩ := @countersignatureStep_data E streamId
      (rootStep E streamId st.data bc).1 bc trust.consoleKeys
    simp only [signedStep, hgo₁, hgo₂, hdata₂]
    simp only [signed, hrefuse, Option.isNone_none, Bool.true_and, hdata₁]
    by_cases hstands : rootStands E st.data.hashesBySeq bc = true
    · simp only [hstands, Bool.true_and, ↓reduceIte]
      split_ifs <;> rfl
    · have hroot : rootVerified E st.data.hashesBySeq bc = false := by
        simp only [rootStands, Bool.or_eq_true, not_or] at hstands
        simpa using hstands.2
      simp [hstands, hroot]

theorem checkpointStep_ranges (st : CheckpointState) (hsigned : signed E streamId trust bc = true) :
    (checkpointStep E streamId trust.certMap trust.revocations trust.consoleKeys st bc).1.ranges =
      st.ranges ++ [⟨bc.checkpoint.note.seqFrom, bc.checkpoint.note.seqTo,
        bc.checkpoint.note.merkleRoot, bc.checkpoint.note.checkpointId⟩] := by
  simp only [signed, Option.isNone_iff_eq_none] at hsigned
  simp [checkpointStep, hsigned]

/-- **The loop is a fold of turns over the hashes it started with.** -/
theorem verifyCheckpoints_data (cps : List BundleCheckpoint) :
    (verifyCheckpoints E streamId data cps trust.certMap trust.revocations
      trust.consoleKeys).1 = cps.foldl (turn E streamId trust data.hashesBySeq) data := by
  have hrun : ∀ st : CheckpointState, (foldLog (checkpointStep E streamId trust.certMap
      trust.revocations trust.consoleKeys) st cps).1.data =
        cps.foldl (turn E streamId trust st.data.hashesBySeq) st.data := by
    induction cps with
    | nil => intro st; rfl
    | cons bc cps ih =>
      intro st
      rw [foldLog, ih, checkpointStep_data, turn_hashes, List.foldl_cons]
  exact hrun ⟨data, []⟩

end Turn

/-! ## Ranges -/

theorem length_seqList (a b : UInt64) : (seqList a b).length = b.toNat + 1 - a.toNat := by
  simp [seqList]

/-- The length of a range, as it is computed in the source. -/
theorem ofNat_length_seqList {a b : UInt64} (h : a ≤ b) :
    UInt64.ofNat (seqList a b).length = b - a + 1 := by
  have hle := UInt64.le_iff_toNat_le.mp h
  have ha := a.toNat_lt
  have hb := b.toNat_lt
  have hone : (1 : UInt64).toNat = 1 := rfl
  rw [length_seqList, ← UInt64.toNat_inj, UInt64.toNat_add, UInt64.toNat_sub, UInt64.toNat_ofNat']
  omega

theorem mem_seqList {a b s : UInt64} : s ∈ seqList a b ↔ a ≤ s ∧ s ≤ b := by
  have ha := a.toNat_lt
  have hb := b.toNat_lt
  have hs := s.toNat_lt
  simp only [seqList, List.mem_map, List.mem_range, UInt64.le_iff_toNat_le]
  constructor
  · rintro ⟨i, hi, rfl⟩
    rw [UInt64.toNat_ofNat', Nat.mod_eq_of_lt (by omega)]
    omega
  · rintro ⟨has, hsb⟩
    refine ⟨s.toNat - a.toNat, by omega, ?_⟩
    rw [Nat.add_sub_cancel' has, UInt64.ofNat_toNat]

section Covered

variable {E : Externals} {hashes : Std.TreeMap UInt64 String} {seqs : List UInt64}

/-- The hash exported under each number, in order. -/
abbrev Exported (hashes : Std.TreeMap UInt64 String) : List UInt64 → List String → Prop :=
  List.Forall₂ fun s h => hashes[s]? = some h

theorem coveredHashes_of_exported {hs : List String} (h : Exported hashes seqs hs) :
    coveredHashes hashes seqs = hs := by
  induction h with
  | nil => rfl
  | cons hget _ ih => simp only [coveredHashes, hget, ih]

theorem length_coveredHashes_le : (coveredHashes hashes seqs).length ≤ seqs.length := by
  induction seqs with
  | nil => simp [coveredHashes]
  | cons s seqs ih =>
    unfold coveredHashes
    split <;> simp [ih]

/-- As many hashes as numbers: none is missing. -/
theorem exported_coveredHashes (h : (coveredHashes hashes seqs).length = seqs.length) :
    Exported hashes seqs (coveredHashes hashes seqs) := by
  induction seqs with
  | nil => exact .nil
  | cons s seqs ih =>
    cases hx : hashes[s]? with
    | none => simp [coveredHashes, hx] at h
    | some x =>
      simp only [coveredHashes, hx, List.length_cons, Nat.add_right_cancel_iff] at h ⊢
      exact .cons hx (ih h)

/-- The root, the tree size and the chain head of a note are those of the exported hashes of its
whole range. -/
structure RootOver (E : Externals) (hashes : Std.TreeMap UInt64 String) (note : CheckpointNote)
    (hs : List String) : Prop where
  exported : Exported hashes (seqList note.seqFrom note.seqTo) hs
  treeSize : UInt64.ofNat hs.length = note.treeSize
  merkleRoot : merkleRootOfRecordHashes E hs = .ok note.merkleRoot
  chainHead : hs.getLast? = some note.chainHeadHash

theorem RootOver.le {note : CheckpointNote} {hs : List String} (h : RootOver E hashes note hs) :
    note.seqFrom ≤ note.seqTo := by
  have hlen := h.exported.length_eq
  rw [length_seqList] at hlen
  have hpos : 0 < hs.length := List.length_pos_of_mem (List.mem_of_getLast? h.chainHead)
  rw [UInt64.le_iff_toNat_le]
  omega

theorem fullyExported_iff {hs : List String} {note : CheckpointNote} :
    fullyExported hs note = true ↔ UInt64.ofNat hs.length = note.seqTo - note.seqFrom + 1 :=
  decide_eq_true_iff

/-- **A verified root is over the whole range**: the count that wraps cannot hide a missing hash,
because an empty list has no chain head. -/
theorem rootVerified_iff {bc : BundleCheckpoint} :
    rootVerified E hashes bc = true ↔ ∃ hs, RootOver E hashes bc.checkpoint.note hs := by
  have hfrom := bc.checkpoint.note.seqFrom.toNat_lt
  have hto := bc.checkpoint.note.seqTo.toNat_lt
  have hone : (1 : UInt64).toNat = 1 := rfl
  simp only [rootVerified, Bool.and_eq_true, succeeds_iff, verifyRoot_eq_ok, covered,
    fullyExported_iff]
  constructor
  · rintro ⟨hfull, hsize, hroot, hhead⟩
    refine ⟨_, ?_, hsize, hroot, hhead⟩
    have hle := @length_coveredHashes_le hashes
      (seqList bc.checkpoint.note.seqFrom bc.checkpoint.note.seqTo)
    have hpos := List.length_pos_of_mem (List.mem_of_getLast? hhead)
    apply exported_coveredHashes
    rw [length_seqList] at hle ⊢
    have hcount := congrArg UInt64.toNat hfull
    rw [UInt64.toNat_add, UInt64.toNat_sub, UInt64.toNat_ofNat'] at hcount
    omega
  · rintro ⟨hs, h⟩
    rw [coveredHashes_of_exported h.exported]
    refine ⟨?_, h.treeSize, h.merkleRoot, h.chainHead⟩
    rw [← h.exported.length_eq]
    exact ofNat_length_seqList h.le

end Covered

/-! ## What a turn leaves -/

section Outputs

variable {E : Externals} {streamId : String} {trust : Identity}
  {hashes : Std.TreeMap UInt64 String} {data : StreamData} {bc : BundleCheckpoint}
  {cps : List BundleCheckpoint}

/-- A checkpoint that is not refused. -/
theorem signed_iff : signed E streamId trust bc = true ↔ bc.checkpoint.note.streamId = streamId ∧
    ∃ cert, trust.certMap[bc.checkpoint.note.recorderCertFingerprint]? = some cert ∧
      bc.checkpoint.verify E cert.publicKey = .ok () ∧
      isRevoked E trust.revocations bc.checkpoint.note = false := by
  simp only [signed, refuse]
  by_cases hstream : bc.checkpoint.note.streamId = streamId
  · cases hcert : trust.certMap[bc.checkpoint.note.recorderCertFingerprint]? with
    | none => simp [hstream]
    | some cert =>
      by_cases hsig : bc.checkpoint.verify E cert.publicKey = .ok ()
      · cases hrev : isRevoked E trust.revocations bc.checkpoint.note <;>
          simp [hstream, hsig, succeeds]
      · have hno : succeeds (bc.checkpoint.verify E cert.publicKey) = false := by
          rw [← Bool.not_eq_true, succeeds_iff]
          exact hsig
        simp [hstream, hsig, hno]
  · simp [hstream]

theorem turn_attestedSeqs : (turn E streamId trust hashes data bc).attestedSeqs =
    if attests E streamId trust hashes bc then data.attestedSeqs ∪
      (seqList bc.checkpoint.note.seqFrom bc.checkpoint.note.seqTo).toFinset
    else data.attestedSeqs := by
  unfold turn acceptCheckpoint acceptCountersignature attestRange
  dsimp only
  split_ifs <;> split <;> rfl

theorem turn_anchoredSeqs :
    (turn E streamId trust hashes data bc).anchoredSeqs = data.anchoredSeqs := by
  unfold turn acceptCheckpoint acceptCountersignature attestRange
  dsimp only
  split_ifs <;> split <;> rfl

theorem turn_gapCount :
    (turn E streamId trust hashes data bc).coverageGapCount = data.coverageGapCount := by
  unfold turn acceptCheckpoint acceptCountersignature attestRange
  dsimp only
  split_ifs <;> split <;> rfl

theorem turn_countersigned :
    (turn E streamId trust hashes data bc).countersignedCheckpoints =
      match takenCountersignature E streamId trust hashes bc with
      | some _ => insert bc.checkpoint.note.checkpointId data.countersignedCheckpoints
      | none => data.countersignedCheckpoints := by
  unfold turn acceptCheckpoint acceptCountersignature attestRange
  dsimp only
  split_ifs <;> split <;> rfl

theorem turn_highWater :
    (turn E streamId trust hashes data bc).countersignedHighWater =
      match (takenCountersignature E streamId trust hashes bc).bind (·.note.streamHighWaterSeq) with
      | some hw => raiseHighWater data.countersignedHighWater hw
      | none => data.countersignedHighWater := by
  unfold turn acceptCheckpoint acceptCountersignature attestRange
  dsimp only
  split_ifs <;> cases takenCountersignature E streamId trust hashes bc <;> rfl

theorem turn_ranges : (turn E streamId trust hashes data bc).validCheckpointRanges =
    if accepts E streamId trust hashes bc then
      data.validCheckpointRanges.insert bc.checkpoint.note.checkpointId
        (bc.checkpoint.note.seqFrom, bc.checkpoint.note.seqTo)
    else data.validCheckpointRanges := by
  unfold turn acceptCheckpoint acceptCountersignature attestRange
  dsimp only
  split_ifs <;> split <;> rfl

theorem turn_links : (turn E streamId trust hashes data bc).checkpointLinks =
    if accepts E streamId trust hashes bc then data.checkpointLinks ++
      (bc.checkpoint.note.prevCheckpointHash.map (bc.checkpoint.note.checkpointId, ·)).toList
    else data.checkpointLinks := by
  unfold turn acceptCheckpoint acceptCountersignature attestRange
  dsimp only
  cases bc.checkpoint.note.prevCheckpointHash <;> split_ifs <;> split <;> simp

/-- A signature that verifies is over a note that has JCS bytes. -/
theorem toJcsBytes_of_signed (h : signed E streamId trust bc = true) :
    ∃ jcs, toJcsBytes bc.checkpoint.note.toJson = .ok jcs := by
  obtain ⟨-, cert, -, hsig, -⟩ := signed_iff.mp h
  obtain ⟨jcs, hjcs, -⟩ := bind_eq_ok.mp hsig
  exact ⟨jcs, hjcs⟩

/-- The leaf digest of a note. -/
def noteDigest (E : Externals) (note : CheckpointNote) : Digest :=
  blake3Raw E ((toJcsBytes note.toJson).toOption.getD [])

theorem signed_of_accepts (h : accepts E streamId trust hashes bc = true) :
    signed E streamId trust bc = true := by
  simp only [accepts, Bool.and_eq_true] at h
  exact h.1.1

theorem turn_digests : (turn E streamId trust hashes data bc).checkpointDigests =
    if accepts E streamId trust hashes bc then
      data.checkpointDigests.insert bc.checkpoint.note.checkpointId
        (noteDigest E bc.checkpoint.note)
    else data.checkpointDigests := by
  by_cases hacc : accepts E streamId trust hashes bc = true
  · obtain ⟨jcs, hjcs⟩ := toJcsBytes_of_signed (signed_of_accepts hacc)
    simp only [turn, hacc, ↓reduceIte, acceptCheckpoint, hjcs, noteDigest, Except.toOption,
      Option.getD_some]
    split <;> split_ifs <;> rfl
  · simp only [turn, hacc, Bool.false_eq_true, ↓reduceIte]
    split <;> split_ifs <;> rfl

theorem turn_noteHashes : (turn E streamId trust hashes data bc).checkpointNoteHashes =
    if accepts E streamId trust hashes bc then
      insert (hexEncode (noteDigest E bc.checkpoint.note).toList) data.checkpointNoteHashes
    else data.checkpointNoteHashes := by
  by_cases hacc : accepts E streamId trust hashes bc = true
  · obtain ⟨jcs, hjcs⟩ := toJcsBytes_of_signed (signed_of_accepts hacc)
    have hhash : bc.checkpoint.note.noteHash E = .ok (blake3Hex E jcs) :=
      bind_eq_ok.mpr ⟨jcs, hjcs, rfl⟩
    simp only [turn, hacc, ↓reduceIte, acceptCheckpoint, hhash, hjcs, noteDigest,
      Except.toOption, Option.getD_some]
    split <;> split_ifs <;> rfl
  · simp only [turn, hacc, Bool.false_eq_true, ↓reduceIte]
    split <;> split_ifs <;> rfl

end Outputs

/-! ## What the loop leaves -/

section Loop

variable {E : Externals} {streamId : String} {trust : Identity}
  {hashes : Std.TreeMap UInt64 String} {data : StreamData} (cps : List BundleCheckpoint)

theorem turns_hashes :
    (cps.foldl (turn E streamId trust hashes) data).hashesBySeq = data.hashesBySeq := by
  induction cps generalizing data with
  | nil => rfl
  | cons bc cps ih => rw [List.foldl_cons, ih, turn_hashes]

theorem turns_anchoredSeqs :
    (cps.foldl (turn E streamId trust hashes) data).anchoredSeqs = data.anchoredSeqs := by
  induction cps generalizing data with
  | nil => rfl
  | cons bc cps ih => rw [List.foldl_cons, ih, turn_anchoredSeqs]

theorem turns_gapCount :
    (cps.foldl (turn E streamId trust hashes) data).coverageGapCount = data.coverageGapCount := by
  induction cps generalizing data with
  | nil => rfl
  | cons bc cps ih => rw [List.foldl_cons, ih, turn_gapCount]

/-- A number is attested when the range of an attesting checkpoint holds it. -/
theorem mem_turns_attestedSeqs {s : UInt64} :
    s ∈ (cps.foldl (turn E streamId trust hashes) data).attestedSeqs ↔ s ∈ data.attestedSeqs ∨
      ∃ bc ∈ cps, attests E streamId trust hashes bc = true ∧
        bc.checkpoint.note.seqFrom ≤ s ∧ s ≤ bc.checkpoint.note.seqTo := by
  induction cps generalizing data with
  | nil => simp
  | cons bc cps ih =>
    rw [List.foldl_cons, ih, turn_attestedSeqs]
    by_cases hatt : attests E streamId trust hashes bc = true
    · simp only [hatt, ↓reduceIte, Finset.mem_union, List.mem_toFinset, mem_seqList,
        List.mem_cons, exists_eq_or_imp, true_and]
      rw [or_assoc]
    · simp [hatt]

/-- The checkpoints with the countersignatures taken for them, in order. -/
def takenCountersignatures (E : Externals) (streamId : String) (trust : Identity)
    (hashes : Std.TreeMap UInt64 String) (cps : List BundleCheckpoint) :
    List (BundleCheckpoint × Countersignature) :=
  cps.filterMap fun bc => (takenCountersignature E streamId trust hashes bc).map (bc, ·)

theorem turns_countersigned :
    (cps.foldl (turn E streamId trust hashes) data).countersignedCheckpoints =
      data.countersignedCheckpoints ∪ ((takenCountersignatures E streamId trust hashes cps).map
        (·.1.checkpoint.note.checkpointId)).toFinset := by
  induction cps generalizing data with
  | nil => simp [takenCountersignatures]
  | cons bc cps ih =>
    rw [List.foldl_cons, ih, turn_countersigned]
    unfold takenCountersignatures
    rw [List.filterMap_cons]
    cases takenCountersignature E streamId trust hashes bc with
    | none => rfl
    | some cs =>
      simp only [Option.map_some, List.map_cons, List.toFinset_cons, Finset.union_insert,
        Finset.insert_union]

theorem turns_highWater :
    (cps.foldl (turn E streamId trust hashes) data).countersignedHighWater =
      ((takenCountersignatures E streamId trust hashes cps).filterMap
        (·.2.note.streamHighWaterSeq)).foldl raiseHighWater data.countersignedHighWater := by
  induction cps generalizing data with
  | nil => rfl
  | cons bc cps ih =>
    rw [List.foldl_cons, ih, turn_highWater]
    unfold takenCountersignatures
    rw [List.filterMap_cons]
    cases takenCountersignature E streamId trust hashes bc with
    | none => rfl
    | some cs =>
      simp only [Option.map_some, Option.bind_some, List.filterMap_cons]
      cases cs.note.streamHighWaterSeq <;> rfl

/-- The highest of some marks, and of one mark that was there before. -/
theorem foldl_raiseHighWater_eq_some {marks : List UInt64} {current : Option UInt64} {m : UInt64} :
    marks.foldl raiseHighWater current = some m ↔ (m ∈ marks ∨ current = some m) ∧
      (∀ x ∈ marks, x ≤ m) ∧ ∀ c, current = some c → c ≤ m := by
  induction marks generalizing current with
  | nil =>
    simp only [List.foldl_nil, List.not_mem_nil, false_or, false_implies, implies_true, true_and]
    constructor
    · intro h
      refine ⟨h, ?_⟩
      intro c hc
      rw [Option.some.inj (hc.symm.trans h)]
      exact UInt64.le_refl m
    · exact fun h => h.1
  | cons x marks ih =>
    rw [List.foldl_cons, ih, List.forall_mem_cons, List.mem_cons]
    cases current with
    | none =>
      simp only [raiseHighWater, Option.some.injEq, forall_eq', reduceCtorEq, false_implies,
        implies_true, and_true, or_false]
      grind
    | some c =>
      have hraise : raiseHighWater (some c) x = if c < x then some x else some c := rfl
      rw [hraise]
      split_ifs with hlt
      · have hle := UInt64.le_of_lt hlt
        simp only [Option.some.injEq, forall_eq']
        constructor
        · rintro ⟨hmem, hall, hx⟩
          refine ⟨?_, ⟨hx, hall⟩, UInt64.le_trans hle hx⟩
          obtain hmem | rfl := hmem
          · exact .inl (.inr hmem)
          · exact .inl (.inl rfl)
        · rintro ⟨(rfl | hmem) | rfl, ⟨hx, hall⟩, -⟩
          · exact ⟨.inr rfl, hall, hx⟩
          · exact ⟨.inl hmem, hall, hx⟩
          · exact absurd hx (UInt64.not_le.mpr hlt)
      · have hle := UInt64.not_lt.mp hlt
        simp only [Option.some.injEq, forall_eq']
        constructor
        · rintro ⟨hmem, hall, hc⟩
          refine ⟨?_, ⟨UInt64.le_trans hle hc, hall⟩, hc⟩
          obtain hmem | rfl := hmem
          · exact .inl (.inr hmem)
          · exact .inr rfl
        · rintro ⟨(rfl | hmem) | rfl, ⟨hx, hall⟩, hc⟩
          · exact ⟨.inr (UInt64.le_antisymm hc hle), hall, hc⟩
          · exact ⟨.inl hmem, hall, hc⟩
          · exact ⟨.inr rfl, hall, hc⟩

/-- Once there is a mark, there is a highest one. -/
theorem foldl_raiseHighWater_eq_none {marks : List UInt64} {current : Option UInt64} :
    marks.foldl raiseHighWater current = none ↔ marks = [] ∧ current = none := by
  induction marks generalizing current with
  | nil => simp
  | cons x marks ih =>
    have hraise : raiseHighWater current x ≠ none := by
      unfold raiseHighWater
      split
      · exact Option.some_ne_none x
      · split_ifs <;> exact Option.some_ne_none _
    rw [List.foldl_cons, ih]
    simp [hraise]

theorem takenCountersignature_eq_some {bc : BundleCheckpoint} {cs : Countersignature} :
    takenCountersignature E streamId trust hashes bc = some cs ↔
      bc.countersignature = some cs ∧ signed E streamId trust bc = true ∧
        rootStands E hashes bc = true ∧ countersigned E trust.consoleKeys cs = true := by
  simp only [takenCountersignature, Option.filter_eq_some_iff, Bool.and_eq_true, and_assoc]

theorem countersigned_iff {keys : ConsoleKeys} {cs : Countersignature} :
    countersigned E keys cs = true ↔ ∃ k ∈ keys.values, cs.verify E k = .ok () := by
  simp only [countersigned, List.any_eq_true, succeeds_iff]

theorem turns_links :
    (cps.foldl (turn E streamId trust hashes) data).checkpointLinks = data.checkpointLinks ++
      (cps.filter (accepts E streamId trust hashes)).flatMap fun bc =>
        (bc.checkpoint.note.prevCheckpointHash.map (bc.checkpoint.note.checkpointId, ·)).toList := by
  induction cps generalizing data with
  | nil => simp
  | cons bc cps ih =>
    rw [List.foldl_cons, ih, turn_links, List.filter_cons]
    split_ifs <;> simp

theorem mem_turns_noteHashes {h : String} :
    h ∈ (cps.foldl (turn E streamId trust hashes) data).checkpointNoteHashes ↔
      h ∈ data.checkpointNoteHashes ∨ ∃ bc ∈ cps, accepts E streamId trust hashes bc = true ∧
        h = hexEncode (noteDigest E bc.checkpoint.note).toList := by
  induction cps generalizing data with
  | nil => simp
  | cons bc cps ih =>
    rw [List.foldl_cons, ih, turn_noteHashes]
    by_cases hacc : accepts E streamId trust hashes bc = true
    · simp only [hacc, ↓reduceIte, Finset.mem_insert, List.mem_cons, exists_eq_or_imp, true_and]
      exact or_assoc.trans or_left_comm
    · simp [hacc]

/-- The last accepted checkpoint of an id: it decides what the maps hold under the id. -/
def lastAccepted (E : Externals) (streamId : String) (trust : Identity)
    (hashes : Std.TreeMap UInt64 String) (cps : List BundleCheckpoint) (cpId : String) :
    Option BundleCheckpoint :=
  (cps.filter fun bc =>
    accepts E streamId trust hashes bc && bc.checkpoint.note.checkpointId = cpId).getLast?

theorem lastAccepted_concat (bc : BundleCheckpoint) (cpId : String) :
    lastAccepted E streamId trust hashes (cps ++ [bc]) cpId =
      if accepts E streamId trust hashes bc = true ∧ bc.checkpoint.note.checkpointId = cpId then
        some bc
      else lastAccepted E streamId trust hashes cps cpId := by
  unfold lastAccepted
  rw [List.filter_append]
  split_ifs with h
  · have hlast : [bc].filter (fun bc => accepts E streamId trust hashes bc &&
        bc.checkpoint.note.checkpointId = cpId) = [bc] := by simp [h]
    rw [hlast, List.getLast?_concat]
  · have hlast : [bc].filter (fun bc => accepts E streamId trust hashes bc &&
        bc.checkpoint.note.checkpointId = cpId) = [] := by simpa using h
    rw [hlast, List.append_nil]

/-- Under an id, both maps hold what the last accepted checkpoint of the id left. -/
theorem turns_lookup (hranges : data.validCheckpointRanges = {})
    (hdigests : data.checkpointDigests = {}) (cpId : String) :
    (cps.foldl (turn E streamId trust hashes) data).validCheckpointRanges[cpId]? =
        (lastAccepted E streamId trust hashes cps cpId).map (fun bc =>
          (bc.checkpoint.note.seqFrom, bc.checkpoint.note.seqTo)) ∧
      (cps.foldl (turn E streamId trust hashes) data).checkpointDigests[cpId]? =
        (lastAccepted E streamId trust hashes cps cpId).map (fun bc =>
          noteDigest E bc.checkpoint.note) := by
  induction cps using List.reverseRecOn with
  | nil => simp [hranges, hdigests, lastAccepted]
  | append_singleton cps bc ih =>
    rw [List.foldl_append, List.foldl_cons, List.foldl_nil, turn_ranges, turn_digests,
      lastAccepted_concat]
    by_cases hacc : accepts E streamId trust hashes bc = true
    · simp only [hacc, ↓reduceIte, true_and, Std.TreeMap.getElem?_insert,
        Std.LawfulEqCmp.compare_eq_iff_eq]
      split_ifs
      · exact ⟨rfl, rfl⟩
      · exact ih
    · simp only [hacc, Bool.false_eq_true, ↓reduceIte, false_and]
      exact ih

theorem lastAccepted_spec {cpId : String} {bc : BundleCheckpoint}
    (h : lastAccepted E streamId trust hashes cps cpId = some bc) :
    bc ∈ cps ∧ accepts E streamId trust hashes bc = true ∧
      bc.checkpoint.note.checkpointId = cpId := by
  have hmem := List.mem_of_getLast? h
  simpa using List.mem_filter.mp hmem

end Loop

end Sealr.Verify
