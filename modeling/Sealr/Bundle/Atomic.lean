import Sealr.Bundle.Order

/-!
# What a failed call leaves

A call that fails leaves the state in which it failed. When nothing failed outside, in the archive,
in the compressor or in what they write to, that is the state from before the call, but for two
methods: `add_stream_records` writes the shards of a stream as they fill up, before all lines were
read and looked at, and `add_vault_entry` goes to its phase before it looks at the name.
-/

namespace Sealr.Bundle

open Lib Evidence

/-- A failure of the archive, of the compressor or of what they write to. -/
def BundleError.Storage (e : BundleError) : Prop := ∃ text, e = .io text ∨ e = .zip text

/-- Is a shard written before a line fails or, at the end, with what is left? The buffer holds these
bytes. -/
def leavesShard (threshold : UInt64) : Bytes → List (BResult Bytes) → Bool
  | buf, [] => buf ≠ []
  | _, .error _ :: _ => false
  | buf, .ok line :: lines =>
    if threshold ≤ UInt64.ofNat (buf ++ line).length then
      buf ++ line ≠ [] || leavesShard threshold [] lines
    else leavesShard threshold (buf ++ line) lines

namespace Call

/-- Does the call write a shard, if it gets to its lines? -/
def leavesShard (w : BundleWriter) : Call → Bool
  | addStreamRecords _ lines =>
    w.phase = .records && Bundle.leavesShard w.shardThreshold [] lines
  | _ => false

/-- A vault entry with a name that is refused. -/
def Misnamed : Call → Prop
  | addVaultEntry name _ => hasDots name.toList = true ∨ name.toList.head? = some '/'
  | _ => False

end Call

/-- These files were written, all of them shards of the stream, and nothing else changed. -/
structure Left (E : Externals) (streamId : String) (new : List (String × Bytes))
    (w w' : BundleWriter) : Prop where
  wrote : Wrote E new w w'
  phase : w'.phase = w.phase
  index : w'.index = w.index
  named : ∀ f ∈ new, ∃ n, f.1 = shardPath streamId n

section Failures

variable {E : Externals} {K : Sink} {w w' w'' : BundleWriter} {e : BundleError}

/-! ## Calls without shards -/

theorem fails_writeEntry {path : String} {bytes : Bytes}
    (h : Fails (writeEntry E K path bytes) w e w') : e.Storage := by
  simp only [writeEntry, fails_bind, fails_get, fails_ofExcept, fails_modify, succeeds_get,
    succeeds_ofExcept, succeeds_modify, false_or, or_false, exists_const, and_false,
    exists_false] at h
  obtain ⟨_, _, ⟨rfl, rfl⟩, ⟨hstart, -⟩ | ⟨zip, _, ⟨-, rfl⟩, _, rfl, hwrite, -⟩⟩ := h
  · unfold ZipWriter.startFile at hstart
    split_ifs at hstart
    · exact ⟨_, .inr (Except.error.inj hstart).symm⟩
    · split at hstart
      · exact ⟨_, .inr (Except.error.inj hstart).symm⟩
      · cases hstart
  · unfold ZipWriter.writeAll at hwrite
    split at hwrite
    · exact ⟨_, .inl (Except.error.inj hwrite).symm⟩
    · split at hwrite
      · exact ⟨_, .inl (Except.error.inj hwrite).symm⟩
      · cases hwrite

theorem fails_requirePhase {atMost next : Phase} (h : Fails (requirePhase atMost next) w e w') :
    atMost.rank < w.phase.rank ∧ w' = w := by
  simp only [requirePhase, fails_bind, fails_get, succeeds_get, false_or] at h
  obtain ⟨v, w₁, ⟨hv, hw⟩, h⟩ := h
  subst hv
  subst hw
  by_cases hrank : atMost.rank < w₁.phase.rank
  · rw [if_pos hrank, fails_bind] at h
    obtain h | ⟨_, _, h, -⟩ := h
    · exact ⟨hrank, (fails_throw.mp h).2⟩
    · exact absurd h succeeds_throw
  · simp [if_neg hrank] at h

/-- The records phase is closed by writing, or was closed. -/
theorem fails_closeRecords (h : Fails (closeRecords E K) w e w') : e.Storage := by
  simp only [closeRecords, fails_bind, fails_get, succeeds_get, false_or] at h
  obtain ⟨v, w₁, ⟨hv, hw⟩, h⟩ := h
  subst hv
  subst hw
  by_cases hphase : w₁.phase = .records
  · rw [if_pos hphase] at h
    simp only [finishRecords, fails_bind, fails_get, succeeds_get, fails_modify, false_or,
      and_false, exists_false, or_false] at h
    obtain ⟨_, _, -, h⟩ := h
    exact fails_writeEntry h
  · rw [if_neg hphase] at h
    exact absurd h fails_pure

/-- A method that closes the records phase cannot come too late after it has closed it. -/
theorem eq_of_late {atMost : Phase} (hclosed : Closed E K w w') (hphase : 1 ≤ atMost.rank)
    (hlate : atMost.rank < w'.phase.rank) : w' = w := by
  obtain ⟨-, -, hcheckpoints, -⟩ | ⟨-, heq⟩ := hclosed
  · rw [hcheckpoints] at hlate
    exact absurd hlate (Nat.not_lt_of_le hphase)
  · exact heq

theorem fails_addEntry {phase : Phase} {path : String} {bytes : Bytes} (hphase : 1 ≤ phase.rank)
    (h : Fails (addEntry E K phase path bytes) w e w') : e.Storage ∨ w' = w := by
  simp only [addEntry, fails_bind] at h
  obtain h | ⟨_, w₁, hclose, h | ⟨_, w₂, -, h⟩⟩ := h
  · exact .inl (fails_closeRecords h)
  · obtain ⟨hlate, rfl⟩ := fails_requirePhase h
    exact .inr (eq_of_late (succeeds_closeRecords hclose) hphase hlate)
  · exact .inl (fails_writeEntry h)

theorem fails_addIdentity {certsPem : String} {revocations : Option SignedRevocationList}
    {roots : RootsFile} (h : Fails (addIdentity E K certsPem revocations roots) w e w') :
    e.Storage ∨ w' = w := by
  unfold addIdentity at h
  simp only [fails_bind] at h
  obtain h | ⟨_, w₁, hclose, h | ⟨_, w₂, -, h | ⟨_, w₃, -, h⟩⟩⟩ := h
  · exact .inl (fails_closeRecords h)
  · obtain ⟨hlate, rfl⟩ := fails_requirePhase h
    exact .inr (eq_of_late (succeeds_closeRecords hclose) (by decide) hlate)
  · exact .inl (fails_writeEntry h)
  · cases revocations with
    | none => exact .inl (fails_writeEntry h)
    | some rev =>
      obtain h | ⟨_, w₄, -, h⟩ := fails_bind.mp h
      · exact .inl (fails_writeEntry h)
      · exact .inl (fails_writeEntry h)

/-- A vault entry that is refused for its name has gone to its phase. -/
theorem fails_addVaultEntry {name : String} {bytes : Bytes}
    (h : Fails (addVaultEntry E K name bytes) w e w') :
    e.Storage ∨ w' = w ∨ Call.Misnamed (.addVaultEntry name bytes) ∧ w' = { w with phase := .vault } := by
  simp only [addVaultEntry, fails_bind] at h
  obtain h | ⟨_, w₁, hphase, h⟩ := h
  · exact .inr (.inl (fails_requirePhase h).2)
  · obtain ⟨-, rfl⟩ := succeeds_requirePhase hphase
    by_cases hname : hasDots name.toList ∨ name.toList.head? = some '/'
    · rw [if_pos hname, fails_bind] at h
      obtain h | ⟨_, _, h, -⟩ := h
      · exact .inr (.inr ⟨hname, (fails_throw.mp h).2⟩)
      · exact absurd h succeeds_throw
    · rw [if_neg hname] at h
      exact .inl (fails_writeEntry h)

/-! ## Shards -/

variable {streamId : String} {new new' : List (String × Bytes)} {st st' : ShardState}
  {line : BResult Bytes} {lines : List (BResult Bytes)}

theorem Left.refl : Left E streamId [] w w := ⟨.refl, rfl, rfl, List.forall_mem_nil _⟩

theorem Left.trans (h : Left E streamId new w w') (h' : Left E streamId new' w' w'') :
    Left E streamId (new ++ new') w w'' where
  wrote := h.wrote.trans h'.wrote
  phase := h'.phase.trans h.phase
  index := h'.index.trans h.index
  named := List.forall_mem_append.mpr ⟨h.named, h'.named⟩

theorem fails_flushShard (h : Fails (flushShard E K streamId st) w e w') : e.Storage := by
  unfold flushShard at h
  by_cases hbuf : st.shardBuf = []
  · rw [if_pos hbuf] at h
    exact absurd h fails_pure
  · simp only [if_neg hbuf, fails_bind, fails_ofExcept, fails_pure, and_false, exists_false,
      or_false] at h
    obtain ⟨hencode, -⟩ | ⟨compressed, w₁, -, h⟩ := h
    · cases hz : K.zstdEncode st.shardBuf with
      | ok c =>
        rw [hz] at hencode
        cases hencode
      | error text =>
        rw [hz] at hencode
        exact ⟨text, .inl (Except.error.inj hencode).symm⟩
    · exact fails_writeEntry h

/-- A flush leaves a shard if the buffer held anything, and the buffer empty. -/
theorem left_of_flushShard (h : Succeeds (flushShard E K streamId st) w st' w') :
    st'.shardBuf = [] ∧ ∃ new, Left E streamId new w w' ∧ (new = [] ↔ st.shardBuf = []) := by
  by_cases hbuf : st.shardBuf = []
  · unfold flushShard at h
    rw [if_pos hbuf, succeeds_pure] at h
    obtain ⟨rfl, rfl⟩ := h
    exact ⟨hbuf, [], .refl, iff_of_true rfl hbuf⟩
  · obtain ⟨hempty, -⟩ | ⟨compressed, -, hwrote, hphase, hindex, rfl⟩ := succeeds_flushShard h
    · exact absurd hempty hbuf
    · exact ⟨rfl, _, ⟨hwrote, hphase, hindex, List.forall_mem_singleton.mpr ⟨_, rfl⟩⟩,
        iff_of_false (List.cons_ne_nil _ _) hbuf⟩

/-- A turn of the loop that fails by itself fails with the line. -/
theorem fails_recordLine (h : Fails (recordLine E K streamId st line) w e w') :
    e.Storage ∨ line = .error e ∧ w' = w := by
  simp only [recordLine, fails_bind, fails_ofExcept, succeeds_ofExcept, fails_get, succeeds_get,
    false_or] at h
  obtain h | ⟨bytes, _, ⟨rfl, rfl⟩, _, _, ⟨rfl, rfl⟩, h⟩ := h
  · exact .inr h
  · split_ifs at h
    · rw [fails_bind] at h
      obtain h | ⟨_, _, -, h⟩ := h
      · exact .inl (fails_flushShard h)
      · exact absurd h fails_pure
    · exact absurd h fails_pure

/-- A turn of the loop leaves a shard if it fills one. -/
theorem left_of_recordLine (h : Succeeds (recordLine E K streamId st line) w st' w') :
    ∃ bytes new, line = .ok bytes ∧ Left E streamId new w w' ∧
      if w.shardThreshold ≤ UInt64.ofNat (st.shardBuf ++ bytes).length then
        (new = [] ↔ st.shardBuf ++ bytes = []) ∧ st'.shardBuf = []
      else new = [] ∧ st'.shardBuf = st.shardBuf ++ bytes := by
  simp only [recordLine, succeeds_bind, succeeds_ofExcept, succeeds_get] at h
  obtain ⟨bytes, v, ⟨rfl, hv⟩, v₁, v₂, ⟨hv₁, hv₂⟩, h⟩ := h
  subst hv
  subst hv₂
  subst hv₁
  by_cases hfull : v₁.shardThreshold ≤ UInt64.ofNat (st.shardBuf ++ bytes).length
  · simp only [if_pos hfull, succeeds_bind, succeeds_pure] at h
    obtain ⟨st₁, w₁, hflush, rfl, rfl⟩ := h
    obtain ⟨hbuf, new, hleft, hnew⟩ := left_of_flushShard hflush
    refine ⟨bytes, new, rfl, hleft, ?_⟩
    rw [if_pos hfull]
    exact ⟨hnew, hbuf⟩
  · rw [if_neg hfull, succeeds_pure] at h
    obtain ⟨rfl, rfl⟩ := h
    refine ⟨bytes, [], rfl, .refl, ?_⟩
    rw [if_neg hfull]
    exact ⟨rfl, rfl⟩

/-- The loop of `add_stream_records` and the flush behind it. -/
def shardLoop (E : Externals) (K : Sink) (streamId : String) (lines : List (BResult Bytes))
    (st : ShardState) : WriterM ShardState := do
  let st ← lines.foldlM (recordLine E K streamId) st
  flushShard E K streamId st

theorem shardLoop_cons : shardLoop E K streamId (line :: lines) st =
    recordLine E K streamId st line >>= fun st => shardLoop E K streamId lines st := by
  simp only [shardLoop, List.foldlM_cons, bind_assoc]

/-- Where the loop and the flush end, by themselves or by a line that fails, they have left a shard
if one was filled. By induction on the lines, whatever is in the buffer. -/
theorem left_of_shardLoop
    (h : (∃ st', Succeeds (shardLoop E K streamId lines st) w st' w') ∨
      ∃ e, ¬e.Storage ∧ Fails (shardLoop E K streamId lines st) w e w') :
    ∃ new, Left E streamId new w w' ∧
      (new = [] ↔ leavesShard w.shardThreshold st.shardBuf lines = false) := by
  induction lines generalizing st w with
  | nil =>
    have hrun : shardLoop E K streamId [] st = flushShard E K streamId st := by
      simp [shardLoop]
    rw [hrun] at h
    obtain ⟨st', h⟩ | ⟨e, hstorage, h⟩ := h
    · obtain ⟨-, new, hleft, hnew⟩ := left_of_flushShard h
      refine ⟨new, hleft, hnew.trans ?_⟩
      simp [leavesShard]
    · exact absurd (fails_flushShard h) hstorage
  | cons line lines ih =>
    simp only [shardLoop_cons, succeeds_bind, fails_bind] at h
    have hrest : (∃ e, ¬e.Storage ∧ Fails (recordLine E K streamId st line) w e w') ∨
        ∃ st₁ w₁, Succeeds (recordLine E K streamId st line) w st₁ w₁ ∧
          ((∃ st', Succeeds (shardLoop E K streamId lines st₁) w₁ st' w') ∨
            ∃ e, ¬e.Storage ∧ Fails (shardLoop E K streamId lines st₁) w₁ e w') := by
      obtain ⟨st', st₁, w₁, hline, h⟩ | ⟨e, hstorage, h | ⟨st₁, w₁, hline, h⟩⟩ := h
      · exact .inr ⟨st₁, w₁, hline, .inl ⟨st', h⟩⟩
      · exact .inl ⟨e, hstorage, h⟩
      · exact .inr ⟨st₁, w₁, hline, .inr ⟨e, hstorage, h⟩⟩
    obtain ⟨e, hstorage, hline⟩ | ⟨st₁, w₁, hline, hends⟩ := hrest
    · obtain ⟨rfl, rfl⟩ := (fails_recordLine hline).resolve_left hstorage
      exact ⟨[], .refl, iff_of_true rfl rfl⟩
    · obtain ⟨bytes, new, rfl, hleft, hfull⟩ := left_of_recordLine hline
      obtain ⟨new', hleft', hnew'⟩ := ih hends
      refine ⟨new ++ new', hleft.trans hleft', ?_⟩
      rw [hleft.wrote.shardThreshold] at hnew'
      rw [List.append_eq_nil_iff, hnew', leavesShard]
      split_ifs at hfull ⊢ with hthreshold
      · rw [hfull.1, hfull.2]
        simp
      · rw [hfull.2]
        simp [hfull.1]

theorem fails_addStreamRecords (h : Fails (addStreamRecords E K streamId lines) w e w')
    (hstorage : ¬e.Storage) :
    (w.phase ≠ .records ∧ w' = w) ∨ (w.phase = .records ∧ ∃ new, Left E streamId new w w' ∧
      (new = [] ↔ leavesShard w.shardThreshold [] lines = false)) := by
  simp only [addStreamRecords, fails_bind] at h
  obtain h | ⟨_, w₁, hphase, h⟩ := h
  · obtain ⟨hlate, rfl⟩ := fails_requirePhase h
    refine .inl ⟨fun hrecords => ?_, rfl⟩
    rw [hrecords] at hlate
    exact absurd hlate (Nat.lt_irrefl _)
  · obtain ⟨hrank, rfl⟩ := succeeds_requirePhase hphase
    have hopen : w.phase = .records := by
      cases hp : w.phase <;> simp_all [Phase.rank]
    have hsame : { w with phase := .records } = w := by rw [← hopen]
    rw [hsame] at h
    refine .inr ⟨hopen, ?_⟩
    obtain h | ⟨st₁, w₂, hloop, h | ⟨st₂, w₃, hflush, h⟩⟩ := h
    · exact left_of_shardLoop (.inr ⟨e, hstorage, fails_bind.mpr (.inl h)⟩)
    · exact left_of_shardLoop (.inr ⟨e, hstorage, fails_bind.mpr (.inr ⟨st₁, w₂, hloop, h⟩)⟩)
    · have hstop : w' = w₃ := by
        by_cases hcount : st₂.count = 0
        · rw [if_pos hcount, fails_bind] at h
          obtain h | ⟨_, _, h, -⟩ := h
          · exact (fails_throw.mp h).2
          · exact absurd h succeeds_throw
        · simp only [if_neg hcount, fails_bind, fails_ofExcept, succeeds_ofExcept, fails_modify,
            fails_pure, and_false, exists_false, or_false] at h
          obtain ⟨-, rfl⟩ | ⟨_, _, ⟨-, rfl⟩, -, rfl⟩ := h
          · rfl
          · rfl
      rw [hstop]
      exact left_of_shardLoop (.inl ⟨st₂, succeeds_bind.mpr ⟨st₁, w₂, hloop, hflush⟩⟩)

end Failures

section Calls

variable {E : Externals} {K : Sink} {call : Call} {w w' : BundleWriter} {e : BundleError}

/-- Entries of shards that a call left behind: none exactly when it filled none. -/
def ShardsLeft (call : Call) (w w' : BundleWriter) : Prop :=
  ∃ left, w'.contents = w.contents ++ left ∧ (left = [] ↔ call.leavesShard w = false) ∧
    ∀ entry ∈ left, ∃ streamId lines n,
      call = .addStreamRecords streamId lines ∧ entry.path = shardPath streamId n

theorem shardsLeft_of_contents (hcall : call.leavesShard w = false)
    (h : w'.contents = w.contents) : ShardsLeft call w w' :=
  ⟨[], h.trans (List.append_nil _).symm, iff_of_true rfl hcall, List.forall_mem_nil _⟩

/-- **What a failed call leaves**, when nothing failed outside: the index is as it was; the phase is,
but for a vault entry with a name that is refused; and the contents are, unless the call is one that
fills shards of a stream before it fails, which are then all that is left. -/
theorem failed_call (h : Fails (call.perform E K) w e w') (hstorage : ¬e.Storage) :
    w'.index = w.index ∧ (¬call.Misnamed → w'.phase = w.phase) ∧ ShardsLeft call w w' := by
  have hkept : w' = w → call.leavesShard w = false →
      w'.index = w.index ∧ (¬call.Misnamed → w'.phase = w.phase) ∧ ShardsLeft call w w' := by
    rintro rfl hcall
    exact ⟨rfl, fun _ => rfl, shardsLeft_of_contents hcall rfl⟩
  cases call with
  | addStreamRecords streamId lines =>
    simp only [Call.perform, fails_bind, fails_pure, and_false, exists_false, or_false] at h
    obtain ⟨hphase, hsame⟩ | ⟨hphase, new, hleft, hnew⟩ := fails_addStreamRecords h hstorage
    · refine hkept hsame ?_
      rw [Call.leavesShard, decide_eq_false hphase, Bool.false_and]
    · refine ⟨hleft.index, fun _ => hleft.phase, _, hleft.wrote.contents, ?_, ?_⟩
      · rw [List.map_eq_nil_iff, hnew, Call.leavesShard, decide_eq_true hphase, Bool.true_and]
      · intro entry hentry
        obtain ⟨f, hf, rfl⟩ := List.mem_map.mp hentry
        obtain ⟨n, hn⟩ := hleft.named f hf
        exact ⟨streamId, lines, n, rfl, hn⟩
  | addStreamCheckpoints streamId checkpoints =>
    exact hkept ((fails_addEntry (by decide) h).resolve_left hstorage) rfl
  | addRfc3161Token batchId tokenDer =>
    exact hkept ((fails_addEntry (by decide) h).resolve_left hstorage) rfl
  | addQtsToken day tokenDer =>
    exact hkept ((fails_addEntry (by decide) h).resolve_left hstorage) rfl
  | addAnchorProofs proofs =>
    exact hkept ((fails_addEntry (by decide) h).resolve_left hstorage) rfl
  | addIdentity certsPem revocations roots =>
    exact hkept ((fails_addIdentity h).resolve_left hstorage) rfl
  | addVaultEntry name bytes =>
    obtain hsame | ⟨hname, rfl⟩ := (fails_addVaultEntry h).resolve_left hstorage
    · exact hkept hsame rfl
    · exact ⟨rfl, fun hnot => absurd hname hnot, shardsLeft_of_contents rfl rfl⟩

end Calls

namespace Sample

def orphan : Bytes := asBytes "\x7b\x7d\n"

/-- A line that is no record, in its shard. -/
def orphanRecording : Externals.Recording where
  blake3 := [(bytesOfHex "28b52ffd00581900007b7d0a",
    ofHex "425e4bd12266ddf319b30066c637273f05503b18327c95d314378805ea3466d7")]
  frames := [(bytesOfHex "28b52ffd00581900007b7d0a", orphan)]

def addOrphan : Call := .addStreamRecords "000000002D000000000000002D" [.ok orphan]

def addMisnamed : Call := .addVaultEntry "../blob" (asBytes "sealed")

/-- The call on a new writer. -/
def onWriter (call : Call) : Except BundleError Unit × BundleWriter :=
  (call.perform (.recorded orphanRecording) (.recorded orphanRecording)).exec writer

theorem fails_onWriter {call : Call} {e : BundleError} (h : (onWriter call).1 = .error e) :
    Fails (call.perform (.recorded orphanRecording) (.recorded orphanRecording)) writer e
      (onWriter call).2 :=
  Prod.ext h rfl

theorem orphan_refused : (onWriter addOrphan).1 =
    .error (.invalid "stream 000000002D000000000000002D: record line missing seq") := by
  decide

theorem misnamed_refused : (onWriter addMisnamed).1 =
    .error (.invalid "invalid vault entry name \"../blob\"") := by
  decide

theorem not_storage_invalid {text : String} : ¬(BundleError.invalid text).Storage := by
  rintro ⟨_, h | h⟩ <;> cases h

end Sample

open Bundle.Sample in
/-- The shard of a stream that is refused stays, and a vault entry that is refused ends the phases
before. -/
theorem failed_call_not_atomic :
    (∃ e w', Fails (addOrphan.perform (.recorded orphanRecording) (.recorded orphanRecording))
        writer e w' ∧ ¬e.Storage ∧ w'.contents ≠ writer.contents) ∧
      ∃ e w', Fails (addMisnamed.perform (.recorded orphanRecording) (.recorded orphanRecording))
        writer e w' ∧ ¬e.Storage ∧ w'.phase ≠ writer.phase := by
  refine ⟨⟨_, _, fails_onWriter orphan_refused, not_storage_invalid, ?_⟩,
    ⟨_, _, fails_onWriter misnamed_refused, not_storage_invalid, ?_⟩⟩
  · intro h
    exact absurd (congrArg List.length h) (by decide)
  · decide

open Bundle.Sample in
/-- The refused stream leaves its shard, and the index as it was. -/
theorem failed_call_sample :
    (onWriter addOrphan).2.index = writer.index ∧ (onWriter addOrphan).2.phase = writer.phase ∧
      ShardsLeft addOrphan writer (onWriter addOrphan).2 := by
  obtain ⟨hindex, hphase, hleft⟩ := failed_call (fails_onWriter orphan_refused) not_storage_invalid
  exact ⟨hindex, hphase not_false, hleft⟩

end Sealr.Bundle
