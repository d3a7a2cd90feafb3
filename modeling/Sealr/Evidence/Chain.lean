import Sealr.Evidence.Record

/-!
# The hash chain: writer and verifier

`ChainHead` appends typed records; `StreamVerifier` checks raw JSON records in file order and
collects findings. Both are state machines passed explicitly. What one record without findings
says is stated here, per kind of finding; whole runs are the subject of the modules that follow.
-/

namespace Sealr.Evidence

open Lib

def WALL_TOLERANCE_MS : Int := 2000

/-! ## Writer -/

structure ChainHead where
  streamId : Ulid
  headHash : String
  lastSeq : Option UInt64

namespace ChainHead

def genesis (E : Externals) (streamId : Ulid) : ChainHead :=
  ⟨streamId, genesisPrevHash E streamId, none⟩

def resume (streamId : Ulid) (headHash : String) (lastSeq : UInt64) : ChainHead :=
  ⟨streamId, headHash, some lastSeq⟩

def nextSeq (head : ChainHead) : UInt64 :=
  match head.lastSeq with
  | none => 0
  | some s => s + 1

/-- `append`, with what it leaves in the head and in the record. -/
def append (E : Externals) (head : ChainHead) (record : Record) :
    Result Unit × ChainHead × Record :=
  if record.streamId ≠ E.ulidToString head.streamId then
    (.error (.schema ("record stream_id " ++ record.streamId ++ " does not match chain stream " ++
      E.ulidToString head.streamId)), head, record)
  else
    let numbered := { record with seq := head.nextSeq, prevHash := head.headHash }
    match numbered.finalize E with
    | .error e => (.error e, head, numbered)
    | .ok final =>
      (.ok (), { head with headHash := final.recordHash, lastSeq := some final.seq }, final)

end ChainHead

/-! ## Verifier -/

/-- The fields of a raw record that the chain is about. -/
structure RecordView where
  recordId : String
  streamId : String
  segmentId : String
  seq : UInt64
  tsWall : String
  tsMonoNs : UInt64
  recordType : String
  prevHash : String
  recordHash : String
  deriving DecidableEq

namespace RecordView

def strField (E : Externals) (v : Json) (k : String) : Result String :=
  match (v.value.get k).bind Value.asStr with
  | some s => .ok s
  | none => .error (.schema ("record missing string field " ++ E.debugStr k))

def u64Field (E : Externals) (v : Json) (k : String) : Result UInt64 :=
  match (v.value.get k).bind Value.asU64 with
  | some n => .ok n
  | none => .error (.schema ("record missing u64 field " ++ E.debugStr k))

def fromValue (E : Externals) (v : Json) : Result RecordView :=
  match v.value.asObject with
  | none => .error (.schema "record must be a JSON object")
  | some _ => do
    let recordId ← strField E v "record_id"
    let streamId ← strField E v "stream_id"
    let segmentId ← strField E v "segment_id"
    let seq ← u64Field E v "seq"
    let tsWall ← strField E v "ts_wall"
    let tsMonoNs ← u64Field E v "ts_mono_ns"
    let recordType ← strField E v "record_type"
    let prevHash ← strField E v "prev_hash"
    let recordHash ← strField E v "record_hash"
    return { recordId, streamId, segmentId, seq, tsWall, tsMonoNs, recordType, prevHash,
             recordHash }

end RecordView

inductive ChainFinding where
  | recordHashMismatch (seq : UInt64) (expected computed : String)
  | linkBroken (seq : UInt64) (expected found : String)
  | seqGapInSegment (segmentId : String) (expected found : UInt64)
  | seqNotMonotonic (prev found : UInt64)
  | monoRegression (seq prevNs foundNs : UInt64)
  | wallRegression (seq : UInt64) (deltaMs : Int)
  | genesisViolation (found expected : String)
  | segmentBreak (segmentId : String) (seq : UInt64)
  | streamMismatch (seq : UInt64) (foundStream : String)
  | badWallTimestamp (seq : UInt64) (value : String)
  deriving DecidableEq

structure StreamVerifier where
  streamId : String
  genesis : String
  prev : Option RecordView
  prevWallMs : Option Int
  recordsVerified : Nat

namespace StreamVerifier

def new (E : Externals) (streamId : String) : Result StreamVerifier :=
  match E.ulidFromString streamId with
  | .ok ulid => .ok ⟨streamId, genesisPrevHash E ulid, none, none, 0⟩
  | .error e => .error (.schema ("invalid stream_id " ++ E.debugStr streamId ++ ": " ++ e))

/-- `is_segment_break`. -/
def isSegmentBreak (E : Externals) (view : RecordView) : Bool :=
  match E.ulidFromString view.streamId, E.ulidFromString view.segmentId with
  | .ok stream, .ok segment => view.prevHash = segmentBreakPrevHash E stream segment
  | _, _ => false

def streamFindings (sv : StreamVerifier) (view : RecordView) : List ChainFinding :=
  if view.streamId ≠ sv.streamId then [.streamMismatch view.seq view.streamId] else []

def hashFindings (view : RecordView) (computed : String) : List ChainFinding :=
  if computed ≠ view.recordHash then [.recordHashMismatch view.seq view.recordHash computed]
  else []

def genesisFindings (sv : StreamVerifier) (view : RecordView) : List ChainFinding :=
  if view.seq = 0 ∧ view.prevHash ≠ sv.genesis then [.genesisViolation view.prevHash sv.genesis]
  else []

def seqFindings (prev view : RecordView) : List ChainFinding :=
  if view.seq ≤ prev.seq then [.seqNotMonotonic prev.seq view.seq]
  else if prev.segmentId = view.segmentId ∧ view.seq ≠ prev.seq + 1 then
    [.seqGapInSegment view.segmentId (prev.seq + 1) view.seq]
  else []

def linkFindings (E : Externals) (prev view : RecordView) : List ChainFinding :=
  if view.prevHash ≠ prev.recordHash then
    -- a new segment may open with the break sentinel
    if prev.segmentId ≠ view.segmentId ∧ isSegmentBreak E view then
      [.segmentBreak view.segmentId view.seq]
    else [.linkBroken view.seq prev.recordHash view.prevHash]
  else []

def monoFindings (prev view : RecordView) : List ChainFinding :=
  if prev.segmentId = view.segmentId ∧ view.tsMonoNs < prev.tsMonoNs then
    [.monoRegression view.seq prev.tsMonoNs view.tsMonoNs]
  else []

def wallFindings (E : Externals) (prev : RecordView) (prevWallMs : Option Int)
    (view : RecordView) : List ChainFinding :=
  match parseWall E view.tsWall, prevWallMs with
  | .ok wall, some prevMs =>
    let delta := wall.timestampMillis - prevMs
    if delta < -WALL_TOLERANCE_MS ∧ view.recordType ≠ "clock_anomaly" ∧
        prev.recordType ≠ "clock_anomaly" then
      [.wallRegression view.seq delta]
    else []
  | .error _, _ => [.badWallTimestamp view.seq view.tsWall]
  | _, _ => []

/-- The findings about a record's place in the stream. -/
def placeFindings (E : Externals) (sv : StreamVerifier) (view : RecordView) :
    List ChainFinding :=
  match sv.prev with
  | none => genesisFindings sv view
  | some prev =>
    seqFindings prev view ++ linkFindings E prev view ++ monoFindings prev view ++
      wallFindings E prev sv.prevWallMs view

/-- The verifier after a record. -/
def advance (E : Externals) (sv : StreamVerifier) (view : RecordView) : StreamVerifier :=
  { sv with
    prev := some view
    prevWallMs :=
      match parseWall E view.tsWall with
      | .ok wall => some wall.timestampMillis
      | .error _ => sv.prevWallMs
    recordsVerified := sv.recordsVerified + 1 }

/-- `verify_next`. -/
def verifyNext (E : Externals) (sv : StreamVerifier) (raw : Json) :
    Result (List ChainFinding × StreamVerifier) := do
  let view ← RecordView.fromValue E raw
  let computed ← computeHashOfValue E raw
  return (streamFindings sv view ++ hashFindings view computed ++ placeFindings E sv view,
    advance E sv view)

/-- Feed raw records in order, collecting the findings. -/
def feed (E : Externals) (sv : StreamVerifier) :
    List Json → Result (List ChainFinding × StreamVerifier)
  | [] => .ok ([], sv)
  | raw :: raws => do
    let (found, sv') ← verifyNext E sv raw
    let (rest, last) ← feed E sv' raws
    return (found ++ rest, last)

end StreamVerifier

/-! ## One record -/

namespace RecordView

/-- The view is what the raw record holds under the nine keys. -/
structure Of (view : RecordView) (v : Json) : Prop where
  recordId : (v.value.get "record_id").bind Value.asStr = some view.recordId
  streamId : (v.value.get "stream_id").bind Value.asStr = some view.streamId
  segmentId : (v.value.get "segment_id").bind Value.asStr = some view.segmentId
  seq : (v.value.get "seq").bind Value.asU64 = some view.seq
  tsWall : (v.value.get "ts_wall").bind Value.asStr = some view.tsWall
  tsMonoNs : (v.value.get "ts_mono_ns").bind Value.asU64 = some view.tsMonoNs
  recordType : (v.value.get "record_type").bind Value.asStr = some view.recordType
  prevHash : (v.value.get "prev_hash").bind Value.asStr = some view.prevHash
  recordHash : (v.value.get "record_hash").bind Value.asStr = some view.recordHash

theorem strField_eq_ok {E : Externals} {v : Json} {k s : String} :
    strField E v k = .ok s ↔ (v.value.get k).bind Value.asStr = some s := by
  unfold strField
  cases (v.value.get k).bind Value.asStr <;> simp

theorem u64Field_eq_ok {E : Externals} {v : Json} {k : String} {n : UInt64} :
    u64Field E v k = .ok n ↔ (v.value.get k).bind Value.asU64 = some n := by
  unfold u64Field
  cases (v.value.get k).bind Value.asU64 <;> simp

theorem fromValue_eq_ok {E : Externals} {v : Json} {view : RecordView} :
    fromValue E v = .ok view ↔ view.Of v := by
  constructor
  · intro h
    unfold fromValue at h
    split at h
    · cases h
    · simp only [bind_eq_ok, strField_eq_ok, u64Field_eq_ok] at h
      obtain ⟨_, h1, _, h2, _, h3, _, h4, _, h5, _, h6, _, h7, _, h8, _, h9, heq⟩ := h
      obtain rfl := Except.ok.inj heq
      exact ⟨h1, h2, h3, h4, h5, h6, h7, h8, h9⟩
  · intro h
    obtain ⟨members, hobj⟩ : ∃ members, v.value.asObject = some members := by
      have hseq := h.seq
      cases hv : v.value with
      | object members => exact ⟨members, rfl⟩
      | _ => simp [hv, Value.get] at hseq
    simp only [fromValue, hobj, bind_eq_ok, strField_eq_ok, u64Field_eq_ok]
    exact ⟨_, h.recordId, _, h.streamId, _, h.segmentId, _, h.seq, _, h.tsWall, _, h.tsMonoNs, _,
      h.recordType, _, h.prevHash, _, h.recordHash, rfl⟩

/-- A record read back in canonical form has the same view. -/
theorem Of.canon {view : RecordView} {v w : Json} (h : view.Of v)
    (hc : Rfc8785.canon v.value = some w.value) : view.Of w := by
  have hstr : ∀ {k s}, (v.value.get k).bind Value.asStr = some s →
      (w.value.get k).bind Value.asStr = some s := by
    intro k s hs
    obtain ⟨x, hx, hxs⟩ := Option.bind_eq_some_iff.mp hs
    obtain ⟨y, hy, hxy⟩ := Rfc8785.get_canon v.wf hc hx
    rw [hy, Option.bind_some]
    exact Rfc8785.asStr_canon hxy hxs
  have hu64 : ∀ {k n}, (v.value.get k).bind Value.asU64 = some n →
      (w.value.get k).bind Value.asU64 = some n := by
    intro k n hn
    obtain ⟨x, hx, hxn⟩ := Option.bind_eq_some_iff.mp hn
    obtain ⟨y, hy, hxy⟩ := Rfc8785.get_canon v.wf hc hx
    rw [hy, Option.bind_some]
    exact Rfc8785.asU64_canon hxy hxn
  exact ⟨hstr h.recordId, hstr h.streamId, hstr h.segmentId, hu64 h.seq, hstr h.tsWall,
    hu64 h.tsMonoNs, hstr h.recordType, hstr h.prevHash, hstr h.recordHash⟩

theorem Of.get_recordHash {view : RecordView} {v : Json} (h : view.Of v) :
    v.value.get "record_hash" = some (.string view.recordHash) := by
  obtain ⟨x, hx, hs⟩ := Option.bind_eq_some_iff.mp h.recordHash
  cases x <;> simp_all [Value.asStr]

end RecordView

namespace StreamVerifier

variable {E : Externals} {sv sv' : StreamVerifier} {view prev : RecordView} {raw : Json}

theorem verifyNext_eq_ok {fs : List ChainFinding} :
    verifyNext E sv raw = .ok (fs, sv') ↔ ∃ view computed, view.Of raw ∧
      computeHashOfValue E raw = .ok computed ∧
      fs = streamFindings sv view ++ hashFindings view computed ++ placeFindings E sv view ∧
      sv' = advance E sv view := by
  simp only [verifyNext, bind_eq_ok, RecordView.fromValue_eq_ok]
  constructor
  · rintro ⟨view, hview, computed, hc, heq⟩
    obtain ⟨rfl, rfl⟩ := Prod.mk.inj (Except.ok.inj heq)
    exact ⟨view, computed, hview, hc, rfl, rfl⟩
  · rintro ⟨view, computed, hview, hc, rfl, rfl⟩
    exact ⟨view, hview, computed, hc, rfl⟩

theorem streamFindings_eq_nil : streamFindings sv view = [] ↔ view.streamId = sv.streamId := by
  unfold streamFindings
  split_ifs with h <;> simp_all

theorem hashFindings_eq_nil {computed : String} :
    hashFindings view computed = [] ↔ computed = view.recordHash := by
  unfold hashFindings
  split_ifs with h <;> simp_all

theorem genesisFindings_eq_nil :
    genesisFindings sv view = [] ↔ (view.seq = 0 → view.prevHash = sv.genesis) := by
  unfold genesisFindings
  split_ifs with h <;> simp_all

/-- Numbers grow, by one inside a segment. -/
theorem seqFindings_eq_nil : seqFindings prev view = [] ↔
    prev.seq < view.seq ∧ (prev.segmentId = view.segmentId → view.seq = prev.seq + 1) := by
  unfold seqFindings
  split_ifs with hle hgap
  · simp only [false_iff, not_and]
    exact fun hlt => absurd hle (UInt64.not_le.mpr hlt)
  · simp only [false_iff, not_and]
    exact fun _ h => hgap.2 (h hgap.1)
  · simp only [true_iff]
    exact ⟨UInt64.not_le.mp hle, fun h => by_contra fun hne => hgap ⟨h, hne⟩⟩

theorem linkFindings_eq_nil : linkFindings E prev view = [] ↔ view.prevHash = prev.recordHash := by
  unfold linkFindings
  split_ifs with h <;> simp_all

/-- A record without findings behind another. -/
theorem placeFindings_some (h : sv.prev = some prev) (hnil : placeFindings E sv view = []) :
    prev.seq < view.seq ∧ (prev.segmentId = view.segmentId → view.seq = prev.seq + 1) ∧
      view.prevHash = prev.recordHash := by
  simp only [placeFindings, h, List.append_eq_nil_iff, seqFindings_eq_nil,
    linkFindings_eq_nil] at hnil
  exact ⟨hnil.1.1.1.1, hnil.1.1.1.2, hnil.1.1.2⟩

theorem feed_cons {raws : List Json} {fs : List ChainFinding} {last : StreamVerifier} :
    feed E sv (raw :: raws) = .ok (fs, last) ↔ ∃ found rest mid,
      verifyNext E sv raw = .ok (found, mid) ∧ feed E mid raws = .ok (rest, last) ∧
        fs = found ++ rest := by
  simp only [feed, bind_eq_ok]
  constructor
  · rintro ⟨⟨found, mid⟩, h1, ⟨rest, fin⟩, h2, heq⟩
    obtain ⟨rfl, rfl⟩ := Prod.mk.inj (Except.ok.inj heq)
    exact ⟨found, rest, mid, h1, h2, rfl⟩
  · rintro ⟨found, rest, mid, h1, h2, rfl⟩
    exact ⟨(found, mid), h1, (rest, last), h2, rfl⟩

/-- Feeding one record more. -/
theorem feed_concat {raws : List Json} {fs : List ChainFinding} {last : StreamVerifier} :
    feed E sv (raws ++ [raw]) = .ok (fs, last) ↔ ∃ found rest mid,
      feed E sv raws = .ok (found, mid) ∧ verifyNext E mid raw = .ok (rest, last) ∧
        fs = found ++ rest := by
  induction raws generalizing sv fs with
  | nil =>
    rw [List.nil_append, feed_cons]
    constructor
    · rintro ⟨found, rest, mid, h1, h2, rfl⟩
      obtain ⟨rfl, rfl⟩ := Prod.mk.inj (Except.ok.inj h2)
      exact ⟨[], found, sv, rfl, h1, by simp⟩
    · rintro ⟨found, rest, mid, h1, h2, rfl⟩
      obtain ⟨rfl, rfl⟩ := Prod.mk.inj (Except.ok.inj h1)
      exact ⟨rest, [], last, h2, rfl, by simp⟩
  | cons r raws ih =>
    rw [List.cons_append, feed_cons]
    constructor
    · rintro ⟨found, rest, mid, h1, h2, rfl⟩
      obtain ⟨found', rest', mid', h3, h4, rfl⟩ := ih.mp h2
      exact ⟨found ++ found', rest', mid', feed_cons.mpr ⟨_, _, _, h1, h3, rfl⟩, h4, by simp⟩
    · rintro ⟨found, rest, mid, h1, h2, rfl⟩
      obtain ⟨found', rest', mid', h3, h4, rfl⟩ := feed_cons.mp h1
      exact ⟨found', rest' ++ rest, mid', h3, ih.mpr ⟨_, _, _, h4, h2, rfl⟩, by simp⟩

end StreamVerifier

end Sealr.Evidence
