import Mathlib.Data.Finset.Card
import Mathlib.Data.UInt
import Std.Data.TreeMap.Lemmas
import Sealr.Lib.Log
import Sealr.Evidence.Determined
import Sealr.Verify.Report

/-!
# Chain verification of one stream

`verify_stream_chain`: every record line is parsed, fed to the chain verifier, and collected. The
callback's captured variables are the state `ChainState`.
-/

namespace Sealr.Verify

open Lib Evidence Bundle

structure StreamData where
  hashesBySeq : Std.TreeMap UInt64 String
  tsMin : Option String
  tsMax : Option String
  coverageGapCount : Nat
  segmentsWithoutEnd : List String
  checkpoints : List BundleCheckpoint
  attestedSeqs : Finset UInt64
  anchoredSeqs : Finset UInt64
  checkpointDigests : Std.TreeMap String Digest
  validCheckpointRanges : Std.TreeMap String (UInt64 × UInt64)
  checkpointNoteHashes : Finset String
  checkpointLinks : List (String × String)
  countersignedCheckpoints : Finset String
  countersignedHighWater : Option UInt64
  topCheckpoint : Option (String × UInt64)

def StreamData.default : StreamData where
  hashesBySeq := {}
  tsMin := none
  tsMax := none
  coverageGapCount := 0
  segmentsWithoutEnd := []
  checkpoints := []
  attestedSeqs := ∅
  anchoredSeqs := ∅
  checkpointDigests := {}
  validCheckpointRanges := {}
  checkpointNoteHashes := ∅
  checkpointLinks := []
  countersignedCheckpoints := ∅
  countersignedHighWater := none
  topCheckpoint := none

/-- `classify_chain_finding`. -/
def classifyChainFinding (E : Externals) : ChainFinding → FindingClass × String
  | .recordHashMismatch seq expected computed =>
    (.recordHashMismatch, "record " ++ toString seq.toNat ++ ": stored hash " ++ expected ++
      " but computed " ++ computed)
  | .linkBroken seq expected found =>
    (.chainLinkBroken, "record " ++ toString seq.toNat ++ ": prev_hash " ++ found ++
      " does not match previous record " ++ expected)
  | .seqGapInSegment segmentId expected found =>
    (.seqGap, "segment " ++ segmentId ++ ": expected seq " ++ toString expected.toNat ++
      ", found " ++ toString found.toNat)
  | .seqNotMonotonic prev found =>
    (.seqNotMonotonic, "seq " ++ toString found.toNat ++ " after " ++ toString prev.toNat)
  | .monoRegression seq prevNs foundNs =>
    (.monotonicRegression, "record " ++ toString seq.toNat ++ ": monotonic clock went " ++
      toString prevNs.toNat ++ " -> " ++ toString foundNs.toNat)
  | .wallRegression seq deltaMs =>
    (.wallClockRegression, "record " ++ toString seq.toNat ++ ": wall clock regressed " ++
      toString deltaMs ++ " ms without clock_anomaly")
  | .genesisViolation found expected =>
    (.genesisViolation, "first record prev_hash " ++ found ++ ", expected genesis " ++ expected)
  | .segmentBreak segmentId seq =>
    (.segmentBreak, "segment " ++ segmentId ++ " opened at seq " ++ toString seq.toNat ++
      " with an unrecoverable-head sentinel")
  | .streamMismatch seq foundStream =>
    (.streamMismatch, "record " ++ toString seq.toNat ++ " belongs to stream " ++ foundStream)
  | .badWallTimestamp seq value =>
    (.badWallTimestamp, "record " ++ toString seq.toNat ++ ": unparseable ts_wall " ++
      E.debugStr value)

/-- Only a segment break is less than an error. -/
def chainSeverity : ChainFinding → Severity
  | .segmentBreak .. => .warning
  | _ => .error

def reportChainFinding (E : Externals) (streamId : String) (seq : Option UInt64)
    (f : ChainFinding) : Finding :=
  addAt (chainSeverity f) (classifyChainFinding E f).1 (classifyChainFinding E f).2 streamId seq

/-- What the callback of `read_stream_records` captures. -/
structure ChainState where
  verifier : StreamVerifier
  data : StreamData
  segmentsSeen : List String
  segmentsEnded : Finset String

/-- The string under a key of a raw record. -/
def strAt (value : Json) (key : String) : Option String := (value.value.get key).bind Value.asStr

def collectHash (value : Json) (data : StreamData) : StreamData :=
  match seqOf value, recordHashOf value with
  | some seq, some hash => { data with hashesBySeq := data.hashesBySeq.insert seq hash }
  | _, _ => data

def collectTs (value : Json) (data : StreamData) : StreamData :=
  match strAt value "ts_wall" with
  | none => data
  | some ts =>
    { data with
      tsMin := match data.tsMin with
        | none => some ts
        | some m => if ts < m then some ts else some m
      tsMax := match data.tsMax with
        | none => some ts
        | some m => if m < ts then some ts else some m }

def recordTypeOf (value : Json) : String := (strAt value "record_type").getD ""

def collectGap (value : Json) (data : StreamData) : StreamData :=
  if recordTypeOf value = "coverage_gap" then
    { data with coverageGapCount := data.coverageGapCount + 1 }
  else data

/-- `value.pointer("/action/operation")`. -/
def operationOf (value : Json) : String :=
  (((value.value.get "action").bind fun a => a.get "operation").bind Value.asStr).getD ""

def collectSegment (value : Json) (st : ChainState) : ChainState :=
  match strAt value "segment_id" with
  | none => st
  | some seg =>
    { st with
      segmentsSeen :=
        if st.segmentsSeen.getLast? = some seg then st.segmentsSeen else st.segmentsSeen ++ [seg]
      segmentsEnded :=
        if recordTypeOf value = "lifecycle" ∧ operationOf value = "segment_end" then
          insert seg st.segmentsEnded
        else st.segmentsEnded }

/-- The callback after a record was accepted by the verifier. -/
def collect (value : Json) (st : ChainState) : ChainState :=
  collectSegment value
    { st with data := collectGap value (collectTs value (collectHash value st.data)) }

/-- The callback on one line. -/
def onLine (E : Externals) (streamId : String) (st : ChainState) (line : Bytes) :
    ChainState × List Finding :=
  match E.fromSlice line with
  | .error e => (st, [addAt .error .recordParseError e streamId none])
  | .ok value =>
    match st.verifier.verifyNext E value with
    | .error e => (st, [addAt .error .recordInvalid (e.display E) streamId (seqOf value)])
    | .ok (findings, verifier) =>
      (collect value { st with verifier },
        findings.map (reportChainFinding E streamId (seqOf value)))

/-- The state before the first line. -/
def chainStart (verifier : StreamVerifier) : ChainState := ⟨verifier, .default, [], ∅⟩

/-- `verify_stream_chain`. -/
def verifyStreamChain (E : Externals) (S : Serde) (reader : BundleReader) (streamId : String) :
    StreamData × List Finding :=
  match StreamVerifier.new E streamId with
  | .error e => (.default, [addAt .error .streamIdInvalid (e.display E) streamId none])
  | .ok verifier =>
    let (lines, result) := reader.readStreamRecords E S streamId
    let (st, findings) := foldLog (onLine E streamId) (chainStart verifier) lines
    let failed := match result with
      | none => []
      | some e => [addAt .error .streamReadError (e.display E) streamId none]
    ({ st.data with
        segmentsWithoutEnd := st.segmentsSeen.filter fun s => s ∉ st.segmentsEnded },
      findings ++ failed)

/-! ## One line -/

section Line

variable {E : Externals} {streamId : String} {st : ChainState} {line : Bytes} {value : Json}

theorem severity_reportChainFinding (seq : Option UInt64) (f : ChainFinding) :
    (reportChainFinding E streamId seq f).severity = chainSeverity f := rfl

/-- A chain finding is an error unless it is a segment break. -/
theorem chainSeverity_ne_error {f : ChainFinding} :
    chainSeverity f ≠ .error ↔ ∃ seg seq, f = .segmentBreak seg seq := by
  cases f <;> simp [chainSeverity]

/-- A line without errors: it parses, its record stores its own hash and belongs to the stream,
and it follows the record before it; the link may only fail with a warning. -/
theorem onLine_quiet (h : ∀ f ∈ (onLine E streamId st line).2, f.severity ≠ .error) :
    ∃ value view, E.fromSlice line = .ok value ∧ RecordView.Of view value ∧
      SelfHashed E value ∧ view.streamId = st.verifier.streamId ∧
      (∀ prev, st.verifier.prev = some prev → prev.seq < view.seq ∧
        (prev.segmentId = view.segmentId → view.seq = prev.seq + 1) ∧
        (view.prevHash = prev.recordHash ∨
          ∃ f ∈ (onLine E streamId st line).2, f.severity = .warning)) ∧
      (onLine E streamId st line).1 =
        collect value { st with verifier := st.verifier.advance E view } := by
  unfold onLine at h ⊢
  cases hparse : E.fromSlice line with
  | error e => simp [hparse, addAt] at h
  | ok value =>
    cases hnext : st.verifier.verifyNext E value with
    | error e => simp [hparse, hnext, addAt] at h
    | ok r =>
      obtain ⟨findings, verifier⟩ := r
      simp only [hparse, hnext, List.mem_map, forall_exists_index, and_imp,
        forall_apply_eq_imp_iff₂, severity_reportChainFinding, chainSeverity_ne_error] at h ⊢
      obtain ⟨view, computed, hview, hcomp, rfl, rfl⟩ := StreamVerifier.verifyNext_eq_ok.mp hnext
      -- only a segment break may be among the findings
      have hstream : StreamVerifier.streamFindings st.verifier view = [] := by
        by_contra hne
        obtain ⟨f, hf⟩ := List.exists_mem_of_ne_nil _ hne
        obtain ⟨seg, seq, rfl⟩ := h f (by simp [hf])
        simp [StreamVerifier.streamFindings] at hf
      have hhash : StreamVerifier.hashFindings view computed = [] := by
        by_contra hne
        obtain ⟨f, hf⟩ := List.exists_mem_of_ne_nil _ hne
        obtain ⟨seg, seq, rfl⟩ := h f (by simp [hf])
        simp [StreamVerifier.hashFindings] at hf
      obtain rfl := StreamVerifier.hashFindings_eq_nil.mp hhash
      refine ⟨value, view, rfl, hview, selfHashed_of_view hview hcomp,
        StreamVerifier.streamFindings_eq_nil.mp hstream, fun prev hprev => ?_, rfl⟩
      have hplace : ∀ f, f ∈ StreamVerifier.seqFindings prev view ∨
          f ∈ StreamVerifier.linkFindings E prev view →
          f ∈ StreamVerifier.placeFindings E st.verifier view := by
        intro f hf
        simp only [StreamVerifier.placeFindings, hprev, List.mem_append]
        tauto
      have hseq : StreamVerifier.seqFindings prev view = [] := by
        by_contra hne
        obtain ⟨f, hf⟩ := List.exists_mem_of_ne_nil _ hne
        obtain ⟨seg, seq, rfl⟩ := h f (List.mem_append_right _ (hplace f (.inl hf)))
        simp only [StreamVerifier.seqFindings] at hf
        split_ifs at hf <;> simp at hf
      obtain ⟨hlt, hsucc⟩ := StreamVerifier.seqFindings_eq_nil.mp hseq
      refine ⟨hlt, hsucc, ?_⟩
      by_cases hlink : StreamVerifier.linkFindings E prev view = []
      · exact .inl (StreamVerifier.linkFindings_eq_nil.mp hlink)
      · right
        obtain ⟨f, hf⟩ := List.exists_mem_of_ne_nil _ hlink
        have hmem := List.mem_append_right
          (StreamVerifier.streamFindings st.verifier view ++
            StreamVerifier.hashFindings view view.recordHash) (hplace f (.inr hf))
        obtain ⟨seg, seq, rfl⟩ := h f hmem
        exact ⟨_, ⟨_, hmem, rfl⟩, rfl⟩

end Line

/-! ## A stream -/

/-- The values of the lines that parse. -/
def recordValues (E : Externals) (lines : List Bytes) : List Json :=
  lines.filterMap fun line => (E.fromSlice line).toOption

theorem length_recordValues {E : Externals} {lines : List Bytes}
    (h : ∀ line ∈ lines, ∃ v, E.fromSlice line = .ok v) :
    (recordValues E lines).length = lines.length := by
  induction lines with
  | nil => rfl
  | cons line lines ih =>
    obtain ⟨v, hv⟩ := h line List.mem_cons_self
    have hrest := ih fun l hl => h l (List.mem_cons_of_mem _ hl)
    simpa [recordValues, hv, Except.toOption] using hrest

/-- Records of one stream that store their own hashes and are numbered upwards, by one inside a
segment. -/
structure Numbered (E : Externals) (streamId : String) (values : List Json) : Prop where
  viewed : ∀ v ∈ values, ∃ view : RecordView, view.Of v
  hashed : ∀ v ∈ values, SelfHashed E v
  stream : ∀ v ∈ values, strAt v "stream_id" = some streamId
  increasing : values.Pairwise fun a b =>
    ∀ s t, seqOf a = some s → seqOf b = some t → s < t
  consecutive : ∀ a b, [a, b] <:+: values → strAt a "segment_id" = strAt b "segment_id" →
    ∀ s t, seqOf a = some s → seqOf b = some t → t = s + 1

/-- Every record names the hash of the record before it. -/
def Linked (values : List Json) : Prop :=
  ∀ a b, [a, b] <:+: values → prevHashOf b = recordHashOf a

/-- The map holds the hashes of the records, each under its number. -/
structure HoldsHashes (hashes : Std.TreeMap UInt64 String) (values : List Json) : Prop where
  get : ∀ s h, hashes[s]? = some h ↔ ∃ v ∈ values, seqOf v = some s ∧ recordHashOf v = some h
  size : hashes.size = values.length

/-- Stream data before any checkpoint was looked at. -/
structure Unchecked (data : StreamData) : Prop where
  checkpoints : data.checkpoints = []
  attestedSeqs : data.attestedSeqs = ∅
  anchoredSeqs : data.anchoredSeqs = ∅
  checkpointDigests : data.checkpointDigests = {}
  validCheckpointRanges : data.validCheckpointRanges = {}
  checkpointNoteHashes : data.checkpointNoteHashes = ∅
  checkpointLinks : data.checkpointLinks = []
  countersignedCheckpoints : data.countersignedCheckpoints = ∅
  countersignedHighWater : data.countersignedHighWater = none

/-- The verifier has seen the last of the records. -/
def LastSeen (verifier : StreamVerifier) (values : List Json) : Prop :=
  ∀ v, values.getLast? = some v → ∃ view : RecordView, verifier.prev = some view ∧ view.Of v

section Stream

variable {E : Externals} {S : Serde} {reader : BundleReader} {streamId : String}
  {values : List Json} {v : Json} {view : RecordView} {hashes : Std.TreeMap UInt64 String}

theorem collect_unchecked {st : ChainState} (h : Unchecked st.data) :
    Unchecked (collect v st).data := by
  have hgap : ∀ data, Unchecked data → Unchecked (collectGap v data) := by
    intro data hd
    unfold collectGap
    split_ifs
    · exact ⟨hd.1, hd.2, hd.3, hd.4, hd.5, hd.6, hd.7, hd.8, hd.9⟩
    · exact hd
  have hts : ∀ data, Unchecked data → Unchecked (collectTs v data) := by
    intro data hd
    unfold collectTs
    split
    · exact hd
    · exact ⟨hd.1, hd.2, hd.3, hd.4, hd.5, hd.6, hd.7, hd.8, hd.9⟩
  have hhash : Unchecked (collectHash v st.data) := by
    unfold collectHash
    split
    · exact ⟨h.1, h.2, h.3, h.4, h.5, h.6, h.7, h.8, h.9⟩
    · exact h
  unfold collect collectSegment
  split <;> exact hgap _ (hts _ hhash)

theorem collect_verifier (st : ChainState) : (collect v st).verifier = st.verifier := by
  unfold collect collectSegment
  split <;> rfl

/-- A record with a view is collected under its number. -/
theorem collect_hashes (hv : view.Of v) (st : ChainState) :
    (collect v st).data.hashesBySeq = st.data.hashesBySeq.insert view.seq view.recordHash := by
  have hseq : seqOf v = some view.seq := hv.seq
  have hhash : recordHashOf v = some view.recordHash := hv.recordHash
  have hts : ∀ data, (collectGap v (collectTs v data)).hashesBySeq = data.hashesBySeq := by
    intro data
    unfold collectGap collectTs
    split_ifs <;> split <;> rfl
  have hcollect : (collectHash v st.data).hashesBySeq =
      st.data.hashesBySeq.insert view.seq view.recordHash := by
    simp only [collectHash, hseq, hhash]
  unfold collect collectSegment
  split <;> exact (hts _).trans hcollect

/-- A number above the last one is above all of them. -/
theorem Numbered.lt_of_last (h : Numbered E streamId values) {last w : Json} {p : RecordView}
    {s : UInt64} (hlast : values.getLast? = some last) (hp : p.Of last) (hlt : p.seq < s)
    (hw : w ∈ values) {t : UInt64} (ht : seqOf w = some t) : t < s := by
  obtain ⟨init, rfl⟩ := List.getLast?_eq_some_iff.mp hlast
  rcases List.mem_append.mp hw with hw | hw
  · have hpw := (List.pairwise_append.mp h.increasing).2.2 w hw last (by simp) t p.seq ht hp.seq
    exact UInt64.lt_trans hpw hlt
  · obtain rfl : w = last := by simpa using hw
    obtain rfl : t = p.seq := Option.some.inj (ht.symm.trans hp.seq)
    exact hlt

/-- A number is that of one record only. -/
theorem Numbered.unique (h : Numbered E streamId values) {a b : Json} {s : UInt64}
    (ha : a ∈ values) (hb : b ∈ values) (has : seqOf a = some s) (hbs : seqOf b = some s) :
    a = b := by
  obtain ⟨i, hi, rfl⟩ := List.getElem_of_mem ha
  obtain ⟨j, hj, rfl⟩ := List.getElem_of_mem hb
  have hlt := List.pairwise_iff_getElem.mp h.increasing
  rcases Nat.lt_trichotomy i j with hij | rfl | hji
  · exact absurd (hlt i j hi hj hij s s has hbs) (UInt64.lt_irrefl s)
  · rfl
  · exact absurd (hlt j i hj hi hji s s hbs has) (UInt64.lt_irrefl s)

/-- One record more, numbered behind the last one. -/
theorem Numbered.snoc (h : Numbered E streamId values) (hv : view.Of v) (hself : SelfHashed E v)
    (hstream : view.streamId = streamId)
    (hplace : ∀ last, values.getLast? = some last → ∃ p : RecordView, p.Of last ∧
      p.seq < view.seq ∧ (p.segmentId = view.segmentId → view.seq = p.seq + 1)) :
    Numbered E streamId (values ++ [v]) := by
  have hall : ∀ {Q : Json → Prop}, (∀ w ∈ values, Q w) → Q v → ∀ w ∈ values ++ [v], Q w := by
    intro Q hQ hQv w hw
    rcases List.mem_append.mp hw with hw | hw
    · exact hQ w hw
    · rwa [List.mem_singleton.mp hw]
  refine ⟨hall h.viewed ⟨view, hv⟩, hall h.hashed hself, hall h.stream ?_, ?_, ?_⟩
  · rw [← hstream]
    exact hv.streamId
  · refine List.pairwise_append.mpr ⟨h.increasing, List.pairwise_singleton _ _, ?_⟩
    intro w hw x hx s t hs ht
    rw [List.mem_singleton.mp hx] at ht
    obtain rfl : t = view.seq := Option.some.inj (ht.symm.trans hv.seq)
    cases hlast : values.getLast? with
    | none => simp [List.getLast?_eq_none_iff.mp hlast] at hw
    | some last =>
      obtain ⟨p, hp, hlt, -⟩ := hplace last hlast
      exact h.lt_of_last hlast hp hlt hw hs
  · intro a b hab hseg s t hs ht
    rcases pair_infix_concat.mp hab with hab | ⟨hlast, rfl⟩
    · exact h.consecutive a b hab hseg s t hs ht
    · obtain ⟨p, hp, -, hsucc⟩ := hplace a hlast
      obtain rfl : s = p.seq := Option.some.inj (hs.symm.trans hp.seq)
      obtain rfl : t = view.seq := Option.some.inj (ht.symm.trans hv.seq)
      exact hsucc (Option.some.inj (hp.segmentId.symm.trans (hseg.trans hv.segmentId)))

theorem Linked.snoc (h : Linked values)
    (hlink : ∀ last, values.getLast? = some last → prevHashOf v = recordHashOf last) :
    Linked (values ++ [v]) := by
  intro a b hab
  rcases pair_infix_concat.mp hab with hab | ⟨hlast, rfl⟩
  · exact h a b hab
  · exact hlink a hlast

/-- A hash under a number above all others. -/
theorem HoldsHashes.insert (h : HoldsHashes hashes values) (hv : view.Of v)
    (hnew : ∀ w ∈ values, ∀ t, seqOf w = some t → t < view.seq) :
    HoldsHashes (hashes.insert view.seq view.recordHash) (values ++ [v]) := by
  have hseq : seqOf v = some view.seq := hv.seq
  have hhash : recordHashOf v = some view.recordHash := hv.recordHash
  have hne : ∀ w ∈ values, seqOf w ≠ some view.seq := fun w hw hs =>
    UInt64.lt_irrefl _ (hnew w hw _ hs)
  have hnone : view.seq ∉ hashes := by
    intro hmem
    have hget := (h.get view.seq _).mp (Std.TreeMap.getElem?_eq_some_getElem hmem)
    obtain ⟨w, hw, hs, -⟩ := hget
    exact hne w hw hs
  refine ⟨fun s x => ?_, ?_⟩
  · rw [Std.TreeMap.getElem?_insert]
    by_cases hs : view.seq = s
    · subst hs
      simp only [Std.ReflCmp.compare_self, ↓reduceIte, Option.some.injEq, List.mem_append, List.mem_singleton]
      constructor
      · rintro rfl
        exact ⟨v, .inr rfl, hseq, hhash⟩
      · rintro ⟨w, hw | rfl, hws, hwx⟩
        · exact absurd hws (hne w hw)
        · exact Option.some.inj (hhash.symm.trans hwx)
    · have hcmp : compare view.seq s ≠ .eq := fun hc => hs (Std.LawfulEqCmp.eq_of_compare hc)
      rw [if_neg hcmp, h.get]
      constructor
      · rintro ⟨w, hw, hwx⟩
        exact ⟨w, List.mem_append_left _ hw, hwx⟩
      · rintro ⟨w, hw, hws, hwx⟩
        rcases List.mem_append.mp hw with hw | hw
        · exact ⟨w, hw, hws, hwx⟩
        · rw [List.mem_singleton.mp hw, hseq] at hws
          exact absurd (Option.some.inj hws) hs
  · have hcontains : hashes.contains view.seq = false := by
      rw [← Bool.not_eq_true, ← Std.TreeMap.mem_iff_contains]
      exact hnone
    simp [Std.TreeMap.size_insert, hcontains, h.size]

/-- The callback's state after lines that it found nothing wrong with, up to the level `P`. -/
structure Collected (E : Externals) (streamId : String) (P : Finding → Prop) (lines : List Bytes)
    (st : ChainState) : Prop where
  parses : ∀ line ∈ lines, ∃ v, E.fromSlice line = .ok v
  numbered : Numbered E streamId (recordValues E lines)
  linked : (∀ f, P f → f.severity ≠ .warning) → Linked (recordValues E lines)
  verifier : st.verifier.streamId = streamId
  lastSeen : LastSeen st.verifier (recordValues E lines)
  hashes : HoldsHashes st.data.hashesBySeq (recordValues E lines)

/-- One quiet line. -/
theorem Collected.step {P : Finding → Prop} (hP : ∀ f, P f → f.severity ≠ .error)
    {lines : List Bytes} {line : Bytes} {st : ChainState} (h : Collected E streamId P lines st)
    (hquiet : ∀ f ∈ (onLine E streamId st line).2, P f) :
    Collected E streamId P (lines ++ [line]) (onLine E streamId st line).1 := by
  obtain ⟨v, view, hparse, hv, hself, hstream, hplace, hst⟩ :=
    onLine_quiet fun f hf => hP f (hquiet f hf)
  have hvalues : recordValues E (lines ++ [line]) = recordValues E lines ++ [v] := by
    simp [recordValues, hparse, Except.toOption]
  have hbehind : ∀ last, (recordValues E lines).getLast? = some last → ∃ p : RecordView,
      p.Of last ∧ p.seq < view.seq ∧ (p.segmentId = view.segmentId → view.seq = p.seq + 1) := by
    intro last hlast
    obtain ⟨p, hp, hpof⟩ := h.lastSeen last hlast
    exact ⟨p, hpof, (hplace p hp).1, (hplace p hp).2.1⟩
  refine ⟨?_, ?_, ?_, ?_, ?_, ?_⟩
  · intro l hl
    rcases List.mem_append.mp hl with hl | hl
    · exact h.parses l hl
    · exact ⟨v, by rw [List.mem_singleton.mp hl, hparse]⟩
  · rw [hvalues]
    exact h.numbered.snoc hv hself (hstream.trans h.verifier) hbehind
  · intro hwarn
    rw [hvalues]
    refine (h.linked hwarn).snoc fun last hlast => ?_
    obtain ⟨p, hp, hpof⟩ := h.lastSeen last hlast
    rcases (hplace p hp).2.2 with hlink | ⟨f, hf, hsev⟩
    · rw [prevHashOf, recordHashOf, hv.prevHash, hpof.recordHash, hlink]
    · exact absurd hsev (hwarn f (hquiet f hf))
  · rw [hst, collect_verifier]
    exact h.verifier
  · intro w hw
    rw [hvalues] at hw
    obtain rfl : v = w := by simpa using hw
    refine ⟨view, ?_, hv⟩
    rw [hst, collect_verifier]
    rfl
  · rw [hvalues, hst, collect_hashes hv]
    refine h.hashes.insert hv fun w hw t ht => ?_
    cases hlast : (recordValues E lines).getLast? with
    | none => simp [List.getLast?_eq_none_iff.mp hlast] at hw
    | some last =>
      obtain ⟨p, hp, hlt, -⟩ := hbehind last hlast
      exact h.numbered.lt_of_last hlast hp hlt hw ht

/-- Nothing of a stream is checked before its checkpoints are. -/
theorem verifyStreamChain_unchecked (E : Externals) (S : Serde) (reader : BundleReader)
    (streamId : String) : Unchecked (verifyStreamChain E S reader streamId).1 := by
  have hdefault : Unchecked StreamData.default := ⟨rfl, rfl, rfl, rfl, rfl, rfl, rfl, rfl, rfl⟩
  unfold verifyStreamChain
  split
  · exact hdefault
  · next verifier _ =>
    have hrun : Unchecked (foldLog (onLine E streamId) (chainStart verifier)
        (reader.readStreamRecords E S streamId).1).1.data := by
      refine foldLog_invariant (I := fun _ (st : ChainState) => Unchecked st.data) _ hdefault ?_
      intro _ line st h _
      unfold onLine
      split
      · exact h
      · split
        · exact h
        · exact collect_unchecked h
    exact ⟨hrun.1, hrun.2, hrun.3, hrun.4, hrun.5, hrun.6, hrun.7, hrun.8, hrun.9⟩

/-- **A stream whose verification finds nothing wrong**: every line parses, the records are
numbered and hashed, linked when there is no warning either, and their hashes are collected. -/
theorem verifyStreamChain_quiet {P : Finding → Prop} (hP : ∀ f, P f → f.severity ≠ .error)
    (hquiet : ∀ f ∈ (verifyStreamChain E S reader streamId).2, P f) :
    let lines := (reader.readStreamRecords E S streamId).1
    (∀ line ∈ lines, ∃ v, E.fromSlice line = .ok v) ∧
      Numbered E streamId (recordValues E lines) ∧
      ((∀ f, P f → f.severity ≠ .warning) → Linked (recordValues E lines)) ∧
      HoldsHashes (verifyStreamChain E S reader streamId).1.hashesBySeq (recordValues E lines) := by
  unfold verifyStreamChain at hquiet ⊢
  cases hnew : StreamVerifier.new E streamId with
  | error e =>
    simp only [hnew, List.mem_singleton, forall_eq] at hquiet
    exact absurd rfl (hP _ hquiet)
  | ok verifier =>
    simp only [hnew, List.mem_append] at hquiet
    obtain ⟨hid, hprev⟩ : verifier.streamId = streamId ∧ verifier.prev = none := by
      unfold StreamVerifier.new at hnew
      split at hnew
      · rw [← Except.ok.inj hnew]
        exact ⟨rfl, rfl⟩
      · cases hnew
    have hstart : Collected E streamId P [] (chainStart verifier) := by
      refine ⟨by simp, ⟨?_, ?_, ?_, ?_, ?_⟩, ?_, hid, ?_, ?_, ?_⟩
      all_goals simp [recordValues, Linked, LastSeen, chainStart, StreamData.default]
    have hrun := foldLog_induction hstart (fun _ _ _ h _ hq => h.step hP hq)
      fun f hf => hquiet f (.inl hf)
    exact ⟨hrun.parses, hrun.numbered, hrun.linked, hrun.hashes⟩

end Stream

end Sealr.Verify
