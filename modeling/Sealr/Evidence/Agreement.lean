import Sealr.Evidence.Chain

/-!
# The writer and the verifier agree

A run of `ChainHead` from genesis, with failed appends and restarts, appends records that are
numbered without gap and linked (`Run.inv`). The verifier finds nothing wrong with them except
their clocks, and with steady clocks nothing at all (`run_verifies`).
-/

namespace Sealr.Evidence

open Lib

/-! ## Runs of the writer -/

/-- The hash the next record links to. -/
def headHashOf (E : Externals) (stream : Ulid) (rs : List Record) : String :=
  match rs.getLast? with
  | none => genesisPrevHash E stream
  | some r => r.recordHash

/-- Records numbered from zero, each with its own hash and linked to the one before. -/
inductive Chained (E : Externals) (stream : Ulid) : List Record → Prop where
  | nil : Chained E stream []
  | snoc {rs : List Record} {r : Record} (h : Chained E stream rs)
      (hstream : r.streamId = E.ulidToString stream) (hseq : r.seq.toNat = rs.length)
      (hprev : r.prevHash = headHashOf E stream rs) (hhash : r.computeHash E = .ok r.recordHash) :
      Chained E stream (rs ++ [r])

/-- A run of one stream's head from genesis, with the records appended so far: appends that
succeed, appends that fail, and restarts from the head's own state. -/
inductive Run (E : Externals) (stream : Ulid) : ChainHead → List Record → Prop where
  | genesis : Run E stream (.genesis E stream) []
  | appended {head head' : ChainHead} {rs : List Record} {record final : Record}
      (h : Run E stream head rs) (ha : head.append E record = (.ok (), head', final)) :
      Run E stream head' (rs ++ [final])
  | failed {head head' : ChainHead} {rs : List Record} {record left : Record} {e : EvidenceError}
      (h : Run E stream head rs) (ha : head.append E record = (.error e, head', left)) :
      Run E stream head' rs
  | resumed {head : ChainHead} {rs : List Record} {s : UInt64} (h : Run E stream head rs)
      (hs : head.lastSeq = some s) :
      Run E stream (.resume head.streamId head.headHash s) rs

section Writer

variable {E : Externals} {stream : Ulid} {head head' : ChainHead} {rs : List Record}
  {record final : Record}

theorem append_eq_ok (h : head.append E record = (.ok (), head', final)) :
    final.streamId = E.ulidToString head.streamId ∧ final.seq = head.nextSeq ∧
      final.prevHash = head.headHash ∧ final.computeHash E = .ok final.recordHash ∧
      head' = ⟨head.streamId, final.recordHash, some final.seq⟩ := by
  unfold ChainHead.append at h
  split_ifs at h with hstream
  · simp at h
  · rw [not_not] at hstream
    dsimp only at h
    split at h
    · simp at h
    · next r hr =>
      simp only [Prod.mk.injEq, true_and] at h
      obtain ⟨rfl, rfl⟩ := h
      obtain ⟨hhash, heq⟩ := Record.finalize_eq_ok hr
      rw [heq] at hhash ⊢
      exact ⟨hstream, rfl, rfl, hhash, rfl⟩

/-- A record of the head's stream that can be hashed is appended. -/
theorem append_of_computeHash (hstream : record.streamId = E.ulidToString head.streamId)
    (hfinal : { record with seq := head.nextSeq, prevHash := head.headHash,
                            recordHash := final.recordHash } = final)
    (hhash : final.computeHash E = .ok final.recordHash) :
    head.append E record = (.ok (), ⟨head.streamId, final.recordHash, some final.seq⟩, final) := by
  have hcompute : Record.computeHash E
      { record with seq := head.nextSeq, prevHash := head.headHash } = .ok final.recordHash := by
    rw [← hhash, ← hfinal]
    unfold Record.computeHash computeHashOfValue
    rw [← Record.hashInput_setHash _ final.recordHash]
  have hfinalize : Record.finalize E
      { record with seq := head.nextSeq, prevHash := head.headHash } = .ok final := by
    unfold Record.finalize
    rw [hcompute]
    exact congrArg Except.ok hfinal
  unfold ChainHead.append
  rw [if_neg (not_not.mpr hstream)]
  simp only [hfinalize]

/-- A failed append leaves the head where it was. -/
theorem append_eq_error {e : EvidenceError} (h : head.append E record = (.error e, head', final)) :
    head' = head := by
  unfold ChainHead.append at h
  split_ifs at h
  · exact (Prod.mk.inj (Prod.mk.inj h).2).1.symm
  · dsimp only at h
    split at h
    · exact (Prod.mk.inj (Prod.mk.inj h).2).1.symm
    · simp at h

/-- The number after the last one is the number of records: hashing refuses numbers long before
they wrap. -/
theorem Chained.nextSeq (h : Chained E stream rs) (hlast : head.lastSeq = rs.getLast?.map (·.seq)) :
    head.nextSeq.toNat = rs.length := by
  cases h with
  | nil =>
    simp only [List.getLast?_nil, Option.map_none] at hlast
    simp [ChainHead.nextSeq, hlast]
  | @snoc rs r _ _ hseq _ hhash =>
    have hle := Record.seq_le_of_computeHash hhash
    have hm : Rfc8785.maxSafe = 2 ^ 53 - 1 := rfl
    simp only [List.getLast?_concat, Option.map_some] at hlast
    simp only [ChainHead.nextSeq, hlast, UInt64.toNat_add, List.length_append, List.length_cons,
      List.length_nil]
    have h1 : (1 : UInt64).toNat = 1 := rfl
    omega

/-- What holds between a head and the records it has appended. -/
structure HeadInv (E : Externals) (stream : Ulid) (head : ChainHead) (rs : List Record) : Prop where
  streamId : head.streamId = stream
  headHash : head.headHash = headHashOf E stream rs
  lastSeq : head.lastSeq = rs.getLast?.map (·.seq)
  chained : Chained E stream rs

theorem HeadInv.append (hinv : HeadInv E stream head rs)
    (h : head.append E record = (.ok (), head', final)) :
    HeadInv E stream head' (rs ++ [final]) := by
  obtain ⟨hstream, hseq, hprev, hhash, rfl⟩ := append_eq_ok h
  refine ⟨hinv.streamId, by simp [headHashOf], by simp, .snoc hinv.chained ?_ ?_ ?_ hhash⟩
  · rw [hstream, hinv.streamId]
  · rw [hseq, hinv.chained.nextSeq hinv.lastSeq]
  · rw [hprev, hinv.headHash]

theorem Run.inv (h : Run E stream head rs) : HeadInv E stream head rs := by
  induction h with
  | genesis => exact ⟨rfl, rfl, rfl, .nil⟩
  | appended _ ha ih => exact ih.append ha
  | failed _ ha ih =>
    rw [append_eq_error ha]
    exact ih
  | resumed _ hs ih => exact ⟨ih.streamId, ih.headHash, hs.symm.trans ih.lastSeq, ih.chained⟩

theorem Chained.concat (h : Chained E stream (rs ++ [final])) :
    Chained E stream rs ∧ final.streamId = E.ulidToString stream ∧ final.seq.toNat = rs.length ∧
      final.prevHash = headHashOf E stream rs ∧ final.computeHash E = .ok final.recordHash := by
  generalize hl : rs ++ [final] = l at h
  cases h with
  | nil => simp at hl
  | snoc hrs hstream hseq hprev hhash =>
    obtain ⟨rfl, heq⟩ := List.append_inj' hl rfl
    obtain rfl := List.singleton_inj.mp heq
    exact ⟨hrs, hstream, hseq, hprev, hhash⟩

theorem Chained.of_append {after : List Record} (h : Chained E stream (rs ++ after)) :
    Chained E stream rs := by
  induction after using List.reverseRecOn with
  | nil => rwa [List.append_nil] at h
  | append_singleton after r ih =>
    rw [← List.append_assoc] at h
    exact ih h.concat.1

theorem Chained.streamId (h : Chained E stream rs) :
    ∀ r ∈ rs, r.streamId = E.ulidToString stream := by
  induction h with
  | nil => simp
  | snoc _ hstream _ _ _ ih =>
    intro r hr
    rcases List.mem_append.mp hr with hr | hr
    · exact ih r hr
    · rwa [List.mem_singleton.mp hr]

/-- Every record has its own hash. -/
theorem Chained.computeHash (h : Chained E stream rs) :
    ∀ r ∈ rs, r.computeHash E = .ok r.recordHash := by
  induction h with
  | nil => simp
  | snoc _ _ _ _ hhash ih =>
    intro r hr
    rcases List.mem_append.mp hr with hr | hr
    · exact ih r hr
    · rwa [List.mem_singleton.mp hr]

/-- The records are numbered 0, 1, 2 and so on. -/
theorem Chained.seq_getElem (h : Chained E stream rs) (i : Nat) (hi : i < rs.length) :
    rs[i].seq.toNat = i := by
  induction h with
  | nil => simp at hi
  | @snoc rs r _ _ hseq _ _ ih =>
    by_cases hlt : i < rs.length
    · rw [List.getElem_append_left hlt]
      exact ih hlt
    · have hi' : i = rs.length := by
        simp only [List.length_append, List.length_cons, List.length_nil] at hi
        omega
      subst hi'
      simpa using hseq

theorem Chained.seq_inj (h : Chained E stream rs) {a b : Record} (ha : a ∈ rs) (hb : b ∈ rs)
    (heq : a.seq = b.seq) : a = b := by
  obtain ⟨i, hi, rfl⟩ := List.getElem_of_mem ha
  obtain ⟨j, hj, rfl⟩ := List.getElem_of_mem hb
  have hi' := h.seq_getElem i hi
  have hj' := h.seq_getElem j hj
  obtain rfl : i = j := by rw [← hi', ← hj', heq]
  rfl

/-- Hashing refuses numbers near the end of their type. -/
theorem Chained.seq_lt (h : Chained E stream rs) : ∀ r ∈ rs, r.seq.toNat + 1 < 2 ^ 64 := by
  induction h with
  | nil => simp
  | @snoc rs r _ _ _ _ hhash ih =>
    intro x hx
    rcases List.mem_append.mp hx with hx | hx
    · exact ih x hx
    · have hle := Record.seq_le_of_computeHash hhash
      have hm : Rfc8785.maxSafe = 2 ^ 53 - 1 := rfl
      rw [List.mem_singleton.mp hx]
      omega

end Writer

/-! ## The verifier on what the writer appends -/

/-- Findings about clocks only. -/
def ChainFinding.isClock : ChainFinding → Bool
  | monoRegression .. | wallRegression .. | badWallTimestamp .. => true
  | _ => false

/-- The view of a typed record. -/
def Record.view (r : Record) : RecordView :=
  ⟨r.recordId, r.streamId, r.segmentId, r.seq, r.tsWall, r.tsMonoNs, r.recordType.name, r.prevHash,
    r.recordHash⟩

theorem Record.view_of (r : Record) : r.view.Of r.toJson := by
  have hget : ∀ k j, (k, some j) ∈ r.fields → r.toJson.value.get k = some j.value :=
    fun _ _ h => get_toJson h
  constructor
  · rw [hget "record_id" (.str r.recordId) (by simp [fields])]; rfl
  · rw [hget "stream_id" (.str r.streamId) (by simp [fields])]; rfl
  · rw [hget "segment_id" (.str r.segmentId) (by simp [fields])]; rfl
  · rw [hget "seq" (.u64 r.seq) (by simp [fields])]; rfl
  · rw [hget "ts_wall" (.str r.tsWall) (by simp [fields])]; rfl
  · rw [hget "ts_mono_ns" (.u64 r.tsMonoNs) (by simp [fields])]; rfl
  · rw [hget "record_type" (.str r.recordType.name) (by simp [fields])]; rfl
  · rw [hget "prev_hash" (.str r.prevHash) (by simp [fields])]; rfl
  · rw [hget "record_hash" (.str r.recordHash) (by simp [fields])]; rfl

/-- Clocks that parse and do not run backwards: adjacent wall clocks by at most the tolerance,
monotonic clocks not at all inside a segment. -/
structure SteadyClocks (E : Externals) (rs : List Record) : Prop where
  parses : ∀ r ∈ rs, ∃ t, parseWall E r.tsWall = .ok t
  wall : ∀ a b, [a, b] <:+: rs → ∀ s t, parseWall E a.tsWall = .ok s →
    parseWall E b.tsWall = .ok t → -WALL_TOLERANCE_MS ≤ t.timestampMillis - s.timestampMillis
  mono : ∀ a b, [a, b] <:+: rs → a.segmentId = b.segmentId → a.tsMonoNs ≤ b.tsMonoNs

theorem SteadyClocks.init {E : Externals} {rs : List Record} {r : Record}
    (h : SteadyClocks E (rs ++ [r])) : SteadyClocks E rs := by
  have hsub : ∀ a b, [a, b] <:+: rs → [a, b] <:+: rs ++ [r] := fun a b hab =>
    hab.trans (List.infix_append' [] rs [r])
  exact ⟨fun a ha => h.parses a (List.mem_append_left _ ha),
    fun a b hab => h.wall a b (hsub a b hab), fun a b hab => h.mono a b (hsub a b hab)⟩

/-- Clocks that parse, where the wall clock runs back by more than the tolerance only next to a
record that reports it. -/
structure ReportedClocks (E : Externals) (rs : List Record) : Prop where
  parses : ∀ r ∈ rs, ∃ t, parseWall E r.tsWall = .ok t
  wall : ∀ a b, [a, b] <:+: rs → ∀ s t, parseWall E a.tsWall = .ok s →
    parseWall E b.tsWall = .ok t → -WALL_TOLERANCE_MS ≤ t.timestampMillis - s.timestampMillis ∨
      a.recordType = .clockAnomaly ∨ b.recordType = .clockAnomaly
  mono : ∀ a b, [a, b] <:+: rs → a.segmentId = b.segmentId → a.tsMonoNs ≤ b.tsMonoNs

theorem SteadyClocks.reported {E : Externals} {rs : List Record} (h : SteadyClocks E rs) :
    ReportedClocks E rs :=
  ⟨h.parses, fun a b hab s t hs ht => .inl (h.wall a b hab s t hs ht), h.mono⟩

theorem ReportedClocks.of_infix {E : Externals} {rs slice : List Record} (h : ReportedClocks E rs)
    (hslice : slice <:+: rs) : ReportedClocks E slice :=
  ⟨fun r hr => h.parses r (hslice.subset hr), fun a b hab => h.wall a b (hab.trans hslice),
    fun a b hab => h.mono a b (hab.trans hslice)⟩

section Agreement

open StreamVerifier

variable {E : Externals} {stream : Ulid} {rs : List Record} {r p : Record} {sv : StreamVerifier}

/-- The verifier after the records `rs` of a stream. -/
structure FedInv (E : Externals) (stream : Ulid) (rs : List Record) (sv : StreamVerifier) :
    Prop where
  streamId : sv.streamId = E.ulidToString stream
  genesis : sv.genesis = genesisPrevHash E stream
  prev : sv.prev = rs.getLast?.map Record.view
  prevWallMs : ∀ r, rs.getLast? = some r → ∀ t, parseWall E r.tsWall = .ok t →
    sv.prevWallMs = some t.timestampMillis

theorem FedInv.advance (h : FedInv E stream rs sv) :
    FedInv E stream (rs ++ [r]) (advance E sv r.view) := by
  refine ⟨h.streamId, h.genesis, by simp [StreamVerifier.advance], ?_⟩
  intro r' hr' t ht
  obtain rfl : r = r' := by simpa using hr'
  have hview : r.view.tsWall = r.tsWall := rfl
  simp [StreamVerifier.advance, hview, ht]

theorem Chained.seq_last (h : Chained E stream rs) (hp : rs.getLast? = some p) :
    p.seq.toNat + 1 = rs.length := by
  cases h with
  | nil => simp at hp
  | @snoc rs r _ _ hseq _ _ =>
    obtain rfl : r = p := by simpa using hp
    simp [hseq]

theorem monoFindings_isClock (a b : RecordView) : ∀ f ∈ monoFindings a b, f.isClock = true := by
  unfold monoFindings
  split_ifs <;> simp [ChainFinding.isClock]

theorem wallFindings_isClock (a b : RecordView) (ms : Option Int) :
    ∀ f ∈ wallFindings E a ms b, f.isClock = true := by
  unfold wallFindings
  dsimp only
  split
  · split_ifs <;> simp [ChainFinding.isClock]
  · simp [ChainFinding.isClock]
  · simp

/-- Behind the last record of a chain, the next one is in place up to its clocks. -/
theorem placeFindings_chained (hc : Chained E stream (rs ++ [r])) (h : FedInv E stream rs sv) :
    placeFindings E sv r.view = match rs.getLast? with
      | none => []
      | some p => monoFindings p.view r.view ++ wallFindings E p.view sv.prevWallMs r.view := by
  obtain ⟨hrs, -, hseq, hprev, -⟩ := hc.concat
  cases hlast : rs.getLast? with
  | none =>
    have hsv : sv.prev = none := by rw [h.prev, hlast, Option.map_none]
    simp only [placeFindings, hsv]
    refine genesisFindings_eq_nil.mpr fun _ => ?_
    rw [headHashOf, hlast] at hprev
    rw [h.genesis]
    exact hprev
  | some p =>
    have hsv : sv.prev = some p.view := by rw [h.prev, hlast, Option.map_some]
    have hp := hrs.seq_last hlast
    have hnum : seqFindings p.view r.view = [] := by
      refine seqFindings_eq_nil.mpr ⟨?_, fun _ => ?_⟩
      · rw [UInt64.lt_iff_toNat_lt]
        simp only [Record.view]
        omega
      · have h64 := r.seq.toNat_lt
        have h1 : (1 : UInt64).toNat = 1 := rfl
        rw [← UInt64.toNat_inj, UInt64.toNat_add]
        simp only [Record.view]
        omega
    have hlink : linkFindings E p.view r.view = [] := by
      rw [headHashOf, hlast] at hprev
      exact linkFindings_eq_nil.mpr hprev
    simp [placeFindings, hsv, hnum, hlink]

/-- A record with its own hash behind the records fed, as the writer holds it or as it was read
back. -/
theorem verifyNext_fed (h : FedInv E stream rs sv) (hstream : r.streamId = E.ulidToString stream)
    {raw : Json} (hview : r.view.Of raw) (hhash : computeHashOfValue E raw = .ok r.recordHash) :
    verifyNext E sv raw = .ok (placeFindings E sv r.view, advance E sv r.view) := by
  refine verifyNext_eq_ok.mpr ⟨r.view, r.recordHash, hview, hhash, ?_, rfl⟩
  have h1 : streamFindings sv r.view = [] := by
    rw [streamFindings_eq_nil, h.streamId]
    exact hstream
  have h2 : hashFindings r.view r.recordHash = [] := hashFindings_eq_nil.mpr rfl
  rw [h1, h2]
  rfl

/-- Only the last record fed counts, so what came before a slice may be added. -/
theorem FedInv.prepend (h : FedInv E stream rs sv) (hlast : rs.getLast? = some p)
    (before : List Record) : FedInv E stream (before ++ rs) sv := by
  have hsame : (before ++ rs).getLast? = rs.getLast? := by
    rw [List.getLast?_append, hlast, Option.some_or]
  refine ⟨h.streamId, h.genesis, ?_, ?_⟩
  · rw [hsame]
    exact h.prev
  · rw [hsame]
    exact h.prevWallMs

/-- Clocks that are reported leave nothing to find behind the last record. -/
theorem clockFindings_reported (hclock : ReportedClocks E (rs ++ [r])) (h : FedInv E stream rs sv)
    (hlast : rs.getLast? = some p) :
    monoFindings p.view r.view = [] ∧ wallFindings E p.view sv.prevWallMs r.view = [] := by
  obtain ⟨init, rfl⟩ := List.getLast?_eq_some_iff.mp hlast
  have hadj : [p, r] <:+: init ++ [p] ++ [r] := ⟨init, [], by simp⟩
  constructor
  · unfold monoFindings
    split_ifs with hlt
    · exact absurd hlt.2 (UInt64.not_lt.mpr (hclock.mono p r hadj hlt.1))
    · rfl
  · obtain ⟨s, hs⟩ := hclock.parses p (by simp)
    obtain ⟨t, ht⟩ := hclock.parses r (by simp)
    have hview : r.view.tsWall = r.tsWall := rfl
    simp only [wallFindings, hview, ht, h.prevWallMs p hlast s hs]
    rw [if_neg]
    rintro ⟨hback, hr, hp⟩
    rcases hclock.wall p r hadj s t hs ht with hdelta | hanomaly | hanomaly
    · omega
    · exact hp (congrArg RecordType.name hanomaly)
    · exact hr (congrArg RecordType.name hanomaly)

/-- A slice of a chain with clocks that are reported: the next record is in place. -/
theorem placeFindings_reported {before : List Record} (hc : Chained E stream (before ++ rs ++ [r]))
    (h : FedInv E stream rs sv) (hclock : ReportedClocks E (rs ++ [r])) :
    placeFindings E sv r.view = [] := by
  cases hlast : rs.getLast? with
  | none =>
    -- the first record of the slice is the genesis or has a number above zero
    obtain rfl : rs = [] := List.getLast?_eq_none_iff.mp hlast
    obtain ⟨-, -, hseq, hprev, -⟩ := hc.concat
    have hsv : sv.prev = none := h.prev
    simp only [placeFindings, hsv]
    refine genesisFindings_eq_nil.mpr fun hzero => ?_
    have hempty : before = [] := by
      rw [List.append_nil, ← List.length_eq_zero_iff] at *
      have hnum : r.seq.toNat = 0 := congrArg UInt64.toNat hzero
      omega
    rw [h.genesis]
    rw [hempty] at hprev
    exact hprev
  | some p =>
    rw [placeFindings_chained hc (h.prepend hlast before), List.getLast?_append, hlast,
      Option.some_or]
    obtain ⟨hmono, hwall⟩ := clockFindings_reported hclock h hlast
    simp [hmono, hwall]

/-- Feeding a chain finds nothing but clock trouble, and nothing at all with steady clocks. -/
theorem feed_chained {sv₀ : StreamVerifier} (hnew : FedInv E stream [] sv₀)
    (h : Chained E stream rs) :
    ∃ fs sv, feed E sv₀ (rs.map Record.toJson) = .ok (fs, sv) ∧ FedInv E stream rs sv ∧
      (∀ f ∈ fs, f.isClock = true) ∧ (SteadyClocks E rs → fs = []) := by
  induction h with
  | nil => exact ⟨[], sv₀, rfl, hnew, by simp, fun _ => rfl⟩
  | @snoc rs r hrs hstream hseq hprev hhash ih =>
    have hc : Chained E stream (rs ++ [r]) := .snoc hrs hstream hseq hprev hhash
    obtain ⟨fs, sv, hfeed, hinv, hclock, hsteady⟩ := ih
    have hnext := verifyNext_fed hinv hstream r.view_of hhash
    refine ⟨fs ++ placeFindings E sv r.view, advance E sv r.view, ?_, hinv.advance, ?_, ?_⟩
    · rw [List.map_append]
      exact feed_concat.mpr ⟨fs, _, sv, hfeed, hnext, rfl⟩
    · intro f hf
      rcases List.mem_append.mp hf with hf | hf
      · exact hclock f hf
      · rw [placeFindings_chained hc hinv] at hf
        cases hlast : rs.getLast? with
        | none => simp [hlast] at hf
        | some p =>
          simp only [hlast, List.mem_append] at hf
          exact hf.elim (monoFindings_isClock _ _ f) (wallFindings_isClock _ _ _ f)
    · intro hs
      have hplace : placeFindings E sv r.view = [] :=
        @placeFindings_reported _ _ _ _ _ [] hc hinv hs.reported
      rw [hsteady hs.init, hplace, List.append_nil]

theorem new_fedInv (hE : E.UlidRoundTrip) :
    ∃ sv, StreamVerifier.new E (E.ulidToString stream) = .ok sv ∧ FedInv E stream [] sv := by
  refine ⟨⟨E.ulidToString stream, genesisPrevHash E stream, none, none, 0⟩, ?_, rfl, rfl, rfl, ?_⟩
  · simp [StreamVerifier.new, hE stream]
  · simp

/-- **The writer and the verifier agree**: over any run of a head, the appended records are
numbered without gap or repetition, and the verifier finds nothing wrong with them except their
clocks; with steady clocks it finds nothing. -/
theorem run_verifies (hE : E.UlidRoundTrip) {head : ChainHead} (h : Run E stream head rs) :
    (∀ i (hi : i < rs.length), rs[i].seq.toNat = i) ∧
      ∃ sv₀ fs sv, StreamVerifier.new E (E.ulidToString stream) = .ok sv₀ ∧
        feed E sv₀ (rs.map Record.toJson) = .ok (fs, sv) ∧ (∀ f ∈ fs, f.isClock = true) ∧
        (SteadyClocks E rs → fs = []) := by
  have hchain := h.inv.chained
  obtain ⟨sv₀, hnew, hinv⟩ := @new_fedInv E stream hE
  obtain ⟨fs, sv, hfeed, -, hclock, hsteady⟩ := feed_chained hinv hchain
  exact ⟨hchain.seq_getElem, sv₀, fs, sv, hnew, hfeed, hclock, hsteady⟩

end Agreement

/-! A stream of two records, with the digests that were recorded for it. -/

namespace Sample

def stream : Ulid := 0x4d0000000000000000004d

def draft (recordId tsWall : String) (tsMonoNs : UInt64) (recordType : RecordType)
    (operation : String) : Record where
  schemaVersion := SCHEMA_VERSION
  recordId
  streamId := "000000002D000000000000002D"
  segmentId := "000000002D000000000000002E"
  seq := 0
  tsWall
  tsMonoNs
  recordType
  recorder := ⟨"rec-1", "0.1.0", "h1", "linux"⟩
  subject := ⟨"cli", "s1", none, .attributed, "env"⟩
  action := ⟨"shell", operation, "write", "db", []⟩
  actionDetail := none
  payloadCommitment := none
  payloadRef := none
  verdict := none
  approvalRef := none
  links := none
  prevHash := ""
  recordHash := ""

def opening : Record :=
  draft "000000002D000000000000003A" "2026-08-11T12:00:00.000Z" 1000 .lifecycle "segment_start"

def update : Record :=
  draft "000000002D000000000000003B" "2026-08-11T12:00:01.000Z" 2000 .operation "update"

def opened : Record := { opening with
  prevHash := "95cd54d73257b43cc9178bef13046535d47349ef9c09ff363215f9f4823bd019"
  recordHash := "e21ef940ea8593c8236e3cbb8327144510f40464a055290c92dff79b2f0070db" }

def updated : Record := { update with
  seq := 1
  prevHash := opened.recordHash
  recordHash := "c208861450f76144f2ecaca1351a387bcb4b0c023aab6a0cdcb72c4c85739fd4" }

def recording : Externals.Recording where
  blake3 := [
    (asBytes "SEALR-GENESIS000000002D000000000000002D", ofHex opened.prevHash),
    (asBytes "SEALR-SEGMENT-BREAK000000002D000000000000002D000000002D000000000000002E",
      ofHex "974276d0b34b8ed6347abfef0df60aa0a0459aa0714e988b8adfd4e842ddeb33"),
    ((hashInput opened.toJson).toOption.getD [], ofHex opened.recordHash),
    ((hashInput updated.toJson).toOption.getD [], ofHex updated.recordHash)]
  times := [(opened.tsWall, ⟨1786449600, 0⟩), (updated.tsWall, ⟨1786449601, 0⟩)]

def externals : Externals := .recorded recording

/-- Two appends, with a refused one and a restart between them. -/
theorem run {E : Externals} (hid : E.ulidToString stream = opened.streamId)
    (hgenesis : genesisPrevHash E stream = opened.prevHash)
    (hopened : opened.computeHash E = .ok opened.recordHash)
    (hupdated : updated.computeHash E = .ok updated.recordHash) :
    Run E stream ⟨stream, updated.recordHash, some 1⟩ [opened, updated] := by
  have hfirst : (ChainHead.genesis E stream).append E opening =
      (.ok (), ⟨stream, opened.recordHash, some 0⟩, opened) := by
    refine append_of_computeHash hid.symm ?_ hopened
    simp only [ChainHead.genesis, hgenesis]
    rfl
  have hrefused : (ChainHead.mk stream opened.recordHash (some 0)).append E
      { update with streamId := "other" } = (.error (.schema _), _, _) :=
    if_pos (hid ▸ by decide)
  have hsecond : (ChainHead.resume stream opened.recordHash 0).append E update =
      (.ok (), ⟨stream, updated.recordHash, some 1⟩, updated) :=
    append_of_computeHash hid.symm rfl hupdated
  exact .appended (.resumed (.failed (.appended .genesis hfirst) hrefused) rfl) hsecond

end Sample

theorem run_verifies_sample : ∃ sv₀ fs sv,
    StreamVerifier.new Sample.externals "000000002D000000000000002D" = .ok sv₀ ∧
      StreamVerifier.feed Sample.externals sv₀ [Sample.opened.toJson, Sample.updated.toJson] =
        .ok (fs, sv) ∧
      ∀ f ∈ fs, f.isClock = true := by
  have hid : Sample.externals.ulidToString Sample.stream = "000000002D000000000000002D" := by
    decide
  have hrun := Sample.run hid (by decide +kernel) (by decide +kernel) (by decide +kernel)
  obtain ⟨-, sv₀, fs, sv, hnew, hfeed, hclock, -⟩ :=
    run_verifies (Externals.ulidRoundTrip_recorded Sample.recording) hrun
  exact ⟨sv₀, fs, sv, hid ▸ hnew, hfeed, hclock⟩

end Sealr.Evidence
