import Sealr.Lib.Log
import Sealr.Lib.Runs
import Sealr.Evidence.Agreement

/-!
# Clean sequences

A sequence of raw records is clean when a fresh verifier of the stream accepts every element
without a finding. The verifier's state after a clean run is that of its last record (`After`), so
a sequence is clean exactly when every record is the stream's own, the first one may be first, and
every other one follows its predecessor (`clean_iff`).

Clean sequences may be cut and joined between any two records (`clean_compositional`).
-/

namespace Sealr.Evidence

open Lib StreamVerifier

/-- A fresh verifier of the stream accepts every record without a finding. -/
def CleanRun (E : Externals) (streamId : String) (raws : List Json) : Prop :=
  ∃ sv₀ sv, StreamVerifier.new E streamId = .ok sv₀ ∧ feed E sv₀ raws = .ok ([], sv)

/-- The verifier accepts the records, as a run of it decides. -/
def acceptsAll (E : Externals) (streamId : String) (raws : List Json) : Bool :=
  match StreamVerifier.new E streamId with
  | .error _ => false
  | .ok sv =>
    match feed E sv raws with
    | .ok (found, _) => found.isEmpty
    | .error _ => false

theorem acceptsAll_iff {E : Externals} {streamId : String} {raws : List Json} :
    acceptsAll E streamId raws = true ↔ CleanRun E streamId raws := by
  unfold acceptsAll CleanRun
  cases StreamVerifier.new E streamId with
  | error e => simp
  | ok sv =>
    cases hfeed : feed E sv raws with
    | error e => simp [hfeed]
    | ok run =>
      obtain ⟨found, last⟩ := run
      simp [hfeed]

instance (E : Externals) (streamId : String) (raws : List Json) :
    Decidable (CleanRun E streamId raws) :=
  decidable_of_iff _ acceptsAll_iff

/-- A record's wall clock in milliseconds, if it can be read. -/
def RecordView.wallMs (E : Externals) (view : RecordView) : Option Int :=
  match parseWall E view.tsWall with
  | .ok wall => some wall.timestampMillis
  | .error _ => none

/-- What the verifier asks of a record behind another. -/
structure Follows (E : Externals) (prev view : RecordView) : Prop where
  seq : prev.seq < view.seq
  seq_succ : prev.segmentId = view.segmentId → view.seq = prev.seq + 1
  link : view.prevHash = prev.recordHash
  mono : prev.segmentId = view.segmentId → prev.tsMonoNs ≤ view.tsMonoNs
  wall : ∃ ms, view.wallMs E = some ms ∧ ∀ prevMs, prev.wallMs E = some prevMs →
    -WALL_TOLERANCE_MS ≤ ms - prevMs ∨ view.recordType = "clock_anomaly" ∨
      prev.recordType = "clock_anomaly"

/-- A raw record of the stream with its own hash, and its view. -/
structure Own (E : Externals) (streamId : String) (raw : Json) (view : RecordView) : Prop where
  view_of : view.Of raw
  streamId : view.streamId = streamId
  hash : computeHashOfValue E raw = .ok view.recordHash

/-- What the verifier asks of a first record: number zero links to the genesis sentinel. -/
def MayOpen (genesis : String) (view : RecordView) : Prop :=
  view.seq = 0 → view.prevHash = genesis

/-- What the verifier asks of a record behind `last`. -/
def InPlace (E : Externals) (genesis : String) : Option RecordView → RecordView → Prop
  | none, view => MayOpen genesis view
  | some prev, view => Follows E prev view

/-- The state after a clean run is that of its last record. -/
structure After (E : Externals) (stream genesis : String) (last : Option RecordView)
    (sv : StreamVerifier) : Prop where
  streamId : sv.streamId = stream
  genesis : sv.genesis = genesis
  prev : sv.prev = last
  prevWallMs : sv.prevWallMs = last.bind (RecordView.wallMs E)

theorem RecordView.Of.unique {view other : RecordView} {raw : Json} (h : view.Of raw)
    (h' : other.Of raw) : view = other := by
  cases view
  cases other
  rw [RecordView.mk.injEq]
  exact ⟨Option.some.inj (h.recordId.symm.trans h'.recordId),
    Option.some.inj (h.streamId.symm.trans h'.streamId),
    Option.some.inj (h.segmentId.symm.trans h'.segmentId),
    Option.some.inj (h.seq.symm.trans h'.seq), Option.some.inj (h.tsWall.symm.trans h'.tsWall),
    Option.some.inj (h.tsMonoNs.symm.trans h'.tsMonoNs),
    Option.some.inj (h.recordType.symm.trans h'.recordType),
    Option.some.inj (h.prevHash.symm.trans h'.prevHash),
    Option.some.inj (h.recordHash.symm.trans h'.recordHash)⟩

section

variable {E : Externals} {stream genesis : String} {sv : StreamVerifier} {prev view : RecordView}
  {last : Option RecordView} {raw : Json} {raws : List Json}

theorem monoFindings_eq_nil : monoFindings prev view = [] ↔
    (prev.segmentId = view.segmentId → prev.tsMonoNs ≤ view.tsMonoNs) := by
  unfold monoFindings
  split_ifs with h
  · simp only [false_iff]
    exact fun hle => absurd h.2 (UInt64.not_lt.mpr (hle h.1))
  · simp only [true_iff]
    exact fun hseg => UInt64.not_lt.mp fun hlt => h ⟨hseg, hlt⟩

theorem wallFindings_eq_nil {prevWallMs : Option Int} :
    wallFindings E prev prevWallMs view = [] ↔
      ∃ ms, view.wallMs E = some ms ∧ ∀ prevMs, prevWallMs = some prevMs →
        -WALL_TOLERANCE_MS ≤ ms - prevMs ∨ view.recordType = "clock_anomaly" ∨
          prev.recordType = "clock_anomaly" := by
  unfold wallFindings RecordView.wallMs
  cases parseWall E view.tsWall with
  | error e => simp
  | ok wall =>
    cases prevWallMs with
    | none => simp
    | some prevMs =>
      simp only [Option.some.injEq, forall_eq', exists_eq_left']
      split_ifs with h
      · simp only [false_iff]
        rintro (hle | hview | hprev)
        · omega
        · exact h.2.1 hview
        · exact h.2.2 hprev
      · simp only [true_iff]
        by_contra hno
        simp only [not_or, not_le] at hno
        exact h ⟨hno.1, hno.2.1, hno.2.2⟩

theorem placeFindings_follows (hprev : sv.prev = some prev)
    (hms : sv.prevWallMs = prev.wallMs E) :
    placeFindings E sv view = [] ↔ Follows E prev view := by
  simp only [placeFindings, hprev, List.append_eq_nil_iff, seqFindings_eq_nil,
    linkFindings_eq_nil, monoFindings_eq_nil, wallFindings_eq_nil, hms]
  constructor
  · intro h
    obtain ⟨⟨⟨⟨hseq, hsucc⟩, hlink⟩, hmono⟩, hwall⟩ := h
    exact ⟨hseq, hsucc, hlink, hmono, hwall⟩
  · intro h
    exact ⟨⟨⟨⟨h.seq, h.seq_succ⟩, h.link⟩, h.mono⟩, h.wall⟩

/-- Only the last record decides whether a record is in place. -/
theorem placeFindings_after (h : After E stream genesis last sv) :
    placeFindings E sv view = [] ↔ InPlace E genesis last view := by
  cases last with
  | none => simp only [placeFindings, h.prev, genesisFindings_eq_nil, h.genesis, InPlace, MayOpen]
  | some prev => exact placeFindings_follows h.prev h.prevWallMs

theorem After.advance (h : After E stream genesis last sv) (hplace : InPlace E genesis last view) :
    After E stream genesis (some view) (advance E sv view) := by
  refine ⟨h.streamId, h.genesis, rfl, ?_⟩
  have hms : (StreamVerifier.advance E sv view).prevWallMs = (view.wallMs E).or sv.prevWallMs := by
    unfold StreamVerifier.advance RecordView.wallMs
    cases parseWall E view.tsWall <;> rfl
  rw [hms, Option.bind_some]
  cases last with
  | none => rw [h.prevWallMs, Option.bind_none, Option.or_none]
  | some prev =>
    -- only a first record may be unreadable
    obtain ⟨ms, hview, -⟩ := Follows.wall hplace
    rw [hview, Option.some_or]

/-- A record without findings, and the state it leaves. -/
theorem verifyNext_clean (h : After E stream genesis last sv) {sv' : StreamVerifier} :
    verifyNext E sv raw = .ok ([], sv') ↔ ∃ view, Own E stream raw view ∧
      InPlace E genesis last view ∧ sv' = StreamVerifier.advance E sv view := by
  rw [verifyNext_eq_ok]
  constructor
  · rintro ⟨view, computed, hview, hhash, hnil, rfl⟩
    obtain ⟨hhead, hplace⟩ := List.append_eq_nil_iff.mp hnil.symm
    obtain ⟨hstream, hown⟩ := List.append_eq_nil_iff.mp hhead
    rw [streamFindings_eq_nil, h.streamId] at hstream
    rw [hashFindings_eq_nil] at hown
    exact ⟨view, ⟨hview, hstream, hown ▸ hhash⟩, (placeFindings_after h).mp hplace, rfl⟩
  · rintro ⟨view, hown, hplace, rfl⟩
    refine ⟨view, view.recordHash, hown.view_of, hown.hash, ?_, rfl⟩
    have hstream : streamFindings sv view = [] := by
      rw [streamFindings_eq_nil, h.streamId]
      exact hown.streamId
    have hhash : hashFindings view view.recordHash = [] := hashFindings_eq_nil.mpr rfl
    rw [hstream, hhash, (placeFindings_after h).mpr hplace]
    rfl

/-- What the verifier asks of views behind `last`: the first is in place, the others follow. -/
def Ordered (E : Externals) (genesis : String) (last : Option RecordView)
    (views : List RecordView) : Prop :=
  (∀ view ∈ views.head?, InPlace E genesis last view) ∧ views.IsChain (Follows E)

theorem ordered_cons {views : List RecordView} :
    Ordered E genesis last (view :: views) ↔
      InPlace E genesis last view ∧ Ordered E genesis (some view) views := by
  simp only [Ordered, List.head?_cons, Option.mem_def, Option.some.injEq, forall_eq',
    List.isChain_cons, InPlace]

/-- Records that are fed behind `last` without a finding. -/
theorem feed_clean (h : After E stream genesis last sv) :
    (∃ sv', feed E sv raws = .ok ([], sv')) ↔
      ∃ views, List.Forall₂ (Own E stream) raws views ∧ Ordered E genesis last views := by
  induction raws generalizing sv last with
  | nil =>
    constructor
    · intro _
      exact ⟨[], .nil, by simp, .nil⟩
    · intro _
      exact ⟨sv, rfl⟩
  | cons raw raws ih =>
    constructor
    · rintro ⟨sv', hfeed⟩
      obtain ⟨found, rest, mid, hnext, hrest, hnil⟩ := feed_cons.mp hfeed
      obtain ⟨rfl, rfl⟩ := List.append_eq_nil_iff.mp hnil.symm
      obtain ⟨view, hown, hplace, rfl⟩ := (verifyNext_clean h).mp hnext
      obtain ⟨views, hviews, hordered⟩ := (ih (h.advance hplace)).mp ⟨sv', hrest⟩
      exact ⟨view :: views, .cons hown hviews, ordered_cons.mpr ⟨hplace, hordered⟩⟩
    · rintro ⟨_, hall, hordered⟩
      obtain ⟨view, views, hown, hviews, rfl⟩ := List.forall₂_cons_left_iff.mp hall
      obtain ⟨hplace, hrest⟩ := ordered_cons.mp hordered
      have hnext := (verifyNext_clean h).mpr ⟨view, hown, hplace, rfl⟩
      obtain ⟨sv', hfeed⟩ := (ih (h.advance hplace)).mpr ⟨views, hviews, hrest⟩
      exact ⟨sv', feed_cons.mpr ⟨[], [], _, hnext, hfeed, rfl⟩⟩

theorem new_eq_ok : StreamVerifier.new E stream = .ok sv ↔ ∃ ulid,
    E.ulidFromString stream = .ok ulid ∧ sv = ⟨stream, genesisPrevHash E ulid, none, none, 0⟩ := by
  unfold StreamVerifier.new
  cases E.ulidFromString stream with
  | error e => simp
  | ok ulid => simp [eq_comm]

theorem new_after {ulid : Ulid} :
    After E stream (genesisPrevHash E ulid) none ⟨stream, genesisPrevHash E ulid, none, none, 0⟩ :=
  ⟨rfl, rfl, rfl, rfl⟩

/-- **What a clean sequence is**: each record is the stream's own, number zero at the start links
to the genesis sentinel, and each record follows the one before it. -/
theorem clean_iff : CleanRun E stream raws ↔ ∃ ulid, E.ulidFromString stream = .ok ulid ∧
    ∃ views, List.Forall₂ (Own E stream) raws views ∧
      Ordered E (genesisPrevHash E ulid) none views := by
  unfold CleanRun
  constructor
  · rintro ⟨sv₀, sv, hnew, hfeed⟩
    obtain ⟨ulid, hulid, rfl⟩ := new_eq_ok.mp hnew
    exact ⟨ulid, hulid, (feed_clean new_after).mp ⟨sv, hfeed⟩⟩
  · rintro ⟨ulid, hulid, hviews⟩
    obtain ⟨sv, hfeed⟩ := (feed_clean new_after).mpr hviews
    exact ⟨_, sv, new_eq_ok.mpr ⟨ulid, hulid, rfl⟩, hfeed⟩

end

/-- The views of the records, in order. -/
def ViewedAs (raws : List Json) (views : List RecordView) : Prop :=
  List.Forall₂ (fun raw view => RecordView.Of view raw) raws views

theorem CleanRun.follows {E : Externals} {stream : String} {raws : List Json}
    (h : CleanRun E stream raws) : ∃ views, ViewedAs raws views ∧ views.IsChain (Follows E) := by
  obtain ⟨_, -, views, hviews, hordered⟩ := clean_iff.mp h
  exact ⟨views, hviews.imp fun _ _ hown => hown.view_of, hordered.2⟩

/-! ## Cutting and joining -/

section Slices

variable {E : Externals} {stream genesis : String} {raws : List Json}
  {views part : List RecordView}

/-- Every record of an ordered sequence could have been its first: only the first one may have
number zero. -/
theorem Ordered.mayOpen (h : Ordered E genesis none views) :
    ∀ view ∈ views, MayOpen genesis view := by
  intro view hview
  rcases head_or_step h.2 hview with hfirst | ⟨prev, -, hfollows⟩
  · exact h.1 view hfirst
  · intro hzero
    have hlt := UInt64.lt_iff_toNat_lt.mp (hzero ▸ hfollows.seq)
    have hzero' : (0 : UInt64).toNat = 0 := rfl
    omega

theorem Ordered.slice (h : Ordered E genesis none views) (hpart : part <:+: views) :
    Ordered E genesis none part := by
  have hhead : ∀ view ∈ part.head?, MayOpen genesis view := by
    intro view hview
    exact h.mayOpen view (hpart.subset (List.mem_of_mem_head? hview))
  obtain ⟨before, after, rfl⟩ := hpart
  exact ⟨hhead, h.2.left_of_append.right_of_append⟩

/-- **A contiguous slice of a clean sequence is clean.** -/
theorem CleanRun.slice (h : CleanRun E stream raws) {slice : List Json} (hslice : slice <:+: raws) :
    CleanRun E stream slice := by
  obtain ⟨ulid, hulid, views, hviews, hordered⟩ := clean_iff.mp h
  obtain ⟨before, after, rfl⟩ := hslice
  obtain ⟨init, rest, hinit, -, rfl⟩ := forall₂_append_left hviews
  obtain ⟨first, middle, -, hmiddle, rfl⟩ := forall₂_append_left hinit
  have hmiddle' := hordered.slice (List.infix_append first middle rest)
  exact clean_iff.mpr ⟨ulid, hulid, middle, hmiddle, hmiddle'⟩

theorem Own.unique {raw : Json} {view other : RecordView} (h : Own E stream raw view)
    (h' : Own E stream raw other) : view = other :=
  h.view_of.unique h'.view_of

/-- Two clean sequences whose seam is clean. -/
theorem CleanRun.join {A B : List Json} {a b : Json} (hA : CleanRun E stream (A ++ [a]))
    (hB : CleanRun E stream (b :: B)) (hseam : CleanRun E stream [a, b]) :
    CleanRun E stream (A ++ [a] ++ b :: B) := by
  obtain ⟨ulid, hulid, viewsA, hviewsA, horderedA⟩ := clean_iff.mp hA
  obtain ⟨_, -, viewsB, hviewsB, horderedB⟩ := clean_iff.mp hB
  obtain ⟨_, -, seam, hviews, horderedSeam⟩ := clean_iff.mp hseam
  obtain ⟨init, x, -, hx, rfl⟩ := forall₂_concat_left hviewsA
  obtain ⟨y, rest, hy, -, rfl⟩ := List.forall₂_cons_left_iff.mp hviewsB
  obtain ⟨x', seam', hx', hseam', rfl⟩ := List.forall₂_cons_left_iff.mp hviews
  obtain ⟨y', tail, hy', hnil, rfl⟩ := List.forall₂_cons_left_iff.mp hseam'
  obtain rfl := hx.unique hx'
  obtain rfl := hy.unique hy'
  obtain rfl := List.forall₂_nil_left_iff.mp hnil
  have hfollows : Follows E x y := List.isChain_pair.mp horderedSeam.2
  have hall : List.Forall₂ (Own E stream) (A ++ [a] ++ b :: B) (init ++ [x] ++ y :: rest) :=
    List.rel_append hviewsA hviewsB
  refine clean_iff.mpr ⟨ulid, hulid, _, hall, ?_, ?_⟩
  · intro view hview
    rw [List.head?_append_of_ne_nil _ (by simp)] at hview
    exact horderedA.1 view hview
  · rw [List.append_assoc]
    exact List.isChain_append_cons_cons.mpr ⟨horderedA.2, hfollows, horderedB.2⟩

/-- **Chain verification is compositional**: joined sequences are clean exactly when both are and
the two records at the seam are, and every contiguous slice of a clean sequence is clean. -/
theorem clean_compositional (E : Externals) (stream : String) :
    (∀ (A B : List Json) (hA : A ≠ []) (hB : B ≠ []), CleanRun E stream (A ++ B) ↔
      CleanRun E stream A ∧ CleanRun E stream B ∧ CleanRun E stream [A.getLast hA, B.head hB]) ∧
    ∀ slice raws : List Json, slice <:+: raws → CleanRun E stream raws →
      CleanRun E stream slice := by
  refine ⟨?_, fun slice raws hslice h => h.slice hslice⟩
  intro A B hA hB
  obtain ⟨init, a, rfl⟩ := A.eq_nil_or_concat'.resolve_left hA
  obtain ⟨b, rest, rfl⟩ := List.exists_cons_of_ne_nil hB
  simp only [List.getLast_append_singleton, List.head_cons]
  constructor
  · intro h
    have hseam : [a, b] <:+: init ++ [a] ++ b :: rest := ⟨init, rest, by simp⟩
    exact ⟨h.slice (List.prefix_append _ _).isInfix, h.slice (List.suffix_append _ _).isInfix,
      h.slice hseam⟩
  · intro h
    obtain ⟨hleft, hright, hseam⟩ := h
    exact hleft.join hright hseam

end Slices

theorem Sample.clean_recorded : CleanRun Sample.externals "000000002D000000000000002D"
    [Sample.opened.toJson, Sample.updated.toJson] := by
  decide +kernel

/-- A stream of two records is joined from its halves. -/
theorem clean_compositional_sample :
    CleanRun Sample.externals "000000002D000000000000002D"
        ([Sample.opened.toJson] ++ [Sample.updated.toJson]) ∧
      CleanRun Sample.externals "000000002D000000000000002D" [Sample.updated.toJson] := by
  have hparts := (clean_compositional Sample.externals "000000002D000000000000002D").1
    [Sample.opened.toJson] [Sample.updated.toJson] (by simp) (by simp)
  obtain ⟨-, hlast, -⟩ := hparts.mp Sample.clean_recorded
  exact ⟨Sample.clean_recorded, hlast⟩

end Sealr.Evidence
