import Sealr.Lib.Runs
import Sealr.Evidence.Clean

/-!
# Wall clocks

The verifier compares the wall clock of a record with that of the one before it, in milliseconds.
The first record has none before it, so its clock is never read: over a clean sequence every clock
reads exactly when the first one does (`wallChecked_iff`).

The tolerance is granted at every step, so a clean sequence may run back by as many tolerances as
it has steps, and by no more (`wall_drift`).
-/

namespace Sealr.Evidence

open Lib

/-- Every wall clock reads, and none is more than the tolerance behind its neighbour's unless one
of the two reports an anomaly. -/
structure WallChecked (E : Externals) (views : List RecordView) : Prop where
  reads : ∀ view ∈ views, ∃ t, parseWall E view.tsWall = .ok t
  steady : ∀ i (hi : i + 1 < views.length), views[i].recordType ≠ "clock_anomaly" →
    views[i + 1].recordType ≠ "clock_anomaly" →
    ∀ s t, parseWall E views[i].tsWall = .ok s → parseWall E views[i + 1].tsWall = .ok t →
      s.timestampMillis - WALL_TOLERANCE_MS ≤ t.timestampMillis

section

variable {E : Externals} {stream genesis : String} {raws : List Json} {a b view : RecordView}
  {views : List RecordView}

theorem wallMs_of_parseWall {t : DateTime} (h : parseWall E view.tsWall = .ok t) :
    view.wallMs E = some t.timestampMillis := by
  unfold RecordView.wallMs
  rw [h]

theorem parseWall_of_wallMs {ms : Int} (h : view.wallMs E = some ms) :
    ∃ t, parseWall E view.tsWall = .ok t ∧ t.timestampMillis = ms := by
  unfold RecordView.wallMs at h
  split at h
  · next t ht => exact ⟨t, ht, Option.some.inj h⟩
  · cases h

/-- Away from anomalies, a record is at most the tolerance behind the one it follows. -/
theorem Follows.wall_le (h : Follows E a b) (ha : a.recordType ≠ "clock_anomaly")
    (hb : b.recordType ≠ "clock_anomaly") :
    ∃ y, b.wallMs E = some y ∧ ∀ x, a.wallMs E = some x → x - WALL_TOLERANCE_MS ≤ y := by
  obtain ⟨y, hy, hback⟩ := h.wall
  refine ⟨y, hy, ?_⟩
  intro x hx
  rcases hback x hx with hle | hview | hprev
  · omega
  · exact absurd hview hb
  · exact absurd hprev ha

/-- Behind a first record whose clock reads, every clock reads. -/
theorem reads_of_follows (h : views.IsChain (Follows E))
    (hfirst : ∀ view ∈ views.head?, ∃ t, parseWall E view.tsWall = .ok t) :
    ∀ view ∈ views, ∃ t, parseWall E view.tsWall = .ok t := by
  intro view hview
  rcases head_or_step h hview with hhead | ⟨prev, -, hfollows⟩
  · exact hfirst view hhead
  · obtain ⟨ms, hms, -⟩ := hfollows.wall
    obtain ⟨t, ht, -⟩ := parseWall_of_wallMs hms
    exact ⟨t, ht⟩

/-- **When no bad wall clock goes unnoticed**: over a clean sequence, exactly when the clock of its
first record reads. -/
theorem wallChecked_iff (h : CleanRun E stream raws) :
    ∃ views, ViewedAs raws views ∧
      (WallChecked E views ↔
        ∀ view ∈ views.head?, ∃ t, parseWall E view.tsWall = .ok t) := by
  obtain ⟨views, hviews, hchain⟩ := h.follows
  refine ⟨views, hviews, ?_⟩
  constructor
  · intro hchecked view hview
    exact hchecked.reads view (List.mem_of_mem_head? hview)
  · intro hfirst
    refine ⟨reads_of_follows hchain hfirst, ?_⟩
    intro i hi ha hb s t hs ht
    have hfollows : Follows E views[i] views[i + 1] := hchain.getElem i hi
    obtain ⟨y, hy, hle⟩ := hfollows.wall_le ha hb
    rw [wallMs_of_parseWall ht, Option.some.injEq] at hy
    rw [hy]
    exact hle _ (wallMs_of_parseWall hs)

end

/-! A first record whose clock does not read. -/

namespace Sample

def unreadable : Record := {
  draft "000000002D000000000000003A" "yesterday" 1000 .lifecycle "segment_start" with
  prevHash := opened.prevHash
  recordHash := "07268f25589fe451729d0806e7e871a244bc6f8cf3f6130cfe803314bdd660cb" }

def unreadableExternals : Externals := .recorded { recording with
  blake3 := recording.blake3 ++
    [((hashInput unreadable.toJson).toOption.getD [], ofHex unreadable.recordHash)] }

end Sample

theorem wallChecked_iff_sample :
    CleanRun Sample.externals "000000002D000000000000002D"
        [Sample.opened.toJson, Sample.updated.toJson] ∧
      ∃ views, ViewedAs [Sample.opened.toJson, Sample.updated.toJson] views ∧
        (WallChecked Sample.externals views ↔
          ∀ view ∈ views.head?, ∃ t, parseWall Sample.externals view.tsWall = .ok t) :=
  ⟨Sample.clean_recorded, wallChecked_iff Sample.clean_recorded⟩

/-- A clean sequence of one record whose wall clock does not read. -/
theorem unreadable_unnoticed :
    CleanRun Sample.unreadableExternals "000000002D000000000000002D" [Sample.unreadable.toJson] ∧
      Sample.unreadable.view.Of Sample.unreadable.toJson ∧
      ¬∃ t, parseWall Sample.unreadableExternals Sample.unreadable.view.tsWall = .ok t := by
  have herr : (parseWall Sample.unreadableExternals Sample.unreadable.view.tsWall).toOption =
      none := by
    decide
  refine ⟨by decide +kernel, Record.view_of _, ?_⟩
  rintro ⟨t, ht⟩
  rw [ht] at herr
  cases herr

/-! ## Drift -/

/-- **The wall clock of a clean sequence without anomalies runs back by at most the tolerance for
every step**, so by at most the tolerance between neighbours. -/
theorem wall_drift {E : Externals} {stream : String} {raws : List Json}
    (h : CleanRun E stream raws) :
    ∃ views, ViewedAs raws views ∧
      ((∀ view ∈ views, view.recordType ≠ "clock_anomaly") →
        ∀ i j (hij : i ≤ j) (hj : j < views.length) s t, parseWall E views[i].tsWall = .ok s →
          parseWall E views[j].tsWall = .ok t →
          s.timestampMillis - WALL_TOLERANCE_MS * (j - i : Nat) ≤ t.timestampMillis) := by
  obtain ⟨views, hviews, hchain⟩ := h.follows
  refine ⟨views, hviews, ?_⟩
  intro hanomaly i j hij hj s t hs ht
  have hfall : views.IsChain fun a b => ∃ y, b.wallMs E = some y ∧
      ∀ x, a.wallMs E = some x → x - WALL_TOLERANCE_MS ≤ y :=
    hchain.imp_of_mem_imp fun a b ha hb hab => hab.wall_le (hanomaly a ha) (hanomaly b hb)
  obtain ⟨y, hy, hle⟩ := drift_le hfall hij hj (wallMs_of_parseWall hs)
  rw [wallMs_of_parseWall ht, Option.some.injEq] at hy
  rw [hy]
  exact hle

/-! Three records that run back by the tolerance at each step. -/

namespace Sample

def ahead : Record := {
  draft "000000002D000000000000003A" "2026-08-11T12:00:04.000Z" 1000 .lifecycle "segment_start" with
  prevHash := opened.prevHash
  recordHash := "819237b7fdf4d9ab70bfebaf28d3990ffe34c31241c8512984f3ff8f47522274" }

def behind : Record := {
  draft "000000002D000000000000003B" "2026-08-11T12:00:02.000Z" 2000 .operation "read" with
  seq := 1
  prevHash := ahead.recordHash
  recordHash := "b6ab485e118c8a61878bf8dfa7be8d5d300975003359b3910b949169cd93ede1" }

def furthest : Record := {
  draft "000000002D000000000000003C" "2026-08-11T12:00:00.000Z" 3000 .operation "read" with
  seq := 2
  prevHash := behind.recordHash
  recordHash := "194cbb69aeeef890a51a081314d1da7fe233163a3887e9bc1828c886f3ecb03c" }

def clockExternals : Externals := .recorded { recording with
  blake3 := recording.blake3 ++ [ahead, behind, furthest].map fun r =>
    ((hashInput r.toJson).toOption.getD [], ofHex r.recordHash)
  times := recording.times ++ [(ahead.tsWall, ⟨1786449604, 0⟩), (behind.tsWall, ⟨1786449602, 0⟩),
    (furthest.tsWall, ⟨1786449600, 0⟩)] }

theorem clean_drifting : CleanRun clockExternals "000000002D000000000000002D"
    [ahead.toJson, behind.toJson, furthest.toJson] := by
  decide +kernel

end Sample

theorem wall_drift_sample :
    ∃ views, ViewedAs [Sample.ahead.toJson, Sample.behind.toJson, Sample.furthest.toJson] views ∧
      ((∀ view ∈ views, view.recordType ≠ "clock_anomaly") →
        ∀ i j (hij : i ≤ j) (hj : j < views.length) s t,
          parseWall Sample.clockExternals views[i].tsWall = .ok s →
          parseWall Sample.clockExternals views[j].tsWall = .ok t →
          s.timestampMillis - WALL_TOLERANCE_MS * (j - i : Nat) ≤ t.timestampMillis) :=
  wall_drift Sample.clean_drifting

/-- A clean sequence of three records, the last of which is four seconds before the first. -/
theorem wall_drifts :
    CleanRun Sample.clockExternals "000000002D000000000000002D"
        [Sample.ahead.toJson, Sample.behind.toJson, Sample.furthest.toJson] ∧
      ViewedAs [Sample.ahead.toJson, Sample.behind.toJson, Sample.furthest.toJson]
        [Sample.ahead.view, Sample.behind.view, Sample.furthest.view] ∧
      (∀ view ∈ [Sample.ahead.view, Sample.behind.view, Sample.furthest.view],
        view.recordType ≠ "clock_anomaly") ∧
      Sample.ahead.view.wallMs Sample.clockExternals = some 1786449604000 ∧
      Sample.furthest.view.wallMs Sample.clockExternals = some 1786449600000 ∧
      (1786449600000 : Int) < 1786449604000 - WALL_TOLERANCE_MS := by
  refine ⟨Sample.clean_drifting, ?_, by decide, by decide, by decide, by decide⟩
  exact .cons (Record.view_of _) (.cons (Record.view_of _) (.cons (Record.view_of _) .nil))

end Sealr.Evidence
