import Sealr.Evidence.Excerpts

/-!
# Restarts of the recorder

A recorder that restarts resumes from a head that it persisted, which may be an older one than that
of the last record it wrote. `Recorder` keeps every head a run has held, and a run may go back to
any of them at any time. The verifier tells the runs apart: it has findings that are not about
clocks exactly when some record was appended to another head than the newest one
(`restarts_found_out`).
-/

namespace Sealr.Evidence

open Lib StreamVerifier

/-- A recorder: its head, the heads held so far, and the records written. -/
structure Recorder where
  head : ChainHead
  held : List ChainHead
  written : List Record

namespace Recorder

inductive Op where
  | append (record : Record)
  /-- A restart from the head that was held at this place. -/
  | restart (place : Nat)

def start (E : Externals) (stream : Ulid) : Recorder :=
  ⟨.genesis E stream, [.genesis E stream], []⟩

/-- A head as it is opened again. -/
def reopen (E : Externals) (head : ChainHead) : ChainHead :=
  match head.lastSeq with
  | none => .genesis E head.streamId
  | some seq => .resume head.streamId head.headHash seq

def step (E : Externals) (rec : Recorder) : Op → Recorder
  | .append record =>
    match rec.head.append E record with
    | (.ok _, head, final) => ⟨head, rec.held ++ [head], rec.written ++ [final]⟩
    | (.error _, head, _) => { rec with head }
  | .restart place =>
    match rec.held[place]? with
    | some head => { rec with head := reopen E head }
    | none => rec

def run (E : Externals) (stream : Ulid) (ops : List Op) : Recorder :=
  ops.foldl (step E) (start E stream)

/-- The head is the newest one that was held. -/
def UpToDate (rec : Recorder) : Prop := rec.held.getLast? = some rec.head

/-- Every record that was appended was appended to the newest head. -/
def NeverForks (E : Externals) (stream : Ulid) (ops : List Op) : Prop :=
  ∀ before record, before ++ [.append record] <+: ops →
    ((run E stream before).head.append E record).1 = .ok () → (run E stream before).UpToDate

end Recorder

section

open Recorder

variable {E : Externals} {stream : Ulid} {rs : List Record} {r final : Record} {ops : List Op}
  {op : Op} {rec : Recorder} {head : ChainHead}

/-- The head behind some records. -/
def headAt (E : Externals) (stream : Ulid) (rs : List Record) : ChainHead :=
  ⟨stream, headHashOf E stream rs, rs.getLast?.map (·.seq)⟩

theorem run_concat : run E stream (ops ++ [op]) = step E (run E stream ops) op :=
  List.foldl_concat ..

theorem Recorder.NeverForks.init (h : NeverForks E stream (ops ++ [op])) :
    NeverForks E stream ops :=
  fun before record hpre => h before record (hpre.trans (List.prefix_append ops [op]))

/-- The records written are a chain, and the heads held are heads behind its beginnings. -/
structure InOrder (E : Externals) (stream : Ulid) (rec : Recorder) : Prop where
  chained : Chained E stream rec.written
  newest : rec.held.getLast? = some (headAt E stream rec.written)
  held : ∀ head ∈ rec.held, ∃ before, before <+: rec.written ∧ head = headAt E stream before
  head : ∃ before, before <+: rec.written ∧ rec.head = headAt E stream before

/-- The verifier has findings that are not about clocks. -/
def Troubled (E : Externals) (stream : Ulid) (rs : List Record) : Prop :=
  ∃ sv₀ fs sv, StreamVerifier.new E (E.ulidToString stream) = .ok sv₀ ∧
    feed E sv₀ (rs.map Record.toJson) = .ok (fs, sv) ∧ ∃ f ∈ fs, f.isClock = false

theorem reopen_headAt (before : List Record) :
    reopen E (headAt E stream before) = headAt E stream before := by
  unfold reopen headAt
  cases hlast : before.getLast? with
  | none => simp [ChainHead.genesis, headHashOf, hlast]
  | some r => rfl

theorem inOrder_start : InOrder E stream (start E stream) where
  chained := .nil
  newest := rfl
  held := fun _ hhead => ⟨[], List.prefix_rfl, List.mem_singleton.mp hhead⟩
  head := ⟨[], List.prefix_rfl, rfl⟩

/-- What a head behind the beginning of a chain appends. -/
theorem append_headAt {before : List Record} (hchain : Chained E stream before)
    (h : (headAt E stream before).append E r = (.ok (), head, final)) :
    Chained E stream (before ++ [final]) ∧ head = headAt E stream (before ++ [final]) := by
  have hinv : HeadInv E stream (headAt E stream before) before := ⟨rfl, rfl, rfl, hchain⟩
  have hnext := hinv.append h
  refine ⟨hnext.chained, ?_⟩
  cases head with
  | mk streamId headHash lastSeq =>
    rw [headAt, ChainHead.mk.injEq]
    exact ⟨hnext.streamId, hnext.headHash, hnext.lastSeq⟩

/-- An append to the newest head. -/
theorem InOrder.append (hinv : InOrder E stream rec) (hnew : rec.UpToDate)
    (h : rec.head.append E r = (.ok (), head, final)) :
    InOrder E stream ⟨head, rec.held ++ [head], rec.written ++ [final]⟩ := by
  have hhead : rec.head = headAt E stream rec.written :=
    Option.some.inj (hnew.symm.trans hinv.newest)
  rw [hhead] at h
  obtain ⟨hchain, rfl⟩ := append_headAt hinv.chained h
  refine ⟨hchain, List.getLast?_concat .., ?_, ⟨_, List.prefix_rfl, rfl⟩⟩
  intro head hmem
  rcases List.mem_append.mp hmem with hmem | hmem
  · obtain ⟨before, hpre, rfl⟩ := hinv.held head hmem
    exact ⟨before, hpre.trans (List.prefix_append _ _), rfl⟩
  · exact ⟨_, List.prefix_rfl, List.mem_singleton.mp hmem⟩

theorem InOrder.restart (hinv : InOrder E stream rec) (hhead : head ∈ rec.held) :
    InOrder E stream { rec with head := reopen E head } := by
  obtain ⟨before, hpre, rfl⟩ := hinv.held head hhead
  exact ⟨hinv.chained, hinv.newest, hinv.held, before, hpre, reopen_headAt before⟩

theorem verifyNext_self {sv : StreamVerifier} (h : r.computeHash E = .ok r.recordHash) :
    ∃ fs, verifyNext E sv r.toJson = .ok (fs, advance E sv r.view) ∧
      ∀ f ∈ placeFindings E sv r.view, f ∈ fs :=
  ⟨_, verifyNext_eq_ok.mpr ⟨r.view, _, r.view_of, h, rfl, rfl⟩,
    fun _ hf => List.mem_append_right _ hf⟩

/-- What was found is not taken back. -/
theorem Troubled.concat (h : Troubled E stream rs) (hhash : r.computeHash E = .ok r.recordHash) :
    Troubled E stream (rs ++ [r]) := by
  obtain ⟨sv₀, fs, sv, hnew, hfeed, f, hf, hclock⟩ := h
  obtain ⟨found, hnext, -⟩ := @verifyNext_self E r sv hhash
  have hmore : feed E sv₀ ((rs ++ [r]).map Record.toJson) =
      .ok (fs ++ found, advance E sv r.view) := by
    rw [List.map_append]
    exact feed_concat.mpr ⟨_, _, _, hfeed, hnext, rfl⟩
  exact ⟨sv₀, _, _, hnew, hmore, f, List.mem_append_left _ hf, hclock⟩

/-- A record behind the beginning of a chain has a number that the chain has passed. -/
theorem troubled_of_fork (hE : E.UlidRoundTrip) {before : List Record} (h : Chained E stream rs)
    (hpre : before <+: rs) (hne : before ≠ rs)
    (happ : (headAt E stream before).append E r = (.ok (), head, final)) :
    Troubled E stream (rs ++ [final]) := by
  obtain ⟨rest, rfl⟩ := hpre
  obtain ⟨hchain, -⟩ := append_headAt h.of_append happ
  obtain ⟨-, -, hseq, -, hhash⟩ := hchain.concat
  obtain ⟨sv₀, hnew, hinv⟩ := @new_fedInv E stream hE
  obtain ⟨fs, sv, hfeed, hfed, -, -⟩ := feed_chained hinv h
  obtain ⟨found, hnext, hplace⟩ := @verifyNext_self E final sv hhash
  obtain ⟨last, hlast⟩ : ∃ last, (before ++ rest).getLast? = some last := by
    obtain ⟨init, last, heq⟩ := (before ++ rest).eq_nil_or_concat'.resolve_left fun hnil => by
      simp_all
    exact ⟨last, by rw [heq, List.getLast?_concat]⟩
  have hpassed : final.seq ≤ last.seq := by
    have hcount := h.seq_last hlast
    have hrest : 0 < rest.length := List.length_pos_of_ne_nil fun hnil => by simp_all
    rw [List.length_append] at hcount
    rw [UInt64.le_iff_toNat_le]
    omega
  have hmem : ChainFinding.seqNotMonotonic last.seq final.seq ∈ placeFindings E sv final.view := by
    have hsv : sv.prev = some last.view := by rw [hfed.prev, hlast, Option.map_some]
    have hfinding : seqFindings last.view final.view = [.seqNotMonotonic last.seq final.seq] :=
      if_pos hpassed
    simp [placeFindings, hsv, hfinding]
  have hmore : feed E sv₀ ((before ++ rest ++ [final]).map Record.toJson) =
      .ok (fs ++ found, advance E sv final.view) := by
    rw [List.map_append]
    exact feed_concat.mpr ⟨_, _, _, hfeed, hnext, rfl⟩
  exact ⟨sv₀, _, _, hnew, hmore, _, List.mem_append_right _ (hplace _ hmem), rfl⟩

/-- What a run leaves: records in order as long as it never forked, trouble ever after. -/
structure RunLeaves (E : Externals) (stream : Ulid) (ops : List Op) (rec : Recorder) : Prop where
  hashed : ∀ r ∈ rec.written, r.computeHash E = .ok r.recordHash
  inOrder : NeverForks E stream ops → InOrder E stream rec
  troubled : ¬NeverForks E stream ops → Troubled E stream rec.written

/-- An operation that appends nothing forks nothing. -/
theorem Recorder.NeverForks.concat (h : NeverForks E stream ops)
    (hop : ∀ record, op = .append record →
      ((run E stream ops).head.append E record).1 = .ok () → (run E stream ops).UpToDate) :
    NeverForks E stream (ops ++ [op]) := by
  intro before record hpre happ
  rcases List.prefix_concat_iff.mp hpre with heq | hpre
  · obtain ⟨rfl, hlast⟩ := List.append_inj' heq rfl
    exact hop record (List.singleton_inj.mp hlast).symm happ
  · exact h before record hpre happ

theorem runLeaves (hE : E.UlidRoundTrip) (ops : List Op) :
    RunLeaves E stream ops (run E stream ops) := by
  induction ops using List.reverseRecOn with
  | nil =>
    refine ⟨by simp [run, start], fun _ => inOrder_start, fun h => absurd ?_ h⟩
    intro before record hpre
    simp at hpre
  | append_singleton ops op ih =>
    rw [run_concat]
    cases op with
    | restart place =>
      have hkeep : NeverForks E stream ops → NeverForks E stream (ops ++ [.restart place]) :=
        fun h => h.concat (by simp)
      cases hhead : (run E stream ops).held[place]? with
      | none =>
        simp only [step, hhead]
        exact ⟨ih.hashed, fun h => ih.inOrder h.init, fun h => ih.troubled (mt hkeep h)⟩
      | some head =>
        simp only [step, hhead]
        refine ⟨ih.hashed, fun h => ?_, fun h => ih.troubled (mt hkeep h)⟩
        exact (ih.inOrder h.init).restart (List.mem_of_getElem? hhead)
    | append record =>
      rcases happ : (run E stream ops).head.append E record with ⟨_ | _, head, final⟩
      · simp only [step, happ]
        obtain rfl := append_eq_error happ
        have hkeep : NeverForks E stream ops → NeverForks E stream (ops ++ [.append record]) := by
          refine fun h => h.concat fun r hr hok => ?_
          obtain rfl := Op.append.inj hr
          rw [happ] at hok
          cases hok
        exact ⟨ih.hashed, fun h => ih.inOrder h.init, fun h => ih.troubled (mt hkeep h)⟩
      · simp only [step, happ]
        have hhash : final.computeHash E = .ok final.recordHash := (append_eq_ok happ).2.2.2.1
        refine ⟨?_, fun h => ?_, fun h => ?_⟩
        · intro r hr
          rcases List.mem_append.mp hr with hr | hr
          · exact ih.hashed r hr
          · rwa [List.mem_singleton.mp hr]
        · exact (ih.inOrder h.init).append (h ops record List.prefix_rfl (by rw [happ])) happ
        · by_cases hforks : NeverForks E stream ops
          · have hold : ¬(run E stream ops).UpToDate := fun hnew =>
              h (hforks.concat fun _ _ _ => hnew)
            have hinv := ih.inOrder hforks
            obtain ⟨before, hpre, hhead⟩ := hinv.head
            refine troubled_of_fork hE hinv.chained hpre ?_ (hhead ▸ happ)
            rintro rfl
            exact hold (hinv.newest.trans (congrArg some hhead.symm))
          · exact (ih.troubled hforks).concat hhash

/-- **A record appended to an old head is found out**: over any run of a recorder that restarts from
heads it held, however old, the verifier has findings that are not about clocks exactly when some
record was appended to another head than the newest; a run without one, on steady clocks, has no
finding at all. -/
theorem restarts_found_out (hE : E.UlidRoundTrip) (stream : Ulid) (ops : List Op) :
    ∃ sv₀ fs sv, StreamVerifier.new E (E.ulidToString stream) = .ok sv₀ ∧
      feed E sv₀ ((run E stream ops).written.map Record.toJson) = .ok (fs, sv) ∧
      ((∀ f ∈ fs, f.isClock = true) ↔ NeverForks E stream ops) ∧
      (NeverForks E stream ops → SteadyClocks E (run E stream ops).written → fs = []) := by
  have hleaves := @runLeaves E stream hE ops
  by_cases hforks : NeverForks E stream ops
  · obtain ⟨sv₀, hnew, hinv⟩ := @new_fedInv E stream hE
    obtain ⟨fs, sv, hfeed, -, hclock, hsteady⟩ := feed_chained hinv (hleaves.inOrder hforks).chained
    exact ⟨sv₀, fs, sv, hnew, hfeed, iff_of_true hclock hforks, fun _ => hsteady⟩
  · obtain ⟨sv₀, fs, sv, hnew, hfeed, f, hf, hclock⟩ := hleaves.troubled hforks
    refine ⟨sv₀, fs, sv, hnew, hfeed, iff_of_false ?_ hforks, fun h => absurd h hforks⟩
    intro hall
    rw [hall f hf] at hclock
    cases hclock

end

/-- A record, a restart from the genesis, and another record. -/
def Sample.restarted : List Recorder.Op :=
  [.append opening, .restart 0, .append update]

open Sample in
/-- The second record forks the stream. -/
theorem restarts_found_out_forked : ∃ sv₀ fs sv,
    StreamVerifier.new externals (externals.ulidToString stream) = .ok sv₀ ∧
      feed externals sv₀ ((Recorder.run externals stream restarted).written.map Record.toJson) =
        .ok (fs, sv) ∧ ∃ f ∈ fs, f.isClock = false := by
  obtain ⟨sv₀, fs, sv, hnew, hfeed, hiff, -⟩ :=
    restarts_found_out (Externals.ulidRoundTrip_recorded recording) stream restarted
  have hforks : ¬Recorder.NeverForks externals stream restarted := by
    intro h
    have hnew := h [.append opening, .restart 0] update List.prefix_rfl (by decide +kernel)
    have hcount := congrArg (Option.map (·.lastSeq)) hnew
    revert hcount
    decide +kernel
  refine ⟨sv₀, fs, sv, hnew, hfeed, ?_⟩
  by_contra hno
  refine hforks (hiff.mp fun f hf => ?_)
  cases hclock : f.isClock with
  | true => rfl
  | false => exact absurd ⟨f, hf, hclock⟩ hno

end Sealr.Evidence
