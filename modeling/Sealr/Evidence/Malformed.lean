import Sealr.Lib.Fallible
import Sealr.Lib.Log
import Sealr.Evidence.Agreement

/-!
# Malformed records

`verify_next` as the method it is: it may fail between its reads and its writes, and a caller that
goes on after an error goes on with whatever state was left. It is held to `verifyNext`, which has
no state to leave behind; so a value errs by what it is, never by what came before it, and passing
over the malformed values of a feed is the same as never having met them.
-/

namespace Sealr.Evidence

open Lib

namespace StreamVerifier

/-- `verify_next` on `self`, every read and write in its place. -/
def verifyNextMut (E : Externals) (raw : Json) :
    Fallible StreamVerifier EvidenceError (List ChainFinding) := do
  let view ← Fallible.ofExcept (RecordView.fromValue E raw)
  let self ← get
  let ofStream := streamFindings self view
  let computed ← Fallible.ofExcept (computeHashOfValue E raw)
  let ofHash := hashFindings view computed
  let ofPlace := placeFindings E self view
  match parseWall E view.tsWall with
  | .ok wall => modify fun self => { self with prevWallMs := some wall.timestampMillis }
  | .error _ => pure ()
  modify fun self => { self with prev := some view }
  modify fun self => { self with recordsVerified := self.recordsVerified + 1 }
  return ofStream ++ ofHash ++ ofPlace

/-- One turn of a feed that goes on after an error: the findings of a refused value are none. -/
def feedTurn (E : Externals) (sv : StreamVerifier) (raw : Json) :
    StreamVerifier × List ChainFinding :=
  match (verifyNextMut E raw).exec sv with
  | (.ok findings, sv') => (sv', findings)
  | (.error _, sv') => (sv', [])

/-- Feed raw records in order, passing over those on which `verify_next` errs. -/
def feedSkipping (E : Externals) (sv : StreamVerifier) (raws : List Json) :
    StreamVerifier × List ChainFinding :=
  foldLog (feedTurn E) sv raws

/-- Does `verify_next` accept this value in this state? -/
def accepts (E : Externals) (sv : StreamVerifier) (raw : Json) : Bool :=
  ((verifyNextMut E raw).exec sv).1.toBool

/-! ## What a failure leaves -/

section Failure

variable {E : Externals} {sv sv' : StreamVerifier} {raw : Json}

/-- **A failure leaves the state as it was**, and a success is that of the verifier. -/
theorem exec_verifyNextMut (E : Externals) (sv : StreamVerifier) (raw : Json) :
    (verifyNextMut E raw).exec sv =
      match verifyNext E sv raw with
      | .ok (findings, sv') => (.ok findings, sv')
      | .error e => (.error e, sv) := by
  unfold verifyNextMut verifyNext
  rw [exec_bind, exec_ofExcept]
  cases RecordView.fromValue E raw with
  | error e => rfl
  | ok view =>
    simp only [exec_bind, exec_get, exec_ofExcept]
    cases computeHashOfValue E raw with
    | error e => rfl
    | ok computed =>
      cases hwall : parseWall E view.tsWall with
      | ok wall =>
        simp only [exec_bind, exec_modify, exec_pure]
        simp only [bind, Except.bind, pure, Except.pure, advance, hwall]
      | error e =>
        simp only [exec_bind, exec_modify, exec_pure]
        simp only [bind, Except.bind, pure, Except.pure, advance, hwall]

/-- A value errs by what it is: the state is not looked at before the last error. -/
theorem verifyNext_eq_error {e : EvidenceError} :
    verifyNext E sv raw = .error e ↔ RecordView.fromValue E raw = .error e ∨
      (∃ view, RecordView.fromValue E raw = .ok view) ∧ computeHashOfValue E raw = .error e := by
  unfold verifyNext
  cases RecordView.fromValue E raw with
  | error e' => simp [bind, Except.bind]
  | ok view =>
    cases computeHashOfValue E raw with
    | error e' => simp [bind, Except.bind]
    | ok computed => simp [bind, Except.bind, pure, Except.pure]

/-- The same error in every state. -/
theorem exec_fst_eq_error {e : EvidenceError} (sv sv' : StreamVerifier) :
    ((verifyNextMut E raw).exec sv).1 = .error e ↔
      ((verifyNextMut E raw).exec sv').1 = .error e := by
  have hany : ∀ sv, ((verifyNextMut E raw).exec sv).1 = .error e ↔
      verifyNext E sv raw = .error e := by
    intro sv
    rw [exec_verifyNextMut]
    cases verifyNext E sv raw with
    | error e' => simp
    | ok r => simp
  rw [hany, hany, verifyNext_eq_error, verifyNext_eq_error]

theorem accepts_eq_false : accepts E sv raw = false ↔ ∃ e, verifyNext E sv raw = .error e := by
  rw [accepts, exec_verifyNextMut]
  cases verifyNext E sv raw with
  | error e => simp [Except.toBool]
  | ok r => simp [Except.toBool]

theorem accepts_eq_true :
    accepts E sv raw = true ↔ ∃ findings sv', verifyNext E sv raw = .ok (findings, sv') := by
  rw [accepts, exec_verifyNextMut]
  cases verifyNext E sv raw with
  | error e => simp [Except.toBool]
  | ok r =>
    simp only [Except.toBool, Except.ok.injEq, true_iff]
    exact ⟨r.1, r.2, rfl⟩

theorem accepts_congr (sv sv' : StreamVerifier) : accepts E sv raw = accepts E sv' raw := by
  rw [Bool.eq_iff_iff, ← not_iff_not, Bool.not_eq_true, Bool.not_eq_true, accepts_eq_false,
    accepts_eq_false]
  exact exists_congr fun e => verifyNext_eq_error.trans verifyNext_eq_error.symm

end Failure

/-! ## A feed with malformed values -/

variable {E : Externals}

/-- A feed of accepted values passes over none. -/
theorem feed_eq_ok_of_accepts {sv₀ : StreamVerifier} {raws : List Json}
    (h : ∀ raw ∈ raws, accepts E sv₀ raw = true) (sv : StreamVerifier) :
    feed E sv raws = .ok ((feedSkipping E sv raws).2, (feedSkipping E sv raws).1) := by
  induction raws generalizing sv with
  | nil => rfl
  | cons raw raws ih =>
    have hraw : accepts E sv raw = true := (accepts_congr sv sv₀).trans (h raw List.mem_cons_self)
    obtain ⟨found, sv', hnext⟩ := accepts_eq_true.mp hraw
    have hturn : feedTurn E sv raw = (sv', found) := by
      rw [feedTurn, exec_verifyNextMut, hnext]
    have hrest := ih (fun r hr => h r (List.mem_cons_of_mem _ hr)) sv'
    have hskip : feedSkipping E sv (raw :: raws) =
        ((feedSkipping E sv' raws).1, found ++ (feedSkipping E sv' raws).2) := by
      simp only [feedSkipping, foldLog, hturn]
    rw [hskip]
    exact feed_cons.mpr ⟨found, _, sv', hnext, hrest, rfl⟩

/-- Every record of a feed is counted. -/
theorem recordsVerified_feed {sv last : StreamVerifier} {raws : List Json}
    {found : List ChainFinding} (h : feed E sv raws = .ok (found, last)) :
    last.recordsVerified = sv.recordsVerified + raws.length := by
  induction raws generalizing sv found with
  | nil =>
    obtain ⟨-, rfl⟩ := Prod.mk.inj (Except.ok.inj h)
    rfl
  | cons raw raws ih =>
    obtain ⟨_, _, mid, hnext, hrest, -⟩ := feed_cons.mp h
    obtain ⟨view, _, -, -, -, rfl⟩ := verifyNext_eq_ok.mp hnext
    have hcount : (advance E sv view).recordsVerified = sv.recordsVerified + 1 := rfl
    rw [ih hrest, hcount, List.length_cons]
    omega

/-- Malformed values leave no trace in a feed. -/
theorem feedSkipping_filter (sv₀ sv : StreamVerifier) (raws : List Json) :
    feedSkipping E sv (raws.filter (accepts E sv₀)) = feedSkipping E sv raws := by
  refine foldLog_filter _ (fun s raw hraw => ?_) sv raws
  obtain ⟨e, he⟩ := accepts_eq_false.mp ((accepts_congr s sv₀).trans hraw)
  rw [feedTurn, exec_verifyNextMut, he]

/-- **Malformed records leave the verifier untouched**: a value errs in one state with the error it
has in every other, and a feed that passes over the values that err finds what the feed of the
accepted values finds, and ends in its state, with the accepted values counted. What a fresh
verifier accepts is accepted in any state, so `sv₀` is left open. -/
theorem feed_accepted (sv₀ sv : StreamVerifier) (raws : List Json) :
    (∀ raw e, ((verifyNextMut E raw).exec sv).1 = .error e ↔
        ((verifyNextMut E raw).exec sv₀).1 = .error e) ∧
      ∃ found last, feed E sv (raws.filter (accepts E sv₀)) = .ok (found, last) ∧
        feedSkipping E sv raws = (last, found) ∧
        last.recordsVerified =
          sv.recordsVerified + (raws.filter (accepts E sv₀)).length := by
  refine ⟨fun raw e => exec_fst_eq_error sv sv₀, ?_⟩
  have haccepted : ∀ raw ∈ raws.filter (accepts E sv₀), accepts E sv₀ raw = true :=
    fun raw hraw => (List.mem_filter.mp hraw).2
  have hfeed := feed_eq_ok_of_accepts haccepted sv
  rw [feedSkipping_filter] at hfeed
  exact ⟨_, _, hfeed, rfl, recordsVerified_feed hfeed⟩

end StreamVerifier

end Sealr.Evidence
