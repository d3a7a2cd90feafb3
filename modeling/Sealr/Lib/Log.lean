import Mathlib.Data.List.Basic
import Mathlib.Data.List.Forall2
import Mathlib.Tactic.Common

/-!
# Loops that report

A loop whose turns change a state and report entries is a fold that returns the last state and
everything reported, in order. `foldLog_induction` is its invariant rule: what a quiet turn
preserves, a quiet loop preserves, where a turn is quiet when all it reports satisfies `P`.
-/

namespace Sealr.Lib

variable {σ α φ : Type*}

/-- Run `step` over a list, collecting what it reports. -/
def foldLog (step : σ → α → σ × List φ) (s : σ) : List α → σ × List φ
  | [] => (s, [])
  | x :: xs =>
    let r := step s x
    let rs := foldLog step r.1 xs
    (rs.1, r.2 ++ rs.2)

theorem foldLog_append (step : σ → α → σ × List φ) (s : σ) (xs ys : List α) :
    foldLog step s (xs ++ ys) =
      ((foldLog step (foldLog step s xs).1 ys).1,
        (foldLog step s xs).2 ++ (foldLog step (foldLog step s xs).1 ys).2) := by
  induction xs generalizing s with
  | nil => simp [foldLog]
  | cons x xs ih => simp [foldLog, ih]

/-- What one turn preserves along the elements passed so far, the loop preserves. -/
theorem foldLog_induction {step : σ → α → σ × List φ} {P : φ → Prop}
    {I : List α → σ → Prop} {s : σ} {xs : List α} (hinit : I [] s)
    (hstep : ∀ pre x s, I pre s → pre ++ [x] <+: xs → (∀ f ∈ (step s x).2, P f) →
      I (pre ++ [x]) (step s x).1)
    (hquiet : ∀ f ∈ (foldLog step s xs).2, P f) : I xs (foldLog step s xs).1 := by
  suffices hgen : ∀ suf pre s, I pre s → pre ++ suf = xs →
      (∀ f ∈ (foldLog step s suf).2, P f) → I (pre ++ suf) (foldLog step s suf).1 by
    simpa using hgen xs [] s hinit rfl hquiet
  intro suf
  induction suf with
  | nil =>
    intro pre s hinv _ _
    simpa [foldLog] using hinv
  | cons x suf ih =>
    intro pre s hinv hpre hq
    have happ : pre ++ x :: suf = (pre ++ [x]) ++ suf := by simp
    have hturn := hstep pre x s hinv ⟨suf, by rw [← happ, hpre]⟩ fun f hf =>
      hq f (List.mem_append_left _ hf)
    have hrest := ih (pre ++ [x]) (step s x).1 hturn (by rw [← happ, hpre]) fun f hf =>
      hq f (List.mem_append_right _ hf)
    rw [happ]
    exact hrest

/-- An invariant of every turn, whatever it reports. -/
theorem foldLog_invariant {step : σ → α → σ × List φ} {I : List α → σ → Prop} {s : σ}
    (xs : List α) (hinit : I [] s)
    (hstep : ∀ pre x s, I pre s → pre ++ [x] <+: xs → I (pre ++ [x]) (step s x).1) :
    I xs (foldLog step s xs).1 :=
  foldLog_induction (P := fun _ => True) hinit (fun pre x s h hx _ => hstep pre x s h hx)
    fun _ _ => trivial

/-- What every turn reports under an invariant, the loop reports. -/
theorem foldLog_forall {step : σ → α → σ × List φ} {Q : φ → Prop} {I : List α → σ → Prop} {s : σ}
    (xs : List α) (hinit : I [] s)
    (hstep : ∀ pre x s, I pre s → pre ++ [x] <+: xs →
      I (pre ++ [x]) (step s x).1 ∧ ∀ f ∈ (step s x).2, Q f) :
    ∀ f ∈ (foldLog step s xs).2, Q f := by
  suffices hgen : ∀ suf pre s, I pre s → pre ++ suf = xs → ∀ f ∈ (foldLog step s suf).2, Q f by
    exact hgen xs [] s hinit rfl
  intro suf
  induction suf with
  | nil =>
    intro pre s _ _ f hf
    cases hf
  | cons x suf ih =>
    intro pre s hinv hpre f hf
    have happ : pre ++ x :: suf = (pre ++ [x]) ++ suf := by simp
    have hturn := hstep pre x s hinv ⟨suf, by rw [← happ, hpre]⟩
    rcases List.mem_append.mp hf with hf | hf
    · exact hturn.2 f hf
    · exact ih (pre ++ [x]) (step s x).1 hturn.1 (by rw [← happ, hpre]) f hf

/-- What every turn reports in any state, the loop reports. -/
theorem foldLog_all {step : σ → α → σ × List φ} {Q : φ → Prop}
    (hstep : ∀ s x, ∀ f ∈ (step s x).2, Q f) (s : σ) (xs : List α) :
    ∀ f ∈ (foldLog step s xs).2, Q f :=
  foldLog_forall (I := fun _ _ => True) xs trivial fun _ x s _ _ => ⟨trivial, hstep s x⟩

/-- Every element has its turn, in the state that the elements before it left, and what it reports
then the loop reports. -/
theorem exists_turn (step : σ → α → σ × List φ) (s : σ) {x : α} {xs : List α} (hx : x ∈ xs) :
    ∃ pre, ∀ f ∈ (step (foldLog step s pre).1 x).2, f ∈ (foldLog step s xs).2 := by
  obtain ⟨pre, suf, rfl⟩ := List.append_of_mem hx
  refine ⟨pre, fun f hf => ?_⟩
  rw [foldLog_append]
  exact List.mem_append_right _ (List.mem_append_left _ hf)

/-- Loops whose turns agree on what is visited. -/
theorem foldLog_congr {step step' : σ → α → σ × List φ} {xs : List α}
    (h : ∀ x ∈ xs, ∀ s, step s x = step' s x) (s : σ) :
    foldLog step s xs = foldLog step' s xs := by
  induction xs generalizing s with
  | nil => rfl
  | cons x xs ih =>
    have hx := h x List.mem_cons_self s
    have hxs := ih (fun y hy => h y (List.mem_cons_of_mem _ hy)) (step' s x).1
    simp only [foldLog, hx, hxs]

/-- Turns that do nothing may be left out. -/
theorem foldLog_filter {step : σ → α → σ × List φ} (p : α → Bool)
    (hskip : ∀ s x, p x = false → step s x = (s, [])) (s : σ) (xs : List α) :
    foldLog step s (xs.filter p) = foldLog step s xs := by
  induction xs generalizing s with
  | nil => rfl
  | cons x xs ih =>
    cases hx : p x with
    | true => simp only [List.filter_cons, hx, if_true, foldLog, ih]
    | false => simp [foldLog, hx, ih, hskip s x hx]

/-- A loop over the images of a list. -/
theorem foldLog_map {β : Type*} (step : σ → β → σ × List φ) (g : α → β) (s : σ) (xs : List α) :
    foldLog step s (xs.map g) = foldLog (fun s x => step s (g x)) s xs := by
  induction xs generalizing s with
  | nil => rfl
  | cons x xs ih => simp only [List.map_cons, foldLog, ih]

/-- Turns that report the same in every state that a turn can leave. -/
theorem foldLog_reports_of {step : σ → α → σ × List φ} {g : α → List φ} {I : σ → Prop}
    (hkeep : ∀ s x, I s → I (step s x).1) (hstep : ∀ s x, I s → (step s x).2 = g x) {s : σ}
    (hs : I s) (xs : List α) : (foldLog step s xs).2 = xs.flatMap g := by
  induction xs generalizing s with
  | nil => rfl
  | cons x xs ih => simp only [foldLog, List.flatMap_cons, hstep s x hs, ih (hkeep s x hs)]

/-- Turns that report the same in every state. -/
theorem foldLog_reports {step : σ → α → σ × List φ} {g : α → List φ}
    (hstep : ∀ s x, (step s x).2 = g x) (s : σ) (xs : List α) :
    (foldLog step s xs).2 = xs.flatMap g :=
  foldLog_reports_of (I := fun _ => True) (fun _ _ _ => trivial) (fun s x _ => hstep s x) trivial xs

/-- The last pair of two related lists. -/
theorem forall₂_concat_left {β : Type*} {R : α → β → Prop} {xs : List α} {x : α} {ys : List β}
    (h : List.Forall₂ R (xs ++ [x]) ys) :
    ∃ ys' y, List.Forall₂ R xs ys' ∧ R x y ∧ ys = ys' ++ [y] := by
  have hrev : List.Forall₂ R (x :: xs.reverse) ys.reverse := by
    simpa using List.forall₂_reverse_iff.mpr h
  obtain ⟨y, ys', hxy, hrest, heq⟩ := List.forall₂_cons_left_iff.mp hrev
  refine ⟨ys'.reverse, y, ?_, hxy, ?_⟩
  · simpa using List.forall₂_reverse_iff.mpr hrest
  · rw [← List.reverse_reverse ys, heq, List.reverse_cons]

/-- Two related lists, the left one in two parts. -/
theorem forall₂_append_left {β : Type*} {R : α → β → Prop} {xs ys : List α} {zs : List β}
    (h : List.Forall₂ R (xs ++ ys) zs) :
    ∃ us vs, List.Forall₂ R xs us ∧ List.Forall₂ R ys vs ∧ zs = us ++ vs := by
  refine ⟨zs.take xs.length, zs.drop xs.length, ?_, ?_, (List.take_append_drop _ _).symm⟩
  · simpa using List.forall₂_take xs.length h
  · simpa using List.forall₂_drop xs.length h

/-- Neighbours in a list with one element more. -/
theorem pair_infix_concat {a b x : α} {xs : List α} :
    [a, b] <:+: xs ++ [x] ↔ [a, b] <:+: xs ∨ (xs.getLast? = some a ∧ b = x) := by
  constructor
  · rintro ⟨s, t, h⟩
    rcases t.eq_nil_or_concat with rfl | ⟨t, y, rfl⟩
    · right
      have h' : (s ++ [a]) ++ [b] = xs ++ [x] := by simpa using h
      obtain ⟨rfl, hb⟩ := List.append_inj' h' rfl
      exact ⟨by simp, List.singleton_inj.mp hb⟩
    · left
      have h' : (s ++ [a, b] ++ t) ++ [y] = xs ++ [x] := by simpa using h
      exact ⟨s, t, (List.append_inj' h' rfl).1⟩
  · rintro (⟨s, t, rfl⟩ | ⟨hlast, rfl⟩)
    · exact ⟨s, t ++ [x], by simp⟩
    · obtain ⟨init, rfl⟩ := List.getLast?_eq_some_iff.mp hlast
      exact ⟨init, [], by simp⟩

end Sealr.Lib
