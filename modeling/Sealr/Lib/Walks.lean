import Mathlib.Data.List.Chain
import Mathlib.Tactic.Common

/-!
# Bounded walks

A loop that follows one step function from a point, at most so many times, until it arrives or a
step fails. It succeeds exactly along a trail that is short enough, and the trail is unique; what
every step of a trail establishes, the whole trail has.
-/

namespace Sealr.Lib

variable {α ε : Type*}

/-- Where a step leads: it has arrived, or it goes on to another point. -/
inductive Step (α : Type*) where
  | arrived
  | on (next : α)

/-- Follow the steps, at most so many. -/
def walk (step : α → Except ε (Step α)) (tooDeep : ε) : Nat → α → Except ε Unit
  | 0, _ => .error tooDeep
  | hops + 1, a =>
    match step a with
    | .error e => .error e
    | .ok .arrived => .ok ()
    | .ok (.on b) => walk step tooDeep hops b

/-- The points behind the first that the steps lead to before they arrive. -/
inductive Trail (step : α → Except ε (Step α)) : α → List α → Prop where
  | arrived {a : α} (h : step a = .ok .arrived) : Trail step a []
  | on {a b : α} {path : List α} (h : step a = .ok (.on b)) (rest : Trail step b path) :
      Trail step a (b :: path)

variable {step : α → Except ε (Step α)} {tooDeep : ε} {a : α} {path path' : List α}

/-- **A walk succeeds exactly along a trail of fewer points than it has steps.** -/
theorem walk_eq_ok {hops : Nat} :
    walk step tooDeep hops a = .ok () ↔ ∃ path, Trail step a path ∧ path.length < hops := by
  induction hops generalizing a with
  | zero => simp [walk]
  | succ hops ih =>
    unfold walk
    cases hstep : step a with
    | error e =>
      refine iff_of_false (by simp) ?_
      rintro ⟨path, htrail, -⟩
      cases htrail with
      | arrived h => cases h.symm.trans hstep
      | on h _ => cases h.symm.trans hstep
    | ok s =>
      cases s with
      | arrived => exact iff_of_true rfl ⟨[], .arrived hstep, Nat.zero_lt_succ hops⟩
      | on b =>
        dsimp only
        rw [ih]
        constructor
        · rintro ⟨path, htrail, hlt⟩
          exact ⟨b :: path, .on hstep htrail, Nat.succ_lt_succ hlt⟩
        · rintro ⟨path, htrail, hlt⟩
          cases htrail with
          | arrived h => cases h.symm.trans hstep
          | on h rest =>
            obtain rfl := Step.on.inj (Except.ok.inj (hstep.symm.trans h))
            exact ⟨_, rest, Nat.lt_of_succ_lt_succ hlt⟩

/-- The first step of a trail succeeds. -/
theorem Trail.first (h : Trail step a path) :
    step a = .ok .arrived ∨ ∃ b, step a = .ok (.on b) := by
  cases h with
  | arrived h => exact .inl h
  | on h _ => exact .inr ⟨_, h⟩

/-- There is one trail at most. -/
theorem Trail.unique (h : Trail step a path) (h' : Trail step a path') : path = path' := by
  induction h generalizing path' with
  | arrived h =>
    cases h' with
    | arrived => rfl
    | on g _ => cases h.symm.trans g
  | on h _ ih =>
    cases h' with
    | arrived g => cases h.symm.trans g
    | on g rest =>
      obtain rfl := Step.on.inj (Except.ok.inj (h.symm.trans g))
      rw [ih rest]

/-- What every step that goes on establishes between two points, and what arriving establishes of
the last one. -/
theorem Trail.isChain {R : α → α → Prop} {z : α} (hon : ∀ a b, step a = .ok (.on b) → R a b)
    (harrived : ∀ a, step a = .ok .arrived → R a z) (h : Trail step a path) :
    List.IsChain R (a :: (path ++ [z])) := by
  induction h with
  | arrived h => exact List.isChain_pair.mpr (harrived _ h)
  | on h _ ih => exact List.IsChain.cons_cons (hon _ _ h) ih

/-- What a step establishes of the point it goes on to, all points of the trail have. -/
theorem Trail.forall_mem {P : α → Prop} (hon : ∀ a b, step a = .ok (.on b) → P b)
    (h : Trail step a path) : ∀ b ∈ path, P b := by
  induction h with
  | arrived => exact List.forall_mem_nil P
  | on h _ ih => exact List.forall_mem_cons.mpr ⟨hon _ _ h, ih⟩

/-- The last step of a trail arrives. -/
theorem Trail.last (h : Trail step a path) :
    step ((a :: path).getLast (List.cons_ne_nil a path)) = .ok .arrived := by
  induction h with
  | arrived h => exact h
  | on _ _ ih =>
    rw [List.getLast_cons (List.cons_ne_nil _ _)]
    exact ih

end Sealr.Lib
