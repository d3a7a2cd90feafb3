import Mathlib.Tactic.Basic

/-!
# Methods that may fail

A method with `&mut self` that returns a `Result` is a computation with state and errors whose state
survives the error. `Succeeds x s a s'` says that `x` returns `a` and turns `s` into `s'`, and
`Fails x s e s'` that it fails with `e` and leaves `s'`; the rules below take a computation apart
that does, and `succeeds_foldlM` is the invariant rule of a loop.
-/

namespace Sealr.Lib

variable {σ ε α β : Type}

/-- Methods on a state `σ` with errors `ε`. -/
abbrev Fallible (σ ε α : Type) := ExceptT ε (StateM σ) α

/-- The result and the state that is left. -/
def Fallible.exec (x : Fallible σ ε α) (s : σ) : Except ε α × σ := StateT.run (ExceptT.run x) s

/-- The method returns, with this value and in this state. -/
def Succeeds (x : Fallible σ ε α) (s : σ) (a : α) (s' : σ) : Prop := x.exec s = (.ok a, s')

/-- The method fails, with this error and in this state. -/
def Fails (x : Fallible σ ε α) (s : σ) (e : ε) (s' : σ) : Prop := x.exec s = (.error e, s')

/-- A method that only passes a result on. -/
def Fallible.ofExcept (r : Except ε α) : Fallible σ ε α :=
  match r with
  | .ok a => pure a
  | .error e => throw e

theorem exec_bind (x : Fallible σ ε α) (f : α → Fallible σ ε β) (s : σ) :
    (x >>= f).exec s =
      match x.exec s with
      | (.ok a, s') => (f a).exec s'
      | (.error e, s') => (.error e, s') := by
  unfold Fallible.exec
  simp only [ExceptT.run_bind, StateT.run_bind]
  change (match (StateT.run (ExceptT.run x) s).1 with
    | .ok a => ExceptT.run (f a)
    | .error e => pure (.error e)).run (StateT.run (ExceptT.run x) s).2 = _
  cases hx : StateT.run (ExceptT.run x) s with
  | mk r s' =>
    cases r with
    | ok a => rfl
    | error e => rfl

@[simp]
theorem exec_pure (a : α) (s : σ) : (pure a : Fallible σ ε α).exec s = (.ok a, s) := rfl

@[simp]
theorem exec_throw (e : ε) (s : σ) : (throw e : Fallible σ ε α).exec s = (.error e, s) := rfl

@[simp]
theorem exec_get (s : σ) : (get : Fallible σ ε σ).exec s = (.ok s, s) := rfl

@[simp]
theorem exec_modify (f : σ → σ) (s : σ) :
    (modify f : Fallible σ ε Unit).exec s = (.ok (), f s) := rfl

@[simp]
theorem exec_ofExcept (r : Except ε α) (s : σ) :
    (Fallible.ofExcept r : Fallible σ ε α).exec s = (r, s) := by
  cases r with
  | ok a => rfl
  | error e => rfl

@[simp]
theorem succeeds_pure {a b : α} {s s' : σ} :
    Succeeds (pure a : Fallible σ ε α) s b s' ↔ b = a ∧ s' = s := by
  change ((Except.ok a, s) : Except ε α × σ) = (.ok b, s') ↔ _
  simp [eq_comm]

@[simp]
theorem succeeds_throw {e : ε} {b : α} {s s' : σ} :
    ¬Succeeds (throw e : Fallible σ ε α) s b s' := by
  change ¬((Except.error e, s) : Except ε α × σ) = (.ok b, s')
  simp

@[simp]
theorem succeeds_bind {x : Fallible σ ε α} {f : α → Fallible σ ε β} {s s'' : σ} {b : β} :
    Succeeds (x >>= f) s b s'' ↔ ∃ a s', Succeeds x s a s' ∧ Succeeds (f a) s' b s'' := by
  unfold Succeeds
  rw [exec_bind]
  cases hx : x.exec s with
  | mk r s' =>
    cases r with
    | ok a =>
      simp only [Prod.mk.injEq, Except.ok.injEq]
      constructor
      · intro h
        exact ⟨a, s', ⟨rfl, rfl⟩, h⟩
      · intro h
        obtain ⟨_, _, ⟨rfl, rfl⟩, h⟩ := h
        exact h
    | error e => simp

@[simp]
theorem succeeds_get {s s' t : σ} :
    Succeeds (get : Fallible σ ε σ) s t s' ↔ t = s ∧ s' = s := by
  change ((Except.ok s, s) : Except ε σ × σ) = (.ok t, s') ↔ _
  simp [eq_comm]

@[simp]
theorem succeeds_modify {f : σ → σ} {u : Unit} {s s' : σ} :
    Succeeds (modify f : Fallible σ ε Unit) s u s' ↔ s' = f s := by
  change ((Except.ok (), f s) : Except ε Unit × σ) = (.ok u, s') ↔ _
  simp [eq_comm]

@[simp]
theorem succeeds_ofExcept {r : Except ε α} {a : α} {s s' : σ} :
    Succeeds (Fallible.ofExcept r : Fallible σ ε α) s a s' ↔ r = .ok a ∧ s' = s := by
  cases r with
  | ok b => simp [Fallible.ofExcept, eq_comm]
  | error e => simp [Fallible.ofExcept]

@[simp]
theorem fails_pure {a : α} {e : ε} {s s' : σ} : ¬Fails (pure a : Fallible σ ε α) s e s' := by
  unfold Fails
  simp

@[simp]
theorem fails_throw {e e' : ε} {s s' : σ} :
    Fails (throw e : Fallible σ ε α) s e' s' ↔ e' = e ∧ s' = s := by
  unfold Fails
  simp [eq_comm]

@[simp]
theorem fails_get {e : ε} {s s' : σ} : ¬Fails (get : Fallible σ ε σ) s e s' := by
  unfold Fails
  simp

@[simp]
theorem fails_modify {f : σ → σ} {e : ε} {s s' : σ} :
    ¬Fails (modify f : Fallible σ ε Unit) s e s' := by
  unfold Fails
  simp

@[simp]
theorem fails_ofExcept {r : Except ε α} {e : ε} {s s' : σ} :
    Fails (Fallible.ofExcept r : Fallible σ ε α) s e s' ↔ r = .error e ∧ s' = s := by
  unfold Fails
  simp [eq_comm]

/-- A sequence fails in its first part, or in its second behind the first. -/
@[simp]
theorem fails_bind {x : Fallible σ ε α} {f : α → Fallible σ ε β} {s s'' : σ} {e : ε} :
    Fails (x >>= f) s e s'' ↔
      Fails x s e s'' ∨ ∃ a s', Succeeds x s a s' ∧ Fails (f a) s' e s'' := by
  unfold Fails Succeeds
  rw [exec_bind]
  cases hx : x.exec s with
  | mk r s' =>
    cases r with
    | ok a =>
      constructor
      · exact fun h => .inr ⟨a, s', rfl, h⟩
      · rintro (h | ⟨_, _, h, hf⟩)
        · cases h
        · cases h
          exact hf
    | error e' =>
      simp only [Prod.mk.injEq, Except.error.injEq]
      constructor
      · exact fun h => .inl h
      · rintro (h | ⟨_, _, ⟨h, -⟩, -⟩)
        · exact h
        · cases h

theorem mapError_eq_ok {ε' : Type} {r : Except ε α} {f : ε → ε'} {a : α} :
    r.mapError f = .ok a ↔ r = .ok a := by
  cases r with
  | ok b => constructor <;> rintro ⟨⟩ <;> rfl
  | error e => constructor <;> rintro ⟨⟩

/-- A method that returns, returns something. -/
theorem exists_succeeds {x : Fallible σ ε α} {s : σ} (h : (x.exec s).1.toBool) :
    ∃ a s', Succeeds x s a s' := by
  unfold Succeeds
  cases hx : x.exec s with
  | mk r s' =>
    rw [hx] at h
    cases r with
    | ok a => exact ⟨a, s', rfl⟩
    | error e => cases h

/-- What every turn of a loop preserves holds at its end. -/
theorem succeeds_foldlM {f : β → α → Fallible σ ε β} {I : List α → β → σ → Prop} {xs : List α}
    {b b' : β} {s s' : σ} (h : Succeeds (xs.foldlM f b) s b' s') (hinit : I [] b s)
    (hstep : ∀ pre x b s b' s', I pre b s → x ∈ xs → Succeeds (f b x) s b' s' →
      I (pre ++ [x]) b' s') : I xs b' s' := by
  suffices hgen : ∀ suf pre b s, I pre b s → suf ⊆ xs → Succeeds (suf.foldlM f b) s b' s' →
      I (pre ++ suf) b' s' by
    exact hgen xs [] b s hinit (List.Subset.refl xs) h
  intro suf
  induction suf with
  | nil =>
    intro pre b s hinv _ hrun
    rw [List.foldlM_nil, succeeds_pure] at hrun
    obtain ⟨rfl, rfl⟩ := hrun
    rwa [List.append_nil]
  | cons x suf ih =>
    intro pre b s hinv hsub hrun
    rw [List.foldlM_cons, succeeds_bind] at hrun
    obtain ⟨b₁, s₁, hx, hrun⟩ := hrun
    have hstepped := hstep pre x b s b₁ s₁ hinv (hsub List.mem_cons_self) hx
    have hrest := ih (pre ++ [x]) b₁ s₁ hstepped
      (fun y hy => hsub (List.mem_cons_of_mem x hy)) hrun
    rwa [List.append_assoc] at hrest

end Sealr.Lib
