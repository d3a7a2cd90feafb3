import Mathlib.Data.List.Chain
import Mathlib.Tactic.Linarith

/-!
# Runs

What a relation between the neighbours of a list says about elements that are far apart.
`run_induction` is the rule; from it a loss that is bounded at each step adds up to at most the
number of steps (`drift_le`), a measure that ascends leaves no number out exactly when its ends are
as far apart as they stand (`consecutive_iff`), and inside a group of one key counters and orders
carry over (`count_in_group`, `le_in_group`).

Groups are contiguous exactly when no key comes back (`freshKeys_iff`). Where steps cannot be
confused backwards, a run is known from its end (`infix_of_steps`, `suffix_of_steps`).
-/

namespace Sealr.Lib

variable {α κ : Type*} {R : α → α → Prop} {xs : List α}

/-- An element of a run is the first one or the end of a step. -/
theorem head_or_step (h : xs.IsChain R) {x : α} (hx : x ∈ xs) :
    xs.head? = some x ∨ ∃ a ∈ xs, R a x := by
  obtain ⟨before, after, rfl⟩ := List.append_of_mem hx
  rcases before.eq_nil_or_concat' with rfl | ⟨init, a, rfl⟩
  · exact .inl rfl
  · right
    rw [List.append_assoc] at h
    exact ⟨a, by simp, (List.isChain_append_cons_cons.mp h).2.1⟩

/-- What holds at one place of a run and what its steps pass on holds at every later place. -/
theorem run_induction (h : xs.IsChain R) {P : Nat → α → Prop} {i j : Nat} (hij : i ≤ j)
    (hj : j < xs.length) (hinit : P i xs[i])
    (hstep : ∀ k (hk : k + 1 < xs.length), i ≤ k → k < j → R xs[k] xs[k + 1] → P k xs[k] →
      P (k + 1) xs[k + 1]) : P j xs[j] := by
  induction j, hij using Nat.le_induction with
  | base => exact hinit
  | succ k hik ih =>
    have hbefore : P k xs[k] := ih (by omega) hinit fun m hm him hmk => hstep m hm him (by omega)
    exact hstep k hj hik (Nat.lt_succ_self k) (h.getElem k hj) hbefore

/-- A measure that every step shows and that falls by at most `c` a step: from where it is first
shown on, it falls by at most `c` times the distance. -/
theorem drift_le {f : α → Option Int} {c : Int}
    (h : xs.IsChain fun a b => ∃ y, f b = some y ∧ ∀ x, f a = some x → x - c ≤ y) {i j : Nat}
    (hij : i ≤ j) (hj : j < xs.length) {x : Int} (hx : f xs[i] = some x) :
    ∃ y, f xs[j] = some y ∧ x - c * (j - i : Nat) ≤ y := by
  refine run_induction h (P := fun k a => ∃ y, f a = some y ∧ x - c * (k - i : Nat) ≤ y) hij hj
    ⟨x, hx, by simp⟩ ?_
  rintro k _ hik - ⟨z, hz, hfall⟩ ⟨y, hy, hinv⟩
  have hstep : y - c ≤ z := hfall y hy
  have hcount : ((k + 1 - i : Nat) : Int) = (k - i : Nat) + 1 := by omega
  refine ⟨z, hz, ?_⟩
  rw [hcount, mul_add, mul_one]
  linarith

/-- A measure that ascends rises by at least the distance. -/
theorem rise_le {f : α → Nat} (h : xs.IsChain fun a b => f a < f b) {i j : Nat} (hij : i ≤ j)
    (hj : j < xs.length) : f xs[i] + (j - i) ≤ f xs[j] := by
  refine run_induction h (P := fun k a => f xs[i] + (k - i) ≤ f a) hij hj (by simp) ?_
  intro k _ _ _ hlt hinv
  omega

/-- Elements of an ascending run are known by their measure. -/
theorem eq_of_rise {f : α → Nat} (h : xs.IsChain fun a b => f a < f b) {a b : α} (ha : a ∈ xs)
    (hb : b ∈ xs) (heq : f a = f b) : a = b := by
  obtain ⟨i, hi, rfl⟩ := List.getElem_of_mem ha
  obtain ⟨j, hj, rfl⟩ := List.getElem_of_mem hb
  obtain rfl : i = j := by
    rcases Nat.le_total i j with hle | hle
    · have := rise_le h hle hj
      omega
    · have := rise_le h hle hi
      omega
  rfl

/-- The first element of an ascending run is the least. -/
theorem head_le_of_rise {f : α → Nat} (h : xs.IsChain fun a b => f a < f b) {a b : α}
    (ha : a ∈ xs) (hhead : xs.head? = some b) : f b ≤ f a := by
  obtain ⟨i, hi, rfl⟩ := List.getElem_of_mem ha
  obtain ⟨hpos, rfl⟩ := List.getElem?_eq_some_iff.mp (List.head?_eq_getElem? ▸ hhead)
  have := rise_le h (Nat.zero_le i) hi
  omega

/-- There are numbers enough between the ends of an ascending measure. -/
theorem span_le {f : α → Nat} (h : xs.IsChain fun a b => f a < f b) {a b : α}
    (hhead : xs.head? = some a) (hlast : xs.getLast? = some b) : f a + xs.length ≤ f b + 1 := by
  obtain ⟨hpos, rfl⟩ := List.getElem?_eq_some_iff.mp (List.head?_eq_getElem? ▸ hhead)
  obtain ⟨hend, rfl⟩ := List.getElem?_eq_some_iff.mp (List.getLast?_eq_getElem? ▸ hlast)
  have hrise := rise_le h (Nat.zero_le _) hend
  omega

/-- **An ascending measure leaves no number out** exactly when its last is as far from its first as
it stands. -/
theorem consecutive_iff {f : α → Nat} (h : xs.IsChain fun a b => f a < f b) {a b : α}
    (hhead : xs.head? = some a) (hlast : xs.getLast? = some b) :
    xs.map f = List.range' (f a) xs.length ↔ f b + 1 = f a + xs.length := by
  obtain ⟨hpos, rfl⟩ := List.getElem?_eq_some_iff.mp (List.head?_eq_getElem? ▸ hhead)
  obtain ⟨hend, rfl⟩ := List.getElem?_eq_some_iff.mp (List.getLast?_eq_getElem? ▸ hlast)
  constructor
  · intro hrange
    have hget := List.getElem_of_eq hrange (i := xs.length - 1) (by simpa using hend)
    rw [List.getElem_map, List.getElem_range'] at hget
    omega
  · intro hends
    refine List.ext_getElem (by simp) fun i hi _ => ?_
    rw [List.length_map] at hi
    have hbefore := rise_le h (Nat.zero_le i) hi
    have hbehind := rise_le h (Nat.le_sub_one_of_lt hi) hend
    rw [List.getElem_map, List.getElem_range']
    omega

/-! ## Steps backwards -/

/-- **What may be taken out of a run**: when no element is reached from two others and nothing leads
to the first one, only contiguous pieces of a run are runs. -/
theorem infix_of_steps (h : xs.IsChain R)
    (hback : ∀ a ∈ xs, ∀ b ∈ xs, ∀ c ∈ xs, R a c → R b c → a = b)
    (hfirst : ∀ a ∈ xs, ∀ c ∈ xs.head?, ¬R a c) {part : List α} (hpart : ∀ a ∈ part, a ∈ xs)
    (hrun : part.IsChain R) : part <:+: xs := by
  induction part with
  | nil => exact List.nil_infix
  | cons a part ih =>
    have ha : a ∈ xs := hpart a List.mem_cons_self
    cases part with
    | nil =>
      obtain ⟨before, after, rfl⟩ := List.append_of_mem ha
      exact ⟨before, after, by simp⟩
    | cons b part =>
      obtain ⟨hstep, hrest⟩ := List.isChain_cons_cons.mp hrun
      have hb : b ∈ xs := hpart b (by simp)
      obtain ⟨before, after, hxs⟩ := ih (fun x hx => hpart x (List.mem_cons_of_mem a hx)) hrest
      -- what stands before `b` leads to it, so it is `a`
      rcases before.eq_nil_or_concat' with rfl | ⟨init, p, rfl⟩
      · exact absurd hstep (hfirst a ha b (by simp [← hxs]))
      · have hchain : (init ++ p :: b :: (part ++ after)).IsChain R := by
          have heq : init ++ p :: b :: (part ++ after) = xs := by simp [← hxs]
          rwa [heq]
        have hp : p ∈ xs := by simp [← hxs]
        obtain rfl := hback p hp a ha b hb (List.isChain_append_cons_cons.mp hchain).2.1 hstep
        exact ⟨init, after, by simp [← hxs]⟩

/-- **Two runs with one end**: when steps to related elements come from related elements, the
shorter run is related to the end of the longer one. -/
theorem suffix_of_steps {S : α → α → Prop} {ys : List α} {x y : α} (hxs : (xs ++ [x]).IsChain R)
    (hys : (ys ++ [y]).IsChain R)
    (hback : ∀ a ∈ xs, ∀ b ∈ ys, ∀ c ∈ xs ++ [x], ∀ d ∈ ys ++ [y], S c d → R a c → R b d → S a b)
    (hend : S x y) (hlen : xs.length ≤ ys.length) :
    ∃ before after, ys = before ++ after ∧ List.Forall₂ S xs after := by
  induction xs using List.reverseRecOn generalizing ys x y with
  | nil => exact ⟨ys, [], by simp, .nil⟩
  | append_singleton xs a ih =>
    rcases ys.eq_nil_or_concat' with rfl | ⟨ys, b, rfl⟩
    · simp at hlen
    · rw [List.append_assoc] at hxs hys
      have hax : R a x := (List.isChain_append_cons_cons.mp hxs).2.1
      have hby : R b y := (List.isChain_append_cons_cons.mp hys).2.1
      have hab : S a b := hback a (by simp) b (by simp) x (by simp) y (by simp) hend hax hby
      have hinit : (xs ++ [a]).IsChain R := by
        have hpre : xs ++ [a] <+: xs ++ ([a] ++ [x]) := ⟨[x], by simp⟩
        exact hxs.prefix hpre
      have hinit' : (ys ++ [b]).IsChain R := by
        have hpre : ys ++ [b] <+: ys ++ ([b] ++ [y]) := ⟨[y], by simp⟩
        exact hys.prefix hpre
      have hrest : ∀ a' ∈ xs, ∀ b' ∈ ys, ∀ c ∈ xs ++ [a], ∀ d ∈ ys ++ [b], S c d → R a' c →
          R b' d → S a' b' := by
        intro a' ha' b' hb' c hc d hd
        exact hback a' (List.mem_append_left _ ha') b' (List.mem_append_left _ hb') c
          (List.mem_append_left _ hc) d (List.mem_append_left _ hd)
      have hlen' : xs.length ≤ ys.length := by simpa using hlen
      obtain ⟨before, after, rfl, hall⟩ := ih hinit hinit' hrest hab hlen'
      exact ⟨before, after ++ [b], by simp, List.rel_append hall (.cons hab .nil)⟩

/-! ## Groups -/

/-- No key comes back: a step to another key is a step to a new one. -/
def FreshKeys (key : α → κ) (xs : List α) : Prop :=
  ∀ i k (hik : i ≤ k) (hk : k + 1 < xs.length),
    key xs[k] ≠ key xs[k + 1] → key xs[i] ≠ key xs[k + 1]

/-- Between two elements of one key there are only elements of that key. -/
def Contiguous (key : α → κ) (xs : List α) : Prop :=
  ∀ i k j (hik : i ≤ k) (hkj : k ≤ j) (hj : j < xs.length),
    key xs[i] = key xs[j] → key xs[k] = key xs[i]

section Groups

variable {key : α → κ}

/-- **Groups are contiguous exactly when no key comes back.** -/
theorem freshKeys_iff : FreshKeys key xs ↔ Contiguous key xs := by
  constructor
  · intro hfresh i k j hik hkj hj heq
    by_contra hne
    -- a key that was left at `k` is not met again
    have hgone : key xs[j] ≠ key xs[i] := by
      have hall : xs.IsChain fun _ _ => True := List.isChain_iff_getElem.mpr fun _ _ => trivial
      refine run_induction hall (P := fun _ a => key a ≠ key xs[i]) hkj hj hne ?_
      intro m hm hkm _ _ hm_ne hback
      have hchange : key xs[m] ≠ key xs[m + 1] := by
        rw [hback]
        exact hm_ne
      exact hfresh i m (by omega) hm hchange hback.symm
    exact hgone heq.symm
  · intro hcontig i k hik hk hchange hback
    have hsame := hcontig i k (k + 1) hik (by omega) hk hback
    exact hchange (hsame.trans hback)

/-- In a run that counts inside a group, numbers are as far apart as places. -/
theorem count_in_group {n : α → Nat} (hcontig : Contiguous key xs)
    (h : xs.IsChain fun a b => key a = key b → n b = n a + 1) {i j : Nat} (hij : i ≤ j)
    (hj : j < xs.length) (heq : key xs[i] = key xs[j]) : n xs[j] = n xs[i] + (j - i) := by
  refine run_induction h (P := fun k a => n a = n xs[i] + (k - i)) hij hj (by simp) ?_
  intro k hk hik hkj hcount hinv
  have hhere := hcontig i k j hik (by omega) hj heq
  have hnext := hcontig i (k + 1) j (by omega) hkj hj heq
  rw [hcount (hhere.trans hnext.symm), hinv]
  omega

/-- In a run that does not fall inside a group, no later element of the group is lower. -/
theorem le_in_group {β : Type*} [Preorder β] {f : α → β} (hcontig : Contiguous key xs)
    (h : xs.IsChain fun a b => key a = key b → f a ≤ f b) {i j : Nat} (hij : i ≤ j)
    (hj : j < xs.length) (heq : key xs[i] = key xs[j]) : f xs[i] ≤ f xs[j] := by
  refine run_induction h (P := fun _ a => f xs[i] ≤ f a) hij hj le_rfl ?_
  intro k hk hik hkj hle hinv
  have hhere := hcontig i k j hik (by omega) hj heq
  have hnext := hcontig i (k + 1) j (by omega) hkj hj heq
  exact hinv.trans (hle (hhere.trans hnext.symm))

end Groups

end Sealr.Lib
