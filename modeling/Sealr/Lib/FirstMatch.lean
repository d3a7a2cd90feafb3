import Mathlib.Data.List.Sort
import Mathlib.Order.Extension.Linear

/-!
# First matches

A list is searched for several keys, each time for the first element that answers to the key. Which
elements can be found when the list may be put in any order? A pick places what it finds before
everything else that answers to its key; some order finds all the picks exactly when these demands
are not circular (`exists_perm_finds`).
-/

namespace Sealr.Lib

variable {κ τ : Type*} (hits : κ → τ → Bool)

/-- The list finds these elements first. -/
def Finds (ts : List τ) (picks : List (κ × τ)) : Prop :=
  ∀ pick ∈ picks, ts.find? (hits pick.1) = some pick.2

/-- A pick wants `t` before `s`, which answers to the same key. -/
def Before (ts : List τ) (picks : List (κ × τ)) (t s : τ) : Prop :=
  ∃ key, (key, t) ∈ picks ∧ s ∈ ts ∧ hits key s = true ∧ s ≠ t

/-- The picks are elements that answer to their keys, and do not want each other first in a circle. -/
structure Pickable (ts : List τ) (picks : List (κ × τ)) : Prop where
  mem : ∀ pick ∈ picks, pick.2 ∈ ts ∧ hits pick.1 pick.2 = true
  acyclic : ∀ t, ¬Relation.TransGen (Before hits ts picks) t t

variable {hits} {ts ts' : List τ} {picks : List (κ × τ)}

theorem Finds.pickable (h : Finds hits ts picks) : Pickable hits ts picks := by
  classical
  constructor
  · intro pick hpick
    exact ⟨List.mem_of_find?_eq_some (h pick hpick), List.find?_some (h pick hpick)⟩
  · intro t hcycle
    -- along the demands the first place of an element grows
    have hgrows : ∀ a b, Before hits ts picks a b → ts.idxOf a < ts.idxOf b := by
      rintro a b ⟨key, hpick, hb, hhit, hne⟩
      obtain ⟨ha, before, after, rfl, hbefore⟩ := List.find?_eq_some_iff_append.mp (h _ hpick)
      have hmiss : ∀ c, hits key c = true → c ∉ before := by
        intro c hc hmem
        have hfalse := hbefore c hmem
        rw [hc] at hfalse
        cases hfalse
      rw [List.idxOf_append_of_notMem (hmiss a ha), List.idxOf_append_of_notMem (hmiss b hhit),
        List.idxOf_cons_self, List.idxOf_cons_ne _ hne.symm]
      omega
    have hlt : ∀ a b, Relation.TransGen (Before hits ts picks) a b →
        ts.idxOf a < ts.idxOf b := by
      intro a b hab
      induction hab with
      | single h => exact hgrows _ _ h
      | tail _ h ih => exact ih.trans (hgrows _ _ h)
    exact Nat.lt_irrefl _ (hlt t t hcycle)

/-- Elements in a linear order that keeps to the demands are found. -/
theorem finds_of_pairwise {r : τ → τ → Prop} [Std.Antisymm r] (hsorted : ts.Pairwise r)
    (hmem : ∀ pick ∈ picks, pick.2 ∈ ts ∧ hits pick.1 pick.2 = true)
    (hr : ∀ t s, Before hits ts picks t s → r t s) : Finds hits ts picks := by
  intro pick hpick
  obtain ⟨hin, hhit⟩ := hmem pick hpick
  cases hfind : ts.find? (hits pick.1) with
  | none => exact absurd hhit (List.find?_eq_none.mp hfind _ hin)
  | some u =>
    by_cases hu : u = pick.2
    · rw [hu]
    obtain ⟨huhit, before, after, hts, hbefore⟩ := List.find?_eq_some_iff_append.mp hfind
    have hlater : pick.2 ∈ after := by
      rw [hts] at hin
      rcases List.mem_append.mp hin with hin | hin
      · have hfalse := hbefore _ hin
        rw [hhit] at hfalse
        cases hfalse
      · exact (List.mem_cons.mp hin).resolve_left (Ne.symm hu)
    have hle : r u pick.2 := by
      rw [hts] at hsorted
      exact (List.pairwise_cons.mp (List.pairwise_append.mp hsorted).2.1).1 _ hlater
    have hge : r pick.2 u := hr _ _ ⟨pick.1, hpick, List.mem_of_find?_eq_some hfind, huhit, hu⟩
    exact congrArg some (Std.Antisymm.antisymm _ _ hle hge)

theorem before_congr (hperm : ts'.Perm ts) : Before hits ts' picks = Before hits ts picks := by
  funext t s
  simp only [Before, hperm.mem_iff]

/-- **Some order finds the picks exactly when they do not want each other first in a circle.** -/
theorem exists_perm_finds :
    (∃ ts', ts'.Perm ts ∧ Finds hits ts' picks) ↔ Pickable hits ts picks := by
  classical
  constructor
  · rintro ⟨ts', hperm, hfinds⟩
    obtain ⟨hmem, hacyclic⟩ := hfinds.pickable
    rw [before_congr hperm] at hacyclic
    refine ⟨fun pick hpick => ?_, hacyclic⟩
    rw [← hperm.mem_iff]
    exact hmem pick hpick
  · intro h
    have horder : IsPartialOrder τ (Relation.ReflTransGen (Before hits ts picks)) := by
      refine { refl := fun _ => .refl, trans := fun _ _ _ => .trans, antisymm := ?_ }
      intro a b hab hba
      rcases Relation.reflTransGen_iff_eq_or_transGen.mp hab with heq | hab
      · exact heq.symm
      · exact absurd (hab.trans_left hba) (h.acyclic a)
    obtain ⟨r, hlinear, hle⟩ := extend_partialOrder (Relation.ReflTransGen (Before hits ts picks))
    have hperm : (ts.insertionSort r).Perm ts := List.perm_insertionSort r ts
    have hsorted : (ts.insertionSort r).Pairwise r := List.pairwise_insertionSort r ts
    refine ⟨ts.insertionSort r, hperm, finds_of_pairwise hsorted ?_ ?_⟩
    · intro pick hpick
      rw [hperm.mem_iff]
      exact h.mem pick hpick
    · intro t s hts
      rw [before_congr hperm] at hts
      exact hle _ _ (.single hts)

end Sealr.Lib
