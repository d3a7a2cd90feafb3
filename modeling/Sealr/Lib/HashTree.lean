import Sealr.Lib.Bytes

/-!
# Hash trees with separated leaf and node inputs

A binary tree over byte strings, hashed the RFC 6962 way: a leaf input starts with `0x00`, a node
input with `0x01`. The root binds the whole tree, its shape included: two trees with one root are
equal, or two inputs hashed on the way to the two roots collide (`Tree.eq_or_collides`).

An audit path leads from a leaf to the root. The paths of a tree ascend to its root
(`Tree.ascend_of_mem_paths`), and nothing else does without a collision, however long the path and
wherever its siblings stand (`Tree.mem_paths_or_collides`).
-/

namespace Sealr.Lib

/-- A binary tree with byte strings at its leaves. -/
inductive Tree where
  | leaf (data : Bytes)
  | node (left right : Tree)
  deriving DecidableEq, Repr

namespace Tree

/-- The data at the leaves, from left to right. -/
def leaves : Tree → List Bytes
  | leaf data => [data]
  | node l r => l.leaves ++ r.leaves

section Root

variable {D : Type*} (H : Bytes → D) (e : D → Bytes)

/-- The input hashed for a leaf. -/
def leafInput (data : Bytes) : Bytes := 0x00 :: data

/-- The input hashed for a node over its children's digests. -/
def nodeInput (l r : D) : Bytes := 0x01 :: (e l ++ e r)

/-- The digest of a tree. -/
def root : Tree → D
  | leaf data => H (leafInput data)
  | node l r => H (nodeInput e (root l) (root r))

/-- Every byte string hashed while computing `root`. -/
def inputs : Tree → List Bytes
  | leaf data => [leafInput data]
  | node l r => nodeInput e (root H e l) (root H e r) :: (inputs l ++ inputs r)

/-- One step up an audit path: the digest of the sibling, and whether it is on the left. -/
abbrev Step (D : Type*) := D × Bool

/-- The input hashed for one step. -/
def stepInput (hash : D) (step : Step D) : Bytes :=
  if step.2 then nodeInput e step.1 hash else nodeInput e hash step.1

/-- Follow an audit path from a digest. -/
def climb (hash : D) (steps : List (Step D)) : D :=
  steps.foldl (fun h step => H (stepInput e h step)) hash

/-- Every byte string hashed while following an audit path. -/
def climbInputs (hash : D) : List (Step D) → List Bytes
  | [] => []
  | step :: steps => stepInput e hash step :: climbInputs (H (stepInput e hash step)) steps

/-- The digest that a leaf's data and an audit path lead to. -/
def ascend (data : Bytes) (steps : List (Step D)) : D := climb H e (H (leafInput data)) steps

/-- Every byte string hashed on the way. -/
def ascendInputs (data : Bytes) (steps : List (Step D)) : List Bytes :=
  leafInput data :: climbInputs H e (H (leafInput data)) steps

/-- The leaves of a tree from left to right, each with its audit path from the leaf up. -/
def paths : Tree → List (Bytes × List (Step D))
  | leaf data => [(data, [])]
  | node l r =>
    (paths l).map (fun p => (p.1, p.2 ++ [(root H e r, false)])) ++
      (paths r).map fun p => (p.1, p.2 ++ [(root H e l, true)])

end Root

variable {D : Type*} {H : Bytes → D} {e : D → Bytes}

theorem leafInput_injective : Function.Injective leafInput := by
  intro a b h
  exact (List.cons.inj h).2

theorem leafInput_ne_nodeInput (data : Bytes) (l r : D) : leafInput data ≠ nodeInput e l r := by
  intro h
  exact absurd (List.cons.inj h).1 (by decide)

/-- Digests of one length can be read back off a node input. -/
theorem nodeInput_inj {n : Nat} (hinj : Function.Injective e) (hlen : ∀ d, (e d).length = n)
    {l r l' r' : D} (h : nodeInput e l r = nodeInput e l' r') : l = l' ∧ r = r' := by
  have happ : e l ++ e r = e l' ++ e r' := (List.cons.inj h).2
  obtain ⟨hl, hr⟩ := List.append_inj happ (by rw [hlen, hlen])
  exact ⟨hinj hl, hinj hr⟩

/-- **The root binds the tree.** -/
theorem eq_or_collides {n : Nat} (hinj : Function.Injective e)
    (hlen : ∀ d, (e d).length = n) (t u : Tree) (h : t.root H e = u.root H e) :
    t = u ∨ Collides H (t.inputs H e) (u.inputs H e) := by
  induction t generalizing u with
  | leaf a =>
    cases u with
    | leaf b =>
      have hc := Lib.eq_or_collides (S := [leafInput a]) (T := [leafInput b])
        List.mem_cons_self List.mem_cons_self h
      exact hc.imp (fun e => by rw [leafInput_injective e]) id
    | node l r =>
      -- a leaf input never equals a node input, so equal digests are a collision
      have hne := leafInput_ne_nodeInput (e := e) a (l.root H e) (r.root H e)
      exact .inr ⟨_, List.mem_cons_self, _, List.mem_cons_self, hne, h⟩
  | node l r ihl ihr =>
    cases u with
    | leaf b =>
      have hne := leafInput_ne_nodeInput (e := e) b (l.root H e) (r.root H e)
      exact .inr ⟨_, List.mem_cons_self, _, List.mem_cons_self, hne.symm, h⟩
    | node l' r' =>
      have hc := Lib.eq_or_collides (S := (node l r).inputs H e)
        (T := (node l' r').inputs H e) List.mem_cons_self List.mem_cons_self h
      rcases hc with he | hc
      · obtain ⟨hl, hr⟩ := nodeInput_inj hinj hlen he
        rcases ihl l' hl with rfl | hcl
        · rcases ihr r' hr with rfl | hcr
          · exact .inl rfl
          · refine .inr (hcr.mono ?_ ?_) <;> intro x hx <;> simp [inputs, hx]
        · refine .inr (hcl.mono ?_ ?_) <;> intro x hx <;> simp [inputs, hx]
      · exact .inr hc

/-! ## Audit paths -/

section Paths

variable {t : Tree} {data : Bytes} {hash : D} {steps : List (Step D)} {step : Step D}

theorem map_fst_paths (t : Tree) : (t.paths H e).map Prod.fst = t.leaves := by
  induction t with
  | leaf data => rfl
  | node l r ihl ihr =>
    simp only [paths, leaves, List.map_append, List.map_map, ← ihl, ← ihr]
    rfl

theorem climb_concat :
    climb H e hash (steps ++ [step]) = H (stepInput e (climb H e hash steps) step) := by
  simp [climb]

theorem ascend_concat :
    ascend H e data (steps ++ [step]) = H (stepInput e (ascend H e data steps) step) :=
  climb_concat

theorem climbInputs_concat : climbInputs H e hash (steps ++ [step]) =
    climbInputs H e hash steps ++ [stepInput e (climb H e hash steps) step] := by
  induction steps generalizing hash with
  | nil => rfl
  | cons s steps ih => simp [climbInputs, ih, climb]

theorem ascendInputs_concat : ascendInputs H e data (steps ++ [step]) =
    ascendInputs H e data steps ++ [stepInput e (ascend H e data steps) step] := by
  simp [ascendInputs, climbInputs_concat, ascend]

/-- Every step hashes a node input. -/
theorem exists_stepInput_eq (hash : D) (step : Step D) :
    ∃ l r, stepInput e hash step = nodeInput e l r := by
  unfold stepInput
  split_ifs
  · exact ⟨_, _, rfl⟩
  · exact ⟨_, _, rfl⟩

/-- **The audit paths of a tree lead to its root.** -/
theorem ascend_of_mem_paths {p : Bytes × List (Step D)} (h : p ∈ t.paths H e) :
    ascend H e p.1 p.2 = t.root H e := by
  induction t generalizing p with
  | leaf data =>
    obtain rfl := List.mem_singleton.mp h
    rfl
  | node l r ihl ihr =>
    rcases List.mem_append.mp h with h | h
    · obtain ⟨q, hq, rfl⟩ := List.mem_map.mp h
      rw [ascend_concat, ihl hq]
      rfl
    · obtain ⟨q, hq, rfl⟩ := List.mem_map.mp h
      rw [ascend_concat, ihr hq]
      rfl

/-- **Only the audit paths of a tree lead to its root**: whatever does is one of them, or an input
hashed on the way and an input of the tree collide. -/
theorem mem_paths_or_collides {n : Nat} (hinj : Function.Injective e)
    (hlen : ∀ d, (e d).length = n) (h : ascend H e data steps = t.root H e) :
    (data, steps) ∈ t.paths H e ∨ Collides H (ascendInputs H e data steps) (t.inputs H e) := by
  -- down the tree, taking the path apart from its end
  induction t generalizing steps with
  | leaf data' =>
    rcases steps.eq_nil_or_concat with rfl | ⟨steps, step, rfl⟩
    · have hc := Lib.eq_or_collides (S := [leafInput data]) (T := [leafInput data'])
        List.mem_cons_self List.mem_cons_self h
      refine hc.imp (fun heq => ?_) id
      rw [leafInput_injective heq]
      exact List.mem_cons_self
    · obtain ⟨l, r, hstep⟩ := exists_stepInput_eq (e := e) (ascend H e data steps) step
      rw [List.concat_eq_append, ascend_concat] at h
      refine .inr ⟨_, ?_, _, List.mem_cons_self, ?_, h⟩
      · simp [ascendInputs_concat]
      · rw [hstep]
        exact (leafInput_ne_nodeInput data' l r).symm
  | node l r ihl ihr =>
    rcases steps.eq_nil_or_concat with rfl | ⟨steps, step, rfl⟩
    · refine .inr ⟨_, List.mem_cons_self, _, List.mem_cons_self, ?_, h⟩
      exact leafInput_ne_nodeInput data (l.root H e) (r.root H e)
    · rw [List.concat_eq_append] at h ⊢
      rw [ascend_concat] at h
      have hmono : ∀ {T}, Collides H (ascendInputs H e data steps) T → T ⊆ (node l r).inputs H e →
          Collides H (ascendInputs H e data (steps ++ [step])) ((node l r).inputs H e) := by
        intro T hcol hT
        refine hcol.mono (fun x hx => ?_) hT
        rw [ascendInputs_concat]
        exact List.mem_append_left _ hx
      have hc := Lib.eq_or_collides (S := ascendInputs H e data (steps ++ [step]))
        (T := (node l r).inputs H e) (by simp [ascendInputs_concat]) List.mem_cons_self h
      rcases hc with heq | hcol
      · obtain ⟨sibling, left⟩ := step
        cases left with
        | false =>
          obtain ⟨hl, rfl⟩ := nodeInput_inj hinj hlen heq
          rcases ihl hl with hmem | hcol
          · exact .inl (List.mem_append_left _ (List.mem_map.mpr ⟨_, hmem, rfl⟩))
          · exact .inr (hmono hcol fun x hx => by simp [inputs, hx])
        | true =>
          obtain ⟨rfl, hr⟩ := nodeInput_inj hinj hlen heq
          rcases ihr hr with hmem | hcol
          · exact .inl (List.mem_append_right _ (List.mem_map.mpr ⟨_, hmem, rfl⟩))
          · exact .inr (hmono hcol fun x hx => by simp [inputs, hx])
      · exact .inr hcol

end Paths

end Tree

end Sealr.Lib
