import Sealr.Lib.Lexemes

/-!
# The outline of an object

A one-pass reader of lexemes that keeps the nesting depth and what may come next, refuses what can
not be part of a value, and notes the names that have a string as their value at the outermost
level of an object (`run_object`). What it notes survives any change of the lexemes between two
places by which a number or a literal name is joined, cut or dropped (`outline_scalar`): such a
change cannot move a string from one name to another.
-/

namespace Sealr.Lib.Lexer

/-! ## The reader -/

/-- What the reader distinguishes. -/
inductive Kind where
  | scalar
  | str (s : String)
  | opens
  | closes
  | comma
  | colon
  | space
  deriving DecidableEq

def Lexeme.kind {ν : Type} : Lexeme ν → Kind
  | .str s => .str s
  | .sep c =>
    if c = '[' ∨ c = '\x7b' then .opens
    else if c = ']' ∨ c = '\x7d' then .closes
    else if c = ',' then .comma
    else if c = ':' then .colon
    else .space
  | _ => .scalar

/-- What may come next: a value or a name; a separator behind a string that may be a name; the
value of a name; a separator behind a value. -/
inductive Slot where
  | item
  | name (k : String)
  | value (k : String)
  | done
  deriving DecidableEq

/-- Where the reader stands. -/
structure Spot where
  depth : Int
  slot : Slot
  deriving DecidableEq

/-- One lexeme: the next place, and what is noted there. -/
def Spot.step : Spot → Kind → Option (Spot × List (String × String))
  | ⟨d, .item⟩, .scalar => some (⟨d, .done⟩, [])
  | ⟨d, .value _⟩, .scalar => some (⟨d, .done⟩, [])
  | ⟨d, .item⟩, .str k => some (⟨d, .name k⟩, [])
  | ⟨d, .value k⟩, .str s => some (⟨d, .done⟩, if d = 1 then [(k, s)] else [])
  | ⟨d, .item⟩, .opens => some (⟨d + 1, .item⟩, [])
  | ⟨d, .value _⟩, .opens => some (⟨d + 1, .item⟩, [])
  | ⟨d, .item⟩, .closes => some (⟨d - 1, .done⟩, [])
  | ⟨d, .name _⟩, .closes => some (⟨d - 1, .done⟩, [])
  | ⟨d, .done⟩, .closes => some (⟨d - 1, .done⟩, [])
  | ⟨d, .name _⟩, .comma => some (⟨d, .item⟩, [])
  | ⟨d, .done⟩, .comma => some (⟨d, .item⟩, [])
  | ⟨d, .name k⟩, .colon => some (⟨d, .value k⟩, [])
  | _, _ => none

/-- Read lexemes in order. -/
def Spot.run {ν : Type} : Spot → List (Lexeme ν) → Option (Spot × List (String × String))
  | σ, [] => some (σ, [])
  | σ, l :: ls =>
    match σ.step l.kind with
    | none => none
    | some (ρ, e) => (ρ.run ls).map fun p => (p.1, e ++ p.2)

section Run

variable {ν : Type} {σ ρ τ : Spot} {l : Lexeme ν} {ls ms : List (Lexeme ν)}
  {e e' : List (String × String)}

theorem run_cons : σ.run (l :: ls) = some (τ, e) ↔ ∃ ρ e₁ e₂, σ.step l.kind = some (ρ, e₁) ∧
    ρ.run ls = some (τ, e₂) ∧ e = e₁ ++ e₂ := by
  rw [Spot.run]
  cases h : σ.step l.kind with
  | none => simp
  | some p =>
    obtain ⟨ρ, e₁⟩ := p
    simp only [Option.map_eq_some_iff, Prod.exists, Prod.mk.injEq, Option.some.injEq]
    constructor
    · rintro ⟨τ, e₂, h, rfl, rfl⟩
      exact ⟨ρ, e₁, e₂, ⟨rfl, rfl⟩, h, rfl⟩
    · rintro ⟨_, _, e₂, ⟨rfl, rfl⟩, h, rfl⟩
      exact ⟨τ, e₂, h, rfl, rfl⟩

theorem run_append : σ.run (ls ++ ms) = some (τ, e) ↔ ∃ ρ e₁ e₂, σ.run ls = some (ρ, e₁) ∧
    ρ.run ms = some (τ, e₂) ∧ e = e₁ ++ e₂ := by
  induction ls generalizing σ e with
  | nil =>
    constructor
    · intro h
      exact ⟨σ, [], e, rfl, h, rfl⟩
    · rintro ⟨ρ, e₁, e₂, h₁, h₂, rfl⟩
      obtain ⟨rfl, rfl⟩ := Prod.mk.inj (Option.some.inj h₁)
      exact h₂
  | cons l ls ih =>
    rw [List.cons_append, run_cons]
    constructor
    · rintro ⟨ρ, e₁, e₂, hstep, hrun, rfl⟩
      obtain ⟨ρ', e₃, e₄, h₃, h₄, rfl⟩ := ih.mp hrun
      exact ⟨ρ', e₁ ++ e₃, e₄, run_cons.mpr ⟨ρ, e₁, e₃, hstep, h₃, rfl⟩, h₄, by simp⟩
    · rintro ⟨ρ', e₁, e₄, h₁, h₄, rfl⟩
      obtain ⟨ρ, e₂, e₃, hstep, h₃, rfl⟩ := run_cons.mp h₁
      exact ⟨ρ, e₂, e₃ ++ e₄, hstep, ih.mpr ⟨ρ', e₃, e₄, h₃, h₄, rfl⟩, by simp⟩

/-- The reader sees kinds only. -/
theorem run_congr (h : ls.map Lexeme.kind = ms.map Lexeme.kind) (σ : Spot) :
    σ.run ls = σ.run ms := by
  induction ls generalizing ms σ with
  | nil =>
    obtain rfl : ms = [] := by simpa using h.symm
    rfl
  | cons l ls ih =>
    cases ms with
    | nil => simp at h
    | cons m ms =>
      obtain ⟨hkind, hrest⟩ := List.cons.inj h
      simp only [Spot.run, hkind]
      split
      · rfl
      · rw [ih hrest]

/-! ## Objects -/

/-- Where the reader stands behind a value. -/
def Slot.behind : Slot → Value → Slot
  | .item, .string s => .name s
  | _, _ => .done

/-- What is noted of a value. -/
def Slot.notes (d : Int) : Slot → Value → List (String × String)
  | .value k, .string s => if d = 1 then [(k, s)] else []
  | _, _ => []

/-- A value may come next. -/
def Slot.ready : Slot → Bool
  | .item => true
  | .value _ => true
  | _ => false

/-- The members whose value is a string. -/
def stringMembers (ns : List (String × Value)) : List (String × String) :=
  ns.filterMap fun m => m.2.asStr.map fun s => (m.1, s)

theorem mem_stringMembers {ns : List (String × Value)} {k s : String} :
    (k, s) ∈ stringMembers ns ↔ (k, .string s) ∈ ns := by
  simp only [stringMembers, List.mem_filterMap, Option.map_eq_some_iff, Prod.mk.injEq, Prod.exists]
  constructor
  · rintro ⟨k', v, hm, s', hs, rfl, rfl⟩
    cases v <;> simp [Value.asStr] at hs
    rwa [← hs]
  · intro h
    exact ⟨k, _, h, s, rfl, rfl, rfl⟩

/-- Put notes in front. -/
def noting (e : List (String × String)) (r : Option (Spot × List (String × String))) :
    Option (Spot × List (String × String)) :=
  r.map fun p => (p.1, e ++ p.2)

@[simp] theorem noting_nil (r : Option (Spot × List (String × String))) : noting [] r = r := by
  cases r <;> rfl

@[simp] theorem noting_noting (r : Option (Spot × List (String × String))) :
    noting e (noting e' r) = noting (e ++ e') r := by
  cases r <;> simp [noting]

theorem run_cons_of_step {rest : List (Lexeme ν)} (h : σ.step l.kind = some (ρ, e)) :
    σ.run (l :: rest) = noting e (ρ.run rest) := by
  rw [Spot.run, h]
  rfl

/-- The reader goes over a value and notes it. -/
def ReadsOver (v : Value) : Prop :=
  ∀ (d : Int) (slot : Slot) (rest : List (Lexeme Number)), 1 ≤ d → slot.ready = true →
    (Spot.mk d slot).run (lexemes v ++ rest) =
      noting (slot.notes d v) ((Spot.mk d (slot.behind v)).run rest)

theorem behind_item (v : Value) : Slot.item.behind v = .done ∨ ∃ s, Slot.item.behind v = .name s := by
  cases v with
  | string s => exact .inr ⟨s, rfl⟩
  | _ => exact .inl rfl

theorem run_items {xs : List Value} (h : ∀ x ∈ xs, ReadsOver x) {d : Int} (hd : 1 ≤ d)
    (rest : List (Lexeme Number)) :
    (Spot.mk d .item).run (lexItems xs ++ .sep ']' :: rest) = (Spot.mk (d - 1) .done).run rest := by
  induction xs with
  | nil => exact (run_cons_of_step rfl).trans (noting_nil _)
  | cons x xs ih =>
    have hx := h x List.mem_cons_self
    have hxs := ih fun y hy => h y (List.mem_cons_of_mem x hy)
    by_cases hne : xs = []
    · subst hne
      rw [lexItems, hx d .item _ hd rfl]
      rcases behind_item x with hslot | ⟨s, hslot⟩ <;> rw [hslot, run_cons_of_step rfl] <;>
        simp [Slot.notes]
    · rw [lexItems_cons hne, List.append_assoc, hx d .item _ hd rfl, List.cons_append]
      rcases behind_item x with hslot | ⟨s, hslot⟩ <;> rw [hslot, run_cons_of_step rfl] <;>
        simp [Slot.notes, hxs]

theorem run_members {ns : List (String × Value)} (h : ∀ m ∈ ns, ReadsOver m.2) {d : Int}
    (hd : 1 ≤ d) (rest : List (Lexeme Number)) :
    (Spot.mk d .item).run (lexMembers ns ++ .sep '\x7d' :: rest) =
      noting (if d = 1 then stringMembers ns else []) ((Spot.mk (d - 1) .done).run rest) := by
  have hnotes : ∀ k v, (Slot.value k).notes d v = if d = 1 then stringMembers [(k, v)] else [] := by
    intro k v
    cases v <;> simp [Slot.notes, stringMembers, Value.asStr]
  have hdone : ∀ k v, (Slot.value k).behind v = .done := fun k v => rfl
  induction ns with
  | nil =>
    refine (run_cons_of_step rfl).trans ?_
    simp [stringMembers]
  | cons m ns ih =>
    obtain ⟨k, v⟩ := m
    have hv : ReadsOver v := h (k, v) List.mem_cons_self
    have hns := ih fun p hp => h p (List.mem_cons_of_mem (k, v) hp)
    have hname : (Spot.mk d .item).step (Lexeme.kind (.str k : Lexeme Number)) =
        some (⟨d, .name k⟩, []) := rfl
    have hcolon : (Spot.mk d (.name k)).step (Lexeme.kind (.sep ':' : Lexeme Number)) =
        some (⟨d, .value k⟩, []) := rfl
    by_cases hne : ns = []
    · subst hne
      rw [lexMembers, List.cons_append, List.cons_append, run_cons_of_step hname,
        run_cons_of_step hcolon, hv d _ _ hd rfl, hdone, run_cons_of_step rfl, hnotes]
      simp
    · have hsplit : stringMembers ((k, v) :: ns) = stringMembers [(k, v)] ++ stringMembers ns := by
        rw [stringMembers, stringMembers, stringMembers, ← List.filterMap_append]
        rfl
      rw [lexMembers_cons hne, List.cons_append, List.cons_append, List.append_assoc,
        run_cons_of_step hname, run_cons_of_step hcolon, hv d _ _ hd rfl, hdone, List.cons_append,
        run_cons_of_step rfl, hns, hnotes, hsplit]
      split_ifs <;> simp

theorem readsOver (v : Value) : ReadsOver v := by
  induction v with
  | null | bool b | number n =>
    intro d slot rest hd hslot
    cases slot with
    | item | value k => exact run_cons_of_step rfl
    | name k | done => cases hslot
  | string s =>
    intro d slot rest hd hslot
    cases slot with
    | item | value k => exact run_cons_of_step rfl
    | name k | done => cases hslot
  | array xs ih =>
    intro d slot rest hd hslot
    have hitems := run_items ih (show 1 ≤ d + 1 by omega) rest
    rw [add_sub_cancel_right] at hitems
    cases slot with
    | item | value k =>
      rw [lexemes, List.cons_append, List.append_assoc, run_cons_of_step rfl]
      exact congrArg (noting []) hitems
    | name k | done => cases hslot
  | object ns ih =>
    intro d slot rest hd hslot
    have hmembers := run_members ih (show 1 ≤ d + 1 by omega) rest
    rw [add_sub_cancel_right, if_neg (by omega), noting_nil] at hmembers
    cases slot with
    | item | value k =>
      rw [lexemes, List.cons_append, List.append_assoc, run_cons_of_step rfl]
      exact congrArg (noting []) hmembers
    | name k | done => cases hslot

/-- **The reader notes the string members of an object**, and ends where a value ends. -/
theorem run_object (ns : List (String × Value)) :
    (Spot.mk 0 .item).run (lexemes (.object ns)) = some (⟨0, .done⟩, stringMembers ns) := by
  have hmembers := @run_members ns (fun m _ => readsOver m.2) 1 (le_refl 1) []
  rw [lexemes, run_cons_of_step rfl]
  refine (congrArg (noting []) hmembers).trans ?_
  simp [Spot.run, noting]

/-! ## Changing what lies between two places -/

/-- How much deeper a lexeme leads. -/
def Kind.net : Kind → Int
  | .opens => 1
  | .closes => -1
  | _ => 0

theorem depth_step {k : Kind} (h : σ.step k = some (ρ, e)) : ρ.depth = σ.depth + k.net := by
  obtain ⟨d, slot⟩ := σ
  cases slot <;> cases k <;> simp only [Spot.step, reduceCtorEq, Option.some.injEq, Prod.mk.injEq] at h <;>
    obtain ⟨rfl, -⟩ := h <;> simp [Kind.net, sub_eq_add_neg]

theorem depth_run (h : σ.run ls = some (τ, e)) :
    τ.depth = σ.depth + (ls.map fun l => l.kind.net).sum := by
  induction ls generalizing σ e with
  | nil =>
    obtain ⟨rfl, -⟩ := Prod.mk.inj (Option.some.inj h)
    simp
  | cons l ls ih =>
    obtain ⟨ρ, e₁, e₂, hstep, hrun, -⟩ := run_cons.mp h
    rw [ih hrun, depth_step hstep, List.map_cons, List.sum_cons, add_assoc]

/-- Without strings nothing is noted, and no name is waiting for its colon. -/
theorem run_of_no_string (hls : ∀ l ∈ ls, ∀ s, l.kind ≠ .str s) (hσ : ∀ k, σ.slot ≠ .name k)
    (h : σ.run ls = some (τ, e)) : (∀ k, τ.slot ≠ .name k) ∧ e = [] := by
  induction ls generalizing σ e with
  | nil =>
    obtain ⟨rfl, rfl⟩ := Prod.mk.inj (Option.some.inj h)
    exact ⟨hσ, rfl⟩
  | cons l ls ih =>
    obtain ⟨ρ, e₁, e₂, hstep, hrun, rfl⟩ := run_cons.mp h
    have hl := hls l List.mem_cons_self
    have hρ : (∀ k, ρ.slot ≠ .name k) ∧ e₁ = [] := by
      obtain ⟨d, slot⟩ := σ
      generalize l.kind = k at hstep hl
      cases slot with
      | name k => exact absurd rfl (hσ k)
      | item | value _ | done =>
        cases k <;> simp only [Spot.step, reduceCtorEq, Option.some.injEq, Prod.mk.injEq] at hstep <;>
          first
          | exact absurd rfl (hl _)
          | (obtain ⟨rfl, rfl⟩ := hstep
             exact ⟨by simp, rfl⟩)
    obtain ⟨hslot, rfl⟩ := ih (fun m hm => hls m (List.mem_cons_of_mem l hm)) hρ.1 hrun
    exact ⟨hslot, by rw [hρ.2]; rfl⟩

/-- Readers at one depth, one of them behind a value, note the same of what follows, if both end
behind a value. -/
theorem run_from_done {d : Int} {slot : Slot} (hslot : ∀ k, slot ≠ .name k)
    (h : (Spot.mk d .done).run ls = some (⟨0, .done⟩, e))
    (h' : (Spot.mk d slot).run ls = some (⟨0, .done⟩, e')) : e = e' := by
  cases slot with
  | done => exact (Prod.mk.inj (Option.some.inj (h.symm.trans h'))).2
  | name k => exact absurd rfl (hslot k)
  | item | value k =>
    cases ls with
    | nil =>
      have hend := congrArg Spot.slot (Prod.mk.inj (Option.some.inj h')).1
      cases hend
    | cons l ls =>
      obtain ⟨ρ, e₁, e₂, hstep, hrun, rfl⟩ := run_cons.mp h
      obtain ⟨ρ', e₃, e₄, hstep', hrun', rfl⟩ := run_cons.mp h'
      -- what may follow a value and a place for one is the end of a container only
      have hsame : ρ = ρ' ∧ e₁ = e₃ := by
        generalize l.kind = k at hstep hstep'
        cases k <;> simp only [Spot.step, reduceCtorEq, Option.some.injEq, Prod.mk.injEq] at hstep hstep'
        all_goals exact ⟨hstep.1.symm.trans hstep'.1, hstep.2.symm.trans hstep'.2⟩
      obtain ⟨rfl, rfl⟩ := hsame
      rw [(Prod.mk.inj (Option.some.inj (hrun.symm.trans hrun'))).2]

/-- **What is noted survives a change of scalars**: put other lexemes than strings in the place of
one scalar, and if both sequences are read to the end, the same is noted. -/
theorem outline_scalar {before after between : List (Lexeme ν)} {x : Lexeme ν}
    (hx : x.kind = .scalar) (hbetween : ∀ l ∈ between, ∀ s, l.kind ≠ .str s)
    (h : σ.run (before ++ (x :: after)) = some (⟨0, .done⟩, e))
    (h' : σ.run (before ++ (between ++ after)) = some (⟨0, .done⟩, e')) : e = e' := by
  obtain ⟨ρ, e₁, e₂, hbefore, hrun, rfl⟩ := run_append.mp h
  obtain ⟨_, _, e₃, hbefore', hrun', rfl⟩ := run_append.mp h'
  obtain ⟨rfl, rfl⟩ := Prod.mk.inj (Option.some.inj (hbefore.symm.trans hbefore'))
  obtain ⟨τ, e₄, e₅, hstep, hafter, rfl⟩ := run_cons.mp hrun
  obtain ⟨τ', e₆, e₇, hmid, hafter', rfl⟩ := run_append.mp hrun'
  obtain ⟨d, slot⟩ := ρ
  have hready : slot.ready = true ∧ τ = ⟨d, .done⟩ ∧ e₄ = [] := by
    rw [hx] at hstep
    cases slot <;> simp only [Spot.step, reduceCtorEq, Option.some.injEq, Prod.mk.injEq] at hstep <;>
      exact ⟨rfl, hstep.1.symm, hstep.2.symm⟩
  obtain ⟨hready, rfl, rfl⟩ := hready
  have hname : ∀ k, slot ≠ .name k := by
    rintro k rfl
    cases hready
  obtain ⟨hslot, rfl⟩ := run_of_no_string hbetween hname hmid
  obtain ⟨d', slot'⟩ := τ'
  have hdepth := depth_run hafter
  have hdepth' := depth_run hafter'
  obtain rfl : d = d' := by
    simp only at hdepth hdepth'
    omega
  rw [run_from_done hslot hafter hafter']

end Run

end Sealr.Lib.Lexer
