import Mathlib.Algebra.BigOperators.Group.Multiset.Basic
import Mathlib.Algebra.Order.BigOperators.Group.Multiset
import Mathlib.Data.Multiset.AddSub
import Sealr.Lib.Lexemes

/-!
# The inventory of a value

The lexemes of a value as a multiset, with numbers by what they are worth. Equal values, up to
member order and number spelling, have one inventory (`inventory_of_equiv`), and collapsing
repeated names only takes lexemes away (`inventory_collapse_le`). So a text that denotes the value
of another has at least the lexemes that value needs.
-/

namespace Sealr.Lib.Lexer

open Rfc8259

def Lexeme.map {ν μ : Type} (f : ν → μ) : Lexeme ν → Lexeme μ
  | .null => .null
  | .bool b => .bool b
  | .num n => .num (f n)
  | .str s => .str s
  | .sep c => .sep c

/-- A lexeme with its number by what it is worth. -/
def weigh : Lexeme Number → Lexeme ℚ := Lexeme.map Number.toRat

/-- The weighed lexemes, in any order. -/
def weighAll (ls : List (Lexeme Number)) : Multiset (Lexeme ℚ) := ls.map weigh

def inventory (v : Value) : Multiset (Lexeme ℚ) := weighAll (lexemes v)

/-- The inventory of a member. -/
def memberInventory (m : String × Value) : Multiset (Lexeme ℚ) :=
  {.str m.1, .sep ':'} + inventory m.2

section Inventory

variable {ls ms : List (Lexeme Number)} {xs : List Value} {ns : List (String × Value)}

theorem weighAll_append : weighAll (ls ++ ms) = weighAll ls + weighAll ms := by
  simp [weighAll]

theorem weighAll_cons {l : Lexeme Number} : weighAll (l :: ls) = weigh l ::ₘ weighAll ls := by
  simp [weighAll]

/-- Items are separated by commas. -/
theorem weighAll_lexItems : weighAll (lexItems xs) =
    (xs.map inventory).sum + Multiset.replicate (xs.length - 1) (.sep ',') := by
  induction xs with
  | nil => rfl
  | cons x xs ih =>
    by_cases hne : xs = []
    · subst hne
      simp [lexItems, inventory]
    · obtain ⟨n, hn⟩ : ∃ n, xs.length = n + 1 :=
        Nat.exists_eq_succ_of_ne_zero (by simpa using hne)
      have hsep : weigh (.sep ',') = .sep ',' := rfl
      rw [lexItems_cons hne, weighAll_append, weighAll_cons, ih, hsep]
      simp only [List.map_cons, List.sum_cons, List.length_cons, hn, Nat.add_sub_cancel]
      simp only [inventory, Multiset.replicate_succ, Multiset.add_cons, add_assoc]

theorem weighAll_lexMembers : weighAll (lexMembers ns) =
    (ns.map memberInventory).sum + Multiset.replicate (ns.length - 1) (.sep ',') := by
  induction ns with
  | nil => rfl
  | cons m ns ih =>
    obtain ⟨k, v⟩ := m
    have hstr : weigh (.str k) = .str k := rfl
    have hcolon : weigh (.sep ':') = .sep ':' := rfl
    by_cases hne : ns = []
    · subst hne
      simp [lexMembers, weighAll_cons, hstr, hcolon, memberInventory, inventory]
    · obtain ⟨n, hn⟩ : ∃ n, ns.length = n + 1 :=
        Nat.exists_eq_succ_of_ne_zero (by simpa using hne)
      have hsep : weigh (.sep ',') = .sep ',' := rfl
      rw [lexMembers_cons hne, weighAll_cons, weighAll_cons, weighAll_append, weighAll_cons, ih,
        hstr, hcolon, hsep]
      simp only [List.map_cons, List.sum_cons, List.length_cons, hn, Nat.add_sub_cancel]
      simp only [memberInventory, inventory, Multiset.replicate_succ, Multiset.add_cons, add_assoc,
        Multiset.insert_eq_cons, Multiset.cons_add, Multiset.singleton_add]
      rw [Multiset.cons_swap (Lexeme.sep ':') (Lexeme.sep ','),
        Multiset.cons_swap (Lexeme.str k) (Lexeme.sep ',')]

theorem inventory_array : inventory (.array xs) =
    {.sep '[', .sep ']'} + ((xs.map inventory).sum +
      Multiset.replicate (xs.length - 1) (.sep ',')) := by
  have hopen : weigh (.sep '[') = .sep '[' := rfl
  have hclose : weighAll [.sep ']'] = {.sep ']'} := rfl
  rw [inventory, lexemes, weighAll_cons, weighAll_append, weighAll_lexItems, hopen, hclose,
    Multiset.insert_eq_cons, Multiset.cons_add, add_comm _ {Lexeme.sep ']'}]

theorem inventory_object : inventory (.object ns) =
    {.sep '\x7b', .sep '\x7d'} + ((ns.map memberInventory).sum +
      Multiset.replicate (ns.length - 1) (.sep ',')) := by
  have hopen : weigh (.sep '\x7b') = .sep '\x7b' := rfl
  have hclose : weighAll [.sep '\x7d'] = {.sep '\x7d'} := rfl
  rw [inventory, lexemes, weighAll_cons, weighAll_append, weighAll_lexMembers, hopen, hclose,
    Multiset.insert_eq_cons, Multiset.cons_add, add_comm _ {Lexeme.sep '\x7d'}]

/-! ## Equal values -/

theorem map_eq_of_forall₂ {α β : Type*} {R : α → α → Prop} {f : α → β} {xs ys : List α}
    (h : List.Forall₂ R xs ys) (hf : ∀ x ∈ xs, ∀ y, R x y → f x = f y) : xs.map f = ys.map f := by
  induction h with
  | nil => rfl
  | cons hxy _ ih =>
    rw [List.map_cons, List.map_cons, hf _ List.mem_cons_self _ hxy,
      ih fun x hx => hf x (List.mem_cons_of_mem _ hx)]

/-- **Equal values have one inventory.** -/
theorem inventory_of_equiv {v w : Value} (h : v.Equiv w) : inventory v = inventory w := by
  induction v generalizing w with
  | null => cases w <;> first | rfl | exact False.elim h
  | bool b =>
    cases w with
    | bool b' =>
      obtain rfl : b = b' := h
      rfl
    | _ => exact False.elim h
  | string s =>
    cases w with
    | string s' =>
      obtain rfl : s = s' := h
      rfl
    | _ => exact False.elim h
  | number n =>
    cases w with
    | number m =>
      have hrat : n.toRat = m.toRat := h
      simp [inventory, lexemes, weighAll, weigh, Lexeme.map, hrat]
    | _ => exact False.elim h
  | array xs ih =>
    cases w with
    | array ys =>
      have hall := Value.equiv_array.mp h
      have hmap : xs.map inventory = ys.map inventory :=
        map_eq_of_forall₂ hall fun x hx y hxy => ih x hx hxy
      rw [inventory_array, inventory_array, hmap, hall.length_eq]
    | _ => exact False.elim h
  | object ms ih =>
    cases w with
    | object ns =>
      obtain ⟨ns', hperm, hall⟩ := Value.equiv_object.mp h
      have hmap : ms.map memberInventory = ns'.map memberInventory := by
        refine map_eq_of_forall₂ hall fun m hm n hmn => ?_
        rw [memberInventory, memberInventory, hmn.1, ih m hm hmn.2]
      rw [inventory_object, inventory_object, hmap, (hperm.map memberInventory).sum_eq,
        hall.length_eq, hperm.length_eq]
    | _ => exact False.elim h

/-! ## Collapsing -/

/-- Setting a member takes at most the one it replaces away. -/
theorem insertMember_subperm {acc : List (String × Value)} (hacc : (acc.map Prod.fst).Nodup)
    (k : String) (v : Value) : (insertMember acc k v).Subperm ((k, v) :: acc) ∧
      ((insertMember acc k v).map Prod.fst).Nodup := by
  by_cases hk : k ∈ acc.map Prod.fst
  · obtain ⟨⟨k, old⟩, hm, rfl⟩ := List.mem_map.mp hk
    obtain ⟨p, q, rfl⟩ := List.append_of_mem hm
    have hsame : ∀ l : List (String × Value), k ∉ l.map Prod.fst →
        l.map (fun m => if m.1 = k then (k, v) else m) = l := by
      intro l hl
      conv_rhs => rw [← List.map_id l]
      refine List.map_congr_left fun m hm => if_neg fun heq => hl ?_
      exact heq ▸ List.mem_map_of_mem hm
    have hnodup := hacc
    rw [List.map_append, List.map_cons, List.nodup_middle, List.nodup_cons, List.mem_append,
      not_or] at hacc
    obtain ⟨⟨hp, hq⟩, -⟩ := hacc
    have hinsert : insertMember (p ++ (k, old) :: q) k v = p ++ (k, v) :: q := by
      rw [insertMember, if_pos hk, List.map_append, List.map_cons, hsame p hp, hsame q hq,
        if_pos rfl]
    rw [hinsert]
    refine ⟨List.perm_middle.subperm.trans (List.Sublist.subperm ?_), by simpa using hnodup⟩
    exact ((List.sublist_cons_self (k, old) q).append_left p).cons_cons (k, v)
  · rw [insertMember, if_neg hk]
    refine ⟨(List.perm_append_singleton (k, v) acc).subperm, ?_⟩
    rw [List.map_append, List.nodup_append]
    refine ⟨hacc, by simp, ?_⟩
    intro a ha b hb hab
    obtain rfl : a = k := hab.trans (List.mem_singleton.mp hb)
    exact hk ha

/-- The members of an object are among those it is read from. -/
theorem ofMembers_subperm (ns : List (String × Value)) : (ofMembers ns).Subperm ns := by
  suffices hgen : ∀ acc : List (String × Value), (acc.map Prod.fst).Nodup →
      (ns.foldl (fun acc m => insertMember acc m.1 m.2) acc).Subperm (acc ++ ns) by
    simpa [ofMembers] using hgen [] (by simp)
  induction ns with
  | nil => exact fun acc _ => by simpa using List.Subperm.refl acc
  | cons m ns ih =>
    intro acc hacc
    obtain ⟨hsub, hnodup⟩ := insertMember_subperm hacc m.1 m.2
    have hstep : (insertMember acc m.1 m.2 ++ ns).Subperm (m :: acc ++ ns) :=
      (List.subperm_append_right ns).mpr hsub
    exact (ih _ hnodup).trans (hstep.trans List.perm_middle.symm.subperm)

theorem sum_le_of_subperm {ns ms' : List (String × Value)} (h : ns.Subperm ms') :
    (ns.map memberInventory).sum + Multiset.replicate (ns.length - 1) (.sep ',') ≤
      (ms'.map memberInventory).sum + Multiset.replicate (ms'.length - 1) (.sep ',') := by
  refine add_le_add ?_ ?_
  · obtain ⟨l, hperm, hsub⟩ := h
    rw [← (hperm.map memberInventory).sum_eq]
    exact (hsub.map memberInventory).sum_le_sum fun _ _ => Multiset.zero_le _
  · exact Multiset.replicate_le_replicate _ |>.mpr (Nat.sub_le_sub_right h.length_le 1)

theorem map_collapse_le {α : Type*} {f : α → Multiset (Lexeme ℚ)} {g : α → α} {l : List α}
    (h : ∀ a ∈ l, f (g a) ≤ f a) : ((l.map g).map f).sum ≤ (l.map f).sum := by
  rw [List.map_map]
  exact List.sum_le_sum h

/-- **Collapsing repeated names only takes lexemes away.** -/
theorem inventory_collapse_le (r : Value) : inventory (collapse r) ≤ inventory r := by
  induction r with
  | null | bool b | number n | string s => exact le_refl _
  | array xs ih =>
    rw [collapse, collapseItems_eq_map, inventory_array, inventory_array, List.length_map]
    exact add_le_add_right (add_le_add_left (map_collapse_le ih) _) _
  | object ns ih =>
    rw [collapse, collapseMembers_eq_map, inventory_object, inventory_object]
    refine add_le_add_right ((sum_le_of_subperm (ofMembers_subperm _)).trans ?_) _
    rw [List.length_map]
    refine add_le_add_left (map_collapse_le fun m hm => ?_) _
    exact add_le_add_right (ih m hm) _

end Inventory

end Sealr.Lib.Lexer
