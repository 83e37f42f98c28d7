import Mathlib.Order.Defs.Unbundled

/-!
# Chains of strict orders

Two elements are compared by the first key that tells them apart. Keys that leave
elements incomparable may still decide every triple consistently: the chain fails to be a
weak order exactly where an element ties with two others that a key tells apart and the
later keys do not place it.
-/

namespace LexicalOrders

universe u v
variable {κ : Type u} {α : Type v} (before : κ → α → α → Prop)

def Ties (k : κ) (x y : α) : Prop := ¬before k x y ∧ ¬before k y x

/-- The first key that tells the two apart puts the first before the second. -/
def Chain : List κ → α → α → Prop
  | [], _, _ => False
  | k :: ks, x, y => before k x y ∨ Ties before k x y ∧ Chain ks x y

/-- A key puts `x` before `y` and ties `z` with both, and the later keys put `z` neither
after `x` nor before `y`; no earlier key tells any two of the three apart. -/
def Misplaced : List κ → α → α → α → Prop
  | [], _, _, _ => False
  | k :: ks, x, y, z => Ties before k x z ∧ Ties before k z y ∧
      (before k x y ∧ ¬Chain before ks x z ∧ ¬Chain before ks z y ∨
        Ties before k x y ∧ Misplaced ks x y z)

section Decisions
variable [∀ k x y, Decidable (before k x y)]

instance (k : κ) (x y : α) : Decidable (Ties before k x y) :=
  inferInstanceAs (Decidable (_ ∧ _))

instance decidableChain : (ks : List κ) → (x y : α) → Decidable (Chain before ks x y)
  | [], _, _ => .isFalse id
  | k :: ks, x, y =>
    have := decidableChain ks x y
    inferInstanceAs (Decidable (before k x y ∨ Ties before k x y ∧ Chain before ks x y))

instance decidableMisplaced : (ks : List κ) → (x y z : α) → Decidable (Misplaced before ks x y z)
  | [], _, _, _ => .isFalse id
  | k :: ks, x, y, z =>
    have := decidableMisplaced ks x y z
    inferInstanceAs (Decidable (Ties before k x z ∧ Ties before k z y ∧
      (before k x y ∧ ¬Chain before ks x z ∧ ¬Chain before ks z y ∨
        Ties before k x y ∧ Misplaced before ks x y z)))

end Decisions

variable {before} {k : κ} {ks : List κ} {x y z : α}

theorem ties_symm (h : Ties before k x y) : Ties before k y x := ⟨h.2, h.1⟩

theorem misplaced_splits (h : Misplaced before ks x y z) :
    Chain before ks x y ∧ ¬Chain before ks x z ∧ ¬Chain before ks z y := by
  induction ks with
  | nil => exact h.elim
  | cons k ks ih =>
    obtain ⟨hxz, hzy, later⟩ := h
    have stays (a b : α) (tie : Ties before k a b) (none : ¬Chain before ks a b) :
        ¬Chain before (k :: ks) a b := by
      rintro (first | ⟨-, rest⟩)
      · exact tie.1 first
      · exact none rest
    rcases later with ⟨first, hxz', hzy'⟩ | ⟨hxy, rest⟩
    · exact ⟨Or.inl first, stays x z hxz hxz', stays z y hzy hzy'⟩
    · obtain ⟨hxy', hxz', hzy'⟩ := ih rest
      exact ⟨Or.inr ⟨hxy, hxy'⟩, stays x z hxz hxz', stays z y hzy hzy'⟩

variable [∀ k, IsStrictOrder α (before k)]

theorem before_trans (hxy : before k x y) (hyz : before k y z) : before k x z :=
  IsTrans.trans x y z hxy hyz

theorem chain_asymm (h : Chain before ks x y) : ¬Chain before ks y x := by
  induction ks with
  | nil => exact h.elim
  | cons k ks ih =>
    rintro (back | ⟨tie, back⟩)
    · rcases h with first | ⟨tie, -⟩
      · exact asymm first back
      · exact tie.2 back
    · rcases h with first | ⟨-, rest⟩
      · exact tie.2 first
      · exact ih rest back

/-- A chain that splits a triple has misplaced one of the three. -/
theorem misplaced_of_splits (hxy : Chain before ks x y) (hxz : ¬Chain before ks x z)
    (hzy : ¬Chain before ks z y) :
    Misplaced before ks x y z ∨ Misplaced before ks y z x ∨ Misplaced before ks z x y := by
  induction ks generalizing x y z with
  | nil => exact hxy.elim
  | cons k ks ih =>
    have notXZ : ¬before k x z := fun h => hxz (Or.inl h)
    have notZY : ¬before k z y := fun h => hzy (Or.inl h)
    have laterXZ (tie : Ties before k x z) : ¬Chain before ks x z := fun h => hxz (Or.inr ⟨tie, h⟩)
    have laterZY (tie : Ties before k z y) : ¬Chain before ks z y := fun h => hzy (Or.inr ⟨tie, h⟩)
    rcases hxy with first | ⟨tie, rest⟩
    · -- `z` cannot lie outside the pair: it would then be told apart from its other end.
      have tieXZ : Ties before k x z := ⟨notXZ, fun h => notZY (before_trans h first)⟩
      have tieZY : Ties before k z y := ⟨notZY, fun h => notXZ (before_trans first h)⟩
      exact Or.inl ⟨tieXZ, tieZY, Or.inl ⟨first, laterXZ tieXZ, laterZY tieZY⟩⟩
    · by_cases hzx : before k z x
      · have tieZY : Ties before k z y := ⟨notZY, fun h => tie.2 (before_trans h hzx)⟩
        exact Or.inr (Or.inr ⟨tieZY, ties_symm tie, Or.inl ⟨hzx, laterZY tieZY, chain_asymm rest⟩⟩)
      have tieXZ : Ties before k x z := ⟨notXZ, hzx⟩
      by_cases hyz : before k y z
      · exact Or.inr (Or.inl ⟨ties_symm tie, tieXZ, Or.inl ⟨hyz, chain_asymm rest, laterXZ tieXZ⟩⟩)
      have tieZY : Ties before k z y := ⟨notZY, hyz⟩
      rcases ih rest (laterXZ tieXZ) (laterZY tieZY) with h | h | h
      · exact Or.inl ⟨tieXZ, tieZY, Or.inr ⟨tie, h⟩⟩
      · exact Or.inr (Or.inl ⟨ties_symm tie, tieXZ, Or.inr ⟨ties_symm tieZY, h⟩⟩)
      · exact Or.inr (Or.inr ⟨tieZY, ties_symm tie, Or.inr ⟨ties_symm tieXZ, h⟩⟩)

/-- On a set of elements the chain is a weak order exactly where it misplaces none. -/
theorem chain_connected_iff (ks : List κ) (S : Set α) :
    (∀ x ∈ S, ∀ y ∈ S, ∀ z ∈ S, Chain before ks x y →
      Chain before ks x z ∨ Chain before ks z y) ↔
    ∀ x ∈ S, ∀ y ∈ S, ∀ z ∈ S, ¬Misplaced before ks x y z := by
  constructor
  · intro connected x hx y hy z hz misplaced
    obtain ⟨hxy, hxz, hzy⟩ := misplaced_splits misplaced
    rcases connected x hx y hy z hz hxy with h | h
    · exact hxz h
    · exact hzy h
  · intro placed x hx y hy z hz hxy
    by_cases hxz : Chain before ks x z
    · exact Or.inl hxz
    by_cases hzy : Chain before ks z y
    · exact Or.inr hzy
    rcases misplaced_of_splits hxy hxz hzy with h | h | h
    · exact absurd h (placed x hx y hy z hz)
    · exact absurd h (placed y hy z hz x hx)
    · exact absurd h (placed z hz x hx y hy)

end LexicalOrders
