import RustafariDB.LexicalOrders
import RustafariDB.SortedResults

/-!
# The comparison that ORDER BY hands to the sort

A sort column orders the values of one type; Null, NaN and values of two types tie, and a
missing value comes first. Ties of this kind are not transitive, so the chain of columns is
a legal sort order only where no row is misplaced between two others.
-/

namespace SortComparisons

open Std Floats FloatLaws Values Predicates Execution ValueOrder SortedLists SortedResults
open LexicalOrders

variable {F : Type} [Float64 F]

section Cells

/-- One cell is strictly below another: it alone is missing, or both are comparable. -/
def Below : Option (Value F) → Option (Value F) → Prop
  | none, some _ => True
  | some v, some w => Predicates.compare v w = some .lt
  | _, none => False

/-- A sort column, ascending or descending, puts one row before another. -/
def columnBefore (key : Nat × Bool) (a b : Row F) : Prop :=
  if key.2 then Below (a.get key.1) (b.get key.1) else Below (b.get key.1) (a.get key.1)

instance decidableBelow : (v w : Option (Value F)) → Decidable (Below v w)
  | none, some _ => .isTrue trivial
  | some v, some w => inferInstanceAs (Decidable (Predicates.compare v w = some .lt))
  | none, none => .isFalse id
  | some _, none => .isFalse id

instance (key : Nat × Bool) (a b : Row F) : Decidable (columnBefore key a b) :=
  inferInstanceAs (Decidable (if key.2 then _ else _))

theorem compareVals_lt {v w : Option (Value F)} : compareVals v w = .lt ↔ Below v w := by
  cases v with
  | none => cases w <;> simp [compareVals, Below]
  | some v =>
    cases w with
    | none => simp [compareVals, Below]
    | some w =>
      rw [compareVals, Below]
      cases Predicates.compare v w <;> simp

variable [LawfulFloat64 F]

theorem compareVals_swap (v w : Option (Value F)) : compareVals w v = (compareVals v w).swap := by
  cases v with
  | none => cases w <;> rfl
  | some v =>
    cases w with
    | none => rfl
    | some w =>
      rw [compareVals, compareVals, compare_swap v w]
      cases Predicates.compare v w <;> rfl

theorem compare_lt_trans {a b c : Value F} (hab : Predicates.compare a b = some .lt)
    (hbc : Predicates.compare b c = some .lt) : Predicates.compare a c = some .lt := by
  have notAfter := compare_trans (c := c) (by rw [hab]; rfl) (by rw [hbc]; rfl)
  cases hac : Predicates.compare a c with
  | none => simp [hac] at notAfter
  | some order =>
    cases order with
    | lt => rfl
    | gt => simp [hac] at notAfter
    | eq =>
      -- otherwise `c` would not be above `a`, hence not above `b`
      have hca : Predicates.compare c a = some .eq := by rw [compare_swap a c, hac]; rfl
      have back := compare_trans (a := c) (b := a) (c := b) (by rw [hca]; rfl) (by rw [hab]; rfl)
      rw [compare_swap b c, hbc] at back
      simp at back

theorem below_asymm {v w : Option (Value F)} (h : Below v w) : ¬Below w v := by
  intro back
  have swapped := compareVals_swap v w
  rw [compareVals_lt.mpr h, compareVals_lt.mpr back] at swapped
  cases swapped

theorem below_trans {u v w : Option (Value F)} (huv : Below u v) (hvw : Below v w) :
    Below u w := by
  cases w with
  | none => cases v <;> exact hvw.elim
  | some w =>
    cases u with
    | none => trivial
    | some u =>
      cases v with
      | none => exact huv.elim
      | some v => exact compare_lt_trans huv hvw

instance (key : Nat × Bool) : IsStrictOrder (Row F) (columnBefore key) where
  irrefl a h := by
    rw [columnBefore, ite_self] at h
    exact below_asymm h h
  trans a b c hab hbc := by
    obtain ⟨i, asc⟩ := key
    cases asc with
    | true => exact below_trans hab hbc
    | false => exact below_trans hbc hab

end Cells

section Rows
variable [LawfulFloat64 F] {order : List (Nat × Bool)}

/-- Comparing the rows the other way round gives the reverse. -/
theorem compareRows_swap (order : List (Nat × Bool)) (a b : Row F) :
    compareRows order b a = (compareRows order a b).swap := by
  induction order with
  | nil => rfl
  | cons key order ih =>
    obtain ⟨i, asc⟩ := key
    rw [compareRows_cons, compareRows_cons, compareVals_swap (a.get i) (b.get i), ih,
      Ordering.swap_then]
    cases asc <;> rfl

theorem compareRows_lt {a b : Row F} :
    compareRows order a b = .lt ↔ Chain columnBefore order a b := by
  induction order with
  | nil => simp [compareRows, Chain]
  | cons key order ih =>
    obtain ⟨i, asc⟩ := key
    have ahead := compareVals_lt (v := a.get i) (w := b.get i)
    have behind := compareVals_lt (v := b.get i) (w := a.get i)
    rw [compareVals_swap (a.get i) (b.get i)] at behind
    rw [compareRows_cons, Chain, Ties, ← ih]
    cases asc <;> cases h : compareVals (a.get i) (b.get i) <;>
      simp_all [columnBefore]

theorem compareRows_isLE {a b : Row F} :
    (compareRows order a b).isLE ↔ ¬Chain columnBefore order b a := by
  rw [← compareRows_lt, compareRows_swap order a b]
  cases compareRows order a b <;> simp

/-- The comparison is a legal sort order of the rows exactly where no sort column puts one
row before another while a third ties with both and is not placed by the later columns. -/
theorem compareRows_legal_iff (order : List (Nat × Bool)) (rows : List (Row F)) :
    Orders rows (compareRows order) ↔
      ∀ x ∈ rows, ∀ y ∈ rows, ∀ z ∈ rows, ¬Misplaced columnBefore order x y z := by
  refine Iff.trans ?_ (chain_connected_iff order {x | x ∈ rows})
  constructor
  · intro legal x hx y hy z hz hxy
    by_contra split
    obtain ⟨hxz, hzy⟩ := not_or.mp split
    have le := legal.isLE_trans (a := ⟨y, hy⟩) (b := ⟨z, hz⟩) (c := ⟨x, hx⟩)
      (compareRows_isLE.mpr hzy) (compareRows_isLE.mpr hxz)
    exact compareRows_isLE.mp le hxy
  · intro connected
    have reversed : OrientedCmp (onMembers rows (compareRows order)) :=
      ⟨fun {a b} => compareRows_swap order b.1 a.1⟩
    refine ⟨fun {a b c} hab hbc => compareRows_isLE.mpr (fun hca => ?_)⟩
    rcases connected c c.2 a a.2 b b.2 hca with h | h
    · exact compareRows_isLE.mp hbc h
    · exact compareRows_isLE.mp hab h

/-- A later column places the row with a Null between the two others. -/
theorem compareRows_legal_placed :
    Orders [Row.new [.int64 1, .string "a"], .new [.int64 2, .string "c"],
      .new [(.null : Value Float), .string "b"]] (compareRows [(0, true), (1, true)]) :=
  (compareRows_legal_iff _ _).mpr (by decide)

/-- 2 is after 1, and a row with a Null is neither before 1 nor after 2. -/
theorem null_breaks_order :
    ¬Orders [Row.new [.int64 2], .new [(.null : Value Float)], .new [.int64 1]]
      (compareRows [(0, true)]) := by
  intro legal
  have le := legal.isLE_trans (a := ⟨.new [.int64 2], by simp⟩) (b := ⟨.new [.null], by simp⟩)
    (c := ⟨.new [.int64 1], by simp⟩) (by decide) (by decide)
  revert le
  decide

end Rows

end SortComparisons
