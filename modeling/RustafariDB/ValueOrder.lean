import RustafariDB.FloatLaws
import RustafariDB.Predicates

/-!
# Equality and order of values

Both are symmetric in the sense of their results: swapping the operands keeps an
equality and reverses an order. Values are comparable only within one of three types,
and there the order is transitive.
-/

namespace ValueOrder

open Floats FloatLaws Values Predicates

variable {F : Type} [Float64 F] [LawfulFloat64 F]

section Equality

theorem beq_comm (a b : F) : Float64.beq a b = Float64.beq b a := by
  rw [Bool.eq_iff_iff, LawfulFloat64.beq_iff, LawfulFloat64.beq_iff,
    LawfulFloat64.partialCmp_swap a b]
  cases Float64.partialCmp a b with
  | none => exact Iff.rfl
  | some order => cases order <;> decide

theorem vector_eq_comm (xs ys : List Float32) : (xs == ys) = (ys == xs) := by
  induction xs generalizing ys with
  | nil => cases ys <;> rfl
  | cons x xs ih =>
    cases ys with
    | nil => rfl
    | cons y ys => rw [List.cons_beq_cons, List.cons_beq_cons, ih, float32_beq_comm]

set_option linter.unusedSectionVars false in
mutual
/-- Equality of values does not depend on the order of the operands. -/
theorem eq_comm : ∀ a b : Value F, Value.eq a b = Value.eq b a
  | .null, b => by cases b <;> rfl
  | .bool x, b => by
    cases b with
    | bool y => exact Bool.beq_comm
    | _ => rfl
  | .int64 x, b => by
    cases b with
    | int64 y => exact Bool.beq_comm
    | _ => rfl
  | .float64 x, b => by
    cases b with
    | float64 y => exact beq_comm x y
    | _ => rfl
  | .string x, b => by
    cases b with
    | string y => exact Bool.beq_comm
    | _ => rfl
  | .bytes x, b => by
    cases b with
    | bytes y => exact Bool.beq_comm
    | _ => rfl
  | .timestamp x, b => by
    cases b with
    | timestamp y => exact Bool.beq_comm
    | _ => rfl
  | .date x, b => by
    cases b with
    | date y => exact Bool.beq_comm
    | _ => rfl
  | .document x, b => by
    cases b with
    | document y => exact fieldsEq_comm x y
    | _ => rfl
  | .array x, b => by
    cases b with
    | array y => exact itemsEq_comm x y
    | _ => rfl
  | .vector x, b => by
    cases b with
    | vector y => exact vector_eq_comm x y
    | _ => rfl

theorem fieldsEq_comm : ∀ a b : List (String × Value F), fieldsEq a b = fieldsEq b a
  | [], b => by cases b <;> rfl
  | (k, v) :: a, b => by
    cases b with
    | nil => rfl
    | cons e b =>
      obtain ⟨l, w⟩ := e
      rw [fieldsEq, fieldsEq, eq_comm v w, fieldsEq_comm a b, Bool.beq_comm]

theorem itemsEq_comm : ∀ a b : List (Value F), itemsEq a b = itemsEq b a
  | [], b => by cases b <;> rfl
  | v :: a, b => by
    cases b with
    | nil => rfl
    | cons w b => rw [itemsEq, itemsEq, eq_comm v w, itemsEq_comm a b]
end

end Equality

section Order

/-- Swapping the operands of a comparison reverses its result. -/
theorem compare_swap (a b : Value F) :
    Predicates.compare b a = (Predicates.compare a b).map Ordering.swap := by
  cases a with
  | int64 x =>
    cases b with
    | int64 y => exact congrArg some Std.OrientedCmp.eq_swap
    | _ => rfl
  | float64 x =>
    cases b with
    | float64 y => exact LawfulFloat64.partialCmp_swap x y
    | _ => rfl
  | string x =>
    cases b with
    | string y => exact congrArg some Std.OrientedCmp.eq_swap
    | _ => rfl
  | _ => cases b <;> rfl

/-- What is comparable to anything is comparable to itself. -/
theorem compare_self {a b : Value F} (h : (Predicates.compare a b).isSome = true) :
    Predicates.compare a a = some .eq := by
  cases a with
  | int64 x => exact congrArg some Std.ReflCmp.compare_self
  | float64 x =>
    cases b with
    | float64 y => exact LawfulFloat64.partialCmp_self x y h
    | _ => cases h
  | string x => exact congrArg some Std.ReflCmp.compare_self
  | _ => cases b <;> cases h

theorem compare_trans {a b c : Value F} (hab : (Predicates.compare a b).any Ordering.isLE = true)
    (hbc : (Predicates.compare b c).any Ordering.isLE = true) :
    (Predicates.compare a c).any Ordering.isLE = true := by
  cases a with
  | int64 x =>
    cases b with
    | int64 y =>
      cases c with
      | int64 z => exact Std.TransCmp.isLE_trans hab hbc
      | _ => cases hbc
    | _ => cases hab
  | float64 x =>
    cases b with
    | float64 y =>
      cases c with
      | float64 z => exact LawfulFloat64.partialCmp_trans x y z hab hbc
      | _ => cases hbc
    | _ => cases hab
  | string x =>
    cases b with
    | string y =>
      cases c with
      | string z => exact Std.TransCmp.isLE_trans hab hbc
      | _ => cases hbc
    | _ => cases hab
  | _ => cases b <;> cases hab

end Order

end ValueOrder
