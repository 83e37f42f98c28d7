import RustafariDB.ExactNumbers
import RustafariDB.FilterTranslation

/-!
# Comparisons of numbers

A number is stored or written as Int64 or as Float64, and both have an exact value. Two
numbers of one representation are compared by their values. Of two representations they
are never equal and never ordered, whatever their values.
-/

namespace NumericComparisons

open Floats FloatLaws ExactNumbers Values Catalogs Plans Predicates DocumentFilters
open FilterTranslation RankedOrders

variable {F : Type} [Float64 F]

section Numbers
variable [ExactFloat64 F]

/-- The exact value of a number. -/
def number : Value F → Option ExactFloat
  | .int64 i => some (.finite i.toInt)
  | .float64 x => some (ExactFloat64.exact x)
  | _ => none

/-- The truth of a comparison of two numbers in this order; NaN has none. -/
def holds (op : CmpOp) (order : Option Ordering) : Bool :=
  match op with
  | .eq => order == some .eq
  | .ne => order != some .eq
  | .gt => order == some .gt
  | .ge => order == some .gt || order == some .eq
  | .lt => order == some .lt
  | .le => order == some .lt || order == some .eq

/-- The operator of the filter language with the meaning of an SQL operator. -/
def documentOp : CmpOp → FilterOp
  | .eq => .eq
  | .ne => .ne
  | .gt => .gt
  | .ge => .gte
  | .lt => .lt
  | .le => .lte

/-- Both are integers or both are floats. -/
def SameRepresentation : Value F → Value F → Prop
  | .int64 _, .int64 _ => True
  | .float64 _, .float64 _ => True
  | _, _ => False

end Numbers

section Comparisons
variable {a b : ExactFloat} {v w : Value F}

theorem cmpMatch_documentOp (op : CmpOp) (v w : Value F) :
    cmpMatch (documentOp op) v w = evalCmp op v w := by
  cases op with
  | eq | ne => rfl
  | gt | ge | lt | le => simp only [documentOp, cmpMatch, evalCmp, compare_eq]

theorem partialCmp_ints (i j : Int64) :
    Float64.partialCmp (.finite i.toInt : ExactFloat) (.finite j.toInt) =
      some (Ord.compare i j) := by
  rw [partialCmp_rank, compare_finite, compare_int64]
  refine congrArg some ?_
  rcases lt_trichotomy i.toInt j.toInt with less | same | greater
  · rw [compare_lt_iff_lt.mpr less, compare_lt_iff_lt.mpr (by exact_mod_cast less)]
  · rw [same, compare_eq_iff_eq.mpr rfl, compare_eq_iff_eq.mpr rfl]
  · rw [compare_gt_iff_gt.mpr greater, compare_gt_iff_gt.mpr (by exact_mod_cast greater)]

/-- A comparison that goes by the order of two values. -/
theorem evalCmp_holds [LawfulFloat64 F] {op : CmpOp}
    (equality : Value.eq v w = true ↔ Predicates.compare v w = some .eq) :
    evalCmp op v w = holds op (Predicates.compare v w) := by
  cases op with
  | eq => rw [evalCmp, holds, Bool.eq_iff_iff, equality, beq_iff_eq]
  | ne =>
    rw [evalCmp, holds, Bool.eq_iff_iff, Bool.not_eq_true', ← Bool.not_eq_true, equality,
      bne_iff_ne]
  | gt | ge | lt | le =>
    rw [evalCmp, holds]
    rcases Predicates.compare v w with - | (_ | _ | _) <;> rfl

variable [ExactFloat64 F]

/-- Of one representation, numbers are compared by value. -/
theorem compare_same (same : SameRepresentation v w) (hv : number v = some a)
    (hw : number w = some b) : Predicates.compare v w = Float64.partialCmp a b := by
  cases v with
  | int64 i =>
    cases w with
    | int64 j =>
      cases hv
      cases hw
      exact (partialCmp_ints i j).symm
    | _ => exact same.elim
  | float64 x =>
    cases w with
    | float64 y =>
      cases hv
      cases hw
      exact ExactFloat64.partialCmp_exact x y
    | _ => exact same.elim
  | _ => cases hv

variable [LawfulFloat64 F]

theorem evalCmp_same (op : CmpOp) (same : SameRepresentation v w) (hv : number v = some a)
    (hw : number w = some b) : evalCmp op v w = holds op (Float64.partialCmp a b) := by
  rw [← compare_same same hv hw]
  apply evalCmp_holds
  cases v with
  | int64 i =>
    cases w with
    | int64 j => simp [Value.eq, Predicates.compare]
    | _ => exact same.elim
  | float64 x =>
    cases w with
    | float64 y => exact LawfulFloat64.beq_iff x y
    | _ => exact same.elim
  | _ => cases hv

omit [LawfulFloat64 F] in
/-- Of two representations, only `<>` is satisfied. -/
theorem evalCmp_mixed (op : CmpOp) (mixed : ¬SameRepresentation v w) (hv : number v = some a)
    (hw : number w = some b) : evalCmp op v w = decide (op = .ne) := by
  cases v with
  | int64 i =>
    cases w with
    | int64 j => exact absurd trivial mixed
    | float64 y => cases op <;> rfl
    | _ => cases hw
  | float64 x =>
    cases w with
    | float64 y => exact absurd trivial mixed
    | int64 j => cases op <;> rfl
    | _ => cases hw
  | _ => cases hv

/-- A comparison with a numeric literal, in SQL and in a document filter, gives its
mathematical truth exactly when the two numbers have one representation or the truth is what
two representations always give: true for `<>` and false for the others. -/
theorem numeric_comparison_iff {schema : Schema} {row : Row F} {column : String}
    (cell : getField schema row column = some v) (hv : number v = some a)
    (hw : number w = some b) (op : CmpOp) :
    (evalPredicate row (.cmp column op w) schema = holds op (Float64.partialCmp a b) ∧
      cmpMatch (documentOp op) v w = holds op (Float64.partialCmp a b)) ↔
    SameRepresentation v w ∨ holds op (Float64.partialCmp a b) = decide (op = .ne) := by
  have compared : evalPredicate row (.cmp column op w) schema = evalCmp op v w := by
    rw [evalPredicate, ← getField, cell]
  rw [compared, cmpMatch_documentOp, and_self]
  by_cases same : SameRepresentation v w
  · exact iff_of_true (evalCmp_same op same hv hw) (Or.inl same)
  · rw [evalCmp_mixed op same hv hw, or_iff_right same, eq_comm]

end Comparisons

section Ten

def measured : Schema := .new [⟨"x", .double, true⟩]

theorem exact_ten : ExactFloat64.exact (10.0 : Float) = .finite 10 := by
  have bits : (10.0 : Float).toModel.unpack =
      .finite .positive 5629499534213120 (-49) (by decide) := rfl
  change unpackedValue (10.0 : Float).toModel.unpack = _
  rw [bits]
  change ExactFloat.finite (BinaryFloats.scaled 5629499534213120 (-49)) = _
  rw [BinaryFloats.scaled]
  norm_num

/-- `x >= 10.0` where 10.0 is stored. -/
theorem numeric_comparison_ten :
    evalPredicate (.new [.float64 10.0] : Row Float) (.cmp "x" .ge (.float64 10.0)) measured =
        holds .ge (Float64.partialCmp (ExactFloat.finite 10) (ExactFloat.finite 10)) ∧
      cmpMatch .gte (.float64 10.0 : Value Float) (.float64 10.0) =
        holds .ge (Float64.partialCmp (ExactFloat.finite 10) (ExactFloat.finite 10)) := by
  have ten : number (.float64 10.0 : Value Float) = some (.finite 10) := congrArg some exact_ten
  have cell : getField measured (.new [.float64 10.0] : Row Float) "x" = some (.float64 10.0) := rfl
  exact (numeric_comparison_iff cell ten ten .ge).mpr (Or.inl trivial)

/-- `x >= 10` selects a stored 10 and `x >= 10.0` does not. -/
theorem ten_is_not_ten :
    ¬∀ (schema : Schema) (row : Row Float) (column : String) (v w : Value Float)
      (a b : ExactFloat), getField schema row column = some v → number v = some a →
      number w = some b → ∀ op,
        evalPredicate row (.cmp column op w) schema = holds op (Float64.partialCmp a b) := by
  intro truth
  have ten : number (.float64 10.0 : Value Float) = some (.finite 10) := congrArg some exact_ten
  have selected := truth measured (.new [.int64 10]) "x" (.int64 10) (.float64 10.0)
    (.finite 10) (.finite 10) rfl rfl ten .ge
  have passes : evalPredicate (.new [.int64 10] : Row Float) (.cmp "x" .ge (.float64 10.0))
      measured = false := rfl
  rw [passes] at selected
  revert selected
  decide

end Ten

end NumericComparisons
