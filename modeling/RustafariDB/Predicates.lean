import RustafariDB.Catalogs
import RustafariDB.Plans

/-!
# Predicates

`eval_predicate`, the two comparisons and the recognition of index lookups. A
row without the compared column fails every comparison, also `<>`; equality is
the derived one of values, the orders are defined on three types only.
-/

namespace Predicates

open Catalogs Values Plans Floats

variable {F : Type}

/-- Index lookup derived from a predicate on an indexed column (e.g. id). -/
inductive IdLookup (F : Type) where
  | point (v : Value F)
  | rangeInclusive (v1 v2 : Value F)

/-- If the predicate is a point or range lookup on the given column, return it for index use. -/
def predicateToIdLookup (pred : FilterExpr F) (column : String) : Option (IdLookup F) :=
  match pred with
  | .cmp col .eq value => if col == column then some (.point value) else none
  | .and (.cmp c1 .ge v1) (.cmp c2 .le v2) =>
    if c1 == column && c2 == column then some (.rangeInclusive v1 v2) else none
  | .and (.cmp c1 .le v1) (.cmp c2 .ge v2) =>
    if c1 == column && c2 == column then some (.rangeInclusive v2 v1) else none
  | _ => none

protected def compare [Float64 F] (a b : Value F) : Option Ordering :=
  match a, b with
  | .int64 x, .int64 y => some (Ord.compare x y)
  | .float64 x, .float64 y => Float64.partialCmp x y
  | .string x, .string y => some (Ord.compare x y)
  | _, _ => none

def compareVals [Float64 F] (a b : Option (Value F)) : Ordering :=
  match a, b with
  | none, none => .eq
  | none, some _ => .lt
  | some _, none => .gt
  | some av, some bv => (Predicates.compare av bv).getD .eq

/-- One comparison of a stored value with a literal. -/
def evalCmp [Float64 F] (op : CmpOp) (v value : Value F) : Bool :=
  match op with
  | .eq => Value.eq v value
  | .ne => !Value.eq v value
  | .gt => ((Predicates.compare v value).map (fun c => c == .gt)).getD false
  | .ge => ((Predicates.compare v value).map (fun c => c != .lt)).getD false
  | .lt => ((Predicates.compare v value).map (fun c => c == .lt)).getD false
  | .le => ((Predicates.compare v value).map (fun c => c != .gt)).getD false

def evalPredicate [Float64 F] (row : Row F) (pred : FilterExpr F) (schema : Schema) : Bool :=
  match pred with
  | .literal b => b
  | .cmp col op value =>
    match (schema.columnIndex col).bind row.get with
    | none => false
    | some v => evalCmp op v value
  | .and a b => evalPredicate row a schema && evalPredicate row b schema
  | .or a b => evalPredicate row a schema || evalPredicate row b schema
  | .not n => !evalPredicate row n schema

/-- The number of an `i64` decides its order. -/
theorem compare_int64 (x y : Int64) : Ord.compare x y = Ord.compare x.toInt y.toInt := by
  have base : Ord.compare x y = compareOfLessAndEq x y := rfl
  have number : Ord.compare x.toInt y.toInt = compareOfLessAndEq x.toInt y.toInt := rfl
  rw [base, number, compareOfLessAndEq, compareOfLessAndEq]
  simp only [Int64.lt_iff_toInt_lt, Int64.toInt_inj]

end Predicates
