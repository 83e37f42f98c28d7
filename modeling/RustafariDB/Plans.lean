import RustafariDB.Catalogs
import RustafariDB.Values

/-!
# Logical plans

The plan language of `plan.rs`. Plans are trees, so a plan node is also the
plan it is the root of. The types admit shapes that no SQL text produces, such
as an insert below a filter; results about execution cover these too.
-/

namespace Plans

open Catalogs Values

inductive CmpOp where
  | eq
  | ne
  | gt
  | ge
  | lt
  | le
  deriving DecidableEq

/-- Simplified filter expression for execution. -/
inductive FilterExpr (F : Type) where
  | literal (b : Bool)
  | and (a b : FilterExpr F)
  | or (a b : FilterExpr F)
  | not (a : FilterExpr F)
  | cmp (col : String) (op : CmpOp) (value : Value F)

/-- Aggregate expression: function name and column (or * for COUNT). -/
inductive AggExpr where
  | sum (column : String)
  | countStar
  | count (column : String)
  | avg (column : String)
  | min (column : String)
  | max (column : String)
  deriving DecidableEq

/-- Logical plan node (simplified relational algebra). -/
inductive PlanNode (F : Type) where
  | scan (table : String) (ns : Option String)
  | filter (input : PlanNode F) (predicate : FilterExpr F)
  | project (input : PlanNode F) (columns : List String)
  | aggregate (input : PlanNode F) (aggs : List AggExpr)
  | groupBy (input : PlanNode F) (groupBy : List String) (aggs : List AggExpr)
  | orderBy (input : PlanNode F) (columns : List (String × Bool))
  | limit (input : PlanNode F) (limit : Nat) (offset : Nat)
  | insert (table : String) (ns : Option String) (columns : List String)
      (values : List (List (Value F)))
  | createTable (table : String) (ns : Option String) (columns : List (String × ColumnType))
  | dropTable (table : String) (ns : Option String)
  | describeTable (table : String) (ns : Option String)

end Plans
