import RustafariDB.FloatLaws
import RustafariDB.AggregateAgreement

/-!
# MIN and MAX over chunks and over rows

Both loops start at an extreme value. The row version remembers whether it met a
number; the chunk version also takes an integer result equal to the initial value
for an empty column. The minimum and the maximum of floats are associative, so the
cut into chunks does not matter to them.
-/

namespace ExtremeAgreement

open Floats FloatLaws Values Catalogs Plans Aggregates Sessions Execution StatefulPrograms
open CatalogInvariants PlanEffects SessionInvariants StoreAgreement AggregateAgreement

section Agreement
variable {F : Type} [Float64 F] [LawfulFloat64 F] [ValueDebug F]
variable {s : SessionState F} {tm : TableMeta} {ns : Option String} {table column : String}
variable {i : Nat}

/-- After INSERTs that all succeeded, MIN and MAX over a table are those of its rows unless
the column has no float and no integer but copies of the initial value of the loop. -/
theorem min_max_agree_iff (h : ReachableInsertsOk s) (htm : s.tableMeta ns table = some tm)
    (hcol : tm.schema.columnIndex column = some i) :
    (ScanAgrees s tm ns table (.min column) ↔
      columnFloats (scanRows s tm) i ≠ [] ∨ columnInts (scanRows s tm) i = [] ∨
        ∃ x ∈ columnInts (scanRows s tm) i, x ≠ Int64.maxValue) ∧
    (ScanAgrees s tm ns table (.max column) ↔
      columnFloats (scanRows s tm) i ≠ [] ∨ columnInts (scanRows s tm) i = [] ∨
        ∃ x ∈ columnInts (scanRows s tm) i, x ≠ Int64.minValue) := by
  have valid := reachable_valid (reachable_of_insertsOk h)
  have known := bound_known valid.catalog (bound_of_tableMeta htm)
  have cut := insertsOk_cut h known
  have small := valid.smallBuffers tm.id
  obtain ⟨slices, shown, joined⟩ :=
    flushed_slices cut small (valid.catalog.schemaBuilt tm.id tm known) hcol
  have empty (rows : scanRows s tm = []) : columnInts (scanRows s tm) i = [] := by
    rw [rows]
    rfl
  constructor
  · rw [scanAgrees_iff htm cut small, min_agrees_iff hcol shown joined
      (foldedAlike_of_assoc LawfulFloat64.min_assoc LawfulFloat64.min_settles joined)]
    exact or_iff_right_of_imp (fun rows => Or.inr (Or.inl (empty rows)))
  · rw [scanAgrees_iff htm cut small, max_agrees_iff hcol shown joined
      (foldedAlike_of_assoc LawfulFloat64.max_assoc LawfulFloat64.max_settles joined)]
    exact or_iff_right_of_imp (fun rows => Or.inr (Or.inl (empty rows)))

end Agreement

section Extremes

/-- One row, whose `amount` is the greatest integer. -/
def bounded : SessionState Float :=
  runPlans [.createTable "t" none [("amount", .bigInt), ("price", .double)],
    .insert "t" none [] [[.int64 Int64.maxValue, .int64 1]]] .new

theorem bounded_insertsOk : ReachableInsertsOk bounded :=
  insertsOk_runPlans _ RunFrom.new ⟨fun _ => rfl, fun _ => rfl, trivial⟩

def boundedMeta : TableMeta :=
  ⟨0, 0, "t", .new [⟨"amount", .bigInt, true⟩, ⟨"price", .double, true⟩], "row"⟩

theorem bounded_live : bounded.tableMeta none "t" = some boundedMeta := rfl

/-- MAX of the greatest integer is found; the least integer would hide it. -/
theorem min_max_agree_bounded :
    ScanAgrees bounded boundedMeta none "t" (.max "amount") ∧
      ScanAgrees bounded boundedMeta none "t" (.min "price") := by
  have amount : boundedMeta.schema.columnIndex "amount" = some 0 := rfl
  have price : boundedMeta.schema.columnIndex "price" = some 1 := rfl
  obtain ⟨_, largest⟩ := min_max_agree_iff bounded_insertsOk bounded_live amount
  obtain ⟨least, _⟩ := min_max_agree_iff bounded_insertsOk bounded_live price
  refine ⟨largest.mpr (Or.inr (Or.inr ⟨Int64.maxValue, ?_, by decide⟩)),
    least.mpr (Or.inr (Or.inr ⟨1, ?_, by decide⟩))⟩
  · exact List.mem_cons_self
  · exact List.mem_cons_self

/-- MIN over a column that holds the greatest integer alone is Null. -/
theorem greatest_integer_hidden :
    ¬ ∀ (s : SessionState Float), ReachableInsertsOk s → ∀ (ns : Option String)
      (table : String) (tm : TableMeta) (column : String) (i : Nat),
      s.tableMeta ns table = some tm → tm.schema.columnIndex column = some i →
        ScanAgrees s tm ns table (.min column) ∧ ScanAgrees s tm ns table (.max column) := by
  intro agrees
  have least :=
    (agrees bounded bounded_insertsOk none "t" boundedMeta "amount" 0 bounded_live rfl).1
  have chunks : outcome (executePlan (.aggregate (.scan "t" none) [.min "amount"]) bounded) =
      .ok (.rows [⟨[.null]⟩]) := rfl
  have rows : oneRow (aggregateOverRowSlice (scanRows bounded boundedMeta) boundedMeta.schema)
      [.min "amount"] = .ok (.rows [⟨[.int64 Int64.maxValue]⟩]) := rfl
  rw [ScanAgrees, chunks, rows] at least
  simp at least

end Extremes

end ExtremeAgreement
