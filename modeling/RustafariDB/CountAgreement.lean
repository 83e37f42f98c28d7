import RustafariDB.AggregateAgreement
import RustafariDB.QueryOperators

/-!
# Counts over tables and over groups

COUNT over a table comes from its chunks after a flush, COUNT over groups from its
stored rows through a map keyed by rendered values. Both count the rows that pass
one test, and the groups are a partition of the rows.
-/

namespace CountAgreement

open Floats Values Catalogs ColumnarStorage Plans Aggregates Sessions Execution StatefulPrograms
open CatalogInvariants PlanEffects SessionInvariants StoreAgreement AggregateAgreement
open QueryOperators

variable {F : Type}

/-- A row has a value other than Null at the position. -/
def presentAt (i : Nat) (row : Row F) : Bool := (row.get i).any (fun v => !v.isNull)

/-- The number a row counts for. -/
def countValue (p : Row F → Bool) (rows : List (Row F)) : Value F :=
  .int64 (Int64.ofNat (rows.countP p))

theorem present_cells (rows : List (Row F)) (i : Nat) :
    ColumnChunk.countNonNullSlice (columnCells rows i) = rows.countP (presentAt i) := by
  rw [ColumnChunk.countNonNullSlice, columnCells, ← List.countP_eq_length_filter,
    List.countP_map]
  refine List.countP_congr (fun row _ => ?_)
  rw [Function.comp_apply, presentAt]
  cases row.get i <;> simp [Value.isNull]

section Counts
variable [Float64 F] {schema : Schema} {column : String} {i : Nat}

theorem countStar_rows (rows : List (Row F)) (schema : Schema) :
    aggregateOverRowSlice rows schema .countStar = .ok (countValue (fun _ => true) rows) := by
  rw [countValue, List.countP_true]
  rfl

theorem count_rows (hcol : schema.columnIndex column = some i) (rows : List (Row F)) :
    aggregateOverRowSlice rows schema (.count column) = .ok (countValue (presentAt i) rows) := by
  rw [rowCount_eq hcol, present_cells, countValue]

variable [ValueDebug F] {s : SessionState F} {tm : TableMeta} {ns : Option String}
variable {table : String}

/-- An aggregate counts the rows of a table that pass the test; over groups it counts
each group, and the counts of the groups add up to that of the table. -/
def CountsRows (s : SessionState F) (tm : TableMeta) (ns : Option String) (table : String)
    (group : List String) (agg : AggExpr) (p : Row F → Bool) : Prop :=
  outcome (executePlan (.aggregate (.scan table ns) [agg]) s) =
      .ok (.rows [.new [.int64 (Int64.ofNat ((scanRows s tm).countP p))]]) ∧
    ∃ counted : List (List (Value F) × Nat),
      outcome (executePlan (.groupBy (.scan table ns) group [agg]) s) =
        .ok (.rows (counted.map (fun g => .new (g.1 ++ [.int64 (Int64.ofNat g.2)])))) ∧
      (counted.map Prod.snd).sum = (scanRows s tm).countP p

/-- Both paths count by the same test as soon as the two implementations agree. -/
theorem countsRows_of_agrees (htm : s.tableMeta ns table = some tm) {group : List String}
    (known : ∀ c ∈ group, (tm.schema.columnIndex c).isSome) {agg : AggExpr} {p : Row F → Bool}
    (counts : ∀ rows, aggregateOverRowSlice rows tm.schema agg = .ok (countValue p rows))
    (agrees : ScanAgrees s tm ns table agg) : CountsRows s tm ns table group agg p := by
  constructor
  · rw [agrees, oneRow, mapM_of_forall (g := fun _ => countValue p (scanRows s tm))]
    · rfl
    · intro other inside
      rw [List.mem_singleton.mp inside, counts]
  · have live : scanMeta s (.scan table ns) = .ok tm := resolveTable_eq_ok.mpr htm
    have indexed : group.mapM (columnOr "GROUP BY column not found: " tm.schema) =
        .ok (group.map (fun c => (tm.schema.columnIndex c).getD 0)) := by
      refine mapM_of_forall (fun c inside => ?_)
      obtain ⟨i, hi⟩ := Option.isSome_iff_exists.mp (known c inside)
      rw [columnOr, hi, Option.getD_some]
    have defined : ∀ rows, ∀ other ∈ [agg],
        aggregateOverRowSlice rows tm.schema other = .ok (countValue p rows) := by
      intro rows other inside
      rw [List.mem_singleton.mp inside, counts]
    have grouped := groupRows_eq indexed defined (scanRows s tm)
    refine ⟨(rowGroups (group.map (fun c => (tm.schema.columnIndex c).getD 0))
      (scanRows s tm)).map (fun g => (g.1, g.2.countP p)), ?_, ?_⟩
    · rw [executePlan_groupBy (executePlan_scan htm) live, grouped, List.map_map]
      rfl
    · rw [List.map_map, rowGroups, List.map_map]
      exact Groupings.sum_countP_grouped p

/-- COUNT(*) over the chunks of a cut table counts its rows. -/
theorem countStar_agrees (htm : s.tableMeta ns table = some tm) (cut : CutFromRows s tm)
    (small : (s.buffered tm.id).length < columnarChunkSize)
    (some_column : tm.schema.columns ≠ []) : ScanAgrees s tm ns table .countStar := by
  obtain ⟨parts, built, joined⟩ := flushed_parts cut small
  apply (scanAgrees_iff htm cut small .countStar).mpr (Or.inr _)
  rw [aggregateOverChunks, rowCount_of_built some_column built, joined]
  rfl

/-- After INSERTs that all succeeded COUNT(*) and COUNT of a column, over a table and over
any groups of it, count its rows and the rows with a value in the column. -/
theorem counts_agree (h : ReachableInsertsOk s) (htm : s.tableMeta ns table = some tm)
    (some_column : tm.schema.columns ≠ []) {group : List String}
    (known : ∀ c ∈ group, (tm.schema.columnIndex c).isSome) :
    CountsRows s tm ns table group .countStar (fun _ => true) ∧
      ∀ column i, tm.schema.columnIndex column = some i →
        CountsRows s tm ns table group (.count column) (presentAt i) := by
  have valid := reachable_valid (reachable_of_insertsOk h)
  have live := bound_known valid.catalog (bound_of_tableMeta htm)
  have cut := insertsOk_cut h live
  have small := valid.smallBuffers tm.id
  constructor
  · exact countsRows_of_agrees htm known (fun rows => countStar_rows rows tm.schema)
      (countStar_agrees htm cut small some_column)
  · intro column i hcol
    refine countsRows_of_agrees htm known (count_rows hcol) ?_
    obtain ⟨slices, shown, joined⟩ :=
      flushed_slices cut small (valid.catalog.schemaBuilt tm.id tm live) hcol
    exact (scanAgrees_iff htm cut small _).mpr (Or.inr (count_values hcol shown joined))

end Counts

/-- Three rows in two groups, one of them without an amount. -/
def tallied : SessionState Float :=
  runPlans [.createTable "t" none [("kind", .text), ("amount", .bigInt)],
    .insert "t" none [] [[.string "a", .int64 1], [.string "b", .null], [.string "a"]]] .new

theorem tallied_insertsOk : ReachableInsertsOk tallied :=
  insertsOk_runPlans _ RunFrom.new ⟨fun _ => rfl, fun _ => rfl, trivial⟩

def talliedMeta : TableMeta :=
  ⟨0, 0, "t", .new [⟨"kind", .text, true⟩, ⟨"amount", .bigInt, true⟩], "row"⟩

theorem counts_agree_tallied :
    CountsRows tallied talliedMeta none "t" ["kind"] .countStar (fun _ => true) ∧
      CountsRows tallied talliedMeta none "t" ["kind"] (.count "amount") (presentAt 1) := by
  have live : tallied.tableMeta none "t" = some talliedMeta := rfl
  have kind : ∀ c ∈ ["kind"], (talliedMeta.schema.columnIndex c).isSome := by decide
  obtain ⟨rows, columns⟩ := counts_agree tallied_insertsOk live (List.cons_ne_nil _ _) kind
  exact ⟨rows, columns "amount" 1 rfl⟩

end CountAgreement
