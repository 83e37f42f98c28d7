import Mathlib.Algebra.BigOperators.Group.List.Basic
import Mathlib.Data.Int.CharZero
import RustafariDB.FloatLaws
import RustafariDB.StoreAgreement

/-!
# Columnar aggregates and row aggregates

A global aggregate is computed from chunks as soon as the table has one, and from
rows otherwise. On chunks cut from the rows both implementations are brought to
folds over the same cells; where the folds still differ is stated exactly for SUM
and AVG. Clamped integer sums are left out, as they depend on the cut.
-/

namespace AggregateAgreement

open SelectiveFolds SaturatingSums Floats FloatLaws Values Catalogs RowStorage ColumnarStorage Plans
open Aggregates Sessions Execution StatefulPrograms CatalogInvariants PlanEffects
open SessionInvariants StoreAgreement

variable {F : Type}

/-- The chunks of a table once its buffer is flushed. -/
def flushedChunks (s : SessionState F) (tm : TableMeta) : List (ColumnarChunk F) :=
  (s.flushColumnarBuffer tm.id tm.schema).columnarStore.chunksOf tm.id

section Execution
variable [Float64 F]

/-- The single row an aggregate returns when each value is computed by `f`. -/
def oneRow (f : AggExpr → Except RustafariError (Value F)) (aggs : List AggExpr) :
    Except Stop (ExecutionResult F) :=
  ((aggs.mapM f).mapError Stop.error).map (fun vs => .rows [.new vs])

omit [Float64 F] in
theorem oneRow_singleton_inj {f g : AggExpr → Except RustafariError (Value F)} {agg : AggExpr} :
    oneRow f [agg] = oneRow g [agg] ↔ f agg = g agg := by
  simp only [oneRow, List.mapM_cons, List.mapM_nil]
  cases f agg <;> cases g agg <;> simp [Except.mapError, Except.map, Bind.bind, Except.bind,
    Pure.pure, Except.pure, Row.new]

omit [Float64 F] in
theorem mapM_orReturn {m : AggExpr → Exec F (Value F)}
    {f : AggExpr → Except RustafariError (Value F)} {s : SessionState F}
    (each : ∀ agg, m agg s = (orReturn (f agg) : Exec F (Value F)) s) (aggs : List AggExpr) :
    aggs.mapM m s = (orReturn (aggs.mapM f) : Exec F (List (Value F))) s := by
  induction aggs with
  | nil => rfl
  | cons agg aggs ih =>
    rw [List.mapM_cons, List.mapM_cons, bind_run, each agg]
    cases f agg with
    | error e => rfl
    | ok v =>
      simp only [orReturn, Except.mapError, runExcept_ok_run, bind_run, ih]
      cases aggs.mapM f <;> rfl

variable [ValueDebug F] {s : SessionState F} {tm : TableMeta} {input : PlanNode F}

/-- The table is flushed and the aggregates are computed one by one. -/
theorem executePlan_aggregate (htm : scanMeta s input = .ok tm) (aggs : List AggExpr) :
    executePlan (.aggregate input aggs) s =
      (aggs.mapM (fun agg =>
        if (flushedChunks s tm).isEmpty then aggregateOverRows tm (executePlan input) agg
        else orReturn (aggregateOverChunks (flushedChunks s tm) tm.schema agg)) >>= fun vs =>
        pure (.rows [.new vs])) (s.flushColumnarBuffer tm.id tm.schema) := by
  rw [executePlan, bind_run, get_run]
  simp only [htm, orReturn, Except.mapError, bind_run, runExcept_ok_run, modify_run, get_run]
  rfl

/-- An aggregate returns one row of values when each is computed without a change of state. -/
theorem outcome_aggregate (htm : scanMeta s input = .ok tm)
    {f : AggExpr → Except RustafariError (Value F)}
    (each : ∀ agg, (if (flushedChunks s tm).isEmpty
        then aggregateOverRows tm (executePlan input) agg
        else orReturn (aggregateOverChunks (flushedChunks s tm) tm.schema agg) : Exec F (Value F))
          (s.flushColumnarBuffer tm.id tm.schema) =
        (orReturn (f agg) : Exec F (Value F)) (s.flushColumnarBuffer tm.id tm.schema))
    (aggs : List AggExpr) :
    outcome (executePlan (.aggregate input aggs) s) = oneRow f aggs := by
  rw [executePlan_aggregate htm, bind_run, mapM_orReturn each aggs, oneRow]
  cases aggs.mapM f <;> rfl

/-- With a chunk the input is not looked at. -/
theorem aggregate_of_chunks (htm : scanMeta s input = .ok tm)
    (some_chunk : flushedChunks s tm ≠ []) (aggs : List AggExpr) :
    outcome (executePlan (.aggregate input aggs) s) =
      oneRow (aggregateOverChunks (flushedChunks s tm) tm.schema) aggs := by
  refine outcome_aggregate htm (fun agg => ?_) aggs
  rw [if_neg (by simpa using some_chunk)]

/-- Without chunks the rows of the input are aggregated. -/
theorem aggregate_of_rows (htm : scanMeta s input = .ok tm) (no_chunk : flushedChunks s tm = [])
    {rows : List (Row F)}
    (run : executePlan input (s.flushColumnarBuffer tm.id tm.schema) =
      .ok (.rows rows) (s.flushColumnarBuffer tm.id tm.schema)) (aggs : List AggExpr) :
    outcome (executePlan (.aggregate input aggs) s) =
      oneRow (aggregateOverRowSlice rows tm.schema) aggs := by
  refine outcome_aggregate htm (fun agg => ?_) aggs
  rw [no_chunk, List.isEmpty_nil, if_pos rfl]
  simp only [aggregateOverRows, expectRows, bind_run, run]
  rfl

end Execution

section Chunks
variable {schema : Schema} {chunks : List (ColumnarChunk F)} {parts : List (List (Row F))}

/-- A chunk holds under a column the cells of its rows. -/
theorem shows_of_built (fromColumns : schema = .new schema.columns) {column : String} {i : Nat}
    (hcol : schema.columnIndex column = some i)
    (built : List.Forall₂ (BuiltFrom schema) chunks parts) :
    Shows column chunks (parts.map (fun rows => columnCells rows i)) := by
  induction built with
  | nil => exact List.Forall₂.nil
  | @cons ch rows chunks parts head _ ih =>
    obtain ⟨⟨chunkId, rfl⟩, _⟩ := head
    refine List.Forall₂.cons ?_ ih
    obtain ⟨col, hfound, hname⟩ : ∃ col, schema.columns.find? (fun c => c.name == column) =
        some col ∧ col.name = column := by
      rw [fromColumns] at hcol
      obtain ⟨col, hget, rfl⟩ := column_of_nameIndex hcol
      have listed : (schema.columns.find? (fun c => c.name == col.name)).isSome :=
        List.find?_isSome.mpr ⟨col, List.mem_of_getElem? hget, beq_self_eq_true col.name⟩
      obtain ⟨first, hfirst⟩ := Option.isSome_iff_exists.mp listed
      exact ⟨first, hfirst, by simpa using List.find?_some hfirst⟩
    have cells : (cell schema col : Row F → Value F) = fun r => (r.get i).getD .null := by
      funext r
      rw [cell, hname, hcol, Option.getD_some]
    rw [ColumnarChunk.column, ColumnarChunk.new, columnChunks, List.find?_map,
      Function.comp_def]
    simp only [hfound, Option.map_some, cells, columnCells]

theorem rowCount_of_built (some_column : schema.columns ≠ [])
    (built : List.Forall₂ (BuiltFrom schema) chunks parts) :
    (chunks.map ColumnarChunk.rowCount).sum = parts.flatten.length := by
  induction built with
  | nil => rfl
  | cons head _ ih =>
    obtain ⟨⟨chunkId, rfl⟩, _⟩ := head
    rw [List.map_cons, List.sum_cons, ih, rowCount_columnChunks some_column, List.flatten_cons,
      List.length_append]

theorem built_eq_nil_iff (built : List.Forall₂ (BuiltFrom schema) chunks parts) :
    chunks = [] ↔ parts.flatten = [] := by
  cases built with
  | nil => exact ⟨fun _ => rfl, fun _ => rfl⟩
  | cons head _ =>
    obtain ⟨_, low, _⟩ := head
    constructor
    · nofun
    · intro empty
      rw [List.flatten_cons, List.append_eq_nil_iff] at empty
      rw [empty.1] at low
      cases low

end Chunks

section Values
variable [Float64 F] {schema : Schema} {rows : List (Row F)} {column : String} {i : Nat}
variable {chunks : List (ColumnarChunk F)} {slices : List (List (Value F))}

theorem rowSum_eq (hcol : schema.columnIndex column = some i) :
    aggregateOverRowSlice rows schema (.sum column) =
      .ok (sumResult ⟨(columnInts rows i).foldl saturatingAdd 0,
        (columnFloats rows i).foldl Float64.add Float64.zero,
        !(columnInts rows i).isEmpty, !(columnFloats rows i).isEmpty⟩) := by
  simp only [aggregateOverRowSlice, columnOrError, hcol]
  rw [← foldl_columnValues]
  rfl

theorem rowAvg_eq (hcol : schema.columnIndex column = some i) :
    aggregateOverRowSlice rows schema (.avg column) =
      .ok (if (columnNumbers rows i).length = 0 then .null
        else .float64 (Float64.div ((columnNumbers rows i).foldl Float64.add Float64.zero)
          (Float64.ofInt (columnNumbers rows i).length))) := by
  simp only [aggregateOverRowSlice, columnOrError, hcol]
  have loop := foldl_addNumber (columnValues rows i) (Float64.zero, 0)
  rw [filterMap_columnValues rfl, Nat.zero_add] at loop
  change Except.ok _ = _
  rw [loop]
  rfl

/-- Both SUMs know alike whether they met an integer or a float. -/
theorem chunkSums_flags (shown : Shows column chunks slices)
    (joined : slices.flatten = columnCells rows i) :
    (chunkSums chunks column).hasInt = !(columnInts rows i).isEmpty ∧
      (chunkSums chunks column).hasFloat = !(columnFloats rows i).isEmpty := by
  rw [chunkSums_eq shown, joined]
  exact ⟨rfl, rfl⟩

/-- On integers alone SUM agrees whenever the sums are clamped alike. -/
theorem sum_of_integers (hcol : schema.columnIndex column = some i)
    (shown : Shows column chunks slices) (joined : slices.flatten = columnCells rows i)
    (alike : (chunkSums chunks column).int = (columnInts rows i).foldl saturatingAdd 0)
    (integers : columnFloats rows i = []) :
    aggregateOverChunks chunks schema (.sum column) =
      aggregateOverRowSlice rows schema (.sum column) := by
  obtain ⟨anyInt, anyFloat⟩ := chunkSums_flags shown joined
  rw [rowSum_eq hcol]
  simp only [aggregateOverChunks, sumResult, anyInt, anyFloat, alike, integers,
    List.isEmpty_nil, Bool.not_true, Bool.false_eq_true, if_false]

/-- One chunk adds its floats up from zero, and the loop over the chunks does so once more. -/
theorem chunkSums_float_single (shown : Shows column chunks slices) (single : chunks.length ≤ 1)
    (some_float : slices.flatten.filterMap float64Of ≠ []) :
    (chunkSums chunks column).float = Float64.add Float64.zero
      ((slices.flatten.filterMap float64Of).foldl Float64.add Float64.zero) := by
  have loop := congrArg Totals.float (chunkSums_eq shown)
  rw [shown.length_eq] at single
  cases slices with
  | nil => exact absurd rfl some_float
  | cons slice rest =>
    obtain rfl : rest = [] := by
      rw [List.length_cons] at single
      exact List.length_eq_zero_iff.mp (by omega)
    rw [List.flatten_singleton] at some_float ⊢
    have summed := foldSome_eq float64Of Float64.add (Float64.zero : F) slice
    rw [if_neg (by simpa using some_float)] at summed
    rw [loop]
    change ((foldSome float64Of Float64.add Float64.zero slice).map
      (Float64.add Float64.zero)).getD Float64.zero = _
    rw [summed]
    rfl

/-- One chunk is summed like its rows where no integers are left beside the floats. -/
theorem sum_single [AddsZero F] (hcol : schema.columnIndex column = some i)
    (shown : Shows column chunks slices) (joined : slices.flatten = columnCells rows i)
    (single : chunks.length ≤ 1) (cancelled : (columnInts rows i).foldl saturatingAdd 0 = 0) :
    aggregateOverChunks chunks schema (.sum column) =
      aggregateOverRowSlice rows schema (.sum column) := by
  by_cases integers : columnFloats rows i = []
  · have alike := chunkSums_int_single shown single
    rw [joined] at alike
    exact sum_of_integers hcol shown joined alike integers
  · obtain ⟨_, anyFloat⟩ := chunkSums_flags shown joined
    have some_float : (columnFloats rows i).isEmpty = false := by simpa using integers
    have float := chunkSums_float_single shown single (by rwa [joined])
    rw [joined, ← columnFloats, ← AddsZero.add_zero] at float
    rw [rowSum_eq hcol]
    simp only [aggregateOverChunks, sumResult, anyFloat, some_float, Bool.not_false, if_true,
      float, cancelled]
    rfl

theorem rowCount_eq (hcol : schema.columnIndex column = some i) :
    aggregateOverRowSlice rows schema (.count column) =
      .ok (.int64 (Int64.ofNat (ColumnChunk.countNonNullSlice (columnCells rows i)))) := by
  simp only [aggregateOverRowSlice, columnOrError, hcol]
  rw [← length_present]
  rfl

theorem count_values (hcol : schema.columnIndex column = some i)
    (shown : Shows column chunks slices) (joined : slices.flatten = columnCells rows i) :
    aggregateOverChunks chunks schema (.count column) =
      aggregateOverRowSlice rows schema (.count column) := by
  rw [rowCount_eq hcol, aggregateOverChunks, foldl_countChunk shown, joined, Nat.zero_add]

/-- Floats, if there are any, are folded slice by slice as they are in one loop. -/
def FoldedAlike (opF : F → F → F) (start : F) (slices : List (List (Value F)))
    (floats : List F) : Prop :=
  floats ≠ [] → slices.foldl (fun a slice =>
    ((foldSome float64Of opF start slice).map (opF a)).getD a) start = floats.foldl opF start

omit [Float64 F] in
theorem foldedAlike_of_assoc {opF : F → F → F} {start : F}
    (assoc : ∀ a b c, opF (opF a b) c = opF a (opF b c)) (settles : Settles opF start)
    (joined : slices.flatten = columnCells rows i) :
    FoldedAlike opF start slices (columnFloats rows i) := by
  have associative : Std.Associative opF := ⟨assoc⟩
  intro _
  rw [columnFloats, ← joined]
  exact foldl_parts_assoc float64Of opF settles slices

omit [Float64 F] in
/-- The chunk and the row version of MIN or MAX agree if the floats are folded alike, unless
there are only integers and the initial value of their loop is all there is. -/
theorem extreme_agrees_iff (opI : Int64 → Int64 → Int64) (opF : F → F → F)
    {ints : List (Value F) → Option Int64} {floats : List (Value F) → Option F}
    (sentinel : Int64) (start : F)
    (assoc : ∀ a b c, opI (opI a b) c = opI a (opI b c)) (neutral : ∀ a, opI a sentinel = a)
    (extreme : ∀ a b, opI a b = sentinel ↔ a = sentinel ∧ b = sentinel)
    (intSummary : ∀ slice, ints slice = foldSome int64Of opI sentinel slice)
    (floatSummary : ∀ slice, floats slice = foldSome float64Of opF start slice)
    (shown : Shows column chunks slices) (joined : slices.flatten = columnCells rows i)
    (alike : FoldedAlike opF start slices (columnFloats rows i)) :
    chunkExtreme sentinel
        (chunks.foldl (addChunk column opI opF ints floats) (.start sentinel start)) =
      extremeResult
        ((columnValues rows i).foldl (Totals.add opI opF) (.start sentinel start)) ↔
    columnFloats rows i ≠ [] ∨ columnInts rows i = [] ∨
      ∃ x ∈ columnInts rows i, x ≠ sentinel := by
  have associative : Std.Associative opI := ⟨assoc⟩
  have folded : slices.foldl (fun a slice =>
      ((foldSome int64Of opI sentinel slice).map (opI a)).getD a) sentinel =
        (columnInts rows i).foldl opI sentinel := by
    rw [columnInts, ← joined]
    exact foldl_parts_assoc int64Of opI ⟨neutral sentinel, fun a => neutral _⟩ slices
  have chunkFold := foldl_addChunk opI opF ints floats shown (.start sentinel start)
  simp only [intSummary, floatSummary, any_isSome_foldSome, joined, Totals.start, folded,
    Bool.false_or] at chunkFold
  rw [← columnInts, ← columnFloats] at chunkFold
  rw [Totals.start, chunkFold, ← Totals.start, foldl_columnValues]
  by_cases some_float : columnFloats rows i = []
  · rw [or_iff_right (not_not_intro some_float)]
    simp only [chunkExtreme, extremeResult, some_float, List.isEmpty_nil, Bool.not_true,
      Bool.false_eq_true, if_false]
    by_cases none : columnInts rows i = []
    · simp [none]
    · have present : (columnInts rows i).isEmpty = false := by simpa using none
      have untouched := foldl_eq_extreme_iff extreme (columnInts rows i) sentinel
      by_cases apart : (columnInts rows i).foldl opI sentinel = sentinel
      · have only := (untouched.mp apart).2
        simpa [present, apart, none] using only
      · have other : ∃ x ∈ columnInts rows i, x ≠ sentinel := by
          by_contra absent
          refine apart (untouched.mpr ⟨rfl, fun x inside => ?_⟩)
          by_contra differs
          exact absent ⟨x, inside, differs⟩
        simp [present, apart, other]
  · have present : (columnFloats rows i).isEmpty = false := by simpa using some_float
    simp [chunkExtreme, extremeResult, present, alike some_float, some_float]

theorem toInt_min (a b : Int64) : (min a b).toInt = min a.toInt b.toInt := by
  have choose : min a b = if a ≤ b then a else b := rfl
  rw [choose]
  split <;> rename_i order <;> rw [Int64.le_iff_toInt_le] at order <;> omega

theorem toInt_max (a b : Int64) : (max a b).toInt = max a.toInt b.toInt := by
  have choose : max a b = if a ≤ b then b else a := rfl
  rw [choose]
  split <;> rename_i order <;> rw [Int64.le_iff_toInt_le] at order <;> omega

theorem min_agrees_iff (hcol : schema.columnIndex column = some i)
    (shown : Shows column chunks slices) (joined : slices.flatten = columnCells rows i)
    (alike : FoldedAlike Float64.min Float64.infinity slices (columnFloats rows i)) :
    aggregateOverChunks chunks schema (.min column) =
        aggregateOverRowSlice rows schema (.min column) ↔
      columnFloats rows i ≠ [] ∨ columnInts rows i = [] ∨
        ∃ x ∈ columnInts rows i, x ≠ Int64.maxValue := by
  have high := Int64.toInt_le
  refine Iff.trans ?_ (extreme_agrees_iff min Float64.min Int64.maxValue Float64.infinity ?_ ?_ ?_
    ColumnChunk.minI64_eq ColumnChunk.minF64_eq shown joined alike)
  · simp only [aggregateOverRowSlice, columnOrError, hcol]
    exact iff_of_eq (Except.ok.injEq _ _)
  · intro a b c
    simp only [← Int64.toInt_inj, toInt_min, min_assoc]
  · intro a
    rw [← Int64.toInt_inj, toInt_min, min_eq_left (high a)]
  · intro a b
    have ha := high a
    have hb := high b
    simp only [← Int64.toInt_inj, toInt_min]
    omega

theorem max_agrees_iff (hcol : schema.columnIndex column = some i)
    (shown : Shows column chunks slices) (joined : slices.flatten = columnCells rows i)
    (alike : FoldedAlike Float64.max Float64.negInfinity slices (columnFloats rows i)) :
    aggregateOverChunks chunks schema (.max column) =
        aggregateOverRowSlice rows schema (.max column) ↔
      columnFloats rows i ≠ [] ∨ columnInts rows i = [] ∨
        ∃ x ∈ columnInts rows i, x ≠ Int64.minValue := by
  have low := Int64.minValue_le_toInt
  refine Iff.trans ?_ (extreme_agrees_iff max Float64.max Int64.minValue Float64.negInfinity
    ?_ ?_ ?_ ColumnChunk.maxI64_eq ColumnChunk.maxF64_eq shown joined alike)
  · simp only [aggregateOverRowSlice, columnOrError, hcol]
    exact iff_of_eq (Except.ok.injEq _ _)
  · intro a b c
    simp only [← Int64.toInt_inj, toInt_max, max_assoc]
  · intro a
    rw [← Int64.toInt_inj, toInt_max, max_eq_left (low a)]
  · intro a b
    have ha := low a
    have hb := low b
    simp only [← Int64.toInt_inj, toInt_max]
    omega

/-- Adding the integers as floats, one after another, gives the float of their sum. -/
def Unrounded (F : Type) [Float64 F] (xs : List Int64) : Prop :=
  xs.foldl (fun acc x => Float64.add acc (Float64.ofInt x.toInt)) (Float64.zero : F) =
    Float64.add (Float64.ofInt (exactSum xs)) Float64.zero

/-- Without floats the float sum of the chunks stays at zero. -/
theorem chunkSums_float_zero (shown : Shows column chunks slices)
    (noFloat : slices.flatten.filterMap float64Of = []) :
    (chunkSums chunks column).float = Float64.zero := by
  rw [chunkSums_eq shown]
  refine (foldl_parts _ _ _ _ _ _ (fun before part inside picked => ?_)).trans ?_
  · obtain ⟨rest, whole⟩ := picked_of_prefix float64Of inside
    rw [whole, List.append_eq_nil_iff, List.append_eq_nil_iff] at noFloat
    exact False.elim (picked noFloat.1.2)
  · rw [noFloat]
    rfl

/-- A column of integers has no floats, and its numbers are its present values. -/
theorem integer_column (integers : ∀ v ∈ columnCells rows i, v = .null ∨ ∃ x, v = .int64 x) :
    columnFloats rows i = [] ∧
      columnNumbers rows i = (columnInts rows i).map (fun x => Float64.ofInt x.toInt) ∧
      ColumnChunk.countNonNullSlice (columnCells rows i) = (columnNumbers rows i).length := by
  refine ⟨?_, ?_, ?_⟩
  · refine List.filterMap_eq_nil_iff.mpr (fun v inside => ?_)
    rcases integers v inside with rfl | ⟨x, rfl⟩ <;> rfl
  · rw [columnNumbers, columnInts, List.map_filterMap]
    refine List.filterMap_congr (fun v inside => ?_)
    rcases integers v inside with rfl | ⟨x, rfl⟩ <;> rfl
  · refine ((length_columnNumbers rows i).2.mpr (fun v inside => ?_)).symm
    rcases integers v inside with rfl | ⟨x, rfl⟩
    · exact Or.inl rfl
    · exact Or.inr rfl

/-- AVG agrees on integers whose sum is neither clamped nor rounded. -/
theorem avg_of_integers (hcol : schema.columnIndex column = some i)
    (shown : Shows column chunks slices) (joined : slices.flatten = columnCells rows i)
    (integers : ∀ v ∈ columnCells rows i, v = .null ∨ ∃ x, v = .int64 x)
    (exact : columnInts rows i = [] ∨
      ((chunkSums chunks column).int.toInt = exactSum (columnInts rows i) ∧
        Unrounded F (columnInts rows i))) :
    aggregateOverChunks chunks schema (.avg column) =
      aggregateOverRowSlice rows schema (.avg column) := by
  obtain ⟨noFloat, numbers, count⟩ := integer_column integers
  rw [columnFloats, ← joined] at noFloat
  rw [rowAvg_eq hcol]
  simp only [aggregateOverChunks, foldl_countChunk shown, joined, Nat.zero_add, count,
    chunkSums_float_zero shown noFloat, numbers, List.length_map, List.foldl_map]
  rcases exact with none | ⟨sum, unrounded⟩
  · rw [none]
    rfl
  · rw [sum, ← unrounded]

end Values

section Exact

variable {schema : Schema} {rows : List (Row ExactFloat)} {column : String} {i : Nat}
variable {chunks : List (ColumnarChunk ExactFloat)} {slices : List (List (Value ExactFloat))}

theorem chunkSums_float (shown : Shows column chunks slices) :
    (chunkSums chunks column).float = (slices.flatten.filterMap float64Of).sum := by
  have zero : (Float64.zero : ExactFloat) = 0 := rfl
  have whole : (chunkSums chunks column).float =
      (slices.flatten.filterMap float64Of).foldl Float64.add Float64.zero := by
    rw [chunkSums_eq shown]
    refine foldl_parts _ _ _ _ _ _ (fun before part _ _ => ?_)
    have join (a b : ExactFloat) : Float64.add a b = a + b := rfl
    simp only [ExactFloat.foldl_add_eq_sum, zero, zero_add, join]
  rw [whole, ExactFloat.foldl_add_eq_sum, zero, zero_add]

/-- The numbers of a column add up to its integers and its floats. -/
theorem sum_numbers (vs : List (Value ExactFloat)) :
    (vs.filterMap numberOf).sum =
      (vs.filterMap float64Of).sum + .finite (exactSum (vs.filterMap int64Of)) := by
  induction vs with
  | nil => simp [← ExactFloat.zero_def]
  | cons v vs ih =>
    cases v with
    | int64 x =>
      have number : (Float64.ofInt x.toInt : ExactFloat) = .finite x.toInt := rfl
      simp only [List.filterMap_cons, numberOf, float64Of, int64Of, List.sum_cons, ih,
        exactSum_cons, number, Int.cast_add]
      rw [← ExactFloat.finite_add, add_left_comm]
    | float64 x =>
      simp only [List.filterMap_cons, numberOf, float64Of, int64Of, List.sum_cons, ih, add_assoc]
    | _ => simpa only [List.filterMap_cons, numberOf, float64Of, int64Of] using ih

/-- SUM over chunks loses the integers of a column that also has floats. -/
theorem sum_values_eq_iff (hcol : schema.columnIndex column = some i)
    (shown : Shows column chunks slices) (joined : slices.flatten = columnCells rows i)
    (alike : columnFloats rows i ≠ [] ∨
      (chunkSums chunks column).int = (columnInts rows i).foldl saturatingAdd 0) :
    aggregateOverChunks chunks schema (.sum column) =
        aggregateOverRowSlice rows schema (.sum column) ↔
      columnFloats rows i = [] ∨ (columnInts rows i).foldl saturatingAdd 0 = 0 ∨
        (columnFloats rows i).sum.isFinite = false := by
  by_cases integers : columnFloats rows i = []
  · have same := alike.resolve_left (not_not_intro integers)
    exact ⟨fun _ => Or.inl integers, fun _ => sum_of_integers hcol shown joined same integers⟩
  · obtain ⟨_, anyFloat⟩ := chunkSums_flags shown joined
    have some_float : (columnFloats rows i).isEmpty = false := by simpa using integers
    have zero : (Float64.zero : ExactFloat) = 0 := rfl
    have total := chunkSums_float shown
    rw [joined] at total
    rw [rowSum_eq hcol]
    simp only [aggregateOverChunks, sumResult, anyFloat, some_float, Bool.not_false, if_true,
      total, ExactFloat.foldl_add_eq_sum, zero, zero_add, Except.ok.injEq, Value.float64.injEq]
    rw [or_iff_right integers, eq_comm]
    refine ExactFloat.add_finite_eq_self_iff.trans (or_congr_left ?_)
    rw [Int.cast_eq_zero, ← Int64.toInt_inj]
    rfl

/-- One total divided by two counts, where an empty count gives Null. -/
theorem average_eq_iff {total : ExactFloat} {n m : Nat} (le : n ≤ m) :
    ((if m = 0 then .null else .float64 (Float64.div total (Float64.ofInt m)) :
        Value ExactFloat) =
      if n = 0 then .null else .float64 (Float64.div total (Float64.ofInt n))) ↔
    n = m ∨ (n ≠ 0 ∧ (total = 0 ∨ total.isFinite = false)) := by
  by_cases hn : n = 0
  · by_cases hm : m = 0
    · simp [hn, hm]
    · simp [hn, hm, Ne.symm hm]
  · have hm : m ≠ 0 := by omega
    rw [if_neg hm, if_neg hn, Value.float64.injEq, eq_comm]
    have positive {k : Nat} (hk : k ≠ 0) : (0 : ℚ) < ((k : Int) : ℚ) := by
      rw [Int.cast_natCast]
      exact Nat.cast_pos.mpr (Nat.pos_of_ne_zero hk)
    refine (ExactFloat.div_finite_eq_iff (positive hn) (positive hm)).trans ?_
    simp [hn]

/-- AVG over chunks counts every present value, AVG over rows the numbers only. -/
theorem avg_values_eq_iff (hcol : schema.columnIndex column = some i)
    (shown : Shows column chunks slices) (joined : slices.flatten = columnCells rows i)
    (exact : (chunkSums chunks column).int.toInt = exactSum (columnInts rows i)) :
    aggregateOverChunks chunks schema (.avg column) =
        aggregateOverRowSlice rows schema (.avg column) ↔
      (∀ v ∈ columnCells rows i, v.isNull = true ∨ (numberOf v).isSome = true) ∨
        (columnNumbers rows i ≠ [] ∧ ((columnNumbers rows i).sum = 0 ∨
          (columnNumbers rows i).sum.isFinite = false)) := by
  obtain ⟨fewer, numeric⟩ := length_columnNumbers rows i
  have zero : (Float64.zero : ExactFloat) = 0 := rfl
  have total : Float64.add (Float64.ofInt (chunkSums chunks column).int.toInt)
      (chunkSums chunks column).float = (columnNumbers rows i).sum := by
    rw [chunkSums_float shown, joined, exact, columnNumbers, sum_numbers]
    exact add_comm _ _
  rw [rowAvg_eq hcol, ← numeric]
  simp only [aggregateOverChunks, foldl_countChunk shown, joined, total,
    ExactFloat.foldl_add_eq_sum, zero, zero_add, Except.ok.injEq]
  rw [average_eq_iff fewer, ne_eq, List.length_eq_zero_iff]

theorem columnInts_of_numbers (none : columnNumbers rows i = []) : columnInts rows i = [] := by
  refine List.filterMap_eq_nil_iff.mpr (fun v inside => ?_)
  have absent := List.filterMap_eq_nil_iff.mp none v inside
  cases v with
  | int64 x => cases absent
  | _ => rfl

/-- On a column of numbers AVG over chunks divides a clamped integer total, AVG over rows the
exact one. -/
theorem avg_clamped_eq_iff (hcol : schema.columnIndex column = some i)
    (shown : Shows column chunks slices) (joined : slices.flatten = columnCells rows i)
    (alike : (chunkSums chunks column).int = (columnInts rows i).foldl saturatingAdd 0)
    (numeric : ∀ v ∈ columnCells rows i, v.isNull = true ∨ (numberOf v).isSome = true) :
    aggregateOverChunks chunks schema (.avg column) =
        aggregateOverRowSlice rows schema (.avg column) ↔
      ((columnInts rows i).foldl saturatingAdd 0).toInt = exactSum (columnInts rows i) ∨
        (columnFloats rows i).sum.isFinite = false := by
  have count := (length_columnNumbers rows i).2.mpr numeric
  have zero : (Float64.zero : ExactFloat) = 0 := rfl
  have float : (chunkSums chunks column).float = (columnFloats rows i).sum := by
    rw [chunkSums_float shown, joined, columnFloats]
  rw [rowAvg_eq hcol]
  simp only [aggregateOverChunks, foldl_countChunk shown, joined, ← count, float, alike,
    ExactFloat.foldl_add_eq_sum, zero, zero_add, Except.ok.injEq]
  by_cases none : columnNumbers rows i = []
  · simp [none, columnInts_of_numbers none]
  · have some_number : (columnNumbers rows i).length ≠ 0 :=
      fun empty => none (List.length_eq_zero_iff.mp empty)
    have positive : (0 : ℚ) < (((columnNumbers rows i).length : Int) : ℚ) := by
      rw [Int.cast_natCast]
      exact Nat.cast_pos.mpr (Nat.pos_of_ne_zero some_number)
    have total : (columnNumbers rows i).sum =
        .finite (exactSum (columnInts rows i)) + (columnFloats rows i).sum := by
      rw [columnNumbers, sum_numbers, add_comm]
      rfl
    rw [if_neg some_number, if_neg some_number, Value.float64.injEq]
    refine (ExactFloat.div_finite_inj positive).trans ?_
    rw [total]
    exact ExactFloat.finite_add_eq_iff.trans (or_congr_left Int.cast_inj)

end Exact

section Tables
variable [Float64 F] {s : SessionState F} {tm : TableMeta}

omit [Float64 F] in
/-- After the flush the chunks of a table are cut from all its rows. -/
theorem flushed_parts (cut : CutFromRows s tm)
    (small : (s.buffered tm.id).length < columnarChunkSize) :
    ∃ parts, List.Forall₂ (BuiltFrom tm.schema) (flushedChunks s tm) parts ∧
      parts.flatten = scanRows s tm := by
  obtain ⟨parts, built, joined⟩ := cut_flush cut small
  rw [SessionState.buffered_flush, if_pos rfl, List.append_nil, scanRows,
    SessionState.rowStore_flush] at joined
  exact ⟨parts, built, joined⟩

omit [Float64 F] in
theorem flushed_slices (cut : CutFromRows s tm)
    (small : (s.buffered tm.id).length < columnarChunkSize)
    (fromColumns : tm.schema = .new tm.schema.columns) {column : String} {i : Nat}
    (hcol : tm.schema.columnIndex column = some i) :
    ∃ slices, Shows column (flushedChunks s tm) slices ∧
      slices.flatten = columnCells (scanRows s tm) i := by
  obtain ⟨parts, built, joined⟩ := flushed_parts cut small
  refine ⟨_, shows_of_built fromColumns hcol built, ?_⟩
  rw [← joined, columnCells, List.map_flatten]
  rfl

omit [Float64 F] in
theorem flushedChunks_eq_nil_iff (cut : CutFromRows s tm)
    (small : (s.buffered tm.id).length < columnarChunkSize) :
    flushedChunks s tm = [] ↔ scanRows s tm = [] := by
  obtain ⟨parts, built, joined⟩ := flushed_parts cut small
  rw [← joined]
  exact built_eq_nil_iff built

/-- No running total of the integers of a column leaves the 64-bit range, neither over
its rows nor within a chunk. -/
def NoOverflow (s : SessionState F) (tm : TableMeta) (column : String) (i : Nat) : Prop :=
  PrefixesFit 0 (columnInts (scanRows s tm) i) ∧
    ∀ ch ∈ flushedChunks s tm, ∀ slice, ch.column column = some slice →
      PrefixesFit 0 (slice.filterMap int64Of)

/-- A single chunk is summed like the rows, and so are several without clamping. -/
theorem chunkSums_int_alike {column : String} {i : Nat} {slices : List (List (Value F))}
    (shown : Shows column (flushedChunks s tm) slices)
    (joined : slices.flatten = columnCells (scanRows s tm) i)
    (alike : (flushedChunks s tm).length ≤ 1 ∨ NoOverflow s tm column i) :
    (chunkSums (flushedChunks s tm) column).int =
      (columnInts (scanRows s tm) i).foldl saturatingAdd 0 := by
  rw [columnInts, ← joined]
  rcases alike with single | ⟨whole, alone⟩
  · exact chunkSums_int_single shown single
  · rw [columnInts, ← joined] at whole
    refine chunkSums_int shown (fun slice member => ?_) whole
    obtain ⟨ch, inside, holds⟩ := shows_mem shown member
    exact alone ch inside slice holds

theorem chunkSums_int_exact {column : String} {i : Nat} {slices : List (List (Value F))}
    (shown : Shows column (flushedChunks s tm) slices)
    (joined : slices.flatten = columnCells (scanRows s tm) i)
    (fits : NoOverflow s tm column i) :
    (chunkSums (flushedChunks s tm) column).int.toInt =
      exactSum (columnInts (scanRows s tm) i) := by
  rw [chunkSums_int_alike shown joined (Or.inr fits),
    toInt_foldl_saturatingAdd 0 fits.1]
  exact Int.zero_add _

variable [ValueDebug F] {ns : Option String} {table : String}

/-- An aggregate of a whole table is what the row implementation gives on its rows. -/
def ScanAgrees (s : SessionState F) (tm : TableMeta) (ns : Option String) (table : String)
    (agg : AggExpr) : Prop :=
  outcome (executePlan (.aggregate (.scan table ns) [agg]) s) =
    oneRow (aggregateOverRowSlice (scanRows s tm) tm.schema) [agg]

/-- A table with rows is aggregated from its chunks. -/
theorem scanAgrees_iff (htm : s.tableMeta ns table = some tm) (cut : CutFromRows s tm)
    (small : (s.buffered tm.id).length < columnarChunkSize) (agg : AggExpr) :
    ScanAgrees s tm ns table agg ↔ scanRows s tm = [] ∨
      aggregateOverChunks (flushedChunks s tm) tm.schema agg =
        aggregateOverRowSlice (scanRows s tm) tm.schema agg := by
  have live : scanMeta s (.scan table ns) = .ok tm := resolveTable_eq_ok.mpr htm
  rw [ScanAgrees, ← flushedChunks_eq_nil_iff cut small]
  by_cases no_chunk : flushedChunks s tm = []
  · have resolved : (s.flushColumnarBuffer tm.id tm.schema).tableMeta ns table = some tm := by
      rw [SessionState.tableMeta, SessionState.catalog_flush]
      exact htm
    have rows : scanRows (s.flushColumnarBuffer tm.id tm.schema) tm = scanRows s tm := by
      rw [scanRows, SessionState.rowStore_flush, scanRows]
    rw [aggregate_of_rows live no_chunk (executePlan_scan resolved), rows]
    exact iff_of_true rfl (Or.inl no_chunk)
  · rw [aggregate_of_chunks live no_chunk, oneRow_singleton_inj, or_iff_right no_chunk]

end Tables

section SumAndAverage
variable {s : SessionState ExactFloat} {tm : TableMeta} {ns : Option String} {table : String}
variable {column : String} {i : Nat}

/-- After INSERTs that all succeeded, and up to clamping, SUM over a table is that of its
rows unless floats stand beside integers of a sum other than zero, and AVG unless a
value that is no number counts towards a total other than zero. On one chunk of numbers a
clamped total is the only thing that sets AVG apart. -/
theorem sum_avg_agree_iff (h : ReachableInsertsOk s) (htm : s.tableMeta ns table = some tm)
    (hcol : tm.schema.columnIndex column = some i) :
    (columnFloats (scanRows s tm) i ≠ [] ∨ (flushedChunks s tm).length ≤ 1 ∨
        NoOverflow s tm column i →
      (ScanAgrees s tm ns table (.sum column) ↔
        columnFloats (scanRows s tm) i = [] ∨
        (columnInts (scanRows s tm) i).foldl saturatingAdd 0 = 0 ∨
        (columnFloats (scanRows s tm) i).sum.isFinite = false)) ∧
    (NoOverflow s tm column i →
      (ScanAgrees s tm ns table (.avg column) ↔
        (∀ v ∈ columnCells (scanRows s tm) i, v.isNull = true ∨ (numberOf v).isSome = true) ∨
        (columnNumbers (scanRows s tm) i ≠ [] ∧
          ((columnNumbers (scanRows s tm) i).sum = 0 ∨
            (columnNumbers (scanRows s tm) i).sum.isFinite = false)))) ∧
    ((flushedChunks s tm).length ≤ 1 →
      (∀ v ∈ columnCells (scanRows s tm) i, v.isNull = true ∨ (numberOf v).isSome = true) →
      (ScanAgrees s tm ns table (.avg column) ↔
        ((columnInts (scanRows s tm) i).foldl saturatingAdd 0).toInt =
            exactSum (columnInts (scanRows s tm) i) ∨
          (columnFloats (scanRows s tm) i).sum.isFinite = false)) := by
  have valid := reachable_valid (reachable_of_insertsOk h)
  have known := bound_known valid.catalog (bound_of_tableMeta htm)
  have cut := insertsOk_cut h known
  have small := valid.smallBuffers tm.id
  have fromColumns := valid.catalog.schemaBuilt tm.id tm known
  obtain ⟨slices, shown, joined⟩ := flushed_slices cut small fromColumns hcol
  refine ⟨?_, ?_, ?_⟩
  · intro alike
    rw [scanAgrees_iff htm cut small, sum_values_eq_iff hcol shown joined
      (alike.imp_right (chunkSums_int_alike shown joined))]
    refine or_iff_right_of_imp (fun empty => Or.inl ?_)
    rw [empty]
    rfl
  · intro fits
    rw [scanAgrees_iff htm cut small, avg_values_eq_iff hcol shown joined
      (chunkSums_int_exact shown joined fits)]
    refine or_iff_right_of_imp (fun empty => Or.inl ?_)
    rw [empty]
    nofun
  · intro single numeric
    rw [scanAgrees_iff htm cut small, avg_clamped_eq_iff hcol shown joined
      (chunkSums_int_alike shown joined (Or.inl single)) numeric]
    refine or_iff_right_of_imp (fun empty => Or.inl ?_)
    rw [empty]
    rfl

/-- Two rows; `amount` holds an integer and a Null, `price` an integer and a float. -/
def priced : SessionState ExactFloat :=
  runPlans [.createTable "t" none [("amount", .bigInt), ("price", .double)],
    .insert "t" none [] [[.int64 10, .int64 1], [.null, .float64 (.finite 2)]]] .new

theorem priced_insertsOk : ReachableInsertsOk priced :=
  insertsOk_runPlans _ RunFrom.new ⟨fun _ => rfl, fun _ => rfl, trivial⟩

def pricedMeta : TableMeta :=
  ⟨0, 0, "t", .new [⟨"amount", .bigInt, true⟩, ⟨"price", .double, true⟩], "row"⟩

theorem priced_live : priced.tableMeta none "t" = some pricedMeta := rfl

theorem sum_avg_agree_amount :
    ScanAgrees priced pricedMeta none "t" (.sum "amount") ∧
      ScanAgrees priced pricedMeta none "t" (.avg "amount") ∧
      ScanAgrees priced pricedMeta none "t" (.avg "price") := by
  have cells : columnCells (scanRows priced pricedMeta) 0 = [.int64 10, .null] := rfl
  have prices : columnCells (scanRows priced pricedMeta) 1 =
      [.int64 1, .float64 (.finite 2)] := rfl
  have stored : flushedChunks priced pricedMeta =
      [⟨0, [⟨"amount", [.int64 10, .null]⟩, ⟨"price", [.int64 1, .float64 (.finite 2)]⟩], 2⟩] :=
    rfl
  have small : PrefixesFit 0 [10] := ⟨by decide, trivial⟩
  have fits : NoOverflow priced pricedMeta "amount" 0 := by
    refine ⟨small, ?_⟩
    rw [stored]
    rintro ch (_ | ⟨_, ⟨⟩⟩) slice ⟨⟩
    exact small
  have amount : pricedMeta.schema.columnIndex "amount" = some 0 := rfl
  have price : pricedMeta.schema.columnIndex "price" = some 1 := rfl
  obtain ⟨sum, avg, _⟩ := sum_avg_agree_iff priced_insertsOk priced_live amount
  obtain ⟨_, _, single⟩ := sum_avg_agree_iff priced_insertsOk priced_live price
  refine ⟨(sum (Or.inr (Or.inr fits))).mpr (Or.inl rfl), (avg fits).mpr (Or.inl ?_),
    (single (by rw [stored]; decide) ?_).mpr (Or.inl rfl)⟩
  · rw [cells]
    rintro v (_ | ⟨_, _ | ⟨_, ⟨⟩⟩⟩)
    · exact Or.inr rfl
    · exact Or.inl rfl
  · rw [prices]
    rintro v (_ | ⟨_, _ | ⟨_, ⟨⟩⟩⟩) <;> exact Or.inr rfl

/-- The integer beside the float is missing from the SUM over chunks. -/
theorem mixed_sum_differs :
    ¬ ∀ (s : SessionState ExactFloat), ReachableInsertsOk s → ∀ (ns : Option String)
      (table : String) (tm : TableMeta) (column : String) (i : Nat),
      s.tableMeta ns table = some tm → tm.schema.columnIndex column = some i →
        ScanAgrees s tm ns table (.sum column) ∧ ScanAgrees s tm ns table (.avg column) := by
  intro agrees
  have sum := (agrees priced priced_insertsOk none "t" pricedMeta "price" 1 priced_live rfl).1
  have chunks : outcome (executePlan (.aggregate (.scan "t" none) [.sum "price"]) priced) =
      .ok (.rows [⟨[.float64 (.finite (0 + (0 + 2)))]⟩]) := rfl
  have rows : oneRow (aggregateOverRowSlice (scanRows priced pricedMeta) pricedMeta.schema)
      [.sum "price"] = .ok (.rows [⟨[.float64 (.finite (0 + 2 + (1 : Int)))]⟩]) := rfl
  rw [ScanAgrees, chunks, rows] at sum
  simp at sum

end SumAndAverage

end AggregateAgreement
