import RustafariDB.AggregateAgreement
import RustafariDB.IndexLookups

/-!
# Global aggregates of a filtered table

The filter runs as long as the table has no columnar content, which in a reachable
state means that all its rows are stranded ones. Afterwards the chunks are
aggregated whole, so the filter is respected where it drops nothing that counts.
-/

namespace FilteredAggregates

open SaturatingSums Floats FloatLaws Values Catalogs RowStorage ColumnarStorage BTreeIndexing Plans
open Predicates Aggregates Sessions Execution StatefulPrograms CatalogInvariants PlanEffects
open SessionInvariants StoreAgreement IndexLookups AggregateAgreement

variable {F : Type}

section Dropping

/-- The column an aggregate reads; COUNT(*) reads none. -/
def columnOf : AggExpr → Option String
  | .countStar => none
  | .sum c | .count c | .avg c | .min c | .max c => some c

def present (schema : Schema) (c : String) (row : Row F) : Bool :=
  ((schema.columnIndex c).bind row.get).any (fun v => !v.isNull)

/-- The aggregate counts the row: COUNT(*) every row, the others those with a present
value in their column. -/
def counts (schema : Schema) (agg : AggExpr) (row : Row F) : Bool :=
  (columnOf agg).all (fun c => present schema c row)

variable {schema : Schema} {rows rows' : List (Row F)} {keep : Row F → Bool} {i : Nat}
variable {agg : AggExpr} {c : String}

/-- An aggregate of a column depends on its present values only. -/
theorem aggregate_congr [Float64 F] (column : columnOf agg = some c)
    (same : ∀ i, schema.columnIndex c = some i → ∀ {β : Type} (pick : Value F → Option β),
      pick .null = none →
        (columnValues rows i).filterMap pick = (columnValues rows' i).filterMap pick) :
    aggregateOverRowSlice rows schema agg = aggregateOverRowSlice rows' schema agg := by
  cases hcol : schema.columnIndex c with
  | none =>
    cases agg <;> cases column <;>
      simp only [aggregateOverRowSlice, columnOrError, hcol, error_bind]
  | some i =>
    have same := @same i hcol
    have totals (opI : Int64 → Int64 → Int64) (opF : F → F → F) (acc : Totals F) :
        (columnValues rows i).foldl (Totals.add opI opF) acc =
          (columnValues rows' i).foldl (Totals.add opI opF) acc := by
      rw [foldl_add, foldl_add, same int64Of rfl, same float64Of rfl]
    cases agg with
    | countStar => cases column
    | count _ =>
      cases column
      simp only [aggregateOverRowSlice, columnOrError, hcol, ok_bind]
      rw [← List.filterMap_eq_filter, same _ rfl]
    | avg _ =>
      cases column
      simp only [aggregateOverRowSlice, columnOrError, hcol, ok_bind]
      rw [foldl_addNumber, foldl_addNumber, same numberOf rfl]
    | _ =>
      cases column
      simp only [aggregateOverRowSlice, columnOrError, hcol, ok_bind, totals]

theorem columnValues_filter (kept : ∀ row ∈ rows, present schema c row = true → keep row = true)
    (hcol : schema.columnIndex c = some i) {β : Type} {pick : Value F → Option β}
    (skipsNull : pick .null = none) :
    (columnValues (rows.filter keep) i).filterMap pick =
      (columnValues rows i).filterMap pick := by
  rw [columnValues, columnValues, List.filterMap_filterMap, List.filterMap_filterMap,
    List.filterMap_filter]
  refine List.filterMap_congr (fun row inside => ?_)
  have kept := kept row inside
  rw [present, hcol, Option.bind_some] at kept
  cases dropped : keep row with
  | true => rfl
  | false =>
    rw [dropped] at kept
    cases value : row.get i with
    | none => rfl
    | some v =>
      rw [value] at kept
      cases null : v.isNull with
      | true =>
        cases v <;> first | exact skipsNull.symm | cases null
      | false => simp [null] at kept

/-- An aggregate does not change when rows it does not count are dropped. -/
theorem aggregate_filter [Float64 F]
    (kept : ∀ row ∈ rows, counts schema agg row = true → keep row = true) :
    aggregateOverRowSlice (rows.filter keep) schema agg =
      aggregateOverRowSlice rows schema agg := by
  cases column : columnOf agg with
  | none =>
    rw [List.filter_eq_self.mpr (fun row inside => kept row inside (by rw [counts, column]; rfl))]
  | some c =>
    refine aggregate_congr column (fun i hcol _ _ skipsNull => ?_)
    refine columnValues_filter (fun row inside there => kept row inside ?_) hcol skipsNull
    rw [counts, column]
    exact there

end Dropping

section Idle
variable [Float64 F] {s : SessionState F} {tm : TableMeta}

/-- Chunks serve as well as rows: the column exists, and for SUM and AVG it holds integers whose
sum is neither clamped across chunks nor rounded, or for SUM one chunk of floats whose integers
cancel; for MIN and MAX it holds a float or an integer other than the initial value. The laws
asked for beside floats are laws of `f64`. -/
def Alike (s : SessionState F) (tm : TableMeta) : AggExpr → Prop
  | .countStar => True
  | .count c => ∃ i, tm.schema.columnIndex c = some i
  | .sum c => ∃ i, tm.schema.columnIndex c = some i ∧
      (columnFloats (scanRows s tm) i = [] ∧
          ((flushedChunks s tm).length ≤ 1 ∨ NoOverflow s tm c i) ∨
        AddsZero F ∧ (flushedChunks s tm).length ≤ 1 ∧
          (columnInts (scanRows s tm) i).foldl saturatingAdd 0 = 0)
  | .avg c => ∃ i, tm.schema.columnIndex c = some i ∧
      (∀ v ∈ columnCells (scanRows s tm) i, v = .null ∨ ∃ x, v = .int64 x) ∧
      (columnInts (scanRows s tm) i = [] ∨
        (NoOverflow s tm c i ∧ Unrounded F (columnInts (scanRows s tm) i)))
  | .min c => ∃ i, tm.schema.columnIndex c = some i ∧
      (columnFloats (scanRows s tm) i = [] ∨ LawfulFloat64 F) ∧
      (columnFloats (scanRows s tm) i ≠ [] ∨ columnInts (scanRows s tm) i = [] ∨
        ∃ x ∈ columnInts (scanRows s tm) i, x ≠ Int64.maxValue)
  | .max c => ∃ i, tm.schema.columnIndex c = some i ∧
      (columnFloats (scanRows s tm) i = [] ∨ LawfulFloat64 F) ∧
      (columnFloats (scanRows s tm) i ≠ [] ∨ columnInts (scanRows s tm) i = [] ∨
        ∃ x ∈ columnInts (scanRows s tm) i, x ≠ Int64.minValue)

theorem alike_values (valid : SessionValid s) (known : s.catalog.tablesById[tm.id]? = some tm)
    (cut : CutFromRows s tm) (some_column : tm.schema.columns ≠ []) {agg : AggExpr}
    (alike : Alike s tm agg) :
    aggregateOverChunks (flushedChunks s tm) tm.schema agg =
      aggregateOverRowSlice (scanRows s tm) tm.schema agg := by
  have small := valid.smallBuffers tm.id
  have slices {c : String} {i : Nat} (hcol : tm.schema.columnIndex c = some i) :=
    flushed_slices cut small (valid.catalog.schemaBuilt tm.id tm known) hcol
  cases agg with
  | countStar =>
    obtain ⟨parts, built, joined⟩ := flushed_parts cut small
    simp only [aggregateOverChunks, aggregateOverRowSlice]
    rw [rowCount_of_built some_column built, joined]
  | count c =>
    obtain ⟨i, hcol⟩ := alike
    obtain ⟨_, shown, joined⟩ := slices hcol
    exact count_values hcol shown joined
  | sum c =>
    obtain ⟨i, hcol, ⟨integers, unsplit⟩ | ⟨_, single, cancelled⟩⟩ := alike
    · obtain ⟨_, shown, joined⟩ := slices hcol
      exact sum_of_integers hcol shown joined (chunkSums_int_alike shown joined unsplit) integers
    · obtain ⟨_, shown, joined⟩ := slices hcol
      exact sum_single hcol shown joined single cancelled
  | avg c =>
    obtain ⟨i, hcol, integers, exact⟩ := alike
    obtain ⟨_, shown, joined⟩ := slices hcol
    exact avg_of_integers hcol shown joined integers
      (exact.imp_right (fun fits => ⟨chunkSums_int_exact shown joined fits.1, fits.2⟩))
  | min c =>
    obtain ⟨i, hcol, floats, visible⟩ := alike
    obtain ⟨_, shown, joined⟩ := slices hcol
    refine (min_agrees_iff hcol shown joined ?_).mpr visible
    rcases floats with integers | _
    · exact absurd integers
    · exact foldedAlike_of_assoc LawfulFloat64.min_assoc LawfulFloat64.min_settles joined
  | max c =>
    obtain ⟨i, hcol, floats, visible⟩ := alike
    obtain ⟨_, shown, joined⟩ := slices hcol
    refine (max_agrees_iff hcol shown joined ?_).mpr visible
    rcases floats with integers | _
    · exact absurd integers
    · exact foldedAlike_of_assoc LawfulFloat64.max_assoc LawfulFloat64.max_settles joined

end Idle

section Stranded
variable [Float64 F] {s : SessionState F} {tm : TableMeta}

/-- The row has no key in the id column of its table. -/
def Unkeyed (tm : TableMeta) (row : Row F) : Prop :=
  ∀ i, tm.schema.columnIndex "id" = some i → idKey i row = none

theorem columnar_stored (row : Row F) :
    ¬ ((stored s tm row).columnarStore.chunksOf tm.id = [] ∧
      (stored s tm row).buffered tm.id = []) := by
  rw [stored]
  generalize fileRow (withRow s tm.id row) tm row s.rowStore.nextRowId = filed
  by_cases room : (filed.buffered tm.id ++ [row]).length < columnarChunkSize
  · rw [SessionState.buffered_push_of_lt room, if_pos rfl]
    simp
  · rw [SessionState.push_of_full room, SessionState.chunksOf_storeChunk, if_pos rfl]
    simp

theorem unkeyed_tableStep {strands : Prop} {s' : SessionState F} (valid : SessionValid s)
    (step : TableStep strands s tm s')
    (before : s.catalog.tablesById[tm.id]? = some tm →
      s.columnarStore.chunksOf tm.id = [] → s.buffered tm.id = [] →
        ∀ row ∈ scanRows s tm, Unkeyed tm row)
    (noChunk : s'.columnarStore.chunksOf tm.id = []) (noBuffer : s'.buffered tm.id = []) :
    ∀ row ∈ scanRows s' tm, Unkeyed tm row := by
  cases step with
  | fresh empty =>
    rw [(contentOf_eq.mp empty).2.2]
    nofun
  | kept known same =>
    obtain ⟨chunks, buffer, rows⟩ := contentOf_eq.mp same
    rw [chunks] at noChunk
    rw [buffer] at noBuffer
    rw [rows]
    exact before known noChunk noBuffer
  | flush known =>
    rw [SessionState.flushColumnarBuffer_eq] at noChunk ⊢
    split at noChunk
    · rename_i empty
      rw [if_pos empty]
      exact before known noChunk empty
    · rw [SessionState.chunksOf_storeChunk, if_pos rfl] at noChunk
      simp at noChunk
  | storeRow known row => exact False.elim (columnar_stored row ⟨noChunk, noBuffer⟩)
  | strandRow allowed known row e blocked =>
    rw [scanRows_withRow valid.freshRows]
    intro r member
    rcases List.mem_append.mp member with old | new
    · exact before known noChunk noBuffer r old
    · rw [List.mem_singleton.mp new]
      exact fun i hcol => idKey_of_blocked hcol blocked

variable [ValueDebug F]

/-- In a reachable state a table without columnar content holds stranded rows only. -/
theorem unkeyed_of_noColumnar (h : Reachable s)
    (known : s.catalog.tablesById[tm.id]? = some tm)
    (noChunk : s.columnarStore.chunksOf tm.id = []) (noBuffer : s.buffered tm.id = []) :
    ∀ row ∈ scanRows s tm, Unkeyed tm row :=
  tables_invariant (P := fun s tm => s.columnarStore.chunksOf tm.id = [] →
      s.buffered tm.id = [] → ∀ row ∈ scanRows s tm, Unkeyed tm row)
    (fun _ _ _ valid => unkeyed_tableStep valid) (reachable_steps h) known noChunk noBuffer

end Stranded

section Lookups
variable [Float64 F] {predicate : FilterExpr F} {lookup : IdLookup F}

/-- The literals of a lookup have keys, and those of a range do not descend. -/
def Answered : IdLookup F → Prop
  | .point v => ∃ key, IndexKey.fromValue v = .ok key
  | .rangeInclusive v1 v2 => ∃ k1 k2, IndexKey.fromValue v1 = .ok k1 ∧
      IndexKey.fromValue v2 = .ok k2 ∧ compare k1 k2 ≠ .gt

omit [Float64 F] in
theorem lookup_cases (recognised : predicateToIdLookup predicate "id" = some lookup) :
    (∃ v, predicate = .cmp "id" .eq v ∧ lookup = .point v) ∨
      ∃ v1 v2, IsIdRange v1 v2 predicate ∧ lookup = .rangeInclusive v1 v2 := by
  unfold predicateToIdLookup at recognised
  split at recognised
  · rename_i col v
    simp only [Option.ite_none_right_eq_some, beq_iff_eq, Option.some.injEq] at recognised
    obtain ⟨rfl, rfl⟩ := recognised
    exact Or.inl ⟨v, rfl, rfl⟩
  · rename_i c1 v1 c2 v2
    simp only [Option.ite_none_right_eq_some, Bool.and_eq_true, beq_iff_eq,
      Option.some.injEq] at recognised
    obtain ⟨⟨rfl, rfl⟩, rfl⟩ := recognised
    exact Or.inr ⟨v1, v2, Or.inl rfl, rfl⟩
  · rename_i c1 v1 c2 v2
    simp only [Option.ite_none_right_eq_some, Bool.and_eq_true, beq_iff_eq,
      Option.some.injEq] at recognised
    obtain ⟨⟨rfl, rfl⟩, rfl⟩ := recognised
    exact Or.inr ⟨v2, v1, Or.inr rfl, rfl⟩
  · cases recognised

theorem keyed_of_eq {v w : Value F} (keyed : ∃ k, IndexKey.fromValue v = .ok k)
    (equal : Value.eq w v = true) : ∃ k, IndexKey.fromValue w = .ok k := by
  obtain ⟨k, keyed⟩ := keyed
  cases v <;> cases keyed <;> cases w <;> first | exact ⟨_, rfl⟩ | cases equal

theorem keyed_of_ge {v w : Value F} (above : evalCmp .ge w v = true) :
    ∃ k, IndexKey.fromValue w = .ok k := by
  cases w <;> first | exact ⟨_, rfl⟩ | (cases v <;> cases above)

/-- A lookup that is answered selects no row without a key. -/
theorem dropped_of_unkeyed {tm : TableMeta}
    (recognised : predicateToIdLookup predicate "id" = some lookup) (answered : Answered lookup)
    {row : Row F} (unkeyed : Unkeyed tm row) : evalPredicate row predicate tm.schema = false := by
  rw [Bool.eq_false_iff]
  intro selected
  have keyed : ∃ i w k, tm.schema.columnIndex "id" = some i ∧ row.get i = some w ∧
      IndexKey.fromValue w = .ok k := by
    cases hcol : tm.schema.columnIndex "id" with
    | none =>
      rcases lookup_cases recognised with ⟨v, rfl, _⟩ | ⟨v1, v2, rfl | rfl, _⟩ <;>
        simp [evalPredicate, hcol] at selected
    | some i =>
      rcases lookup_cases recognised with ⟨v, rfl, rfl⟩ | ⟨v1, v2, range, rfl⟩
      · simp only [evalPredicate, hcol, Option.bind_some] at selected
        cases hw : row.get i with
        | none => simp [hw] at selected
        | some w =>
          rw [hw] at selected
          obtain ⟨k, hk⟩ := keyed_of_eq answered selected
          exact ⟨i, w, k, rfl, hw, hk⟩
      · rw [evalPredicate_idRange range hcol] at selected
        obtain ⟨w, hw, both⟩ := (Option.any_eq_true _ _).mp selected
        obtain ⟨k, hk⟩ := keyed_of_ge (Bool.and_eq_true_iff.mp both).1
        exact ⟨i, w, k, rfl, hw, hk⟩
  obtain ⟨i, w, k, hcol, hw, hk⟩ := keyed
  have filed := unkeyed i hcol
  rw [idKey, hw, Option.bind_some, hk] at filed
  cases filed

variable [ValueDebug F] {s : SessionState F} {tm : TableMeta} {ns : Option String}
variable {table : String}

/-- On rows without keys a filter returns the rows that satisfy it, with or without index. -/
theorem executePlan_filter_unkeyed (h : Reachable s) (htm : s.tableMeta ns table = some tm)
    (unkeyed : ∀ row ∈ scanRows s tm, Unkeyed tm row)
    (answered : ∀ index lookup, s.getIndex tm.id "id" = some index →
      predicateToIdLookup predicate "id" = some lookup → Answered lookup) :
    executePlan (.filter (.scan table ns) predicate) s =
      .ok (.rows ((scanRows s tm).filter
        (fun row => evalPredicate row predicate tm.schema))) s := by
  rcases indexPath_cases s tm ns table predicate with
    scanned | ⟨index, lookup, hindex, recognised, taken⟩
  · rw [executePlan_filterScan htm, scanned]
  · have answer := answered index lookup hindex recognised
    obtain ⟨i, hcol, _⟩ := bound_index h (bound_of_tableMeta htm) hindex
    have unfiled (row : Row F) (inside : row ∈ scanRows s tm) : idKey i row = none :=
      unkeyed row inside i hcol
    have empty : (scanRows s tm).filter
        (fun row => evalPredicate row predicate tm.schema) = [] := by
      refine List.filter_eq_nil_iff.mpr (fun row inside => ?_)
      rw [dropped_of_unkeyed recognised answer (unkeyed row inside)]
      exact Bool.false_ne_true
    rw [empty]
    rcases lookup_cases recognised with ⟨v, rfl, rfl⟩ | ⟨v1, v2, range, rfl⟩
    · obtain ⟨key, hkey⟩ := answer
      rw [point_run h htm hindex hcol hkey, List.filter_eq_nil_iff.mpr]
      intro row inside
      simp [unfiled row inside]
    · obtain ⟨k1, k2, h1, h2, ordered⟩ := answer
      obtain ⟨rows, run, found⟩ := range_run h htm hindex hcol range h1 h2 ordered
      rw [List.filter_eq_nil_iff.mpr] at found
      · rw [run, found.eq_nil]
      · intro row inside
        simp [unfiled row inside]

end Lookups

section Filtered
variable [Float64 F] [ValueDebug F] {s : SessionState F} {tm : TableMeta}
variable {ns : Option String} {table : String} {predicate : FilterExpr F}
variable {aggs : List AggExpr}

/-- The aggregates of a filtered table are those of the rows that satisfy the filter. -/
def FilterRespected (s : SessionState F) (tm : TableMeta) (ns : Option String)
    (table : String) (predicate : FilterExpr F) (aggs : List AggExpr) : Prop :=
  outcome (executePlan (.aggregate (.filter (.scan table ns) predicate) aggs) s) =
    oneRow (aggregateOverRowSlice ((scanRows s tm).filter
      (fun row => evalPredicate row predicate tm.schema)) tm.schema) aggs

/-- The filter is run: there is nothing columnar yet, and an index lookup is answered. -/
def FilterRuns (s : SessionState F) (tm : TableMeta) (predicate : FilterExpr F) : Prop :=
  s.columnarStore.chunksOf tm.id = [] ∧ s.buffered tm.id = [] ∧
    ∀ index lookup, s.getIndex tm.id "id" = some index →
      predicateToIdLookup predicate "id" = some lookup → Answered lookup

/-- The filter has nothing to do: every row that an aggregate counts satisfies it, and
the chunks hold the rows and serve as well. -/
def FilterIdle (s : SessionState F) (tm : TableMeta) (predicate : FilterExpr F)
    (aggs : List AggExpr) : Prop :=
  tm.schema.columns ≠ [] ∧ scanRows s tm ≠ [] ∧ CutFromRows s tm ∧
    ∀ agg ∈ aggs, Alike s tm agg ∧ ∀ row ∈ scanRows s tm,
      counts tm.schema agg row = true → evalPredicate row predicate tm.schema = true

omit [Float64 F] [ValueDebug F] in
theorem oneRow_congr {f g : AggExpr → Except RustafariError (Value F)}
    (same : ∀ agg ∈ aggs, f agg = g agg) : oneRow f aggs = oneRow g aggs := by
  have mapped : aggs.mapM f = aggs.mapM g := by
    induction aggs with
    | nil => rfl
    | cons agg aggs ih =>
      obtain ⟨head, tail⟩ := List.forall_mem_cons.mp same
      rw [List.mapM_cons, List.mapM_cons, head, ih tail]
  rw [oneRow, oneRow, mapped]

/-- With chunks a filtered aggregate is the aggregate of the chunks. -/
theorem filterRespected_of_chunks_iff (htm : s.tableMeta ns table = some tm)
    (valid : SessionValid s) (cut : CutFromRows s tm) (some_row : scanRows s tm ≠ []) :
    FilterRespected s tm ns table predicate aggs ↔
      oneRow (aggregateOverChunks (flushedChunks s tm) tm.schema) aggs =
        oneRow (aggregateOverRowSlice ((scanRows s tm).filter
          (fun row => evalPredicate row predicate tm.schema)) tm.schema) aggs := by
  have live : scanMeta s (.filter (.scan table ns) predicate) = .ok tm :=
    resolveTable_eq_ok.mpr htm
  have some_chunk : flushedChunks s tm ≠ [] :=
    fun none => some_row ((flushedChunks_eq_nil_iff cut (valid.smallBuffers tm.id)).mp none)
  rw [FilterRespected, aggregate_of_chunks live some_chunk]

theorem filterRespected_of_runs (h : Reachable s) (htm : s.tableMeta ns table = some tm)
    (runs : FilterRuns s tm predicate) : FilterRespected s tm ns table predicate aggs := by
  obtain ⟨noChunk, noBuffer, answered⟩ := runs
  have known := bound_known (reachable_valid h).catalog (bound_of_tableMeta htm)
  have live : scanMeta s (.filter (.scan table ns) predicate) = .ok tm :=
    resolveTable_eq_ok.mpr htm
  have still : s.flushColumnarBuffer tm.id tm.schema = s := by
    rw [SessionState.flushColumnarBuffer_eq, if_pos noBuffer]
  have unkeyed := unkeyed_of_noColumnar h known noChunk noBuffer
  refine aggregate_of_rows live ?_ ?_ aggs
  · rw [flushedChunks, still, noChunk]
  · rw [still]
    exact executePlan_filter_unkeyed h htm unkeyed answered

theorem filterRespected_of_idle (h : Reachable s) (htm : s.tableMeta ns table = some tm)
    (idle : FilterIdle s tm predicate aggs) : FilterRespected s tm ns table predicate aggs := by
  obtain ⟨some_column, some_row, cut, each⟩ := idle
  have valid := reachable_valid h
  have known := bound_known valid.catalog (bound_of_tableMeta htm)
  rw [filterRespected_of_chunks_iff htm valid cut some_row]
  refine oneRow_congr (fun agg member => ?_)
  obtain ⟨alike, kept⟩ := each agg member
  rw [alike_values valid known cut some_column alike, aggregate_filter kept]

/-- COUNT(*), or COUNT of a column that exists. -/
def IsCount (schema : Schema) (agg : AggExpr) : Prop :=
  agg = .countStar ∨ ∃ c i, agg = .count c ∧ schema.columnIndex c = some i

omit [ValueDebug F] in
theorem alike_of_isCount {agg : AggExpr} (isCount : IsCount tm.schema agg) :
    Alike s tm agg := by
  rcases isCount with rfl | ⟨c, i, rfl, hcol⟩
  · trivial
  · exact ⟨i, hcol⟩

omit [ValueDebug F] in
theorem count_eq {schema : Schema} {rows : List (Row F)} {agg : AggExpr}
    (isCount : IsCount schema agg) :
    aggregateOverRowSlice rows schema agg =
      .ok (.int64 (Int64.ofNat (rows.filter (counts schema agg)).length)) := by
  rcases isCount with rfl | ⟨c, i, rfl, hcol⟩
  · have every : rows.filter (counts schema .countStar) = rows :=
      List.filter_eq_self.mpr (fun _ _ => rfl)
    rw [every]
    rfl
  · have present_length : ((columnValues rows i).filter (fun v => !v.isNull)).length =
        (rows.filter (counts schema (.count c))).length := by
      rw [← List.countP_eq_length_filter, ← List.countP_eq_length_filter, columnValues,
        List.countP_filterMap]
      refine List.countP_congr (fun row _ => ?_)
      rw [counts, columnOf, Option.all_some, present, hcol, Option.bind_some]
      cases row.get i <;> simp
    simp only [aggregateOverRowSlice, columnOrError, hcol, ok_bind, present_length]
    rfl

/-- On a columnar table a filtered count is right exactly when every counted row satisfies
the filter. -/
theorem filterRespected_count_iff (h : Reachable s) (htm : s.tableMeta ns table = some tm)
    (some_column : tm.schema.columns ≠ []) (some_row : scanRows s tm ≠ [])
    (cut : CutFromRows s tm) (countable : (scanRows s tm).length < 2 ^ 64) {agg : AggExpr}
    (isCount : IsCount tm.schema agg) :
    FilterRespected s tm ns table predicate [agg] ↔ ∀ row ∈ scanRows s tm,
      counts tm.schema agg row = true → evalPredicate row predicate tm.schema = true := by
  have valid := reachable_valid h
  have known := bound_known valid.catalog (bound_of_tableMeta htm)
  rw [filterRespected_of_chunks_iff htm valid cut some_row, oneRow_singleton_inj,
    alike_values valid known cut some_column (alike_of_isCount isCount)]
  constructor
  · intro equal row inside counted
    rw [count_eq isCount, count_eq isCount, List.filter_comm, Except.ok.injEq,
      Value.int64.injEq] at equal
    have fewer := List.length_filter_le (counts tm.schema agg) (scanRows s tm)
    have least := List.length_filter_le (fun row => evalPredicate row predicate tm.schema)
      ((scanRows s tm).filter (counts tm.schema agg))
    have congruent := SaturatingSums.ofNat_congr equal
    apply List.length_filter_eq_length_iff.mp ?_ row (List.mem_filter.mpr ⟨inside, counted⟩)
    omega
  · exact fun kept => (aggregate_filter kept).symm

/-- In a reachable state a filtered aggregate of a live table is right if the filter is
run or has nothing to do; for counts over a columnar table it is right only then. -/
theorem filtered_aggregate_respected (h : Reachable s) (htm : s.tableMeta ns table = some tm) :
    (FilterRuns s tm predicate ∨ FilterIdle s tm predicate aggs →
      FilterRespected s tm ns table predicate aggs) ∧
    ∀ agg, IsCount tm.schema agg → tm.schema.columns ≠ [] → scanRows s tm ≠ [] →
      CutFromRows s tm → (scanRows s tm).length < 2 ^ 64 →
      (FilterRespected s tm ns table predicate [agg] ↔ FilterIdle s tm predicate [agg]) := by
  constructor
  · rintro (runs | idle)
    · exact filterRespected_of_runs h htm runs
    · exact filterRespected_of_idle h htm idle
  · intro agg isCount some_column some_row cut countable
    constructor
    · intro respected
      refine ⟨some_column, some_row, cut, List.forall_mem_singleton.mpr ?_⟩
      refine ⟨alike_of_isCount isCount, ?_⟩
      exact (filterRespected_count_iff h htm some_column some_row cut countable isCount).mp
        respected
    · exact filterRespected_of_idle h htm

/-- Two rows whose amounts are 10 and 20. -/
def twoRows : SessionState Float :=
  runPlans [.createTable "t" none [("id", .bigInt), ("amount", .bigInt)],
    .insert "t" none [] [[.int64 1, .int64 10], [.int64 2, .int64 20]]] .new

def twoRowsMeta : TableMeta :=
  ⟨0, 0, "t", .new [⟨"id", .bigInt, true⟩, ⟨"amount", .bigInt, true⟩], "row"⟩

theorem twoRows_insertsOk : ReachableInsertsOk twoRows :=
  insertsOk_runPlans _ RunFrom.new ⟨fun _ => rfl, fun _ => rfl, trivial⟩

theorem scanRows_twoRows : scanRows twoRows twoRowsMeta =
    [⟨[.int64 1, .int64 10]⟩, ⟨[.int64 2, .int64 20]⟩] := rfl

theorem filtered_aggregate_respected_twoRows :
    FilterRespected twoRows twoRowsMeta none "t" (.cmp "amount" .ge (.int64 5))
      [.countStar, .sum "amount", .min "amount"] := by
  have all (agg : AggExpr) : ∀ row ∈ scanRows twoRows twoRowsMeta,
      counts twoRowsMeta.schema agg row = true →
        evalPredicate row (.cmp "amount" .ge (.int64 5)) twoRowsMeta.schema = true := by
    rw [scanRows_twoRows]
    rintro row (_ | ⟨_, _ | ⟨_, ⟨⟩⟩⟩) _ <;> rfl
  have idle : FilterIdle twoRows twoRowsMeta (.cmp "amount" .ge (.int64 5))
      [.countStar, .sum "amount", .min "amount"] := by
    refine ⟨by simp [twoRowsMeta, Schema.new], by simp [scanRows_twoRows],
      insertsOk_cut twoRows_insertsOk rfl, ?_⟩
    simp only [List.forall_mem_cons, List.not_mem_nil, false_implies, implies_true, and_true]
    refine ⟨⟨trivial, all _⟩, ⟨⟨1, rfl, Or.inl ⟨rfl, Or.inl (Nat.le_of_eq rfl)⟩⟩, all _⟩,
      ⟨1, rfl, Or.inl rfl, Or.inr (Or.inr ⟨10, ?_, by decide⟩)⟩, all _⟩
    exact List.mem_cons_self
  exact (filtered_aggregate_respected (reachable_of_insertsOk twoRows_insertsOk) rfl).1
    (Or.inr idle)

/-- COUNT(*) WHERE id = 1 over the two rows gives 2. -/
theorem filtered_count_ignores_filter :
    ¬ ∀ (s : SessionState Float), Reachable s → ∀ (ns : Option String) (table : String)
      (tm : TableMeta), s.tableMeta ns table = some tm →
        ∀ (predicate : FilterExpr Float) (aggs : List AggExpr),
          FilterRespected s tm ns table predicate aggs := by
  intro respected
  have one := respected twoRows (reachable_of_insertsOk twoRows_insertsOk) none "t" twoRowsMeta
    rfl (.cmp "id" .eq (.int64 1)) [.countStar]
  have counted : outcome (executePlan (.aggregate (.filter (.scan "t" none)
      (.cmp "id" .eq (.int64 1))) [.countStar]) twoRows) = .ok (.rows [⟨[.int64 2]⟩]) := rfl
  have selected : oneRow (aggregateOverRowSlice ((scanRows twoRows twoRowsMeta).filter
      (fun row => evalPredicate row (.cmp "id" .eq (.int64 1)) twoRowsMeta.schema))
      twoRowsMeta.schema) [.countStar] = .ok (.rows [⟨[.int64 1]⟩]) := rfl
  rw [FilterRespected, counted, selected] at one
  simp at one

end Filtered

end FilteredAggregates
