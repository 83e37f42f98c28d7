import RustafariDB.SessionInvariants

/-!
# A query sees one table

What a query answers depends on the entry its table name resolves to and on the rows,
the id index, the buffer and the chunks under that table's id; the numbers of the chunks
do not matter. Two states that agree on this run a query in lockstep.
-/

namespace TableViews

open Catalogs Values RowStorage ColumnarStorage Plans Floats Sessions Aggregates Execution
open StatefulPrograms CatalogInvariants PlanEffects SessionInvariants

variable {F : Type}

section Chunks

/-- What aggregates read of a chunk. -/
def withoutId (ch : ColumnarChunk F) : List (ColumnChunk F) × Nat := (ch.columns, ch.rowCount)

abbrev AlikeChunks : List (ColumnarChunk F) → List (ColumnarChunk F) → Prop :=
  List.Forall₂ (fun ch ch' => withoutId ch = withoutId ch')

theorem alike_refl (chunks : List (ColumnarChunk F)) : AlikeChunks chunks chunks :=
  List.forall₂_same.mpr (fun _ _ => rfl)

variable {chunks chunks' : List (ColumnarChunk F)}

theorem column_of_alike {ch ch' : ColumnarChunk F} (alike : withoutId ch = withoutId ch')
    (name : String) : ch.column name = ch'.column name := by
  have columns : ch.columns = ch'.columns := congrArg Prod.fst alike
  rw [ColumnarChunk.column, ColumnarChunk.column, columns]

/-- A loop over chunks that ignores their numbers. -/
theorem foldl_alike {β : Type} {step : β → ColumnarChunk F → β}
    (ignores : ∀ acc ch ch', withoutId ch = withoutId ch' → step acc ch = step acc ch')
    (alike : AlikeChunks chunks chunks') (acc : β) :
    chunks.foldl step acc = chunks'.foldl step acc := by
  induction alike generalizing acc with
  | nil => rfl
  | cons head _ ih => rw [List.foldl_cons, List.foldl_cons, ignores acc _ _ head, ih]

theorem isEmpty_of_alike (alike : AlikeChunks chunks chunks') :
    chunks.isEmpty = chunks'.isEmpty := by
  cases alike <;> rfl

theorem aggregateOverChunks_alike [Float64 F] (alike : AlikeChunks chunks chunks')
    (schema : Schema) (agg : AggExpr) :
    aggregateOverChunks chunks schema agg = aggregateOverChunks chunks' schema agg := by
  have added (column opI opF ints floats) (acc : Totals F) :
      chunks.foldl (addChunk column opI opF ints floats) acc =
        chunks'.foldl (addChunk column opI opF ints floats) acc := by
    refine foldl_alike (fun acc ch ch' same => ?_) alike acc
    rw [addChunk, addChunk, column_of_alike same]
  have counted (column : String) (n : Nat) :
      chunks.foldl (countChunk column) n = chunks'.foldl (countChunk column) n := by
    refine foldl_alike (fun acc ch ch' same => ?_) alike n
    rw [countChunk, countChunk, column_of_alike same]
  have sums (column : String) : chunkSums chunks column = chunkSums chunks' column := by
    rw [chunkSums, chunkSums, added]
  have rowCounts : chunks.map ColumnarChunk.rowCount = chunks'.map ColumnarChunk.rowCount := by
    refine List.forall₂_eq_eq_eq ▸ List.rel_map ?_ alike
    exact fun ch ch' same => congrArg Prod.snd same
  cases agg with
  | countStar => rw [aggregateOverChunks, aggregateOverChunks, rowCounts]
  | sum column => rw [aggregateOverChunks, aggregateOverChunks, sums]
  | count column => rw [aggregateOverChunks, aggregateOverChunks, counted]
  | avg column => rw [aggregateOverChunks, aggregateOverChunks, sums, counted]
  | min column => rw [aggregateOverChunks, aggregateOverChunks, added]
  | max column => rw [aggregateOverChunks, aggregateOverChunks, added]

end Chunks

section Views

/-- An operator tree over a scan of one table name. -/
def ReadsFrom (ns : Option String) (table : String) : PlanNode F → Prop
  | .scan table' ns' => table' = table ∧ ns' = ns
  | .filter input _ => ReadsFrom ns table input
  | .project input _ => ReadsFrom ns table input
  | .limit input _ _ => ReadsFrom ns table input
  | .aggregate input _ => ReadsFrom ns table input
  | .groupBy input _ _ => ReadsFrom ns table input
  | .orderBy input _ => ReadsFrom ns table input
  | _ => False

/-- The states hold the same under one table id, up to the numbers of chunks. -/
structure SameContent (t : Nat) (s s' : SessionState F) : Prop where
  rows : s'.rowStore.scan t = s.rowStore.scan t
  index : ∀ column, s'.getIndex t column = s.getIndex t column
  buffer : s'.buffered t = s.buffered t
  chunks : AlikeChunks (s.columnarStore.chunksOf t) (s'.columnarStore.chunksOf t)

/-- A name resolves to the same entry in both states, with the same content. -/
structure SameView (ns : Option String) (table : String) (tm : TableMeta)
    (s s' : SessionState F) : Prop extends SameContent tm.id s s' where
  before : s.tableMeta ns table = some tm
  after : s'.tableMeta ns table = some tm

variable {ns : Option String} {table : String} {tm : TableMeta} {s s' : SessionState F}

theorem scanMeta_of_readsFrom {p : PlanNode F} (reads : ReadsFrom ns table p)
    (htm : s.tableMeta ns table = some tm) : scanMeta s p = .ok tm := by
  induction p with
  | scan table' ns' =>
    obtain ⟨rfl, rfl⟩ := reads
    exact resolveTable_eq_ok.mpr htm
  | filter input predicate ih => exact ih reads
  | project input columns ih => exact ih reads
  | limit input limit offset ih => exact ih reads
  | aggregate input aggs ih => exact ih reads
  | groupBy input groupBy aggs ih => exact ih reads
  | orderBy input columns ih => exact ih reads
  | _ => exact False.elim reads

theorem isQuery_iff_readsFrom {p : PlanNode F} :
    IsQuery p ↔ ∃ ns table, ReadsFrom ns table p := by
  induction p with
  | scan table ns => exact iff_of_true trivial ⟨ns, table, rfl, rfl⟩
  | filter input predicate ih => exact ih
  | project input columns ih => exact ih
  | limit input limit offset ih => exact ih
  | aggregate input aggs ih => exact ih
  | groupBy input groupBy aggs ih => exact ih
  | orderBy input columns ih => exact ih
  | _ => exact iff_of_false id (fun ⟨_, _, reads⟩ => reads)

/-- A row is fetched by its id from what a scan shows. -/
theorem get_of_scan (same : s'.rowStore.scan tm.id = s.rowStore.scan tm.id) (rowId : Nat) :
    s'.rowStore.get tm.id rowId = s.rowStore.get tm.id rowId := by
  refine Option.ext (fun row => ?_)
  have listed : (rowId, row) ∈ s.rowStore.scan tm.id ↔ s.rowStore.get tm.id rowId = some row :=
    TableStore.mem_scan
  have listed' : (rowId, row) ∈ s'.rowStore.scan tm.id ↔ s'.rowStore.get tm.id rowId = some row :=
    TableStore.mem_scan
  rw [← listed, ← listed', same]

/-- Flushing the table on both sides leaves the states alike. -/
theorem sameView_flush (view : SameView ns table tm s s') :
    SameView ns table tm (s.flushColumnarBuffer tm.id tm.schema)
      (s'.flushColumnarBuffer tm.id tm.schema) := by
  constructor
  · constructor
    · rw [SessionState.rowStore_flush, SessionState.rowStore_flush]
      exact view.rows
    · simp only [SessionState.getIndex, SessionState.indexStore_flush]
      exact view.index
    · rw [SessionState.buffered_flush, SessionState.buffered_flush, if_pos rfl, if_pos rfl]
    · rw [SessionState.flushColumnarBuffer_eq, SessionState.flushColumnarBuffer_eq, view.buffer]
      split
      · exact view.chunks
      · rw [SessionState.chunksOf_storeChunk, SessionState.chunksOf_storeChunk, if_pos rfl,
          if_pos rfl]
        exact List.rel_append view.chunks (.cons rfl .nil)
  · rw [SessionState.tableMeta, SessionState.catalog_flush]
    exact view.before
  · rw [SessionState.tableMeta, SessionState.catalog_flush]
    exact view.after

end Views

section Queries
variable {ns : Option String} {table : String} {tm : TableMeta} {s s' : SessionState F}

theorem lockstep_expectRows {R : SessionState F → SessionState F → Prop} (message : String)
    {sub sub' : Exec F (ExecutionResult F)} (inner : Lockstep R sub sub') :
    Lockstep R (expectRows message sub) (expectRows message sub') := by
  refine lockstep_bind inner (fun result => ?_)
  cases result with
  | rows rows => exact lockstep_pure rows
  | rowsAffected count => exact lockstep_throw _

theorem orReturn_ok_bind {α β : Type} (a : α) (k : α → Exec F β) :
    (orReturn (.ok a) >>= k) = k a := rfl

/-- Both sides find the same entry before they go on. -/
theorem lockstep_scanMeta {α : Type} {p : PlanNode F} (reads : ReadsFrom ns table p)
    {k : TableMeta → Exec F α} (rest : Lockstep (SameView ns table tm) (k tm) (k tm)) :
    Lockstep (SameView ns table tm) (do let tm ← orReturn (scanMeta (← get) p); k tm)
      (do let tm ← orReturn (scanMeta (← get) p); k tm) := by
  refine lockstep_get_bind (fun s s' view => ?_)
  rw [scanMeta_of_readsFrom reads view.before, scanMeta_of_readsFrom reads view.after]
  exact rest

variable [Float64 F] [ValueDebug F]

/-- A query runs in lockstep on states that agree on its table. -/
theorem query_lockstep {p : PlanNode F} (reads : ReadsFrom ns table p) :
    Lockstep (SameView ns table tm) (executePlan p) (executePlan p) := by
  induction p with
  | scan table' ns' =>
    obtain ⟨rfl, rfl⟩ := reads
    rw [executePlan]
    refine lockstep_get_bind (fun s s' view => ?_)
    rw [resolveTable_eq_ok.mpr view.before, resolveTable_eq_ok.mpr view.after]
    rw [orReturn_ok_bind, orReturn_ok_bind, view.rows]
    exact lockstep_pure _
  | filter input predicate ih =>
    rw [executePlan]
    refine lockstep_get_bind (fun s s' view => ?_)
    have entry := scanMeta_of_readsFrom (p := input) reads view.before
    have entry' := scanMeta_of_readsFrom (p := input) reads view.after
    have path : indexPath s' tm.id input predicate = indexPath s tm.id input predicate := by
      simp only [indexPath, view.index]
    have fetch : s'.rowStore.get tm.id = s.rowStore.get tm.id :=
      funext (get_of_scan view.rows)
    rw [entry, entry', orReturn_ok_bind, orReturn_ok_bind, path, fetch]
    cases indexPath s tm.id input predicate with
    | some found => exact lockstep_bind (lockstep_runExcept _) (fun rowIds => lockstep_pure _)
    | none => exact lockstep_bind (lockstep_expectRows _ (ih reads)) (fun rows => lockstep_pure _)
  | project input columns ih =>
    rw [executePlan]
    refine lockstep_bind (lockstep_expectRows _ (ih reads)) (fun rows => ?_)
    exact lockstep_scanMeta reads (lockstep_pure _)
  | limit input limit offset ih =>
    rw [executePlan]
    exact lockstep_bind (lockstep_expectRows _ (ih reads)) (fun rows => lockstep_pure _)
  | groupBy input groupBy aggs ih =>
    rw [executePlan]
    refine lockstep_bind (lockstep_expectRows _ (ih reads)) (fun rows => ?_)
    refine lockstep_scanMeta reads ?_
    exact lockstep_bind (lockstep_runExcept _) (fun grouped => lockstep_pure _)
  | orderBy input columns ih =>
    rw [executePlan]
    refine lockstep_bind (lockstep_expectRows _ (ih reads)) (fun rows => ?_)
    refine lockstep_scanMeta reads ?_
    exact lockstep_bind (lockstep_runExcept _) (fun sorted => lockstep_pure _)
  | aggregate input aggs ih =>
    rw [executePlan]
    refine lockstep_scanMeta reads ?_
    refine lockstep_bind (lockstep_modify (fun _ _ => sameView_flush)) (fun _ => ?_)
    refine lockstep_get_bind (fun s s' view => ?_)
    refine lockstep_bind (lockstep_mapM aggs (fun agg _ => ?_)) (fun values => lockstep_pure _)
    rw [isEmpty_of_alike view.chunks]
    split
    · exact lockstep_bind (lockstep_expectRows _ (ih reads)) (fun rows => lockstep_runExcept _)
    · rw [aggregateOverChunks_alike view.chunks]
      exact lockstep_runExcept _
  | _ => exact False.elim reads

end Queries

section Steps
variable {ns : Option String} {table : String} {tm : TableMeta} {t : Nat}
variable {s s' s'' : SessionState F}

theorem sameContent_refl (t : Nat) (s : SessionState F) : SameContent t s s :=
  ⟨rfl, fun _ => rfl, rfl, alike_refl _⟩

theorem sameContent_trans (first : SameContent t s s') (second : SameContent t s' s'') :
    SameContent t s s'' := by
  constructor
  · exact second.rows.trans first.rows
  · exact fun column => (second.index column).trans (first.index column)
  · exact second.buffer.trans first.buffer
  · exact StatefulPrograms.forall₂_comp first.chunks second.chunks (fun _ _ _ => Eq.trans)

theorem sameContent_flush (other : tm.id ≠ t) :
    SameContent t s (s.flushColumnarBuffer tm.id tm.schema) := by
  constructor
  · rw [SessionState.rowStore_flush]
  · intro column
    rw [SessionState.getIndex, SessionState.indexStore_flush, SessionState.getIndex]
  · rw [SessionState.buffered_flush, if_neg other]
  · rw [SessionState.chunksOf_flush_other other]
    exact alike_refl _

theorem sameContent_withRow (other : tm.id ≠ t) (row : Row F) :
    SameContent t s (withRow s tm.id row) := by
  refine ⟨?_, fun _ => rfl, rfl, alike_refl _⟩
  rw [withRow, TableStore.scan_insert_other (Ne.symm other)]

/-- CREATE TABLE leaves every content but that of the next id. -/
theorem sameContent_createTable {columns : List (String × ColumnType)}
    (other : s.catalog.nextTableId ≠ t) : SameContent t s (createTable s ns table columns) := by
  obtain ⟨_, rows, chunks, buffer⟩ := createTable_frame s ns table columns
  constructor
  · rw [rows]
  · intro column
    rw [getIndex_createTable, if_neg]
    exact fun new => other (Prod.mk.inj new.2).1
  · rw [SessionState.buffered, buffer, SessionState.buffered]
  · rw [chunks]
    exact alike_refl _

theorem sameContent_dropTable (other : tm.id ≠ t) :
    SameContent t s (dropTable s tm ns table) := by
  constructor
  · exact TableStore.scan_dropTable_other (Ne.symm other)
  · intro column
    rw [getIndex_dropTable, if_neg other]
  · rfl
  · have chunks : (dropTable s tm ns table).columnarStore.chunksOf t =
        s.columnarStore.chunksOf t := by
      simp only [dropTable, ColumnarStore.chunksOf_dropTable, if_neg other]
    rw [chunks]
    exact alike_refl _

variable [Float64 F]

/-- Storing a row in one table leaves the content of the others. -/
theorem sameContent_stored (other : tm.id ≠ t) (row : Row F) :
    SameContent t s (stored s tm row) := by
  obtain ⟨buffer, chunks⟩ := columnar_stored_other (s := s) other row
  constructor
  · rw [rowStore_stored, TableStore.scan_insert_other (Ne.symm other)]
  · intro column
    rw [getIndex_stored, getIndex_fileRow]
    split
    · exact if_neg (fun same => other (Prod.mk.inj same).1)
    · rfl
  · exact buffer
  · rw [chunks]
    exact alike_refl _

theorem sameContent_storedAll (other : tm.id ≠ t) (values : List (List (Value F))) :
    SameContent t s (storedAll s tm values) := by
  induction values generalizing s with
  | nil => exact sameContent_refl t s
  | cons vals values ih =>
    rw [storedAll_cons]
    exact sameContent_trans (sameContent_stored other _) ih

variable [ValueDebug F]

/-- Every query over a table gives the same answer in both states. -/
def SameAnswers (ns : Option String) (table : String) (s s' : SessionState F) : Prop :=
  ∀ p, ReadsFrom ns table p → outcome (executePlan p s') = outcome (executePlan p s)

theorem sameAnswers_of_view (view : SameView ns table tm s s') : SameAnswers ns table s s' :=
  fun _ reads => (query_lockstep reads s s' view).1

end Steps

end TableViews
