import RustafariDB.SessionInvariants

/-!
# Queries do not change data

A query may move buffered rows into chunks, at any depth and also before it fails. Seen
row by row the columnar content of a table stays the same, and nothing else is written.
-/

namespace QueryEffects

open Catalogs Values ColumnarStorage Plans Floats Sessions Execution StatefulPrograms
open CatalogInvariants PlanEffects SessionInvariants

variable {F : Type} {s s' : SessionState F} {tm : TableMeta}

/-- A flush moves rows from the buffer to the end of the chunks. -/
theorem columnarRows_flush_self (built : tm.schema = .new tm.schema.columns)
    (some_column : tm.schema.columns ≠ []) :
    (s.flushColumnarBuffer tm.id tm.schema).columnarRows tm.schema tm.id =
      s.columnarRows tm.schema tm.id := by
  rw [SessionState.flushColumnarBuffer_eq]
  split
  · rfl
  · have chunk : chunkRows (.new s.columnarStore.nextChunkId
        (columnChunks tm.schema (s.buffered tm.id))) =
          (s.buffered tm.id).map (normalise tm.schema) :=
      chunkRows_columnChunks built some_column _
    rw [SessionState.columnarRows, SessionState.chunksOf_storeChunk,
      SessionState.buffered_storeChunk, if_pos rfl, if_pos rfl, List.flatMap_append,
      List.flatMap_singleton, chunk, List.map_nil, List.append_nil]
    rfl

theorem columnarRows_flush_other (schema : Schema) {t : Nat} (other : tm.id ≠ t) :
    (s.flushColumnarBuffer tm.id tm.schema).columnarRows schema t = s.columnarRows schema t := by
  rw [SessionState.columnarRows, SessionState.chunksOf_flush_other other,
    SessionState.buffered_flush, if_neg other]
  rfl

/-- Flushes keep the columnar rows of every table in the catalog that has a column. -/
theorem columnarRows_flushes (valid : Valid s.catalog) (flushes : Flushes s s')
    (known : s.catalog.tablesById[tm.id]? = some tm) (some_column : tm.schema.columns ≠ []) :
    s'.columnarRows tm.schema tm.id = s.columnarRows tm.schema tm.id := by
  induction flushes with
  | refl => rfl
  | @tail s₁ s₂ before flush ih =>
    obtain ⟨catalog, _, _⟩ := flushes_frame before
    obtain ⟨flushed, bound, rfl⟩ := flush
    rw [← ih]
    by_cases same : flushed.id = tm.id
    · rw [← catalog] at valid known
      obtain rfl := eq_of_bound valid bound known same
      exact columnarRows_flush_self (valid.schemaBuilt _ _ known) some_column
    · exact columnarRows_flush_other tm.schema same

variable [Float64 F] [ValueDebug F]

/-- A query keeps the catalog, the row store, the indexes and the columnar rows of every
table with a column, whether it returns rows, fails or panics. -/
theorem query_keeps_data (h : Reachable s) {p : PlanNode F} (query : IsQuery p) :
    (final (executePlan p s)).catalog = s.catalog ∧
      (final (executePlan p s)).rowStore = s.rowStore ∧
      (final (executePlan p s)).indexStore = s.indexStore ∧
      ∀ t tm, s.catalog.getTableById t = some tm → tm.schema.columns ≠ [] →
        (final (executePlan p s)).columnarRows tm.schema t = s.columnarRows tm.schema t := by
  have valid := (reachable_valid h).catalog
  have flushes := query_flushes query s
  obtain ⟨catalog, rowStore, indexStore⟩ := flushes_frame flushes
  refine ⟨catalog, rowStore, indexStore, fun t tm known some_column => ?_⟩
  obtain ⟨rfl, _⟩ := valid.byId t tm known
  exact columnarRows_flushes valid flushes known some_column

/-- Two rows in the buffer. -/
def twoBuffered : SessionState Float :=
  runPlans [.createTable "t" none [("id", .bigInt)],
    .insert "t" none [] [[.int64 2], [.int64 1]]] .new

/-- An aggregate below a sort by a column that does not exist. -/
def failingQuery : PlanNode Float :=
  .orderBy (.aggregate (.scan "t" none) [.countStar]) [("missing", true)]

theorem query_keeps_data_failing :
    succeeds (executePlan failingQuery twoBuffered) = false ∧
      (final (executePlan failingQuery twoBuffered)).buffered 0 = [] ∧
      (final (executePlan failingQuery twoBuffered)).columnarRows (.new [⟨"id", .bigInt, true⟩]) 0 =
        twoBuffered.columnarRows (.new [⟨"id", .bigInt, true⟩]) 0 := by
  have kept := query_keeps_data (reachable_runPlans _ RunFrom.new : Reachable twoBuffered)
    (show IsQuery failingQuery from trivial)
  refine ⟨rfl, rfl, kept.2.2.2 0 (.new 0 0 "t" (.new [⟨"id", .bigInt, true⟩])) rfl ?_⟩
  exact List.cons_ne_nil _ _

end QueryEffects
