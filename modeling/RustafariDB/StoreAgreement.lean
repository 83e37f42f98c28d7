import RustafariDB.SessionInvariants

/-!
# The row store and the columnar store stay in step

As long as no row is stranded, the chunks and the buffer of a table hold exactly
its stored rows, in order and normalised to its schema. Tables without columns
are left out: their chunks lose the row count.
-/

namespace StoreAgreement

open Std Catalogs Values RowStorage ColumnarStorage BTreeIndexing Plans Floats Sessions
open Execution CatalogInvariants PlanEffects SessionInvariants

variable {F : Type} [Float64 F]

/-- A chunk transposed from some rows, neither none nor too many. -/
def BuiltFrom (schema : Schema) (ch : ColumnarChunk F) (rows : List (Row F)) : Prop :=
  (∃ chunkId, ch = ColumnarChunk.new chunkId (columnChunks schema rows)) ∧
    1 ≤ rows.length ∧ rows.length ≤ columnarChunkSize

/-- The chunks and the buffer of a table are cut from its stored rows, in order. -/
def CutFromRows (s : SessionState F) (tm : TableMeta) : Prop :=
  ∃ parts, List.Forall₂ (BuiltFrom tm.schema) (s.columnarStore.chunksOf tm.id) parts ∧
    parts.flatten ++ s.buffered tm.id = scanRows s tm

variable {s : SessionState F} {tm : TableMeta}

section Cuts

omit [Float64 F] in
/-- Storing a chunk cuts off the rows it is made of. -/
theorem cut_storeChunk {rows : List (Row F)} {parts : List (List (Row F))}
    (built : List.Forall₂ (BuiltFrom tm.schema) (s.columnarStore.chunksOf tm.id) parts)
    (low : 1 ≤ rows.length) (high : rows.length ≤ columnarChunkSize)
    (joined : parts.flatten ++ rows = scanRows s tm) :
    CutFromRows (s.storeChunk tm.id tm.schema rows) tm := by
  refine ⟨parts ++ [rows], ?_, ?_⟩
  · rw [SessionState.chunksOf_storeChunk, if_pos rfl]
    exact List.rel_append built
      (List.Forall₂.cons ⟨⟨_, rfl⟩, low, high⟩ List.Forall₂.nil)
  · rw [SessionState.buffered_storeChunk, if_pos rfl, List.append_nil, List.flatten_append,
      List.flatten_singleton, joined]
    rfl

omit [Float64 F] in
theorem cut_flush (cut : CutFromRows s tm)
    (small : (s.buffered tm.id).length < columnarChunkSize) :
    CutFromRows (s.flushColumnarBuffer tm.id tm.schema) tm := by
  rw [SessionState.flushColumnarBuffer_eq]
  split
  · exact cut
  · rename_i nonempty
    obtain ⟨parts, built, joined⟩ := cut
    exact cut_storeChunk built (List.length_pos_iff.mpr nonempty) (Nat.le_of_lt small) joined

omit [Float64 F] in
/-- A pushed row extends the cut when it is also the last stored row. -/
theorem cut_push {row : Row F} {parts : List (List (Row F))}
    (built : List.Forall₂ (BuiltFrom tm.schema) (s.columnarStore.chunksOf tm.id) parts)
    (small : (s.buffered tm.id).length < columnarChunkSize)
    (joined : parts.flatten ++ (s.buffered tm.id ++ [row]) = scanRows s tm) :
    CutFromRows (s.pushColumnarRow tm.id row tm.schema) tm := by
  by_cases room : (s.buffered tm.id ++ [row]).length < columnarChunkSize
  · refine ⟨parts, ?_, ?_⟩
    · rw [SessionState.chunksOf_push_of_lt room]
      exact built
    · rw [SessionState.buffered_push_of_lt room, if_pos rfl, joined, scanRows, scanRows,
        SessionState.rowStore_push]
  · rw [SessionState.push_of_full room]
    refine cut_storeChunk built ?_ ?_ joined <;>
      simp only [List.length_append, List.length_singleton] <;> omega

theorem cut_storeRow (valid : SessionValid s) (cut : CutFromRows s tm) (row : Row F) :
    CutFromRows (stored s tm row) tm := by
  obtain ⟨parts, built, joined⟩ := cut
  have filed := columnar_fileRow (withRow s tm.id row) tm row s.rowStore.nextRowId
  have buffered : (fileRow (withRow s tm.id row) tm row s.rowStore.nextRowId).buffered tm.id =
      s.buffered tm.id := by
    rw [SessionState.buffered, filed.2]
    rfl
  have scanned : scanRows (fileRow (withRow s tm.id row) tm row s.rowStore.nextRowId) tm =
      scanRows s tm ++ [row] := by
    rw [scanRows, rowStore_fileRow]
    exact scanRows_withRow valid.freshRows tm row
  have chunks : (withRow s tm.id row).columnarStore = s.columnarStore := rfl
  rw [← chunks, ← filed.1] at built
  refine cut_push built ?_ ?_
  · rw [buffered]
    exact valid.smallBuffers _
  · rw [buffered, scanned, ← joined, List.append_assoc]

/-- A table step without stranded rows keeps the cut. -/
theorem cut_tableStep {s' : SessionState F} (valid : SessionValid s)
    (step : TableStep False s tm s')
    (before : s.catalog.tablesById[tm.id]? = some tm → CutFromRows s tm) :
    CutFromRows s' tm := by
  cases step with
  | fresh empty =>
    obtain ⟨chunks, buffer, rows⟩ := contentOf_eq.mp empty
    refine ⟨[], ?_, ?_⟩
    · rw [chunks]
      exact List.Forall₂.nil
    · rw [buffer, rows]
      rfl
  | kept known same =>
    obtain ⟨chunks, buffer, rows⟩ := contentOf_eq.mp same
    rw [CutFromRows, chunks, buffer, rows]
    exact before known
  | flush known => exact cut_flush (before known) (valid.smallBuffers tm.id)
  | storeRow known row => exact cut_storeRow valid (before known) row
  | strandRow allowed known row e blocked => exact False.elim allowed

end Cuts

section Runs
variable [ValueDebug F]

/-- After INSERTs that all succeeded every known table is cut from its rows. -/
theorem insertsOk_cut (h : ReachableInsertsOk s)
    (known : s.catalog.tablesById[tm.id]? = some tm) : CutFromRows s tm :=
  tables_invariant (fun _ _ _ valid => cut_tableStep valid) (insertsOk_steps h) known

omit [Float64 F] [ValueDebug F] in
theorem chunkRows_of_built {schema : Schema} {chunks : List (ColumnarChunk F)}
    {parts : List (List (Row F))} (fromColumns : schema = .new schema.columns)
    (some_column : schema.columns ≠ [])
    (built : List.Forall₂ (BuiltFrom schema) chunks parts) :
    chunks.flatMap chunkRows = parts.flatten.map (normalise schema) := by
  induction built with
  | nil => rfl
  | cons head _ ih =>
    obtain ⟨⟨chunkId, rfl⟩, _⟩ := head
    rw [List.flatMap_cons, List.flatten_cons, List.map_append, ← ih,
      chunkRows_columnChunks fromColumns some_column]

omit [Float64 F] [ValueDebug F] in
/-- Rows cut into chunks read back normalised. -/
theorem columnarRows_of_cut (fromColumns : tm.schema = .new tm.schema.columns)
    (some_column : tm.schema.columns ≠ []) (cut : CutFromRows s tm) :
    s.columnarRows tm.schema tm.id = (scanRows s tm).map (normalise tm.schema) := by
  obtain ⟨parts, built, joined⟩ := cut
  rw [SessionState.columnarRows, chunkRows_of_built fromColumns some_column built,
    ← List.map_append, joined]

omit [Float64 F] [ValueDebug F] in
theorem shape_of_built {schema : Schema} {chunks : List (ColumnarChunk F)}
    {parts : List (List (Row F))} (some_column : schema.columns ≠ [])
    (built : List.Forall₂ (BuiltFrom schema) chunks parts) :
    ∀ ch ∈ chunks, Rectangular ch ∧ 1 ≤ ch.rowCount ∧ ch.rowCount ≤ columnarChunkSize := by
  induction built with
  | nil => nofun
  | cons head _ ih =>
    obtain ⟨⟨chunkId, rfl⟩, low, high⟩ := head
    intro ch member
    rcases List.mem_cons.mp member with rfl | later
    · rw [rowCount_columnChunks some_column]
      exact ⟨rectangular_columnChunks chunkId, low, high⟩
    · exact ih ch later

/-- After runs whose INSERTs all succeeded, the columnar content of every table with
columns is its stored rows, in order and normalised; chunks are rectangular and neither
empty nor too long, and no buffer is full. -/
theorem columnar_agrees_with_rows (h : ReachableInsertsOk s) :
    (∀ ns name tm, s.catalog.getTable ns name = some tm →
      s.catalog.getTableById tm.id = some tm) ∧
    (∀ t tm, s.catalog.getTableById t = some tm → tm.schema.columns ≠ [] →
      s.columnarRows tm.schema t = (s.rowStore.scan t).map (fun e => normalise tm.schema e.2) ∧
      ∀ ch ∈ s.columnarStore.chunksOf t, Rectangular ch ∧ 1 ≤ ch.rowCount ∧
        ch.rowCount ≤ columnarChunkSize) ∧
    (∀ t, (s.buffered t).length < columnarChunkSize) := by
  have valid := reachable_valid (reachable_of_insertsOk h)
  refine ⟨?_, ?_, valid.smallBuffers⟩
  · intro ns name tm bound
    exact (getTable_spec valid.catalog.toUniqueIds bound).2.2
  · intro t tm htm some_column
    have fromColumns := valid.catalog.schemaBuilt t tm htm
    obtain ⟨rfl, _⟩ := valid.catalog.byId t tm htm
    have cut := insertsOk_cut h htm
    refine ⟨?_, ?_⟩
    · rw [columnarRows_of_cut fromColumns some_column cut, scanRows, List.map_map]
      rfl
    · obtain ⟨parts, built, _⟩ := cut
      exact shape_of_built some_column built

/-- Two columns; two rows, the second short, a query, one more row. -/
def flushedOnce : SessionState Float :=
  runPlans [.createTable "t" none [("id", .bigInt), ("amount", .bigInt)],
    .insert "t" none [] [[.int64 1, .int64 10], [.int64 2]],
    .aggregate (.scan "t" none) [.countStar],
    .insert "t" none [] [[.int64 3, .null]]] .new

theorem flushedOnce_insertsOk : ReachableInsertsOk flushedOnce :=
  insertsOk_runPlans _ RunFrom.new
    ⟨fun _ => rfl, fun _ => rfl, fun _ => rfl, fun _ => rfl, trivial⟩

theorem columnar_agrees_with_rows_flushedOnce :
    (flushedOnce.columnarStore.chunksOf 0).map ColumnarChunk.rowCount = [2] ∧
      flushedOnce.buffered 0 = [⟨[.int64 3, .null]⟩] ∧
      ∃ tm, flushedOnce.catalog.getTableById 0 = some tm ∧
        flushedOnce.columnarRows tm.schema 0 =
          (flushedOnce.rowStore.scan 0).map (fun e => normalise tm.schema e.2) := by
  refine ⟨rfl, rfl, _, rfl, ?_⟩
  exact ((columnar_agrees_with_rows flushedOnce_insertsOk).2.1 0 _ rfl (by decide)).1

end Runs

end StoreAgreement
