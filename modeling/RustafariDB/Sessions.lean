import RustafariDB.BTreeIndexing
import RustafariDB.Catalogs
import RustafariDB.ColumnarStorage
import RustafariDB.RowStorage

/-!
# Session state

`SessionState` of the executor with its buffer handling. The locks are left
out: this is the state seen by statements that run one after another. The
results of the store calls are always `Ok`, so they are plain values here.
-/

namespace Sessions

open Std Catalogs Values RowStorage ColumnarStorage BTreeIndexing

/-- Catalog, row store, columnar store, indexes by table and column, and the rows
buffered for the next columnar chunk. -/
structure SessionState (F : Type) where
  catalog : Catalog
  rowStore : TableStore F
  columnarStore : ColumnarStore F
  indexStore : ExtTreeMap (Nat × String) BTreeIndex
  columnarBuffer : ExtTreeMap Nat (List (Row F))

variable {F : Type}

/-- The cell of a row under a column, Null when the row is short. -/
def cell (schema : Schema) (col : Column) (row : Row F) : Value F :=
  (row.get ((schema.columnIndex col.name).getD 0)).getD .null

/-- Buffered rows turned into one column chunk for each column. Both flush paths
contain this loop. -/
def columnChunks (schema : Schema) (rows : List (Row F)) : List (ColumnChunk F) :=
  schema.columns.map (fun col => ⟨col.name, rows.map (cell schema col)⟩)

namespace SessionState

def new : SessionState F := ⟨.new, .new, .new, ∅, ∅⟩

def buffered (s : SessionState F) (tableId : Nat) : List (Row F) :=
  s.columnarBuffer[tableId]?.getD []

/-- The common end of both flush paths: the taken rows become a new chunk. -/
def storeChunk (s : SessionState F) (tableId : Nat) (schema : Schema)
    (rows : List (Row F)) : SessionState F :=
  let (chunkId, store) := s.columnarStore.takeChunkId
  { s with
    columnarBuffer := s.columnarBuffer.insert tableId []
    columnarStore := store.insertChunk tableId (.new chunkId (columnChunks schema rows)) }

/-- Flush buffered rows for a table into a columnar chunk (if any). -/
def flushColumnarBuffer (s : SessionState F) (tableId : Nat) (schema : Schema) :
    SessionState F :=
  match s.columnarBuffer[tableId]? with
  | some rows => if 1 ≤ rows.length then s.storeChunk tableId schema rows else s
  | none => s

/-- Push a row to the columnar buffer and flush at the chunk size. -/
def pushColumnarRow (s : SessionState F) (tableId : Nat) (row : Row F) (schema : Schema) :
    SessionState F :=
  let entry := s.buffered tableId ++ [row]
  if entry.length < columnarChunkSize then
    { s with columnarBuffer := s.columnarBuffer.insert tableId entry }
  else s.storeChunk tableId schema entry

def getIndex (s : SessionState F) (tableId : Nat) (column : String) : Option BTreeIndex :=
  s.indexStore[(tableId, column)]?

def tableMeta (s : SessionState F) (ns : Option String) (table : String) : Option TableMeta :=
  s.catalog.getTable (ns.getD "public") table

def listDatabases (s : SessionState F) : List String := s.catalog.listNamespaces

def listTables (s : SessionState F) (ns : Option String) : List String :=
  ((s.catalog.listTables (ns.getD "public")).map TableMeta.name).insertionSort (· ≤ ·)

end SessionState

section Columnar

/-- A row normalised to a schema: one value for each column, Null where the row is short. -/
def normalise (schema : Schema) (row : Row F) : List (Value F) :=
  schema.columns.map (fun col => ((schema.columnIndex col.name).bind row.get).getD .null)

theorem normalise_eq_cells {schema : Schema} (built : schema = .new schema.columns)
    (row : Row F) :
    normalise schema row = schema.columns.map (fun col => cell schema col row) := by
  refine List.map_congr_left (fun col hcol => ?_)
  obtain ⟨i, hi⟩ := nameIndex_isSome hcol
  have index : schema.columnIndex col.name = some i := by
    rw [built]
    exact hi
  rw [cell, index]
  rfl

/-- The rows of a chunk, read across its columns. -/
def chunkRows (ch : ColumnarChunk F) : List (List (Value F)) :=
  (List.range ch.rowCount).map (fun i => ch.columns.map (fun c => c.values[i]?.getD .null))

/-- The columnar content of a table, row by row: its chunks and then its buffer. -/
def SessionState.columnarRows (s : SessionState F) (schema : Schema) (tableId : Nat) :
    List (List (Value F)) :=
  (s.columnarStore.chunksOf tableId).flatMap chunkRows
    ++ (s.buffered tableId).map (normalise schema)

/-- Every column has the chunk's row count. -/
def Rectangular (ch : ColumnarChunk F) : Prop :=
  ∀ c ∈ ch.columns, c.values.length = ch.rowCount

variable {schema : Schema} {rows : List (Row F)}

theorem rowCount_columnChunks (some_column : schema.columns ≠ []) (chunkId : Nat) :
    (ColumnarChunk.new chunkId (columnChunks schema rows)).rowCount = rows.length := by
  obtain ⟨col, cols, hcols⟩ := List.exists_cons_of_ne_nil some_column
  simp [ColumnarChunk.new, columnChunks, hcols]

theorem rectangular_columnChunks (chunkId : Nat) :
    Rectangular (ColumnarChunk.new chunkId (columnChunks schema rows)) := by
  intro c hc
  by_cases none : schema.columns = []
  · simp [ColumnarChunk.new, columnChunks, none] at hc
  · rw [rowCount_columnChunks none]
    obtain ⟨col, _, rfl⟩ := List.mem_map.mp hc
    exact List.length_map _

/-- Transposing rows into columns and reading across gives the normalised rows. -/
theorem chunkRows_columnChunks (built : schema = .new schema.columns)
    (some_column : schema.columns ≠ []) (chunkId : Nat) :
    chunkRows (ColumnarChunk.new chunkId (columnChunks schema rows)) =
      rows.map (normalise schema) := by
  rw [chunkRows, rowCount_columnChunks some_column]
  refine List.ext_getElem (by simp) (fun i hi _ => ?_)
  have bound : i < rows.length := by simpa using hi
  rw [List.getElem_map, List.getElem_map, normalise_eq_cells built]
  simp [ColumnarChunk.new, columnChunks, bound]

end Columnar

namespace SessionState

variable {s : SessionState F} {schema : Schema} {rows : List (Row F)}

section Frames

theorem buffered_storeChunk (tableId t : Nat) :
    (s.storeChunk tableId schema rows).buffered t =
      if tableId = t then [] else s.buffered t := by
  rw [buffered, storeChunk, ExtTreeMap.getElem?_insert]
  by_cases ht : tableId = t
  · rw [if_pos (by simpa using ht), if_pos ht, Option.getD_some]
  · rw [if_neg (by simpa using ht), if_neg ht, buffered]

theorem chunksOf_storeChunk (tableId t : Nat) :
    (s.storeChunk tableId schema rows).columnarStore.chunksOf t =
      if tableId = t then s.columnarStore.chunksOf t ++
        [.new s.columnarStore.nextChunkId (columnChunks schema rows)]
      else s.columnarStore.chunksOf t := by
  rw [storeChunk, ColumnarStore.chunksOf_insertChunk]
  rfl

/-- A flush stores the whole buffer, and nothing when the buffer is empty. -/
theorem flushColumnarBuffer_eq (s : SessionState F) (tableId : Nat) (schema : Schema) :
    s.flushColumnarBuffer tableId schema =
      if s.buffered tableId = [] then s
      else s.storeChunk tableId schema (s.buffered tableId) := by
  rw [flushColumnarBuffer, buffered]
  cases s.columnarBuffer[tableId]? with
  | none => rfl
  | some rows =>
    cases rows with
    | nil => rfl
    | cons row rows => simp

theorem buffered_push_of_lt {tableId : Nat} {row : Row F}
    (room : (s.buffered tableId ++ [row]).length < columnarChunkSize) (t : Nat) :
    (s.pushColumnarRow tableId row schema).buffered t =
      if tableId = t then s.buffered t ++ [row] else s.buffered t := by
  simp only [pushColumnarRow, if_pos room]
  rw [buffered, ExtTreeMap.getElem?_insert]
  by_cases ht : tableId = t
  · rw [if_pos (by simpa using ht), if_pos ht, ht, Option.getD_some]
  · rw [if_neg (by simpa using ht), if_neg ht, buffered]

theorem chunksOf_push_of_lt {tableId : Nat} {row : Row F}
    (room : (s.buffered tableId ++ [row]).length < columnarChunkSize) (t : Nat) :
    (s.pushColumnarRow tableId row schema).columnarStore.chunksOf t =
      s.columnarStore.chunksOf t := by
  simp only [pushColumnarRow, if_pos room]

theorem push_of_full {tableId : Nat} {row : Row F}
    (full : ¬ (s.buffered tableId ++ [row]).length < columnarChunkSize) :
    s.pushColumnarRow tableId row schema =
      s.storeChunk tableId schema (s.buffered tableId ++ [row]) := by
  simp only [pushColumnarRow, if_neg full]

@[simp] theorem catalog_flush (t : Nat) :
    (s.flushColumnarBuffer t schema).catalog = s.catalog := by
  rw [flushColumnarBuffer_eq]
  split <;> rfl

@[simp] theorem rowStore_flush (t : Nat) :
    (s.flushColumnarBuffer t schema).rowStore = s.rowStore := by
  rw [flushColumnarBuffer_eq]
  split <;> rfl

@[simp] theorem indexStore_flush (t : Nat) :
    (s.flushColumnarBuffer t schema).indexStore = s.indexStore := by
  rw [flushColumnarBuffer_eq]
  split <;> rfl

@[simp] theorem catalog_push (t : Nat) (row : Row F) :
    (s.pushColumnarRow t row schema).catalog = s.catalog := by
  simp only [pushColumnarRow]
  split <;> rfl

@[simp] theorem rowStore_push (t : Nat) (row : Row F) :
    (s.pushColumnarRow t row schema).rowStore = s.rowStore := by
  simp only [pushColumnarRow]
  split <;> rfl

@[simp] theorem indexStore_push (t : Nat) (row : Row F) :
    (s.pushColumnarRow t row schema).indexStore = s.indexStore := by
  simp only [pushColumnarRow]
  split <;> rfl

theorem buffered_flush (tableId t : Nat) :
    (s.flushColumnarBuffer tableId schema).buffered t =
      if tableId = t then [] else s.buffered t := by
  rw [flushColumnarBuffer_eq]
  split
  · rename_i empty
    split
    · rename_i same
      rw [← same, empty]
    · rfl
  · exact buffered_storeChunk tableId t

theorem chunksOf_flush_other {tableId t : Nat} (other : tableId ≠ t) :
    (s.flushColumnarBuffer tableId schema).columnarStore.chunksOf t =
      s.columnarStore.chunksOf t := by
  rw [flushColumnarBuffer_eq]
  split
  · rfl
  · rw [chunksOf_storeChunk, if_neg other]

theorem columnar_push_other (s : SessionState F) (schema : Schema) {tableId t : Nat}
    (other : tableId ≠ t) (row : Row F) :
    (s.pushColumnarRow tableId row schema).buffered t = s.buffered t ∧
      (s.pushColumnarRow tableId row schema).columnarStore.chunksOf t =
        s.columnarStore.chunksOf t := by
  by_cases room : (s.buffered tableId ++ [row]).length < columnarChunkSize
  · rw [buffered_push_of_lt room, chunksOf_push_of_lt room, if_neg other]
    exact ⟨rfl, rfl⟩
  · rw [push_of_full room, buffered_storeChunk, chunksOf_storeChunk, if_neg other, if_neg other]
    exact ⟨rfl, rfl⟩

/-- A buffer is emptied before it reaches the chunk size. -/
theorem length_buffered_push (tableId : Nat) (row : Row F)
    (small : ∀ t, (s.buffered t).length < columnarChunkSize) (t : Nat) :
    ((s.pushColumnarRow tableId row schema).buffered t).length < columnarChunkSize := by
  by_cases other : tableId = t
  · subst other
    by_cases room : (s.buffered tableId ++ [row]).length < columnarChunkSize
    · rwa [buffered_push_of_lt room, if_pos rfl]
    · rw [push_of_full room, buffered_storeChunk, if_pos rfl]
      exact Nat.zero_lt_succ _
  · rw [(columnar_push_other s schema other row).1]
    exact small t

end Frames

section Indexes

theorem getIndex_insert (s : SessionState F) (key : Nat × String) (index : BTreeIndex) (u : Nat)
    (c : String) :
    ({ s with indexStore := s.indexStore.insert key index } : SessionState F).getIndex u c =
      if key = (u, c) then some index else s.getIndex u c := by
  simp only [getIndex, ExtTreeMap.getElem?_insert, LawfulEqCmp.compare_eq_iff_eq]

theorem getIndex_retain (s : SessionState F) (t u : Nat) (c : String) :
    ({ s with indexStore := s.indexStore.filter (fun key _ => key.1 != t) } :
        SessionState F).getIndex u c = if t = u then none else s.getIndex u c := by
  simp only [getIndex, ExtTreeMap.getElem?_filter']
  by_cases same : t = u
  · subst same
    cases s.indexStore[(t, c)]? <;> simp
  · cases s.indexStore[(u, c)]? <;> simp [same, Ne.symm same]

end Indexes

end SessionState

end Sessions
