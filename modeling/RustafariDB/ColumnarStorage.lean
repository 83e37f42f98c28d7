import RustafariDB.SaturatingSums
import RustafariDB.SelectiveFolds
import RustafariDB.OrderedMaps
import RustafariDB.Values

/-!
# The columnar store

`columnar.rs` of the storage crate: column chunks with their vectorized
summaries, and the chunks of each table in insertion order. A chunk takes its
row count from its first column; that its columns have equal length is an
invariant of the code that builds chunks, not of the type.
-/

namespace ColumnarStorage

open Std SelectiveFolds SaturatingSums Floats Values

/-- `COLUMNAR_CHUNK_SIZE`. -/
def columnarChunkSize : Nat := 100000

structure ColumnChunk (F : Type) where
  columnName : String
  values : List (Value F)

variable {F : Type}

/-- The payload of an `Int64`. -/
def int64Of : Value F → Option Int64
  | .int64 x => some x
  | _ => none

/-- The payload of a `Float64`. -/
def float64Of : Value F → Option F
  | .float64 x => some x
  | _ => none

namespace ColumnChunk

def sumI64Slice (values : List (Value F)) : Option Int64 :=
  foldSome int64Of saturatingAdd 0 values

def sumF64Slice [Float64 F] (values : List (Value F)) : Option F :=
  foldSome float64Of Float64.add Float64.zero values

def countNonNullSlice (values : List (Value F)) : Nat :=
  (values.filter (fun v => !v.isNull)).length

theorem countNonNullSlice_cons (v : Value F) (values : List (Value F)) :
    countNonNullSlice (v :: values) =
      countNonNullSlice values + if v.isNull then 0 else 1 := by
  simp only [countNonNullSlice, List.filter_cons]
  cases v.isNull <;> rfl

def minMaxI64Slice (values : List (Value F)) : Option (Int64 × Int64) :=
  foldSome int64Of (fun acc x => (min acc.1 x, max acc.2 x))
    (Int64.maxValue, Int64.minValue) values

def minMaxF64Slice [Float64 F] (values : List (Value F)) : Option (F × F) :=
  foldSome float64Of (fun acc x => (Float64.min acc.1 x, Float64.max acc.2 x))
    (Float64.infinity, Float64.negInfinity) values

theorem minI64_eq (values : List (Value F)) :
    (minMaxI64Slice values).map Prod.fst = foldSome int64Of min Int64.maxValue values :=
  map_foldSome int64Of Prod.fst min (fun _ _ => rfl) values

theorem maxI64_eq (values : List (Value F)) :
    (minMaxI64Slice values).map Prod.snd = foldSome int64Of max Int64.minValue values :=
  map_foldSome int64Of Prod.snd max (fun _ _ => rfl) values

theorem minF64_eq [Float64 F] (values : List (Value F)) :
    (minMaxF64Slice values).map Prod.fst =
      foldSome float64Of Float64.min Float64.infinity values :=
  map_foldSome float64Of Prod.fst Float64.min (fun _ _ => rfl) values

theorem maxF64_eq [Float64 F] (values : List (Value F)) :
    (minMaxF64Slice values).map Prod.snd =
      foldSome float64Of Float64.max Float64.negInfinity values :=
  map_foldSome float64Of Prod.snd Float64.max (fun _ _ => rfl) values

end ColumnChunk

structure ColumnarChunk (F : Type) where
  chunkId : Nat
  columns : List (ColumnChunk F)
  rowCount : Nat

namespace ColumnarChunk

def new (chunkId : Nat) (columns : List (ColumnChunk F)) : ColumnarChunk F :=
  ⟨chunkId, columns, (columns.head?.map (fun c => c.values.length)).getD 0⟩

/-- The values of the first column of that name. -/
def column (chunk : ColumnarChunk F) (name : String) : Option (List (Value F)) :=
  (chunk.columns.find? (fun c => c.columnName == name)).map ColumnChunk.values

end ColumnarChunk

structure ColumnarStore (F : Type) where
  nextChunkId : Nat
  chunks : ExtTreeMap Nat (List (ColumnarChunk F))

namespace ColumnarStore

def new : ColumnarStore F := ⟨0, ∅⟩

def chunksOf (store : ColumnarStore F) (tableId : Nat) : List (ColumnarChunk F) :=
  store.chunks[tableId]?.getD []

def insertChunk (store : ColumnarStore F) (tableId : Nat) (chunk : ColumnarChunk F) :
    ColumnarStore F :=
  { store with chunks := store.chunks.insert tableId (store.chunksOf tableId ++ [chunk]) }

/-- `next_chunk_id`: hand out the counter. -/
def takeChunkId (store : ColumnarStore F) : Nat × ColumnarStore F :=
  (store.nextChunkId, { store with nextChunkId := store.nextChunkId + 1 })

def dropTable (store : ColumnarStore F) (tableId : Nat) : ColumnarStore F :=
  { store with chunks := store.chunks.erase tableId }

variable {store : ColumnarStore F}

@[simp] theorem chunksOf_new (tableId : Nat) : (new : ColumnarStore F).chunksOf tableId = [] := by
  simp [new, chunksOf]

theorem chunksOf_insertChunk (tableId t : Nat) (chunk : ColumnarChunk F) :
    (store.insertChunk tableId chunk).chunksOf t =
      if tableId = t then store.chunksOf t ++ [chunk] else store.chunksOf t := by
  rw [chunksOf, insertChunk, ExtTreeMap.getElem?_insert]
  by_cases ht : tableId = t
  · rw [if_pos (by simpa using ht), if_pos ht, ht, Option.getD_some]
  · rw [if_neg (by simpa using ht), if_neg ht, chunksOf]

theorem chunksOf_dropTable (tableId t : Nat) :
    (store.dropTable tableId).chunksOf t = if tableId = t then [] else store.chunksOf t := by
  rw [chunksOf, dropTable, ExtTreeMap.getElem?_erase]
  by_cases ht : tableId = t
  · rw [if_pos (by simpa using ht), if_pos ht, Option.getD_none]
  · rw [if_neg (by simpa using ht), if_neg ht, chunksOf]

end ColumnarStore

end ColumnarStorage
