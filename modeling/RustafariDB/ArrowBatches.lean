import RustafariDB.ColumnarStorage
import RustafariDB.Sessions
import RustafariDB.StatefulPrograms

/-!
# Arrow batches

`columnar.rs` of the executor crate: a chunk becomes a record batch, column by column, and
the type of a column is guessed from its first value. Arrow is a parameter: builders and
batches are known by what they hold, and do what their documentation says.
-/

namespace ArrowBatches

open Floats Values ColumnarStorage Sessions StatefulPrograms

section Interface

inductive DataType where
  | int64
  | float64
  | utf8
  deriving DecidableEq

structure Field where
  name : String
  dataType : DataType
  nullable : Bool
  deriving DecidableEq

/-- What an array holds: its type, and a value or null in each cell. -/
inductive ArrayData (F : Type) where
  | int64 (cells : List (Option Int64))
  | float64 (cells : List (Option F))
  | utf8 (cells : List (Option String))

variable {F : Type}

namespace ArrayData

def dataType : ArrayData F → DataType
  | .int64 _ => .int64
  | .float64 _ => .float64
  | .utf8 _ => .utf8

/-- The cells as values of the array's type. -/
def values : ArrayData F → List (Value F)
  | .int64 cells => cells.map (fun c => (c.map Value.int64).getD .null)
  | .float64 cells => cells.map (fun c => (c.map Value.float64).getD .null)
  | .utf8 cells => cells.map (fun c => (c.map Value.string).getD .null)

end ArrayData

/-- A builder of arrays with cells of one type. To append a value panics, which is `none`,
when the array would be too large. -/
structure ArrowBuilder (T A : Type) where
  Builder : Type
  new : Builder
  appendValue : Builder → T → Option Builder
  appendNull : Builder → Builder
  finish : Builder → A

/-- The loop over the values of a column: those of the builder's type are appended, the others
are nulls. -/
def ArrowBuilder.appendAll {T A α : Type} (b : ArrowBuilder T A) (cell : α → Option T) :
    List α → b.Builder → Option b.Builder
  | [], x => some x
  | v :: rest, x =>
    (match cell v with
      | some t => b.appendValue x t
      | none => some (b.appendNull x)).bind (b.appendAll cell rest)

/-- The part of the Arrow crate the conversion uses, with what can be read from its arrays and
batches. -/
class Arrow (F : Type) where
  ArrayRef : Type
  RecordBatch : Type
  int64Builder : ArrowBuilder Int64 ArrayRef
  float64Builder : ArrowBuilder F ArrayRef
  stringBuilder : ArrowBuilder String ArrayRef
  /-- `Int64Array::from`. -/
  int64ArrayFrom : List (Option Int64) → ArrayRef
  /-- `RecordBatch::try_new`, with the text of its error. -/
  tryNew : List Field → List ArrayRef → Except String RecordBatch
  contents : ArrayRef → ArrayData F
  fields : RecordBatch → List Field
  columns : RecordBatch → List ArrayRef
  numRows : RecordBatch → Nat

end Interface

section Conversion
variable {F : Type} [Arrow F]

def stringOf : Value F → Option String
  | .string s => some s
  | _ => none

/-- A new builder, a loop and `finish`. -/
def buildColumn {T : Type} (b : ArrowBuilder T (Arrow.ArrayRef F)) (cell : Value F → Option T)
    (values : List (Value F)) : Option (Arrow.ArrayRef F) :=
  (b.appendAll cell values b.new).map b.finish

def columnToArrow (col : ColumnChunk F) : Option (Arrow.ArrayRef F × Field) :=
  match col.values with
  | [] => some (Arrow.int64ArrayFrom [], ⟨col.columnName, .int64, true⟩)
  | first :: _ =>
    match first with
    | .int64 _ => (buildColumn Arrow.int64Builder int64Of col.values).map
        (fun arr => (arr, ⟨col.columnName, .int64, true⟩))
    | .float64 _ => (buildColumn Arrow.float64Builder float64Of col.values).map
        (fun arr => (arr, ⟨col.columnName, .float64, true⟩))
    | .string _ => (buildColumn Arrow.stringBuilder stringOf col.values).map
        (fun arr => (arr, ⟨col.columnName, .utf8, true⟩))
    | _ => (buildColumn Arrow.int64Builder (fun _ => none) col.values).map
        (fun arr => (arr, ⟨col.columnName, .int64, true⟩))

/-- Build a record batch from a chunk; `none` is a panic of a builder. -/
def chunkToRecordBatch (chunk : ColumnarChunk F) :
    Option (Except RustafariError (Arrow.RecordBatch F)) :=
  (chunk.columns.mapM columnToArrow).map (fun built =>
    match Arrow.tryNew (built.map Prod.snd) (built.map Prod.fst) with
    | .ok batch => .ok batch
    | .error e => .error (.execution e))

end Conversion

section Documented
variable {F : Type}

/-- The largest offset into the text of a string array. -/
def maxOffset : Nat := 2147483647

def textBytes (cells : List (Option String)) : Nat :=
  (cells.map (fun c => (c.map String.utf8ByteSize).getD 0)).sum

/-- A builder holds the cells in the order in which they were appended, as far as they fit. -/
def Builds [Arrow F] {T : Type} (b : ArrowBuilder T (Arrow.ArrayRef F))
    (fits : List (Option T) → Prop) (data : List (Option T) → ArrayData F) : Prop :=
  ∀ cells, (fits cells → ∃ x, b.appendAll id cells b.new = some x ∧
      Arrow.contents (b.finish x) = data cells) ∧
    (¬ fits cells → b.appendAll id cells b.new = none)

/-- What `try_new` expects: at least one column, and in each the number of rows and the type,
and no null where the field does not allow it. -/
def Expected [Arrow F] (fields : List Field) (arrays : List (Arrow.ArrayRef F)) (rows : Nat) :
    Prop :=
  arrays ≠ [] ∧ List.Forall₂ (fun field array => (Arrow.contents array).values.length = rows ∧
    (Arrow.contents array).dataType = field.dataType ∧
    (field.nullable = false → ∀ v ∈ (Arrow.contents array).values, v.isNull = false)) fields arrays

class LawfulArrow (F : Type) [Arrow F] : Prop where
  int64_builds : Builds (F := F) Arrow.int64Builder (fun _ => True) .int64
  float64_builds : Builds (F := F) Arrow.float64Builder (fun _ => True) .float64
  string_builds : Builds (F := F) Arrow.stringBuilder (fun cells => textBytes cells ≤ maxOffset)
    .utf8
  int64_from : ∀ cells, Arrow.contents (F := F) (Arrow.int64ArrayFrom cells) = .int64 cells
  tryNew_ok : ∀ (fields : List Field) (arrays : List (Arrow.ArrayRef F)) (rows : Nat),
    Expected fields arrays rows → ∃ batch, Arrow.tryNew fields arrays = .ok batch ∧
      Arrow.fields batch = fields ∧ Arrow.columns batch = arrays ∧ Arrow.numRows batch = rows
  expected_of_ok : ∀ (fields : List Field) (arrays : List (Arrow.ArrayRef F)) (batch),
    Arrow.tryNew fields arrays = .ok batch → ∃ rows, Expected fields arrays rows

end Documented

section Columns
variable {F : Type} {values : List (Value F)}

/-- What the array of a column holds: the first value decides. -/
def columnData (values : List (Value F)) : ArrayData F :=
  match values.head? with
  | some (.int64 _) => .int64 (values.map int64Of)
  | some (.float64 _) => .float64 (values.map float64Of)
  | some (.string _) => .utf8 (values.map stringOf)
  | _ => .int64 (values.map (fun _ => none))

/-- The strings of the column fit into one array. -/
def TextFits (values : List (Value F)) : Prop := textBytes (values.map stringOf) ≤ maxOffset

/-- A builder is asked for a string array that is too large. -/
def Overflows (values : List (Value F)) : Prop :=
  (∃ s, values.head? = some (.string s)) ∧ ¬ TextFits values

theorem appendAll_map {T A α : Type} (b : ArrowBuilder T A) (cell : α → Option T) (vs : List α)
    (x : b.Builder) : b.appendAll cell vs x = b.appendAll id (vs.map cell) x := by
  induction vs generalizing x with
  | nil => rfl
  | cons v rest ih =>
    rw [List.map_cons, ArrowBuilder.appendAll, ArrowBuilder.appendAll]
    exact congrArg _ (funext ih)

variable [Arrow F]

theorem buildColumn_fits {T : Type} {b : ArrowBuilder T (Arrow.ArrayRef F)}
    {fits : List (Option T) → Prop} {data : List (Option T) → ArrayData F}
    (builds : Builds b fits data) (cell : Value F → Option T) (values : List (Value F))
    (fit : fits (values.map cell)) :
    ∃ arr, buildColumn b cell values = some arr ∧ Arrow.contents arr = data (values.map cell) := by
  obtain ⟨x, built, holds⟩ := (builds (values.map cell)).1 fit
  refine ⟨b.finish x, ?_, holds⟩
  rw [buildColumn, appendAll_map, built, Option.map_some]

theorem buildColumn_overflows {T : Type} {b : ArrowBuilder T (Arrow.ArrayRef F)}
    {fits : List (Option T) → Prop} {data : List (Option T) → ArrayData F}
    (builds : Builds b fits data) (cell : Value F → Option T) (values : List (Value F))
    (beyond : ¬ fits (values.map cell)) : buildColumn b cell values = none := by
  rw [buildColumn, appendAll_map, (builds (values.map cell)).2 beyond, Option.map_none]

/-- The array and the field of a column. -/
def ColumnBuilt (col : ColumnChunk F) (built : Arrow.ArrayRef F × Field) : Prop :=
  Arrow.contents built.1 = columnData col.values ∧
    built.2 = ⟨col.columnName, (columnData col.values).dataType, true⟩

/-- The end of each branch: the array is paired with the field. -/
theorem built_of_branch {col : ColumnChunk F} {branch : Option (Arrow.ArrayRef F)}
    (same : columnToArrow col = branch.map
      (fun arr => (arr, ⟨col.columnName, (columnData col.values).dataType, true⟩)))
    (built : ∃ arr, branch = some arr ∧ Arrow.contents arr = columnData col.values) :
    ∃ built, columnToArrow col = some built ∧ ColumnBuilt col built := by
  obtain ⟨arr, rfl, holds⟩ := built
  exact ⟨_, same, holds, rfl⟩

variable [LawfulArrow F]

theorem columnToArrow_built (col : ColumnChunk F) (fits : ¬ Overflows col.values) :
    ∃ built, columnToArrow col = some built ∧ ColumnBuilt col built := by
  obtain ⟨name, values⟩ := col
  cases values with
  | nil => exact ⟨_, rfl, LawfulArrow.int64_from [], rfl⟩
  | cons first rest =>
    cases first with
    | int64 x =>
      exact built_of_branch rfl (buildColumn_fits LawfulArrow.int64_builds int64Of _ trivial)
    | float64 x =>
      exact built_of_branch rfl (buildColumn_fits LawfulArrow.float64_builds float64Of _ trivial)
    | string s =>
      have text : TextFits (.string s :: rest) :=
        Classical.byContradiction (fun beyond => fits ⟨⟨s, rfl⟩, beyond⟩)
      exact built_of_branch rfl (buildColumn_fits LawfulArrow.string_builds stringOf _ text)
    | _ =>
      exact built_of_branch rfl
        (buildColumn_fits LawfulArrow.int64_builds (fun _ => none) _ trivial)

theorem columnToArrow_overflows {col : ColumnChunk F} (beyond : Overflows col.values) :
    columnToArrow col = none := by
  obtain ⟨name, values⟩ := col
  obtain ⟨⟨s, first⟩, text⟩ := beyond
  obtain ⟨rest, rfl⟩ := List.head?_eq_some_iff.mp first
  have none := buildColumn_overflows LawfulArrow.string_builds stringOf (.string s :: rest) text
  exact congrArg (Option.map _) none

end Columns

section Kinds
variable {F : Type} {values : List (Value F)}

/-- The type of array a value belongs into. -/
def kindOf : Value F → Option DataType
  | .int64 _ => some .int64
  | .float64 _ => some .float64
  | .string _ => some .utf8
  | _ => none

/-- Only integers, only floats or only strings, and Nulls between them. -/
def OneKind (values : List (Value F)) : Prop :=
  ∃ t, ∀ v ∈ values, v = .null ∨ kindOf v = some t

/-- A Null stands first only if the column has nothing else. -/
def NoLeadingNull (values : List (Value F)) : Prop :=
  values.head? = some .null → ∀ v ∈ values, v = .null

/-- Cells that keep each value give the column back. -/
theorem map_cells {T : Type} {wrap : T → Value F} {cell : Value F → Option T}
    (keeps : ∀ v ∈ values, ((cell v).map wrap).getD .null = v) :
    (values.map cell).map (fun c => (c.map wrap).getD .null) = values := by
  rw [List.map_map]
  exact (List.map_congr_left keeps).trans (List.map_id _)

/-- A column of one kind is kept exactly if no Null hides its values. -/
theorem values_columnData_iff (kind : OneKind values) :
    (columnData values).values = values ↔ NoLeadingNull values := by
  obtain ⟨t, kind⟩ := kind
  cases values with
  | nil => exact iff_of_true rfl (by rintro ⟨⟩)
  | cons first rest =>
    have head := kind first List.mem_cons_self
    cases first with
    | null =>
      constructor
      · intro same _ v inside
        rw [← same] at inside
        obtain ⟨c, listed, rfl⟩ := List.mem_map.mp inside
        obtain ⟨_, _, rfl⟩ := List.mem_map.mp listed
        rfl
      · intro nulls
        exact map_cells (fun v inside => (nulls rfl v inside).symm)
    | int64 | float64 | string =>
      cases head.resolve_left (by rintro ⟨⟩)
      refine iff_of_true (map_cells (fun v inside => ?_)) (by rintro ⟨⟩)
      rcases kind v inside with rfl | same
      · rfl
      · cases v <;> cases same
        rfl
    | _ => cases head.resolve_left (by rintro ⟨⟩)

theorem textFits_of_no_string (plain : ∀ v ∈ values, stringOf v = none) : TextFits values := by
  have empty : textBytes (values.map stringOf) = 0 := by
    rw [textBytes, List.map_map]
    refine List.sum_eq_zero (fun n inside => ?_)
    obtain ⟨v, listed, rfl⟩ := List.mem_map.mp inside
    rw [Function.comp_apply, plain v listed]
    rfl
  rw [TextFits, empty]
  exact Nat.zero_le _

/-- In a column of one kind without a leading Null, text that is too large is an overflow. -/
theorem overflows_of_large (kind : OneKind values) (nulls : NoLeadingNull values)
    (large : ¬ TextFits values) : Overflows values := by
  refine ⟨?_, large⟩
  obtain ⟨t, kind⟩ := kind
  cases values with
  | nil => exact absurd (textFits_of_no_string (List.forall_mem_nil _)) large
  | cons first rest =>
    have head := kind first List.mem_cons_self
    cases first with
    | string s => exact ⟨s, rfl⟩
    | null =>
      refine absurd (textFits_of_no_string (fun v inside => ?_)) large
      rw [nulls rfl v inside]
      rfl
    | int64 | float64 =>
      cases head.resolve_left (by rintro ⟨⟩)
      refine absurd (textFits_of_no_string (fun v inside => ?_)) large
      rcases kind v inside with rfl | same
      · rfl
      · cases v <;> cases same
        rfl
    | _ => cases head.resolve_left (by rintro ⟨⟩)

end Kinds

section Batches
variable {F : Type} [Arrow F]

/-- The batch has the columns of the chunk in their order, with its row count, each of the type of
its field, and the values of the chunk in its cells: null for Null and else the value itself. -/
def Lossless (chunk : ColumnarChunk F) : Prop :=
  ∃ batch, chunkToRecordBatch chunk = some (.ok batch) ∧
    Arrow.numRows batch = chunk.rowCount ∧
    (Arrow.fields batch).map Field.name = chunk.columns.map ColumnChunk.columnName ∧
    (Arrow.fields batch).map Field.dataType =
      (Arrow.columns batch).map (fun arr => (Arrow.contents arr).dataType) ∧
    (Arrow.columns batch).map (fun arr => (Arrow.contents arr).values) =
      chunk.columns.map ColumnChunk.values

theorem chunkToRecordBatch_eq_ok {chunk : ColumnarChunk F} {batch : Arrow.RecordBatch F} :
    chunkToRecordBatch chunk = some (.ok batch) ↔
      ∃ built, List.Forall₂ (fun col b => columnToArrow col = some b) chunk.columns built ∧
        Arrow.tryNew (built.map Prod.snd) (built.map Prod.fst) = .ok batch := by
  rw [chunkToRecordBatch, Option.map_eq_some_iff]
  simp only [mapM_eq_some]
  constructor
  · rintro ⟨built, columns, same⟩
    refine ⟨built, columns, ?_⟩
    cases tried : Arrow.tryNew (built.map Prod.snd) (built.map Prod.fst) with
    | error e =>
      rw [tried] at same
      cases same
    | ok batch' =>
      rw [tried] at same
      cases same
      rfl
  · rintro ⟨built, columns, tried⟩
    refine ⟨built, columns, ?_⟩
    rw [tried]

variable [LawfulArrow F] {chunk : ColumnarChunk F}

/-- Columns that overflow nowhere are all built. -/
theorem columns_built (fits : ∀ col ∈ chunk.columns, ¬ Overflows col.values) :
    ∃ built, List.Forall₂ (fun col b => columnToArrow col = some b ∧ ColumnBuilt col b)
      chunk.columns built :=
  forall₂_of_exists (fun col inside => columnToArrow_built col (fits col inside))

/-- A column that was built did not overflow. -/
theorem columnBuilt_of_some {col : ColumnChunk F} {b : Arrow.ArrayRef F × Field}
    (built : columnToArrow col = some b) : ColumnBuilt col b := by
  obtain ⟨b', built', holds⟩ := columnToArrow_built col (fun beyond => by
    rw [columnToArrow_overflows beyond] at built
    cases built)
  cases built.symm.trans built'
  exact holds

omit [LawfulArrow F] in
/-- The arrays and fields of a chunk, read off its columns. -/
theorem built_columns {cols : List (ColumnChunk F)} {built : List (Arrow.ArrayRef F × Field)}
    (each : List.Forall₂ ColumnBuilt cols built) :
    (built.map Prod.fst).map Arrow.contents = cols.map (fun col => columnData col.values) ∧
      built.map Prod.snd = cols.map
        (fun col => ⟨col.columnName, (columnData col.values).dataType, true⟩) := by
  induction each with
  | nil => exact ⟨rfl, rfl⟩
  | cons head _ ih =>
    obtain ⟨data, field⟩ := head
    simp only [List.map_cons, data, field, ih.1, ih.2, and_self]

omit [LawfulArrow F] in
theorem column_of_built {cols : List (ColumnChunk F)} {built : List (Arrow.ArrayRef F × Field)}
    (each : List.Forall₂ ColumnBuilt cols built) {b : Arrow.ArrayRef F × Field}
    (inside : b ∈ built) : ∃ col ∈ cols, ColumnBuilt col b :=
  exists_of_forall₂ each.flip b inside

/-- Every array of an accepted batch has its number of rows. -/
theorem batch_of_ok {fields : List Field} {arrays : List (Arrow.ArrayRef F)}
    {batch : Arrow.RecordBatch F} (tried : Arrow.tryNew fields arrays = .ok batch) :
    arrays ≠ [] ∧ Arrow.columns batch = arrays ∧
      ∀ arr ∈ arrays, (Arrow.contents arr).values.length = Arrow.numRows batch := by
  obtain ⟨rows, expected⟩ := LawfulArrow.expected_of_ok _ _ _ tried
  obtain ⟨batch', tried', _, columns, numRows⟩ := LawfulArrow.tryNew_ok _ _ _ expected
  cases tried.symm.trans tried'
  refine ⟨expected.1, columns, fun arr inside => ?_⟩
  obtain ⟨_, _, long, _⟩ := exists_of_forall₂ expected.2.flip arr inside
  rw [long, numRows]

/-- What is true of a chunk that is kept: it has columns, all of its length, none of them with
values after a leading Null, and their text fits. -/
def Convertible (chunk : ColumnarChunk F) : Prop :=
  chunk.columns ≠ [] ∧ Rectangular chunk ∧
    ∀ col ∈ chunk.columns, NoLeadingNull col.values ∧ TextFits col.values

theorem convertible_of_lossless (kinds : ∀ col ∈ chunk.columns, OneKind col.values)
    (lossless : Lossless chunk) : Convertible chunk := by
  obtain ⟨batch, converted, rows, _, _, cells⟩ := lossless
  obtain ⟨built, columns, tried⟩ := chunkToRecordBatch_eq_ok.mp converted
  have each : List.Forall₂ ColumnBuilt chunk.columns built :=
    columns.imp (fun _ _ => columnBuilt_of_some)
  obtain ⟨some_array, same, lengths⟩ := batch_of_ok tried
  have kept : ∀ col ∈ chunk.columns, (columnData col.values).values = col.values := by
    have data := congrArg (List.map ArrayData.values) (built_columns each).1
    rw [same, ← Function.comp_def, ← List.map_map, data, List.map_map] at cells
    exact List.map_inj_left.mp cells
  refine ⟨?_, fun col inside => ?_, fun col inside => ?_⟩
  · rintro none
    rw [none] at each
    cases each
    exact some_array rfl
  · obtain ⟨b, listed, holds, _⟩ := exists_of_forall₂ each col inside
    have long := lengths b.1 (List.mem_map_of_mem listed)
    rw [holds, kept col inside, rows] at long
    exact long
  · have nulls := (values_columnData_iff (kinds col inside)).mp (kept col inside)
    refine ⟨nulls, Classical.byContradiction (fun large => ?_)⟩
    obtain ⟨b, _, built⟩ := exists_of_forall₂ columns col inside
    rw [columnToArrow_overflows (overflows_of_large (kinds col inside) nulls large)] at built
    cases built

theorem lossless_of_convertible (kinds : ∀ col ∈ chunk.columns, OneKind col.values)
    (convertible : Convertible chunk) : Lossless chunk := by
  obtain ⟨some_column, rectangular, good⟩ := convertible
  have kept : ∀ col ∈ chunk.columns, (columnData col.values).values = col.values :=
    fun col inside => (values_columnData_iff (kinds col inside)).mpr (good col inside).1
  obtain ⟨built, both⟩ := columns_built (fun col inside beyond => beyond.2 (good col inside).2)
  have columns : List.Forall₂ (fun col b => columnToArrow col = some b) chunk.columns built :=
    both.imp (fun _ _ => And.left)
  have each : List.Forall₂ ColumnBuilt chunk.columns built := both.imp (fun _ _ => And.right)
  have expected : Expected (built.map Prod.snd) (built.map Prod.fst) chunk.rowCount := by
    refine ⟨?_, ?_⟩
    · intro none
      rw [List.map_eq_nil_iff.mp none] at each
      exact some_column (List.forall₂_nil_right_iff.mp each)
    · rw [List.forall₂_map_left_iff, List.forall₂_map_right_iff, List.forall₂_same]
      intro b inside
      obtain ⟨col, listed, holds, field⟩ := column_of_built each inside
      rw [holds, field, kept col listed]
      exact ⟨rectangular col listed, rfl, by rintro ⟨⟩⟩
  obtain ⟨batch, tried, fields, arrays, rows⟩ := LawfulArrow.tryNew_ok _ _ _ expected
  obtain ⟨data, described⟩ := built_columns each
  refine ⟨batch, chunkToRecordBatch_eq_ok.mpr ⟨built, columns, tried⟩, rows, ?_, ?_, ?_⟩
  · rw [fields, described, List.map_map]
    rfl
  · rw [fields, described, arrays, ← Function.comp_def, ← List.map_map, data, List.map_map,
      List.map_map]
    rfl
  · rw [arrays, ← Function.comp_def, ← List.map_map, data, List.map_map]
    exact List.map_congr_left kept

/-- A chunk of the columnar buffer is rectangular, so only its values decide. -/
theorem flushed_lossless_iff {schema : Catalogs.Schema} {rows : List (Row F)} (chunkId : Nat)
    (kinds : ∀ col ∈ columnChunks schema rows, OneKind col.values) :
    Lossless (.new chunkId (columnChunks schema rows)) ↔ columnChunks schema rows ≠ [] ∧
      ∀ col ∈ columnChunks schema rows, NoLeadingNull col.values ∧ TextFits col.values := by
  constructor
  · intro lossless
    obtain ⟨some_column, _, good⟩ := convertible_of_lossless kinds lossless
    exact ⟨some_column, good⟩
  · rintro ⟨some_column, good⟩
    exact lossless_of_convertible kinds ⟨some_column, rectangular_columnChunks chunkId, good⟩

/-- A chunk with columns of one kind each is converted without loss exactly if it has columns, of
its length, no Null hides the values of a column, and no string array is too large. -/
theorem conversion_lossless_iff (kinds : ∀ col ∈ chunk.columns, OneKind col.values) :
    Lossless chunk ↔ Convertible chunk :=
  ⟨convertible_of_lossless kinds, lossless_of_convertible kinds⟩

end Batches

section Concrete

/-- A builder that keeps the cells. -/
def cellsBuilder {T A : Type} (fits : List (Option T) → Bool) (data : List (Option T) → A) :
    ArrowBuilder T A where
  Builder := List (Option T)
  new := []
  appendValue := fun x t => if fits (x ++ [some t]) then some (x ++ [some t]) else none
  appendNull := fun x => x ++ [none]
  finish := data

/-- A batch with nothing but what can be read from it. -/
structure PlainBatch where
  fields : List Field
  columns : List (ArrayData Float)
  rows : Nat

/-- The checks of `try_new`. -/
def accepts (rows : Nat) : List Field → List (ArrayData Float) → Bool
  | [], [] => true
  | field :: fields, array :: arrays =>
    decide (array.values.length = rows) && decide (array.dataType = field.dataType) &&
      (field.nullable || array.values.all (fun v => !v.isNull)) && accepts rows fields arrays
  | _, _ => false

instance : Arrow Float where
  ArrayRef := ArrayData Float
  RecordBatch := PlainBatch
  int64Builder := cellsBuilder (fun _ => true) .int64
  float64Builder := cellsBuilder (fun _ => true) .float64
  stringBuilder := cellsBuilder (fun cells => decide (textBytes cells ≤ maxOffset)) .utf8
  int64ArrayFrom := .int64
  tryNew := fun fields arrays =>
    match arrays with
    | [] => .error "must either specify a row count or at least one column"
    | array :: _ =>
      if accepts array.values.length fields arrays then
        .ok ⟨fields, arrays, array.values.length⟩
      else .error "column types or lengths do not match the schema"
  contents := id
  fields := PlainBatch.fields
  columns := PlainBatch.columns
  numRows := PlainBatch.rows

theorem appendAll_cells {T A : Type} {fits : List (Option T) → Bool}
    (start : ∀ x y, fits (x ++ y) = true → fits x = true)
    (null : ∀ x, fits x = true → fits (x ++ [none]) = true) (data : List (Option T) → A)
    (cells x : List (Option T)) (fit : fits x = true) :
    (cellsBuilder fits data).appendAll id cells x =
      if fits (x ++ cells) then some (x ++ cells) else none := by
  induction cells generalizing x with
  | nil =>
    rw [List.append_nil, if_pos fit]
    rfl
  | cons c rest ih =>
    have whole : x ++ c :: rest = x ++ [c] ++ rest := List.append_cons x c rest
    rw [whole]
    cases c with
    | none => exact ih (x ++ [none]) (null x fit)
    | some t =>
      change ((cellsBuilder fits data).appendValue x t).bind _ = _
      by_cases next : fits (x ++ [some t]) = true
      · have appended : (cellsBuilder fits data).appendValue x t = some (x ++ [some t]) :=
          if_pos next
        rw [appended, ← ih _ next]
        rfl
      · have full : (cellsBuilder fits data).appendValue x t = none := if_neg next
        rw [full, if_neg (fun later => next (start _ _ later))]
        rfl

theorem textBytes_append (x y : List (Option String)) :
    textBytes (x ++ y) = textBytes x + textBytes y := by
  rw [textBytes, List.map_append, List.sum_append]
  rfl

theorem builds_cells {T : Type} {fits : List (Option T) → Bool} {holds : List (Option T) → Prop}
    (same : ∀ cells, fits cells = true ↔ holds cells)
    (start : ∀ x y, fits (x ++ y) = true → fits x = true)
    (null : ∀ x, fits x = true → fits (x ++ [none]) = true) (empty : fits [] = true)
    (data : List (Option T) → ArrayData Float) :
    Builds (F := Float) (cellsBuilder fits data) holds data := by
  intro cells
  have built := appendAll_cells (A := ArrayData Float) start null data cells [] empty
  rw [List.nil_append] at built
  rw [← same]
  constructor
  · intro fit
    rw [if_pos fit] at built
    exact ⟨cells, built, rfl⟩
  · intro beyond
    rw [if_neg beyond] at built
    exact built

theorem accepts_iff {rows : Nat} {fields : List Field} {arrays : List (ArrayData Float)} :
    accepts rows fields arrays = true ↔ List.Forall₂ (fun field array =>
      array.values.length = rows ∧ array.dataType = field.dataType ∧
        (field.nullable = false → ∀ v ∈ array.values, v.isNull = false)) fields arrays := by
  induction fields generalizing arrays with
  | nil =>
    cases arrays with
    | nil => exact iff_of_true rfl .nil
    | cons => exact iff_of_false Bool.false_ne_true (by rintro ⟨⟩)
  | cons field fields ih =>
    cases arrays with
    | nil => exact iff_of_false Bool.false_ne_true (by rintro ⟨⟩)
    | cons array arrays =>
      rw [accepts, List.forall₂_cons, ← ih]
      simp only [Bool.and_eq_true, decide_eq_true_iff, Bool.or_eq_true, List.all_eq_true,
        Bool.not_eq_true', and_assoc]
      refine and_congr_right (fun _ => and_congr_right (fun _ => and_congr_left (fun _ => ?_)))
      cases field.nullable with
      | true => exact iff_of_true (Or.inl rfl) (by rintro ⟨⟩)
      | false => exact ⟨fun h _ => h.resolve_left Bool.false_ne_true, fun h => Or.inr (h rfl)⟩

theorem tryNew_eq_ok {fields : List Field} {array : ArrayData Float}
    {arrays : List (ArrayData Float)} {batch : PlainBatch} :
    Arrow.tryNew (F := Float) fields (array :: arrays) = .ok batch ↔
      accepts array.values.length fields (array :: arrays) = true ∧
        batch = ⟨fields, array :: arrays, array.values.length⟩ := by
  change (if accepts array.values.length fields (array :: arrays) = true then _ else _) = _ ↔ _
  by_cases fine : accepts array.values.length fields (array :: arrays) = true
  · rw [if_pos fine]
    exact ⟨fun h => ⟨fine, (Except.ok.inj h).symm⟩, fun h => congrArg _ h.2.symm⟩
  · rw [if_neg fine]
    exact iff_of_false (by rintro ⟨⟩) (fun h => fine h.1)

instance : LawfulArrow Float where
  int64_builds := builds_cells (fun _ => iff_of_true rfl trivial) (fun _ _ h => h) (fun _ h => h)
    rfl .int64
  float64_builds := builds_cells (fun _ => iff_of_true rfl trivial) (fun _ _ h => h)
    (fun _ h => h) rfl .float64
  string_builds := by
    refine builds_cells (fun _ => decide_eq_true_iff) (fun x y h => ?_) (fun x h => ?_) rfl .utf8
    · rw [decide_eq_true_iff, textBytes_append] at h
      rw [decide_eq_true_iff]
      omega
    · rw [decide_eq_true_iff] at h
      rw [decide_eq_true_iff, textBytes_append]
      exact h
  int64_from := fun _ => rfl
  tryNew_ok := by
    rintro fields (_ | ⟨array, arrays⟩) rows ⟨some_array, each⟩
    · exact absurd rfl some_array
    · obtain ⟨_, _, long, _⟩ := exists_of_forall₂ each.flip array List.mem_cons_self
      subst long
      exact ⟨_, tryNew_eq_ok.mpr ⟨accepts_iff.mpr each, rfl⟩, rfl, rfl, rfl⟩
  expected_of_ok := by
    rintro fields (_ | ⟨array, arrays⟩) batch tried
    · cases tried
    · exact ⟨_, List.cons_ne_nil _ _, accepts_iff.mp (tryNew_eq_ok.mp tried).1⟩

/-- A column of strings and one of integers, with Nulls that do not stand first. -/
def mixedChunk : ColumnarChunk Float :=
  .new 0 [⟨"s", [.string "a", .null, .string "b"]⟩, ⟨"n", [.int64 1, .int64 2, .null]⟩]

theorem conversion_lossless_mixed : Lossless mixedChunk := by
  have texts : OneKind ([.string "a", .null, .string "b"] : List (Value Float)) :=
    ⟨.utf8, List.forall_mem_cons.mpr ⟨Or.inr rfl, List.forall_mem_cons.mpr ⟨Or.inl rfl,
      List.forall_mem_singleton.mpr (Or.inr rfl)⟩⟩⟩
  have numbers : OneKind ([.int64 1, .int64 2, .null] : List (Value Float)) :=
    ⟨.int64, List.forall_mem_cons.mpr ⟨Or.inr rfl, List.forall_mem_cons.mpr ⟨Or.inr rfl,
      List.forall_mem_singleton.mpr (Or.inl rfl)⟩⟩⟩
  refine (conversion_lossless_iff ?_).mpr ⟨List.cons_ne_nil _ _, ?_, ?_⟩
  · exact List.forall_mem_cons.mpr ⟨texts, List.forall_mem_singleton.mpr numbers⟩
  · exact List.forall_mem_cons.mpr ⟨rfl, List.forall_mem_singleton.mpr rfl⟩
  · refine List.forall_mem_cons.mpr ⟨⟨by rintro ⟨⟩, ?_⟩, List.forall_mem_singleton.mpr
      ⟨by rintro ⟨⟩, ?_⟩⟩
    · rw [TextFits]
      decide
    · rw [TextFits]
      decide

/-- The integer after a Null is lost. -/
theorem leading_null_hides :
    ¬ ∀ chunk : ColumnarChunk Float, (∀ col ∈ chunk.columns, OneKind col.values) →
      Lossless chunk := by
  intro lossless
  let chunk : ColumnarChunk Float := .new 0 [⟨"n", [.null, .int64 1]⟩]
  have kinds : ∀ col ∈ chunk.columns, OneKind col.values :=
    List.forall_mem_singleton.mpr ⟨.int64, List.forall_mem_cons.mpr ⟨Or.inl rfl,
      List.forall_mem_singleton.mpr (Or.inr rfl)⟩⟩
  obtain ⟨_, _, good⟩ := convertible_of_lossless kinds (lossless chunk kinds)
  have nulls := (good _ List.mem_cons_self).1 rfl (.int64 1)
    (List.mem_cons_of_mem _ List.mem_cons_self)
  cases nulls

end Concrete

end ArrowBatches
