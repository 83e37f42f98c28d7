import RustafariDB.Catalogs
import RustafariDB.ColumnarStorage
import RustafariDB.Plans

/-!
# The two aggregate implementations

`aggregate_over_row_slice` walks whole rows and `aggregate_over_chunks` joins
per-chunk summaries. They are kept as the source has them: they disagree on
mixed columns, on the denominator of AVG and on extreme integers, and only the
row version knows whether a column exists.
-/

namespace Aggregates

open SelectiveFolds SaturatingSums Floats Values Catalogs ColumnarStorage Plans

variable {F : Type}

/-- The four accumulators shared by SUM, MIN and MAX. -/
structure Totals (F : Type) where
  int : Int64
  float : F
  hasInt : Bool
  hasFloat : Bool

namespace Totals

def start (int : Int64) (float : F) : Totals F := ⟨int, float, false, false⟩

def addInt (op : Int64 → Int64 → Int64) (acc : Totals F) (x : Int64) : Totals F :=
  { acc with int := op acc.int x, hasInt := true }

def addFloat (op : F → F → F) (acc : Totals F) (x : F) : Totals F :=
  { acc with float := op acc.float x, hasFloat := true }

/-- The loop body for one value. -/
def add (opI : Int64 → Int64 → Int64) (opF : F → F → F) (acc : Totals F) (v : Value F) :
    Totals F :=
  match v with
  | .int64 x => acc.addInt opI x
  | .float64 x => acc.addFloat opF x
  | _ => acc

end Totals

section Rows

def columnOrError (schema : Schema) (column : String) : Except RustafariError Nat :=
  match schema.columnIndex column with
  | some i => .ok i
  | none => .error (.execution ("column not found: " ++ column))

/-- The present values of one column. -/
def columnValues (rows : List (Row F)) (idx : Nat) : List (Value F) :=
  rows.filterMap (fun r => r.get idx)

/-- Running sum and count of the numeric values, for AVG over rows. -/
def addNumber [Float64 F] (acc : F × Nat) (v : Value F) : F × Nat :=
  match v with
  | .int64 x => (Float64.add acc.1 (Float64.ofInt x.toInt), acc.2 + 1)
  | .float64 x => (Float64.add acc.1 x, acc.2 + 1)
  | _ => acc

def sumResult [Float64 F] (acc : Totals F) : Value F :=
  if acc.hasFloat then .float64 (Float64.add acc.float (Float64.ofInt acc.int.toInt))
  else if acc.hasInt then .int64 acc.int
  else .null

def extremeResult (acc : Totals F) : Value F :=
  if acc.hasFloat then .float64 acc.float
  else if acc.hasInt then .int64 acc.int
  else .null

def aggregateOverRowSlice [Float64 F] (rows : List (Row F)) (schema : Schema) (agg : AggExpr) :
    Except RustafariError (Value F) :=
  match agg with
  | .countStar => .ok (.int64 (Int64.ofNat rows.length))
  | .sum column => do
    let idx ← columnOrError schema column
    return sumResult ((columnValues rows idx).foldl (Totals.add saturatingAdd Float64.add)
      (.start 0 Float64.zero))
  | .count column => do
    let idx ← columnOrError schema column
    return .int64 (Int64.ofNat ((columnValues rows idx).filter (fun v => !v.isNull)).length)
  | .avg column => do
    let idx ← columnOrError schema column
    let acc := (columnValues rows idx).foldl addNumber (Float64.zero, 0)
    return if acc.2 = 0 then .null else .float64 (Float64.div acc.1 (Float64.ofInt acc.2))
  | .min column => do
    let idx ← columnOrError schema column
    return extremeResult ((columnValues rows idx).foldl (Totals.add min Float64.min)
      (.start Int64.maxValue Float64.infinity))
  | .max column => do
    let idx ← columnOrError schema column
    return extremeResult ((columnValues rows idx).foldl (Totals.add max Float64.max)
      (.start Int64.minValue Float64.negInfinity))

end Rows

section Chunks

/-- The loop body for one chunk: join the chunk's two summaries. -/
def addChunk (column : String) (opI : Int64 → Int64 → Int64) (opF : F → F → F)
    (ints : List (Value F) → Option Int64) (floats : List (Value F) → Option F)
    (acc : Totals F) (ch : ColumnarChunk F) : Totals F :=
  match ch.column column with
  | none => acc
  | some slice =>
    let acc := match ints slice with
      | some s => acc.addInt opI s
      | none => acc
    match floats slice with
    | some s => acc.addFloat opF s
    | none => acc

def countChunk (column : String) (n : Nat) (ch : ColumnarChunk F) : Nat :=
  match ch.column column with
  | none => n
  | some slice => n + ColumnChunk.countNonNullSlice slice

/-- The extreme of a column, with the initial integer standing for an empty column. -/
def chunkExtreme (sentinel : Int64) (acc : Totals F) : Value F :=
  if acc.hasFloat then .float64 acc.float
  else if acc.hasInt && acc.int != sentinel then .int64 acc.int
  else .null

/-- The sums that SUM and AVG over chunks accumulate. -/
def chunkSums [Float64 F] (chunks : List (ColumnarChunk F)) (column : String) : Totals F :=
  chunks.foldl (addChunk column saturatingAdd Float64.add ColumnChunk.sumI64Slice
    ColumnChunk.sumF64Slice) (.start 0 Float64.zero)

/-- Compute one aggregate over columnar chunks (vectorized path). -/
def aggregateOverChunks [Float64 F] (chunks : List (ColumnarChunk F)) (_schema : Schema)
    (agg : AggExpr) : Except RustafariError (Value F) :=
  match agg with
  | .countStar => .ok (.int64 (Int64.ofNat (chunks.map ColumnarChunk.rowCount).sum))
  | .sum column =>
    let acc := chunkSums chunks column
    .ok (if acc.hasFloat then .float64 acc.float
      else if acc.hasInt then .int64 acc.int
      else .null)
  | .count column => .ok (.int64 (Int64.ofNat (chunks.foldl (countChunk column) 0)))
  | .avg column =>
    let acc := chunkSums chunks column
    let count := chunks.foldl (countChunk column) 0
    .ok (if count = 0 then .null
      else .float64 (Float64.div (Float64.add (Float64.ofInt acc.int.toInt) acc.float)
        (Float64.ofInt count)))
  | .min column =>
    .ok (chunkExtreme Int64.maxValue (chunks.foldl
      (addChunk column min Float64.min
        (fun slice => (ColumnChunk.minMaxI64Slice slice).map Prod.fst)
        (fun slice => (ColumnChunk.minMaxF64Slice slice).map Prod.fst))
      (.start Int64.maxValue Float64.infinity)))
  | .max column =>
    .ok (chunkExtreme Int64.minValue (chunks.foldl
      (addChunk column max Float64.max
        (fun slice => (ColumnChunk.minMaxI64Slice slice).map Prod.snd)
        (fun slice => (ColumnChunk.minMaxF64Slice slice).map Prod.snd))
      (.start Int64.minValue Float64.negInfinity)))

end Chunks

section Cells

/-- One cell of a column for each row, Null when the row is short: what a chunk stores. -/
def columnCells (rows : List (Row F)) (idx : Nat) : List (Value F) :=
  rows.map (fun r => (r.get idx).getD .null)

def columnInts (rows : List (Row F)) (idx : Nat) : List Int64 :=
  (columnCells rows idx).filterMap int64Of

def columnFloats (rows : List (Row F)) (idx : Nat) : List F :=
  (columnCells rows idx).filterMap float64Of

/-- A numeric value as AVG over rows reads it. -/
def numberOf [Float64 F] : Value F → Option F
  | .int64 x => some (Float64.ofInt x.toInt)
  | .float64 x => some x
  | _ => none

def columnNumbers [Float64 F] (rows : List (Row F)) (idx : Nat) : List F :=
  (columnCells rows idx).filterMap numberOf

/-- A loop that skips Null does not see whether a row is short. -/
theorem filterMap_columnValues {β : Type} {pick : Value F → Option β}
    (skipsNull : pick .null = none) (rows : List (Row F)) (idx : Nat) :
    (columnValues rows idx).filterMap pick = (columnCells rows idx).filterMap pick := by
  rw [columnValues, columnCells, List.filterMap_filterMap, List.filterMap_map]
  refine List.filterMap_congr (fun r _ => ?_)
  cases h : r.get idx <;> simp [h, skipsNull]

theorem length_present (rows : List (Row F)) (idx : Nat) :
    ((columnValues rows idx).filter (fun v => !v.isNull)).length =
      ColumnChunk.countNonNullSlice (columnCells rows idx) := by
  rw [ColumnChunk.countNonNullSlice, ← List.filterMap_eq_filter, filterMap_columnValues rfl]

theorem foldl_add (opI : Int64 → Int64 → Int64) (opF : F → F → F) (vs : List (Value F))
    (acc : Totals F) :
    vs.foldl (Totals.add opI opF) acc =
      ⟨(vs.filterMap int64Of).foldl opI acc.int, (vs.filterMap float64Of).foldl opF acc.float,
        acc.hasInt || !(vs.filterMap int64Of).isEmpty,
        acc.hasFloat || !(vs.filterMap float64Of).isEmpty⟩ := by
  induction vs generalizing acc with
  | nil => simp
  | cons v vs ih =>
    rw [List.foldl_cons, ih]
    cases v <;>
      simp [Totals.add, Totals.addInt, Totals.addFloat, int64Of, float64Of, List.filterMap_cons]

/-- The row loop of SUM, MIN and MAX: integers and floats are folded apart. -/
theorem foldl_columnValues (opI : Int64 → Int64 → Int64) (opF : F → F → F)
    (rows : List (Row F)) (idx : Nat) (int : Int64) (float : F) :
    (columnValues rows idx).foldl (Totals.add opI opF) (.start int float) =
      ⟨(columnInts rows idx).foldl opI int, (columnFloats rows idx).foldl opF float,
        !(columnInts rows idx).isEmpty, !(columnFloats rows idx).isEmpty⟩ := by
  rw [foldl_add, filterMap_columnValues rfl, filterMap_columnValues rfl]
  rfl

/-- The row loop of AVG sees the numbers only. -/
theorem foldl_addNumber [Float64 F] (vs : List (Value F)) (acc : F × Nat) :
    vs.foldl addNumber acc =
      ((vs.filterMap numberOf).foldl Float64.add acc.1,
        acc.2 + (vs.filterMap numberOf).length) := by
  induction vs generalizing acc with
  | nil => simp
  | cons v vs ih =>
    rw [List.foldl_cons, ih]
    cases v <;>
      simp [addNumber, numberOf, List.filterMap_cons, Nat.add_assoc, Nat.add_comm 1]

/-- The two denominators of AVG coincide when every value is a number or Null. -/
theorem length_numbers [Float64 F] (vs : List (Value F)) :
    (vs.filterMap numberOf).length ≤ ColumnChunk.countNonNullSlice vs ∧
      ((vs.filterMap numberOf).length = ColumnChunk.countNonNullSlice vs ↔
        ∀ v ∈ vs, v.isNull = true ∨ (numberOf v).isSome = true) := by
  induction vs with
  | nil => simp [ColumnChunk.countNonNullSlice]
  | cons v vs ih =>
    obtain ⟨le, eq_iff⟩ := ih
    rw [List.forall_mem_cons, ← eq_iff, ColumnChunk.countNonNullSlice_cons]
    cases v <;> simp [List.filterMap_cons, numberOf, Value.isNull, le] <;> omega

theorem length_columnNumbers [Float64 F] (rows : List (Row F)) (idx : Nat) :
    (columnNumbers rows idx).length ≤ ColumnChunk.countNonNullSlice (columnCells rows idx) ∧
      ((columnNumbers rows idx).length =
        ColumnChunk.countNonNullSlice (columnCells rows idx) ↔
        ∀ v ∈ columnCells rows idx, v.isNull = true ∨ (numberOf v).isSome = true) :=
  length_numbers _

end Cells

section Slices

/-- What the chunks hold under a column name, chunk by chunk. -/
abbrev Shows (column : String) : List (ColumnarChunk F) → List (List (Value F)) → Prop :=
  List.Forall₂ (fun ch slice => ch.column column = some slice)

variable {column : String} {chunks : List (ColumnarChunk F)} {slices : List (List (Value F))}

theorem shows_mem (shown : Shows column chunks slices) {slice : List (Value F)}
    (member : slice ∈ slices) : ∃ ch ∈ chunks, ch.column column = some slice := by
  induction shown with
  | nil => cases member
  | @cons ch _ _ _ head _ ih =>
    rcases List.mem_cons.mp member with rfl | later
    · exact ⟨ch, List.mem_cons_self, head⟩
    · obtain ⟨found, inside, holds⟩ := ih later
      exact ⟨found, List.mem_cons_of_mem _ inside, holds⟩

theorem foldl_addChunk (opI : Int64 → Int64 → Int64) (opF : F → F → F)
    (ints : List (Value F) → Option Int64) (floats : List (Value F) → Option F)
    (shown : Shows column chunks slices) (acc : Totals F) :
    chunks.foldl (addChunk column opI opF ints floats) acc =
      ⟨slices.foldl (fun a slice => ((ints slice).map (opI a)).getD a) acc.int,
        slices.foldl (fun a slice => ((floats slice).map (opF a)).getD a) acc.float,
        acc.hasInt || slices.any (fun slice => (ints slice).isSome),
        acc.hasFloat || slices.any (fun slice => (floats slice).isSome)⟩ := by
  induction shown generalizing acc with
  | nil => simp
  | @cons ch slice chunks slices head _ ih =>
    rw [List.foldl_cons, ih, addChunk, head]
    cases hi : ints slice <;> cases hf : floats slice <;>
      simp [hi, hf, Totals.addInt, Totals.addFloat]

theorem foldl_countChunk (shown : Shows column chunks slices) (n : Nat) :
    chunks.foldl (countChunk column) n = n + ColumnChunk.countNonNullSlice slices.flatten := by
  induction shown generalizing n with
  | nil => rfl
  | cons head _ ih =>
    rw [List.foldl_cons, ih, countChunk, head]
    simp [ColumnChunk.countNonNullSlice, Nat.add_assoc]

/-- The chunk loop of SUM and AVG: integers and floats are folded apart, slice by slice. -/
theorem chunkSums_eq [Float64 F] (shown : Shows column chunks slices) :
    chunkSums chunks column =
      ⟨slices.foldl (fun a slice =>
          ((foldSome int64Of saturatingAdd 0 slice).map (saturatingAdd a)).getD a) 0,
        slices.foldl (fun a slice =>
          ((foldSome float64Of Float64.add Float64.zero slice).map (Float64.add a)).getD a)
          Float64.zero,
        !(slices.flatten.filterMap int64Of).isEmpty,
        !(slices.flatten.filterMap float64Of).isEmpty⟩ := by
  rw [chunkSums, foldl_addChunk _ _ _ _ shown]
  simp only [ColumnChunk.sumI64Slice, ColumnChunk.sumF64Slice, any_isSome_foldSome]
  rfl

/-- One chunk sum is the sum of the column, clamped or not. -/
theorem chunkSums_int_single [Float64 F] (shown : Shows column chunks slices)
    (single : chunks.length ≤ 1) :
    (chunkSums chunks column).int = (slices.flatten.filterMap int64Of).foldl saturatingAdd 0 := by
  rw [chunkSums_eq shown]
  refine foldl_parts _ _ _ _ _ _ (fun before part inside _ => ?_)
  have short := inside.length_le
  rw [List.length_append, List.length_singleton, ← shown.length_eq] at short
  obtain rfl : before = [] := List.length_eq_zero_iff.mp (by omega)
  exact zero_saturatingAdd _

/-- Chunk sums that are nowhere clamped, nor in the whole column, add up to its sum. -/
theorem chunkSums_int [Float64 F] (shown : Shows column chunks slices)
    (alone : ∀ slice ∈ slices, PrefixesFit 0 (slice.filterMap int64Of))
    (whole : PrefixesFit 0 (slices.flatten.filterMap int64Of)) :
    (chunkSums chunks column).int = (slices.flatten.filterMap int64Of).foldl saturatingAdd 0 := by
  rw [chunkSums_eq shown]
  refine foldl_parts _ _ _ _ _ _ (fun before part inside _ => ?_)
  obtain ⟨rest, picked⟩ := picked_of_prefix int64Of inside
  rw [picked, List.append_assoc] at whole
  obtain ⟨fitBefore, fitRest⟩ := prefixesFit_append.mp whole
  have fitPart := (prefixesFit_append.mp fitRest).1
  have listed : part ∈ slices :=
    inside.subset (List.mem_append_right _ (List.mem_singleton_self part))
  refine saturatingAdd_partial (alone part listed) ?_
  rw [toInt_foldl_saturatingAdd 0 fitBefore]
  exact fitPart

end Slices

end Aggregates
