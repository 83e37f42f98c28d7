import RustafariDB.BucketSorts
import RustafariDB.PlanEffects

/-!
# A database of named tables

What the executor is for, without ids, indexes and maps: a name has a table or none, and a
table is a list of rows in the order they came, with a columnar copy cut into chunks. An
index is no more than the promise that ids are looked up by key. Nothing here is
translated from the source but the operators on lists of rows, which are those of the
executor.
-/

namespace NamedTables

open Catalogs Values ColumnarStorage BTreeIndexing BucketSorts Plans Floats Sessions
open Predicates Aggregates Execution PlanEffects

/-- A table. The columnar copy has chunks of bounded size and a buffer that is never full. -/
structure Table (F : Type) where
  columns : List Column
  indexed : Bool
  rows : List (Row F)
  chunks : List (List (Row F))
  buffer : List (Row F)
  sizes : ∀ part ∈ chunks, 1 ≤ part.length ∧ part.length ≤ columnarChunkSize
  room : buffer.length < columnarChunkSize

/-- The namespaces that were ever created in, and the tables by namespace and name. -/
@[ext]
structure Database (F : Type) where
  namespaces : Set String
  tables : String → String → Option (Table F)

variable {F : Type}

namespace Table

theorem room_empty : ([] : List (Row F)).length < columnarChunkSize := Nat.zero_lt_succ _

def schema (t : Table F) : Schema := .new t.columns

/-- A table of some columns without rows. -/
def empty (columns : List Column) (indexed : Bool) : Table F where
  columns := columns
  indexed := indexed
  rows := []
  chunks := []
  buffer := []
  sizes := nofun
  room := room_empty

/-- The table CREATE TABLE makes: a column named id is indexed. -/
def created (columns : List (String × ColumnType)) : Table F :=
  let columns := columns.map (fun c => (⟨c.1, c.2, true⟩ : Column))
  .empty columns ((Schema.new columns).columnIndex "id").isSome

/-- Close the buffer into a chunk, if it holds anything. -/
def flush (t : Table F) : Table F :=
  if some_row : t.buffer = [] then t
  else { t with
    chunks := t.chunks ++ [t.buffer]
    buffer := []
    sizes := by
      intro part inside
      rcases List.mem_append.mp inside with old | new
      · exact t.sizes part old
      · rw [List.mem_singleton.mp new]
        exact ⟨List.length_pos_iff.mpr some_row, Nat.le_of_lt t.room⟩
    room := room_empty }

/-- Add a row to the rows only. -/
def strand (t : Table F) (row : Row F) : Table F := { t with rows := t.rows ++ [row] }

/-- Add a row to the rows and to the columnar copy. -/
def push (t : Table F) (row : Row F) : Table F :=
  if fits : (t.buffer ++ [row]).length < columnarChunkSize then
    { t with rows := t.rows ++ [row], buffer := t.buffer ++ [row], room := fits }
  else { t with
    rows := t.rows ++ [row]
    chunks := t.chunks ++ [t.buffer ++ [row]]
    buffer := []
    sizes := by
      intro part inside
      rcases List.mem_append.mp inside with old | new
      · exact t.sizes part old
      · have bound := t.room
        rw [List.mem_singleton.mp new, List.length_append, List.length_singleton]
        omega
    room := room_empty }

@[simp] theorem schema_flush (t : Table F) : t.flush.schema = t.schema := by
  rw [flush]
  split <;> rfl

@[simp] theorem rows_flush (t : Table F) : t.flush.rows = t.rows := by
  rw [flush]
  split <;> rfl

@[simp] theorem indexed_flush (t : Table F) : t.flush.indexed = t.indexed := by
  rw [flush]
  split <;> rfl

@[simp] theorem buffer_flush (t : Table F) : t.flush.buffer = [] := by
  rw [flush]
  split
  · assumption
  · rfl

theorem chunks_flush (t : Table F) :
    t.flush.chunks = if t.buffer = [] then t.chunks else t.chunks ++ [t.buffer] := by
  rw [flush]
  split <;> rfl

@[simp] theorem schema_push (t : Table F) (row : Row F) : (t.push row).schema = t.schema := by
  rw [push]
  split <;> rfl

@[simp] theorem rows_push (t : Table F) (row : Row F) : (t.push row).rows = t.rows ++ [row] := by
  rw [push]
  split <;> rfl

@[simp] theorem indexed_push (t : Table F) (row : Row F) : (t.push row).indexed = t.indexed := by
  rw [push]
  split <;> rfl

theorem columnar_push (t : Table F) (row : Row F) :
    (t.push row).chunks =
        (if (t.buffer ++ [row]).length < columnarChunkSize then t.chunks
          else t.chunks ++ [t.buffer ++ [row]]) ∧
      (t.push row).buffer =
        if (t.buffer ++ [row]).length < columnarChunkSize then t.buffer ++ [row] else [] := by
  rw [push]
  split <;> exact ⟨rfl, rfl⟩

variable [Float64 F]

/-- The key of a row, when it has an id that has one. -/
def key (t : Table F) (row : Row F) : Option IndexKey :=
  (t.schema.columnIndex "id").bind (fun i => idKey i row)

/-- Why an indexed table does not take a row: its id has no key. -/
def refuses (t : Table F) (row : Row F) : Option RustafariError :=
  if t.indexed then
    match ((t.schema.columnIndex "id").bind row.get).map IndexKey.fromValue with
    | some (.error e) => some e
    | _ => none
  else none

/-- Rows are added up to the first that is refused, which is left among the rows. -/
def insert : List (List (Value F)) → Table F → Option RustafariError × Table F
  | [], t => (none, t)
  | vals :: rest, t =>
    match t.refuses (.new vals) with
    | some e => (some e, t.strand (.new vals))
    | none => insert rest (t.push (.new vals))

/-- The rows a lookup finds: those with the key, or those with a key in the range, by key. -/
def find (t : Table F) : IdLookup F → Except Stop (List (Row F))
  | .point v => do
    let k ← (IndexKey.fromValue v).mapError Stop.error
    return t.rows.filter (fun row => t.key row = some k)
  | .rangeInclusive v1 v2 => do
    let k1 ← (IndexKey.fromValue v1).mapError Stop.error
    let k2 ← (IndexKey.fromValue v2).mapError Stop.error
    if compare k1 k2 = .gt then throw Stop.panicked
    return (t.rows.filter (fun row => (t.key row).any (BTreeIndex.inKeyRange k1 k2))).insertionSort
      (KeyLE t.key)

/-- The lookup that answers a filter on an indexed table, if there is one. -/
def lookup (t : Table F) (input : PlanNode F) (predicate : FilterExpr F) : Option (IdLookup F) :=
  match input with
  | .scan _ _ => if t.indexed then predicateToIdLookup predicate "id" else none
  | _ => none

/-- The columnar copy in chunks, all under one number. -/
def columnar (t : Table F) : List (ColumnarChunk F) :=
  t.chunks.map (fun part => .new 0 (columnChunks t.schema part))

/-- An aggregate of the columnar copy, or of the given rows when no chunk exists. -/
def aggregate (t : Table F) (rows : Except Stop (List (Row F))) (agg : AggExpr) :
    Except Stop (Value F) :=
  if t.chunks = [] then
    rows >>= fun rows => (aggregateOverRowSlice rows t.schema agg).mapError Stop.error
  else (aggregateOverChunks t.columnar t.schema agg).mapError Stop.error

/-- What a query over the table returns. -/
def answer [ValueDebug F] : PlanNode F → Table F → Except Stop (List (Row F))
  | .scan _ _, t => .ok t.rows
  | .filter input predicate, t =>
    match t.lookup input predicate with
    | some found => t.find found
    | none => (answer input t).map (List.filter (fun row => evalPredicate row predicate t.schema))
  | .project input columns, t => (answer input t).map (List.map (projectRow t.schema columns))
  | .limit input limit offset, t => (answer input t).map (limitRows limit offset)
  | .aggregate input aggs, t =>
    (aggs.mapM (t.flush.aggregate (answer input t.flush))).map (fun values => [.new values])
  | .groupBy input groupBy aggs, t =>
    answer input t >>= fun rows => (groupRows t.schema groupBy aggs rows).mapError Stop.error
  | .orderBy input columns, t =>
    answer input t >>= fun rows => (orderRows t.schema columns rows).mapError Stop.error
  | _, _ => .error (.error
      (.execution "expected scan under filter/project/aggregate/groupby/orderby"))

def describe (t : Table F) : List (Row F) :=
  t.columns.map (fun col => .new [.string col.name, .string (columnTypeName col.dataType),
    .string (if col.nullable then "YES" else "NO")])

end Table

section Plans

/-- The name a plan is about. -/
def subject : PlanNode F → Option String × String
  | .scan table ns => (ns, table)
  | .filter input _ => subject input
  | .project input _ => subject input
  | .limit input _ _ => subject input
  | .aggregate input _ => subject input
  | .groupBy input _ _ => subject input
  | .orderBy input _ => subject input
  | .insert table ns _ _ => (ns, table)
  | .createTable table ns _ => (ns, table)
  | .dropTable table ns => (ns, table)
  | .describeTable table ns => (ns, table)

/-- The query computes an aggregate of the columnar copy. -/
def aggregates : PlanNode F → Bool
  | .aggregate _ _ => true
  | .filter input _ => aggregates input
  | .project input _ => aggregates input
  | .limit input _ _ => aggregates input
  | .groupBy input _ _ => aggregates input
  | .orderBy input _ => aggregates input
  | _ => false

def creates : PlanNode F → Bool
  | .createTable _ _ _ => true
  | _ => false

end Plans

section Statements

def unknown (name : Option String × String) : Stop :=
  .error (.tableNotFound (name.1.getD "public" ++ "." ++ name.2))

/-- What a statement answers, and what it leaves under its name. -/
def act [Float64 F] [ValueDebug F] (p : PlanNode F) (entry : Option (Table F)) :
    Except Stop (ExecutionResult F) × Option (Table F) :=
  match p, entry with
  | .createTable _ _ columns, _ => (.ok (.rowsAffected 0), some (.created columns))
  | p, none => (.error (unknown (subject p)), none)
  | .dropTable _ _, some _ => (.ok (.rowsAffected 0), none)
  | .describeTable _ _, some t => (.ok (.rows t.describe), some t)
  | .insert _ _ _ values, some t =>
    (match (t.insert values).1 with
      | some e => .error (.error e)
      | none => .ok (.rowsAffected values.length),
      some (t.insert values).2)
  | p, some t => ((t.answer p).map .rows, some (if aggregates p then t.flush else t))

end Statements

namespace Database

def empty : Database F := ⟨∅, fun _ _ => none⟩

/-- Give a name a table, or none. -/
def set (d : Database F) (ns table : String) (entry : Option (Table F)) : Database F :=
  { d with tables := fun ns' table' =>
      if ns = ns' ∧ table = table' then entry else d.tables ns' table' }

theorem tables_set (d : Database F) (ns table : String) (entry : Option (Table F))
    (ns' table' : String) : (d.set ns table entry).tables ns' table' =
      if ns = ns' ∧ table = table' then entry else d.tables ns' table' := rfl

theorem set_of_tables {d : Database F} {ns table : String} {entry : Option (Table F)}
    (found : d.tables ns table = entry) : d.set ns table entry = d := by
  refine Database.ext rfl ?_
  funext ns' table'
  rw [tables_set]
  split
  · rename_i own
    rw [← own.1, ← own.2, found]
  · rfl

theorem set_set (d : Database F) (ns table : String) (entry entry' : Option (Table F)) :
    (d.set ns table entry).set ns table entry' = d.set ns table entry' := by
  refine Database.ext rfl ?_
  funext ns' table'
  rw [tables_set, tables_set, tables_set]
  split <;> rfl

/-- The answer to a statement and the database after it. -/
def execute [Float64 F] [ValueDebug F] (p : PlanNode F) (d : Database F) :
    Except Stop (ExecutionResult F) × Database F :=
  let ns := (subject p).1.getD "public"
  let (answer, entry) := act p (d.tables ns (subject p).2)
  (answer, { d.set ns (subject p).2 entry with
    namespaces := if creates p then Insert.insert ns d.namespaces else d.namespaces })

end Database

end NamedTables
