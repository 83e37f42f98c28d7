import RustafariDB.Execution
import RustafariDB.Interleavings

/-!
# Statements by lock section

The sessions of a server share one `SessionState` and hold its locks for single sections only.
Here a statement is the sequence of its sections and a pool of statements interleaves them.
A statement that is not interrupted does what `execute_plan` does as a whole.

An index object is named by its table. The entry of a table is filled once, by the statement
that created it, so the object a statement holds is the one filed there, unless a drop has
removed it since; then no lookup reaches it either, and filing in it does nothing here.

The row counter is an atomic number outside the lock of the rows. `insertRow` joins its step
with the write of the row, so rows come into the store in the order of their ids;
`CollectionCalls` keeps the two apart.
-/

namespace LockSections

open Catalogs Values RowStorage ColumnarStorage BTreeIndexing Plans Floats Sessions
open Predicates Aggregates StatefulPrograms Interleavings
open Execution (Stop ExecutionResult executePlan)

/-- What statements do under a lock, in one piece. -/
inductive LockSection (F : Type) where
  | tableMeta (ns : Option String) (table : String)
  | insertRow (tableId : Nat) (row : Row F)
  | getRow (tableId rowId : Nat)
  | scanRows (tableId : Nat)
  | dropRows (tableId : Nat)
  | getIndex (tableId : Nat)
  | indexInsert (tableId : Nat) (key : IndexKey) (rowId : Nat)
  | indexGet (tableId : Nat) (key : IndexKey)
  | indexRange (tableId : Nat) (start stop : IndexKey)
  | createIndex (tableId : Nat)
  | dropIndexes (tableId : Nat)
  | pushRow (tableId : Nat) (row : Row F)
  | takeBuffer (tableId : Nat)
  | nextChunkId
  | insertChunk (tableId : Nat) (chunk : ColumnarChunk F)
  | chunks (tableId : Nat)
  | dropChunks (tableId : Nat)
  | createTable (ns : Option String) (table : String) (schema : Schema)
  | dropName (ns : Option String) (table : String)

variable {F : Type}

/-- What a statement learns in a section. An index range is `none` where it panics. -/
abbrev Answer : LockSection F → Type
  | .tableMeta _ _ => Option TableMeta
  | .insertRow _ _ => Nat
  | .getRow _ _ => Option (Row F)
  | .scanRows _ => List (Nat × Row F)
  | .getIndex _ => Bool
  | .indexGet _ _ => List Nat
  | .indexRange _ _ _ => Option (List Nat)
  | .pushRow _ _ => Option (List (Row F))
  | .takeBuffer _ => Option (List (Row F))
  | .nextChunkId => Nat
  | .chunks _ => List (ColumnarChunk F)
  | .createTable _ _ _ => TableMeta
  | _ => Unit

/-- The index object of a table as a statement sees it. -/
def heldIndex (s : SessionState F) (tableId : Nat) : BTreeIndex :=
  (s.getIndex tableId "id").getD .new

def withIndexed (s : SessionState F) (tableId : Nat) (key : IndexKey) (rowId : Nat) :
    SessionState F :=
  match s.getIndex tableId "id" with
  | some index =>
    { s with indexStore := s.indexStore.insert (tableId, "id") (index.insert key rowId) }
  | none => s

def withBuffer (s : SessionState F) (tableId : Nat) (rows : List (Row F)) : SessionState F :=
  { s with columnarBuffer := s.columnarBuffer.insert tableId rows }

/-- One section on the shared state. -/
def act : (op : LockSection F) → SessionState F → Answer op × SessionState F
  | .tableMeta ns table, s => (s.tableMeta ns table, s)
  | .insertRow t row, s =>
    ((s.rowStore.insert t row).1, { s with rowStore := (s.rowStore.insert t row).2 })
  | .getRow t rowId, s => (s.rowStore.get t rowId, s)
  | .scanRows t, s => (s.rowStore.scan t, s)
  | .dropRows t, s => ((), { s with rowStore := s.rowStore.dropTable t })
  | .getIndex t, s => ((s.getIndex t "id").isSome, s)
  | .indexInsert t key rowId, s => ((), withIndexed s t key rowId)
  | .indexGet t key, s => ((heldIndex s t).get key, s)
  | .indexRange t start stop, s => ((heldIndex s t).range start (some stop), s)
  | .createIndex t, s => ((), { s with indexStore := s.indexStore.insert (t, "id") .new })
  | .dropIndexes t, s =>
    ((), { s with indexStore := s.indexStore.filter (fun key _ => key.1 != t) })
  | .pushRow t row, s =>
    if (s.buffered t ++ [row]).length < columnarChunkSize then
      (none, withBuffer s t (s.buffered t ++ [row]))
    else (some (s.buffered t ++ [row]), withBuffer s t [])
  | .takeBuffer t, s =>
    if 1 ≤ (s.buffered t).length then (some (s.buffered t), withBuffer s t []) else (none, s)
  | .nextChunkId, s =>
    (s.columnarStore.takeChunkId.1, { s with columnarStore := s.columnarStore.takeChunkId.2 })
  | .insertChunk t chunk, s =>
    ((), { s with columnarStore := s.columnarStore.insertChunk t chunk })
  | .chunks t, s => (s.columnarStore.chunksOf t, s)
  | .dropChunks t, s => ((), { s with columnarStore := s.columnarStore.dropTable t })
  | .createTable ns table schema, s =>
    ((s.catalog.createTable (ns.getD "public") table schema none).1,
      { s with catalog := (s.catalog.createTable (ns.getD "public") table schema none).2 })
  | .dropName ns table, s =>
    ((), { s with catalog := (s.catalog.dropTable (ns.getD "public") table).2 })

/-- The sections of a statement. -/
abbrev Task (F : Type) := @Program (LockSection F) Answer Stop

/-- Statements of any number of sessions on one shared state. -/
abbrev StatementPool (F : Type) :=
  @Pool (LockSection F) Answer (SessionState F) Stop (ExecutionResult F)

section Statements

abbrev locked (op : LockSection F) : Task F (Answer op) := Program.perform op

def orReturn {α : Type} (x : Except RustafariError α) : Task F α :=
  .done (x.mapError Stop.error)

def resolveTable (ns : Option String) (table : String) : Task F TableMeta := do
  match ← locked (.tableMeta ns table) with
  | some tm => pure tm
  | none => orReturn (.error (.tableNotFound (ns.getD "public" ++ "." ++ table)))

def scanMeta : PlanNode F → Task F TableMeta
  | .scan table ns => resolveTable ns table
  | .filter input _ => scanMeta input
  | .project input _ => scanMeta input
  | .limit input _ _ => scanMeta input
  | .aggregate input _ => scanMeta input
  | .groupBy input _ _ => scanMeta input
  | .orderBy input _ => scanMeta input
  | _ => orReturn (.error (.execution
      "expected scan under filter/project/aggregate/groupby/orderby"))

def expectRows (message : String) (sub : Task F (ExecutionResult F)) :
    Task F (List (Row F)) := do
  match ← sub with
  | .rows rows => pure rows
  | .rowsAffected _ => orReturn (.error (.execution message))

/-- The lookup that replaces a filtered scan when the table has an id index. -/
def indexLookup (input : PlanNode F) (predicate : FilterExpr F) : Option (IdLookup F) :=
  match input with
  | .scan _ _ => predicateToIdLookup predicate "id"
  | _ => none

/-- The catalog gets the table first, the index store its index second. -/
def createTable (ns : Option String) (table : String) (columns : List (String × ColumnType)) :
    Task F Unit := do
  let tm ← locked (.createTable ns table (Schema.new (columns.map (fun c => ⟨c.1, c.2, true⟩))))
  match tm.schema.columnIndex "id" with
  | some _ => locked (.createIndex tm.id)
  | none => pure ()

/-- The rows go first and the name last. -/
def dropTable (tm : TableMeta) (ns : Option String) (table : String) : Task F Unit := do
  locked (.dropRows tm.id)
  locked (.dropChunks tm.id)
  locked (.dropIndexes tm.id)
  locked (.dropName ns table)

/-- A taken batch becomes a chunk: its number first, then its place in the table. -/
def publish (tm : TableMeta) (rows : List (Row F)) : Task F Unit := do
  let chunkId ← locked .nextChunkId
  locked (.insertChunk tm.id (.new chunkId (columnChunks tm.schema rows)))

def publishTaken (tm : TableMeta) : Option (List (Row F)) → Task F Unit
  | some rows => publish tm rows
  | none => pure ()

def flushColumnarBuffer (tm : TableMeta) : Task F Unit := do
  let taken ← locked (.takeBuffer tm.id)
  publishTaken tm taken

def pushColumnarRow (tm : TableMeta) (row : Row F) : Task F Unit := do
  let taken ← locked (.pushRow tm.id row)
  publishTaken tm taken

variable [Float64 F]

def rangeAnswer : Option (List Nat) → Task F (List Nat)
  | some ids => pure ids
  | none => .done (.error Stop.panicked)

/-- The row ids a lookup finds, and then the rows one at a time. -/
def lookupIds (tableId : Nat) : IdLookup F → Task F (List Nat)
  | .point v => do
    let key ← orReturn (IndexKey.fromValue v)
    locked (.indexGet tableId key)
  | .rangeInclusive v1 v2 => do
    let start ← orReturn (IndexKey.fromValue v1)
    let stop ← orReturn (IndexKey.fromValue v2)
    let found ← locked (.indexRange tableId start stop)
    rangeAnswer found

def lookupRows (tableId : Nat) (lookup : IdLookup F) : Task F (List (Row F)) := do
  let rowIds ← lookupIds tableId lookup
  let rows ← rowIds.mapM (fun rowId => locked (.getRow tableId rowId))
  return rows.filterMap id

def filterRows (tm : TableMeta) (predicate : FilterExpr F) (sub : Task F (ExecutionResult F)) :
    Task F (List (Row F)) := do
  let rows ← expectRows "filter expects rows" sub
  return rows.filter (fun row => evalPredicate row predicate tm.schema)

/-- The rows of a filter, through the index where it applies and exists. -/
def selectRows (tm : TableMeta) (input : PlanNode F) (predicate : FilterExpr F)
    (sub : Task F (ExecutionResult F)) : Task F (List (Row F)) :=
  match indexLookup input predicate with
  | some lookup => do
    let found ← locked (.getIndex tm.id)
    if found then lookupRows tm.id lookup else filterRows tm predicate sub
  | none => filterRows tm predicate sub

def aggregateOverRows (tm : TableMeta) (sub : Task F (ExecutionResult F)) (agg : AggExpr) :
    Task F (Value F) := do
  let rows ← expectRows "aggregate input must yield rows" sub
  orReturn (aggregateOverRowSlice rows tm.schema agg)

/-- The index is looked up for every row, also where the table has no id column. -/
def indexRow (tm : TableMeta) (idCol : Option Nat) (row : Row F) (rowId : Nat) :
    Task F Unit := do
  let found ← locked (.getIndex tm.id)
  match idCol, found with
  | some idIdx, true =>
    match row.get idIdx with
    | some idVal => do
      let key ← orReturn (IndexKey.fromValue idVal)
      locked (.indexInsert tm.id key rowId)
    | none => pure ()
  | _, _ => pure ()

def insertRow (tm : TableMeta) (idCol : Option Nat) (rowVals : List (Value F)) :
    Task F Unit := do
  let rowId ← locked (.insertRow tm.id (.new rowVals))
  indexRow tm idCol (.new rowVals) rowId
  pushColumnarRow tm (.new rowVals)

def insertRows (tm : TableMeta) (idCol : Option Nat) :
    List (List (Value F)) → Nat → Task F Nat
  | [], count => pure count
  | rowVals :: rest, count => do
    insertRow tm idCol rowVals
    insertRows tm idCol rest (count + 1)

/-- `execute_plan`, one lock section after the other. -/
def statement [ValueDebug F] : PlanNode F → Task F (ExecutionResult F)
  | .scan table ns => do
    let tm ← resolveTable ns table
    let rows ← locked (.scanRows tm.id)
    return .rows (rows.map Prod.snd)
  | .filter input predicate => do
    let tm ← scanMeta input
    let rows ← selectRows tm input predicate (statement input)
    return .rows rows
  | .project input columns => do
    let rows ← expectRows "project expects rows" (statement input)
    let tm ← scanMeta input
    return .rows (rows.map (Execution.projectRow tm.schema columns))
  | .limit input limit offset => do
    let rows ← expectRows "limit expects rows" (statement input)
    return .rows (Execution.limitRows limit offset rows)
  | .aggregate input aggs => do
    let tm ← scanMeta input
    flushColumnarBuffer tm
    let chunks ← locked (.chunks tm.id)
    let values ← aggs.mapM (fun agg =>
      if chunks.isEmpty then aggregateOverRows tm (statement input) agg
      else orReturn (aggregateOverChunks chunks tm.schema agg))
    return .rows [.new values]
  | .groupBy input groupBy aggs => do
    let rows ← expectRows "GROUP BY input must yield rows" (statement input)
    let tm ← scanMeta input
    let grouped ← orReturn (Execution.groupRows tm.schema groupBy aggs rows)
    return .rows grouped
  | .orderBy input columns => do
    let rows ← expectRows "ORDER BY input must yield rows" (statement input)
    let tm ← scanMeta input
    let sorted ← orReturn (Execution.orderRows tm.schema columns rows)
    return .rows sorted
  | .insert table ns _ values => do
    let tm ← resolveTable ns table
    let count ← insertRows tm (tm.schema.columnIndex "id") values 0
    return .rowsAffected count
  | .createTable table ns columns => do
    createTable ns table columns
    return .rowsAffected 0
  | .dropTable table ns => do
    let tm ← resolveTable ns table
    dropTable tm ns table
    return .rowsAffected 0
  | .describeTable table ns => do
    let tm ← resolveTable ns table
    return .rows (Execution.describeRows tm)

end Statements

section Sections

variable {s : SessionState F} {t : Nat}

theorem act_takeBuffer_empty (empty : s.buffered t = []) :
    act (.takeBuffer t) s = (none, s) := by
  simp only [act, empty]
  rfl

theorem act_takeBuffer (nonempty : s.buffered t ≠ []) :
    act (.takeBuffer t) s = (some (s.buffered t), withBuffer s t []) := by
  exact if_pos (List.length_pos_iff.mpr nonempty)

theorem act_pushRow_room {row : Row F}
    (room : (s.buffered t ++ [row]).length < columnarChunkSize) :
    act (.pushRow t row) s = (none, withBuffer s t (s.buffered t ++ [row])) := by
  exact if_pos room

theorem act_pushRow_full {row : Row F}
    (full : ¬ (s.buffered t ++ [row]).length < columnarChunkSize) :
    act (.pushRow t row) s = (some (s.buffered t ++ [row]), withBuffer s t []) := by
  exact if_neg full

@[simp] theorem buffered_withBuffer (s : SessionState F) (t : Nat) (rows : List (Row F)) :
    (withBuffer s t rows).buffered t = rows := by
  rw [SessionState.buffered, withBuffer, Std.ExtTreeMap.getElem?_insert_self, Option.getD_some]

theorem chunksOf_insertChunk (s : SessionState F) (t : Nat) (chunk : ColumnarChunk F) :
    (act (.insertChunk t chunk) s).2.columnarStore.chunksOf t =
      s.columnarStore.chunksOf t ++ [chunk] :=
  (ColumnarStore.chunksOf_insertChunk t t chunk).trans (if_pos rfl)

end Sections

section Alone

variable {s : SessionState F} {tm : TableMeta}

theorem alone_resolveTable (ns : Option String) (table : String) (s : SessionState F) :
    Program.alone act (resolveTable ns table) s =
      Execution.orReturn (Execution.resolveTable s ns table) s := by
  rw [resolveTable, Execution.resolveTable]
  have answer : act (.tableMeta ns table) s = (s.tableMeta ns table, s) := rfl
  cases found : s.tableMeta ns table with
  | none =>
    rw [found] at answer
    exact Program.alone_perform_bind answer _
  | some tm =>
    rw [found] at answer
    exact Program.alone_perform_bind answer _

theorem alone_scanMeta (p : PlanNode F) (s : SessionState F) :
    Program.alone act (scanMeta p) s = Execution.orReturn (Execution.scanMeta s p) s := by
  induction p with
  | scan table ns => exact alone_resolveTable ns table s
  | filter input predicate ih => exact ih
  | project input columns ih => exact ih
  | limit input limit offset ih => exact ih
  | aggregate input aggs ih => exact ih
  | groupBy input groupBy aggs ih => exact ih
  | orderBy input columns ih => exact ih
  | _ => rfl

theorem alone_expectRows (message : String) (sub : Task F (ExecutionResult F)) :
    Program.alone act (expectRows message sub) =
      Execution.expectRows message (Program.alone act sub) := by
  rw [expectRows, Program.alone_bind, Execution.expectRows]
  refine congrArg (Program.alone act sub >>= ·) (funext (fun result => ?_))
  cases result with
  | rows rows => rfl
  | rowsAffected count => rfl

theorem alone_flushColumnarBuffer (tm : TableMeta) (s : SessionState F) :
    Program.alone act (flushColumnarBuffer tm) s =
      .ok () (s.flushColumnarBuffer tm.id tm.schema) := by
  rw [flushColumnarBuffer, SessionState.flushColumnarBuffer_eq]
  by_cases empty : s.buffered tm.id = []
  · rw [if_pos empty, Program.alone_perform_bind (act_takeBuffer_empty empty)]
    rfl
  · rw [if_neg empty, Program.alone_perform_bind (act_takeBuffer empty)]
    rfl

theorem alone_pushColumnarRow (tm : TableMeta) (row : Row F) (s : SessionState F) :
    Program.alone act (pushColumnarRow tm row) s =
      .ok () (s.pushColumnarRow tm.id row tm.schema) := by
  rw [pushColumnarRow, SessionState.pushColumnarRow]
  by_cases room : (s.buffered tm.id ++ [row]).length < columnarChunkSize
  · rw [Program.alone_perform_bind (act_pushRow_room room)]
    simp only [if_pos room]
    rfl
  · rw [Program.alone_perform_bind (act_pushRow_full room)]
    simp only [if_neg room]
    rfl

theorem alone_getRows (t : Nat) (rowIds : List Nat) (s : SessionState F) :
    Program.alone act (rowIds.mapM (fun rowId => locked (.getRow t rowId))) s =
      .ok (rowIds.map (s.rowStore.get t)) s := by
  rw [Program.alone_mapM]
  refine (mapM_run_eq_ok (fun rowId s => rfl)).mpr ⟨?_, rfl⟩
  exact List.forall₂_map_right_iff.mpr (List.forall₂_same.mpr (fun rowId _ => rfl))

variable [Float64 F]

theorem alone_lookupIds {index : BTreeIndex} (held : s.getIndex tm.id "id" = some index)
    (lookup : IdLookup F) :
    Program.alone act (lookupIds tm.id lookup) s =
      runExcept (Execution.lookupIds index lookup) s := by
  have filed : heldIndex s tm.id = index := by rw [heldIndex, held, Option.getD_some]
  cases lookup with
  | point v =>
    rw [lookupIds, Program.alone_bind, Execution.lookupIds]
    cases IndexKey.fromValue v with
    | error e => rfl
    | ok key =>
      change EStateM.Result.ok ((heldIndex s tm.id).get key) s = _
      rw [filed]
      rfl
  | rangeInclusive v1 v2 =>
    rw [lookupIds, Program.alone_bind, Execution.lookupIds]
    cases IndexKey.fromValue v1 with
    | error e => rfl
    | ok start =>
      cases IndexKey.fromValue v2 with
      | error e => rfl
      | ok stop =>
        have answer : act (.indexRange tm.id start stop) s =
            (index.range start (some stop), s) := by rw [← filed]; rfl
        change Program.alone act (locked (.indexRange tm.id start stop) >>= rangeAnswer) s = _
        cases found : index.range start (some stop) with
        | none =>
          rw [found] at answer
          rw [Program.alone_perform_bind answer]
          simp only [Except.mapError, ok_bind, found]
          rfl
        | some ids =>
          rw [found] at answer
          rw [Program.alone_perform_bind answer]
          simp only [Except.mapError, ok_bind, found]
          rfl

theorem alone_lookupRows {index : BTreeIndex} (held : s.getIndex tm.id "id" = some index)
    (lookup : IdLookup F) :
    Program.alone act (lookupRows tm.id lookup) s =
      (runExcept (Execution.lookupIds index lookup) >>= fun rowIds =>
        pure (rowIds.filterMap (s.rowStore.get tm.id))) s := by
  rw [lookupRows, Program.alone_bind, bind_run, bind_run, alone_lookupIds held]
  cases Execution.lookupIds index lookup with
  | error e => rfl
  | ok rowIds =>
    change Program.alone act (rowIds.mapM (fun rowId => locked (.getRow tm.id rowId)) >>= _) s = _
    rw [Program.alone_bind, bind_run, alone_getRows]
    change EStateM.Result.ok ((rowIds.map (s.rowStore.get tm.id)).filterMap id) s = _
    rw [List.filterMap_map]
    rfl

theorem alone_filterRows (predicate : FilterExpr F) (sub : Task F (ExecutionResult F)) :
    Program.alone act (filterRows tm predicate sub) =
      (do let rows ← Execution.expectRows "filter expects rows" (Program.alone act sub)
          return rows.filter (fun row => evalPredicate row predicate tm.schema)) := by
  rw [filterRows, Program.alone_bind, alone_expectRows]
  rfl

theorem alone_aggregateOverRows (sub : Task F (ExecutionResult F)) (agg : AggExpr) :
    Program.alone act (aggregateOverRows tm sub agg) =
      Execution.aggregateOverRows tm (Program.alone act sub) agg := by
  rw [aggregateOverRows, Program.alone_bind, alone_expectRows]
  rfl

theorem alone_indexRow (tm : TableMeta) (idCol : Option Nat) (row : Row F) (rowId : Nat)
    (s : SessionState F) :
    Program.alone act (indexRow tm idCol row rowId) s =
      Execution.indexRow tm idCol row rowId s := by
  have answer : act (.getIndex tm.id) s = ((s.getIndex tm.id "id").isSome, s) := rfl
  rw [indexRow, Execution.indexRow, bind_run, get_run]
  cases idCol with
  | none => rfl
  | some idIdx =>
    cases held : s.getIndex tm.id "id" with
    | none =>
      rw [held] at answer
      refine (Program.alone_perform_bind answer _).trans ?_
      simp only [Option.isSome_none, held]
      rfl
    | some index =>
      rw [held] at answer
      refine (Program.alone_perform_bind answer _).trans ?_
      simp only [Option.isSome_some, held]
      cases row.get idIdx with
      | none => rfl
      | some idVal =>
        simp only [Program.alone_bind, bind_run]
        cases IndexKey.fromValue idVal with
        | error e => rfl
        | ok key =>
          have filed : act (.indexInsert tm.id key rowId) s = ((), { s with
              indexStore := s.indexStore.insert (tm.id, "id") (index.insert key rowId) }) := by
            simp only [act, withIndexed, held]
          change EStateM.Result.ok (act (.indexInsert tm.id key rowId) s).1
            (act (.indexInsert tm.id key rowId) s).2 = _
          rw [filed]
          rfl

theorem alone_insertRow (tm : TableMeta) (idCol : Option Nat) (rowVals : List (Value F))
    (s : SessionState F) :
    Program.alone act (insertRow tm idCol rowVals) s =
      Execution.insertRow tm idCol rowVals s := by
  have stored : act (.insertRow tm.id (.new rowVals)) s =
      (s.rowStore.nextRowId, { s with rowStore := (s.rowStore.insert tm.id (.new rowVals)).2 }) :=
    rfl
  have body : Execution.insertRow tm idCol rowVals s =
      (Execution.indexRow tm idCol (.new rowVals) s.rowStore.nextRowId >>= fun _ =>
        modify (fun s => s.pushColumnarRow tm.id (.new rowVals) tm.schema))
        { s with rowStore := (s.rowStore.insert tm.id (.new rowVals)).2 } := rfl
  rw [insertRow, Program.alone_perform_bind stored, Program.alone_bind, body, bind_run, bind_run,
    alone_indexRow]
  cases Execution.indexRow tm idCol (.new rowVals) s.rowStore.nextRowId
      { s with rowStore := (s.rowStore.insert tm.id (.new rowVals)).2 } with
  | ok _ s' => exact alone_pushColumnarRow tm (.new rowVals) s'
  | error e s' => rfl

theorem alone_insertRows (tm : TableMeta) (idCol : Option Nat) (values : List (List (Value F)))
    (count : Nat) :
    Program.alone act (insertRows tm idCol values count) =
      Execution.insertRows tm idCol values count := by
  induction values generalizing count with
  | nil => rfl
  | cons rowVals values ih =>
    rw [insertRows, Program.alone_bind, Execution.insertRows]
    rw [funext (alone_insertRow tm idCol rowVals)]
    exact congrArg (Execution.insertRow tm idCol rowVals >>= ·) (funext (fun _ => ih (count + 1)))

omit [Float64 F] in
/-- A statement that finds its table first is an error or goes on with the entry. -/
theorem alone_afterScanMeta {α : Type} (p : PlanNode F) (k : TableMeta → Task F α)
    (s : SessionState F) :
    Program.alone act (scanMeta p >>= k) s =
      (Execution.orReturn (Execution.scanMeta s p) >>= fun tm => Program.alone act (k tm)) s := by
  rw [Program.alone_bind, bind_run, alone_scanMeta]
  rfl

omit [Float64 F] in
theorem alone_afterRows {α : Type} (message : String) (sub : Task F (ExecutionResult F))
    (k : List (Row F) → Task F α) :
    Program.alone act (expectRows message sub >>= k) =
      (do let rows ← Execution.expectRows message (Program.alone act sub)
          Program.alone act (k rows)) := by
  rw [Program.alone_bind, alone_expectRows]

omit [Float64 F] in
theorem indexPath_eq (s : SessionState F) (t : Nat) (input : PlanNode F)
    (predicate : FilterExpr F) :
    Execution.indexPath s t input predicate = (indexLookup input predicate).bind
      (fun lookup => (s.getIndex t "id").map (fun index => (index, lookup))) := by
  cases input with
  | scan table ns =>
    simp only [Execution.indexPath, indexLookup]
    cases predicateToIdLookup predicate "id" <;> rfl
  | _ => rfl

theorem alone_selectRows (tm : TableMeta) (input : PlanNode F) (predicate : FilterExpr F)
    (sub : Task F (ExecutionResult F)) (s : SessionState F) :
    Program.alone act (selectRows tm input predicate sub) s =
      match Execution.indexPath s tm.id input predicate with
      | some (index, lookup) => (runExcept (Execution.lookupIds index lookup) >>= fun rowIds =>
          pure (rowIds.filterMap (s.rowStore.get tm.id))) s
      | none => Program.alone act (filterRows tm predicate sub) s := by
  rw [selectRows, indexPath_eq]
  cases indexLookup input predicate with
  | none => rfl
  | some lookup =>
    have answer : act (.getIndex tm.id) s = ((s.getIndex tm.id "id").isSome, s) := rfl
    cases held : s.getIndex tm.id "id" with
    | none =>
      rw [held] at answer
      exact Program.alone_perform_bind answer _
    | some index =>
      rw [held] at answer
      exact (Program.alone_perform_bind answer _).trans (alone_lookupRows held lookup)

omit [Float64 F] in
theorem alone_createTable (ns : Option String) (table : String)
    (columns : List (String × ColumnType)) (s : SessionState F) :
    Program.alone act (createTable ns table columns) s =
      .ok () (Execution.createTable s ns table columns) := by
  let made := s.catalog.createTable (ns.getD "public") table
    (Schema.new (columns.map (fun c => ⟨c.1, c.2, true⟩))) none
  have created : act (.createTable ns table
      (Schema.new (columns.map (fun c => ⟨c.1, c.2, true⟩)))) s =
        (made.1, { s with catalog := made.2 }) := rfl
  rw [createTable, Program.alone_perform_bind created, Execution.createTable]
  change Program.alone act (match made.1.schema.columnIndex "id" with
    | some _ => locked (.createIndex made.1.id)
    | none => pure ()) _ = .ok () (match made.1.schema.columnIndex "id" with
    | some _ => _
    | none => _)
  cases made.1.schema.columnIndex "id" with
  | none => rfl
  | some i => rfl

section Parts
variable [ValueDebug F] {input : PlanNode F}

theorem alone_filter (ih : Program.alone act (statement input) = executePlan input)
    (predicate : FilterExpr F) : Program.alone act (statement (.filter input predicate)) =
      executePlan (.filter input predicate) := by
  funext s
  rw [statement, executePlan, alone_afterScanMeta]
  cases h : Execution.scanMeta s input with
  | error e => simp [h, bind_run, Execution.orReturn, Except.mapError]
  | ok tm =>
    simp only [h, bind_run, get_run]
    change Program.alone act (selectRows tm input predicate (statement input) >>= _) s = _
    rw [Program.alone_bind, bind_run, alone_selectRows]
    change _ = (match Execution.indexPath s tm.id input predicate with
      | some (index, lookup) => _
      | none => _ : Execution.Exec F (ExecutionResult F)) s
    cases Execution.indexPath s tm.id input predicate with
    | none =>
      rw [alone_filterRows, ih]
      simp only [bind_run]
      cases Execution.expectRows "filter expects rows" (executePlan input) s <;> rfl
    | some found =>
      obtain ⟨index, lookup⟩ := found
      simp only [bind_run]
      cases Execution.lookupIds index lookup <;> rfl

theorem alone_aggregate (ih : Program.alone act (statement input) = executePlan input)
    (aggs : List AggExpr) : Program.alone act (statement (.aggregate input aggs)) =
      executePlan (.aggregate input aggs) := by
  funext s
  rw [statement, executePlan, alone_afterScanMeta]
  cases h : Execution.scanMeta s input with
  | error e => simp [h, bind_run, Execution.orReturn, Except.mapError]
  | ok tm =>
    change Program.alone act (flushColumnarBuffer tm >>= _) s = _
    rw [Program.alone_bind, bind_run, alone_flushColumnarBuffer]
    have read : act (.chunks tm.id) (s.flushColumnarBuffer tm.id tm.schema) =
        ((s.flushColumnarBuffer tm.id tm.schema).columnarStore.chunksOf tm.id,
          s.flushColumnarBuffer tm.id tm.schema) := rfl
    refine (Program.alone_perform_bind read _).trans ?_
    rw [Program.alone_bind, Program.alone_mapM]
    have each : ∀ (chunks : List (ColumnarChunk F)) agg,
        Program.alone act (if chunks.isEmpty then aggregateOverRows tm (statement input) agg
          else orReturn (aggregateOverChunks chunks tm.schema agg)) =
        if chunks.isEmpty then Execution.aggregateOverRows tm (executePlan input) agg
          else Execution.orReturn (aggregateOverChunks chunks tm.schema agg) := by
      intro chunks agg
      split
      · rw [alone_aggregateOverRows, ih]
      · rfl
    simp only [each, h, bind_run, get_run]
    rfl

end Parts

/-- Without interruption the sections of a statement do what its plan does. -/
theorem alone_statement [ValueDebug F] (p : PlanNode F) :
    Program.alone act (statement p) = executePlan p := by
  induction p with
  | scan table ns =>
    funext s
    rw [statement, executePlan]
    refine (alone_afterScanMeta (.scan table ns) _ s).trans ?_
    cases h : Execution.resolveTable s ns table <;> simp [Execution.scanMeta, h, bind_run] <;> rfl
  | filter input predicate ih => exact alone_filter ih predicate
  | project input columns ih =>
    rw [statement, executePlan, alone_afterRows, ih]
    refine congrArg (Execution.expectRows _ (executePlan input) >>= ·) (funext (fun rows => ?_))
    exact funext (alone_afterScanMeta input _)
  | limit input limit offset ih =>
    rw [statement, executePlan, alone_afterRows, ih]
    rfl
  | aggregate input aggs ih => exact alone_aggregate ih aggs
  | groupBy input groupBy aggs ih =>
    rw [statement, executePlan, alone_afterRows, ih]
    refine congrArg (Execution.expectRows _ (executePlan input) >>= ·) (funext (fun rows => ?_))
    funext s
    rw [alone_afterScanMeta]
    simp only [Program.alone_bind]
    rfl
  | orderBy input columns ih =>
    rw [statement, executePlan, alone_afterRows, ih]
    refine congrArg (Execution.expectRows _ (executePlan input) >>= ·) (funext (fun rows => ?_))
    funext s
    rw [alone_afterScanMeta]
    simp only [Program.alone_bind]
    rfl
  | insert table ns columns values =>
    funext s
    rw [statement, executePlan]
    refine (alone_afterScanMeta (.scan table ns) _ s).trans ?_
    simp only [Program.alone_bind, alone_insertRows]
    rfl
  | createTable table ns columns =>
    funext s
    rw [statement, executePlan, Program.alone_bind, bind_run, alone_createTable]
    rfl
  | dropTable table ns =>
    funext s
    rw [statement, executePlan]
    exact alone_afterScanMeta (.scan table ns) _ s
  | describeTable table ns =>
    funext s
    rw [statement, executePlan]
    exact alone_afterScanMeta (.scan table ns) _ s

end Alone

end LockSections
