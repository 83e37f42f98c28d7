import RustafariDB.Aggregates
import RustafariDB.Predicates
import RustafariDB.Sessions
import RustafariDB.StatefulPrograms

/-!
# Plan execution

`execute_plan` as a program over the session state. A failed statement keeps
the state it had reached, and so does a panic, which is an outcome of its own.
The sort of ORDER BY is one stable sort; it is the one of the source whenever
the comparison is a total preorder on the rows.
-/

namespace Execution

open Std Catalogs Values RowStorage ColumnarStorage BTreeIndexing Plans Floats Sessions
open Predicates Aggregates StatefulPrograms

/-- Why a statement ends without a result. -/
inductive Stop where
  | error (e : RustafariError)
  | panicked

inductive ExecutionResult (F : Type) where
  | rows (rows : List (Row F))
  | rowsAffected (count : Nat)

abbrev Exec (F : Type) := EStateM Stop (SessionState F)

variable {F : Type}

/-- The `?` operator on a pure result. -/
def orReturn {α : Type} (x : Except RustafariError α) : Exec F α :=
  runExcept (x.mapError Stop.error)

section Tables

/-- `table_meta` with its default namespace and the error for an unknown name. -/
def resolveTable (s : SessionState F) (ns : Option String) (table : String) :
    Except RustafariError TableMeta :=
  match s.tableMeta ns table with
  | some tm => .ok tm
  | none => .error (.tableNotFound (ns.getD "public" ++ "." ++ table))

def scanMeta (s : SessionState F) : PlanNode F → Except RustafariError TableMeta
  | .scan table ns => resolveTable s ns table
  | .filter input _ => scanMeta s input
  | .project input _ => scanMeta s input
  | .limit input _ _ => scanMeta s input
  | .aggregate input _ => scanMeta s input
  | .groupBy input _ _ => scanMeta s input
  | .orderBy input _ => scanMeta s input
  | _ => .error
      (.execution "expected scan under filter/project/aggregate/groupby/orderby")

def columnTypeName : ColumnType → String
  | .bigInt => "bigint"
  | .double => "double"
  | .varchar none => "varchar"
  | .varchar (some n) => "varchar(" ++ toString n ++ ")"
  | .text => "text"
  | .boolean => "boolean"
  | .timestamp => "timestamp"
  | .date => "date"
  | .blob => "blob"
  | .document => "document"
  | .array inner => "array(" ++ columnTypeName inner ++ ")"
  | .vector dim => "vector(" ++ toString dim ++ ")"

def describeRows (tm : TableMeta) : List (Row F) :=
  tm.schema.columns.map (fun col =>
    .new [.string col.name, .string (columnTypeName col.dataType),
      .string (if col.nullable then "YES" else "NO")])

end Tables

section Operators
variable [Float64 F]

/-- The index and the lookup that replace a filtered scan, if any. -/
def indexPath (s : SessionState F) (tableId : Nat) (input : PlanNode F)
    (predicate : FilterExpr F) : Option (BTreeIndex × IdLookup F) :=
  match input, predicateToIdLookup predicate "id" with
  | .scan _ _, some lookup => (s.getIndex tableId "id").map (fun index => (index, lookup))
  | _, _ => none

/-- The row ids a lookup finds. A range that starts above its end panics. -/
def lookupIds (index : BTreeIndex) (lookup : IdLookup F) : Except Stop (List Nat) :=
  match lookup with
  | .point v => do
    let key ← (IndexKey.fromValue v).mapError Stop.error
    return index.get key
  | .rangeInclusive v1 v2 => do
    let start ← (IndexKey.fromValue v1).mapError Stop.error
    let stop ← (IndexKey.fromValue v2).mapError Stop.error
    match index.range start (some stop) with
    | some ids => return ids
    | none => throw Stop.panicked

def projectRow (schema : Schema) (columns : List String) (row : Row F) : Row F :=
  .new (columns.filterMap (fun c => (schema.columnIndex c).bind row.get))

def limitRows (limit offset : Nat) (rows : List (Row F)) : List (Row F) :=
  let skip := min offset rows.length
  let take := min limit (rows.length - skip)
  (rows.drop skip).take take

def columnOr (label : String) (schema : Schema) (c : String) : Except RustafariError Nat :=
  match schema.columnIndex c with
  | some i => .ok i
  | none => .error (.execution (label ++ c))

/-- One row joins the group of its rendered key; the first row gives the key values. -/
def addToGroup [ValueDebug F] (indices : List Nat)
    (groups : ExtTreeMap String (List (Value F) × List (Row F))) (row : Row F) :
    ExtTreeMap String (List (Value F) × List (Row F)) :=
  let keyVals := indices.filterMap row.get
  let key := "\x00".intercalate (keyVals.map ValueDebug.debug)
  let group := groups[key]?.getD (keyVals, [])
  groups.insert key (group.1, group.2 ++ [row])

def groupRows [ValueDebug F] (schema : Schema) (groupBy : List String) (aggs : List AggExpr)
    (rows : List (Row F)) : Except RustafariError (List (Row F)) := do
  let indices ← groupBy.mapM (columnOr "GROUP BY column not found: " schema)
  let groups := rows.foldl (addToGroup indices) ∅
  groups.toList.mapM (fun group => do
    let vs ← aggs.mapM (aggregateOverRowSlice group.2.2 schema)
    return .new (group.2.1 ++ vs))

/-- The comparison of two rows by the first sort column that tells them apart. -/
def compareRows (order : List (Nat × Bool)) (a b : Row F) : Ordering :=
  match order with
  | [] => .eq
  | (idx, asc) :: order =>
    match compareVals (a.get idx) (b.get idx) with
    | .eq => compareRows order a b
    | ord => if asc then ord else ord.swap

def orderRows (schema : Schema) (columns : List (String × Bool)) (rows : List (Row F)) :
    Except RustafariError (List (Row F)) := do
  let order ← columns.mapM (fun c => do
    let i ← columnOr "ORDER BY column not found: " schema c.1
    return (i, c.2))
  return rows.insertionSort (fun a b => compareRows order a b ≠ .gt)

end Operators

section Statements

/-- The rows of a sub-plan, or the error for a sub-plan that has none. -/
def expectRows (message : String) (sub : Exec F (ExecutionResult F)) :
    Exec F (List (Row F)) := do
  match ← sub with
  | .rows rows => pure rows
  | .rowsAffected _ => throw (.error (.execution message))

/-- Run the input and aggregate its rows. The source repeats the loops of
`aggregate_over_row_slice` here. -/
def aggregateOverRows [Float64 F] (tm : TableMeta) (sub : Exec F (ExecutionResult F))
    (agg : AggExpr) : Exec F (Value F) := do
  let rows ← expectRows "aggregate input must yield rows" sub
  orReturn (aggregateOverRowSlice rows tm.schema agg)

def storeRow (tableId : Nat) (row : Row F) : Exec F Nat :=
  modifyGet (fun s =>
    let (rowId, store) := s.rowStore.insert tableId row
    (rowId, { s with rowStore := store }))

/-- File a stored row in the id index, when there is one and the row reaches the column. -/
def indexRow [Float64 F] (tm : TableMeta) (idCol : Option Nat) (row : Row F) (rowId : Nat) :
    Exec F Unit := do
  let s ← get
  match idCol, s.getIndex tm.id "id" with
  | some idIdx, some index =>
    match row.get idIdx with
    | some idVal => do
      let key ← orReturn (IndexKey.fromValue idVal)
      set { s with indexStore := s.indexStore.insert (tm.id, "id") (index.insert key rowId) }
    | none => pure ()
  | _, _ => pure ()

/-- The loop body of INSERT: row store, index, columnar buffer. -/
def insertRow [Float64 F] (tm : TableMeta) (idCol : Option Nat) (rowVals : List (Value F)) :
    Exec F Unit := do
  let rowId ← storeRow tm.id (.new rowVals)
  indexRow tm idCol (.new rowVals) rowId
  modify (fun s => s.pushColumnarRow tm.id (.new rowVals) tm.schema)

def insertRows [Float64 F] (tm : TableMeta) (idCol : Option Nat) :
    List (List (Value F)) → Nat → Exec F Nat
  | [], count => pure count
  | rowVals :: rest, count => do
    insertRow tm idCol rowVals
    insertRows tm idCol rest (count + 1)

def createTable (s : SessionState F) (ns : Option String) (table : String)
    (columns : List (String × ColumnType)) : SessionState F :=
  let schema := Schema.new (columns.map (fun c => ⟨c.1, c.2, true⟩))
  let (tm, catalog) := s.catalog.createTable (ns.getD "public") table schema none
  let s := { s with catalog := catalog }
  match tm.schema.columnIndex "id" with
  | some _ => { s with indexStore := s.indexStore.insert (tm.id, "id") .new }
  | none => s

/-- What DROP TABLE removes. The columnar buffer of the table stays. -/
def dropTable (s : SessionState F) (tm : TableMeta) (ns : Option String) (table : String) :
    SessionState F :=
  { s with
    rowStore := s.rowStore.dropTable tm.id
    columnarStore := s.columnarStore.dropTable tm.id
    indexStore := s.indexStore.filter (fun key _ => key.1 != tm.id)
    catalog := (s.catalog.dropTable (ns.getD "public") table).2 }

/-- Execute a logical plan and return result rows (for SELECT) or row count
(for INSERT/CREATE). -/
def executePlan [Float64 F] [ValueDebug F] : PlanNode F → Exec F (ExecutionResult F)
  | .scan table ns => do
    let s ← get
    let tm ← orReturn (resolveTable s ns table)
    return .rows ((s.rowStore.scan tm.id).map Prod.snd)
  | .filter input predicate => do
    let s ← get
    let tm ← orReturn (scanMeta s input)
    match indexPath s tm.id input predicate with
    | some (index, lookup) => do
      let rowIds ← runExcept (lookupIds index lookup)
      return .rows (rowIds.filterMap (s.rowStore.get tm.id))
    | none => do
      let rows ← expectRows "filter expects rows" (executePlan input)
      return .rows (rows.filter (fun row => evalPredicate row predicate tm.schema))
  | .project input columns => do
    let rows ← expectRows "project expects rows" (executePlan input)
    let tm ← orReturn (scanMeta (← get) input)
    return .rows (rows.map (projectRow tm.schema columns))
  | .limit input limit offset => do
    let rows ← expectRows "limit expects rows" (executePlan input)
    return .rows (limitRows limit offset rows)
  | .aggregate input aggs => do
    let tm ← orReturn (scanMeta (← get) input)
    modify (fun s => s.flushColumnarBuffer tm.id tm.schema)
    let chunks := (← get).columnarStore.chunksOf tm.id
    let values ← aggs.mapM (fun agg =>
      if chunks.isEmpty then aggregateOverRows tm (executePlan input) agg
      else orReturn (aggregateOverChunks chunks tm.schema agg))
    return .rows [.new values]
  | .groupBy input groupBy aggs => do
    let rows ← expectRows "GROUP BY input must yield rows" (executePlan input)
    let tm ← orReturn (scanMeta (← get) input)
    let grouped ← orReturn (groupRows tm.schema groupBy aggs rows)
    return .rows grouped
  | .orderBy input columns => do
    let rows ← expectRows "ORDER BY input must yield rows" (executePlan input)
    let tm ← orReturn (scanMeta (← get) input)
    let sorted ← orReturn (orderRows tm.schema columns rows)
    return .rows sorted
  | .insert table ns _ values => do
    let tm ← orReturn (resolveTable (← get) ns table)
    let count ← insertRows tm (tm.schema.columnIndex "id") values 0
    return .rowsAffected count
  | .createTable table ns columns => do
    modify (fun s => createTable s ns table columns)
    return .rowsAffected 0
  | .dropTable table ns => do
    let tm ← orReturn (resolveTable (← get) ns table)
    modify (fun s => dropTable s tm ns table)
    return .rowsAffected 0
  | .describeTable table ns => do
    let tm ← orReturn (resolveTable (← get) ns table)
    return .rows (describeRows tm)

end Statements

end Execution
