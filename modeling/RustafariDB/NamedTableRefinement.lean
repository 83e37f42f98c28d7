import RustafariDB.AnsweringMachines
import RustafariDB.FreshTables
import RustafariDB.NamedTables
import RustafariDB.SqlExecution

/-!
# The executor refines the database of named tables

A session state represents a database when every name is bound in both or in neither, and
each bound entry holds its table: the rows under its id, an index that lists them by key,
and chunks cut alike. Statements answer alike in both and keep this. So row ids, table ids,
chunk ids and the keys of the maps never show.
-/

namespace NamedTableRefinement

open Std ListBuckets BucketSorts Catalogs Values RowStorage ColumnarStorage BTreeIndexing Plans
open Floats Sessions Predicates Aggregates Execution StatefulPrograms CatalogInvariants
open PlanEffects SessionInvariants IndexLookups AggregateAgreement TableViews FreshTables
open UnknownColumns AnsweringMachines NamedTables SqlPlanning SqlExecution

variable {F : Type} [Float64 F]

/-- The state holds a table under an entry of the catalog. -/
structure Holds (s : SessionState F) (tm : TableMeta) (t : Table F) : Prop where
  schema : tm.schema = t.schema
  rows : scanRows s tm = t.rows
  indexed : (s.getIndex tm.id "id").isSome = t.indexed
  index : ∀ index, s.getIndex tm.id "id" = some index →
    Indexes index t.key (s.rowStore.scan tm.id)
  chunks : AlikeChunks t.columnar (s.columnarStore.chunksOf tm.id)
  buffer : s.buffered tm.id = t.buffer

/-- The state represents a database. Nothing is stored under ids to come. -/
structure Represents (d : Database F) (s : SessionState F) : Prop where
  catalog : Valid s.catalog
  freshRows : s.rowStore.Fresh
  unused : ∀ i, s.catalog.nextTableId ≤ i → Unused i s
  namespaces : ∀ ns, ns ∈ d.namespaces ↔ (s.catalog.namespaceId ns).isSome
  tables : ∀ ns table, Option.Rel (Holds s) (s.catalog.getTable ns table) (d.tables ns table)

section Lookups
variable {s : SessionState F} {tm : TableMeta} {t : Table F}

omit [Float64 F] in
/-- The rows fetched for the ids of some entries are the rows of the entries. -/
theorem fetch_entries {entries : List (Nat × Row F)}
    (listed : ∀ e ∈ entries, e ∈ s.rowStore.scan tm.id) :
    (entries.map Prod.fst).filterMap (s.rowStore.get tm.id) = entries.map Prod.snd := by
  rw [List.filterMap_map, ← List.filterMap_eq_map]
  exact List.filterMap_congr (fun e he => TableStore.mem_scan.mp (listed e he))

omit [Float64 F] in
theorem rows_of_selection (p : Row F → Bool) :
    ((s.rowStore.scan tm.id).filter (fun e => p e.2)).map Prod.snd =
      (scanRows s tm).filter p := by
  rw [scanRows, List.filter_map]
  rfl

/-- The rows of a point lookup. -/
theorem find_point {index : BTreeIndex} (holds : Holds s tm t)
    (indexed : s.getIndex tm.id "id" = some index) (k : IndexKey) :
    (index.get k).filterMap (s.rowStore.get tm.id) =
      t.rows.filter (fun row => t.key row = some k) := by
  rw [holds.index index indexed k, bucket, ← holds.rows]
  exact fetch_selection (fun row => decide (t.key row = some k))

/-- The rows of a range lookup, in the order of their keys. -/
theorem find_range {index : BTreeIndex} (holds : Holds s tm t)
    (indexed : s.getIndex tm.id "id" = some index) (k1 k2 : IndexKey) :
    ((visitedKeys index k1 k2).flatMap index.get).filterMap (s.rowStore.get tm.id) =
      (t.rows.filter (fun row => (t.key row).any (BTreeIndex.inKeyRange k1 k2))).insertionSort
        (KeyLE t.key) := by
  have contents := holds.index index indexed
  let entries := s.rowStore.scan tm.id
  have ids : (visitedKeys index k1 k2).flatMap index.get =
      ((visitedKeys index k1 k2).flatMap (bucket (fun e => t.key e.2) entries)).map Prod.fst := by
    rw [List.map_flatMap]
    exact List.flatMap_congr (fun k _ => contents k)
  have visited : entries.filter
        (fun e => (visitedKeys index k1 k2).any (fun k => t.key e.2 = some k)) =
      entries.filter (fun e => (t.key e.2).any (BTreeIndex.inKeyRange k1 k2)) :=
    List.filter_congr (fun e he => any_visitedKeys contents he)
  rw [ids, flatMap_bucket_sorted _ (visitedKeys_sorted index k1 k2), visited, fetch_entries,
    List.map_insertionSort _ (KeyLE t.key) _ _ (fun _ _ _ _ => Iff.rfl),
    rows_of_selection (fun row => (t.key row).any (BTreeIndex.inKeyRange k1 k2)), holds.rows]
  intro e he
  exact (List.mem_filter.mp ((List.perm_insertionSort _ _).mem_iff.mp he)).1

/-- The index finds the rows that the table finds by their keys. -/
theorem find_lookup {index : BTreeIndex} (holds : Holds s tm t)
    (indexed : s.getIndex tm.id "id" = some index) (lookup : IdLookup F) :
    (lookupIds index lookup).map (fun ids => ids.filterMap (s.rowStore.get tm.id)) =
      t.find lookup := by
  cases lookup with
  | point v =>
    simp only [lookupIds, Table.find]
    cases IndexKey.fromValue v with
    | error e => rfl
    | ok k => exact congrArg Except.ok (find_point holds indexed k)
  | rangeInclusive v1 v2 =>
    simp only [lookupIds, Table.find]
    cases IndexKey.fromValue v1 with
    | error e => rfl
    | ok k1 =>
      cases IndexKey.fromValue v2 with
      | error e => rfl
      | ok k2 =>
        simp only [Except.mapError, ok_bind, range_eq, Option.getD_some]
        by_cases above : compare k1 k2 = .gt
        · simp only [if_pos above]
          rfl
        · simp only [if_neg above]
          exact congrArg Except.ok (find_range holds indexed k1 k2)

end Lookups

section Buffers
variable {s : SessionState F} {tm : TableMeta} {t : Table F}

/-- Chunks transposed from rows, whatever their numbers. -/
abbrev chunkOf (schema : Schema) (part : List (Row F)) : ColumnarChunk F :=
  .new 0 (columnChunks schema part)

omit [Float64 F] in
theorem alike_storeChunk {chunks : List (List (Row F))} {schema : Schema} {part : List (Row F)}
    (alike : AlikeChunks (chunks.map (chunkOf schema)) (s.columnarStore.chunksOf tm.id)) :
    AlikeChunks ((chunks ++ [part]).map (chunkOf schema))
      ((s.storeChunk tm.id schema part).columnarStore.chunksOf tm.id) := by
  rw [SessionState.chunksOf_storeChunk, if_pos rfl, List.map_append]
  exact List.rel_append alike (.cons rfl .nil)

omit [Float64 F] in
theorem flush_twice (s : SessionState F) (tm : TableMeta) :
    (s.flushColumnarBuffer tm.id tm.schema).flushColumnarBuffer tm.id tm.schema =
      s.flushColumnarBuffer tm.id tm.schema := by
  rw [SessionState.flushColumnarBuffer_eq (s.flushColumnarBuffer tm.id tm.schema),
    SessionState.buffered_flush, if_pos rfl, if_pos rfl]

theorem holds_flush (holds : Holds s tm t) :
    Holds (s.flushColumnarBuffer tm.id tm.schema) tm t.flush := by
  have key : t.flush.key = t.key := by
    funext row
    rw [Table.key, Table.key, Table.schema_flush]
  constructor
  · rw [Table.schema_flush, holds.schema]
  · rw [scanRows, SessionState.rowStore_flush, Table.rows_flush]
    exact holds.rows
  · rw [SessionState.getIndex, SessionState.indexStore_flush, Table.indexed_flush]
    exact holds.indexed
  · rw [SessionState.getIndex, SessionState.indexStore_flush, SessionState.rowStore_flush, key]
    exact holds.index
  · rw [SessionState.flushColumnarBuffer_eq, holds.buffer, Table.columnar, Table.chunks_flush,
      Table.schema_flush, holds.schema]
    by_cases none : t.buffer = []
    · rw [if_pos none, if_pos none]
      exact holds.chunks
    · rw [if_neg none, if_neg none]
      exact alike_storeChunk holds.chunks
  · rw [SessionState.buffered_flush, if_pos rfl, Table.buffer_flush]

end Buffers

section Inserts
variable {s s' : SessionState F} {tm : TableMeta} {t : Table F}

theorem refuses_eq (holds : Holds s tm t) (row : Row F) : blockedBy s tm row = t.refuses row := by
  rw [blockedBy, Table.refuses, ← holds.indexed, holds.schema]
  cases t.schema.columnIndex "id" with
  | none => exact (ite_self _).symm
  | some i => cases s.getIndex tm.id "id" <;> rfl

theorem holds_strandRow (fresh : s.rowStore.Fresh) (holds : Holds s tm t) {row : Row F}
    {e : RustafariError} (blocked : blockedBy s tm row = some e) :
    Holds (withRow s tm.id row) tm (t.strand row) := by
  constructor
  · exact holds.schema
  · rw [scanRows_withRow fresh, holds.rows]
    rfl
  · exact holds.indexed
  · intro index indexed
    have keyless : t.key row = none := by
      rw [Table.key, ← holds.schema]
      cases hcol : tm.schema.columnIndex "id" with
      | none => rfl
      | some i => exact idKey_of_blocked hcol blocked
    rw [withRow, TableStore.scan_insert_self fresh]
    exact indexes_skip (holds.index index indexed) keyless _
  · exact holds.chunks
  · exact holds.buffer

/-- A stored row joins the buffer, or closes it into a chunk. -/
theorem columnar_stored (holds : Holds s tm t) (row : Row F) :
    AlikeChunks (t.push row).columnar ((stored s tm row).columnarStore.chunksOf tm.id) ∧
      (stored s tm row).buffered tm.id = (t.push row).buffer := by
  obtain ⟨store, buffer⟩ := columnar_fileRow (withRow s tm.id row) tm row s.rowStore.nextRowId
  have before : (fileRow (withRow s tm.id row) tm row s.rowStore.nextRowId).buffered tm.id =
      t.buffer := by
    rw [SessionState.buffered, buffer]
    exact holds.buffer
  have chunks : AlikeChunks (t.chunks.map (chunkOf tm.schema))
      ((fileRow (withRow s tm.id row) tm row s.rowStore.nextRowId).columnarStore.chunksOf
        tm.id) := by
    rw [store, holds.schema]
    exact holds.chunks
  obtain ⟨pushedChunks, pushedBuffer⟩ := Table.columnar_push t row
  rw [stored, Table.columnar, Table.schema_push, ← holds.schema, pushedChunks, pushedBuffer]
  by_cases fits : (t.buffer ++ [row]).length < columnarChunkSize
  · rw [if_pos fits, if_pos fits]
    rw [← before] at fits ⊢
    rw [SessionState.chunksOf_push_of_lt fits, SessionState.buffered_push_of_lt fits, if_pos rfl]
    exact ⟨chunks, rfl⟩
  · rw [if_neg fits, if_neg fits]
    rw [← before] at fits ⊢
    rw [SessionState.push_of_full fits, SessionState.buffered_storeChunk, if_pos rfl]
    exact ⟨alike_storeChunk chunks, rfl⟩

theorem holds_stored (fresh : s.rowStore.Fresh) (holds : Holds s tm t) (row : Row F) :
    Holds (stored s tm row) tm (t.push row) := by
  have key : (t.push row).key = t.key := by
    funext row'
    rw [Table.key, Table.key, Table.schema_push]
  constructor
  · rw [Table.schema_push, holds.schema]
  · have rows := scanRows_withRow (s := s) fresh tm row
    rw [scanRows, withRow, ← rowStore_stored s tm row] at rows
    rw [scanRows, rows, holds.rows, Table.rows_push]
  · rw [isSome_getIndex_stored, holds.indexed, Table.indexed_push]
  · intro index indexed
    rw [getIndex_stored, getIndex_fileRow, holds.schema] at indexed
    rw [key, rowStore_stored, TableStore.scan_insert_self fresh]
    cases hkey : t.key row with
    | none =>
      rw [Table.key] at hkey
      simp only [hkey] at indexed
      exact indexes_skip (holds.index index indexed) hkey _
    | some k =>
      rw [Table.key] at hkey
      simp only [hkey, if_pos] at indexed
      obtain ⟨old, before, rfl⟩ := Option.map_eq_some_iff.mp indexed
      exact indexes_insert (holds.index old before) hkey _
  · exact (columnar_stored holds row).1
  · exact (columnar_stored holds row).2

/-- Nothing but the content of one table has changed. -/
structure OnlyTable (i : Nat) (s s' : SessionState F) : Prop where
  catalog : s'.catalog = s.catalog
  freshRows : s'.rowStore.Fresh
  others : ∀ j, i ≠ j → SameContent j s s'

omit [Float64 F] in
theorem onlyTable_refl (fresh : s.rowStore.Fresh) (i : Nat) : OnlyTable i s s :=
  ⟨rfl, fresh, fun j _ => sameContent_refl j s⟩

omit [Float64 F] in
theorem onlyTable_trans {i : Nat} {s'' : SessionState F} (first : OnlyTable i s s')
    (second : OnlyTable i s' s'') : OnlyTable i s s'' :=
  ⟨second.catalog.trans first.catalog, second.freshRows,
    fun j other => sameContent_trans (first.others j other) (second.others j other)⟩

omit [Float64 F] in
theorem onlyTable_strandRow (fresh : s.rowStore.Fresh) (row : Row F) :
    OnlyTable tm.id s (withRow s tm.id row) :=
  ⟨rfl, TableStore.fresh_insert fresh tm.id row, fun _ other => sameContent_withRow other row⟩

theorem onlyTable_stored (fresh : s.rowStore.Fresh) (row : Row F) :
    OnlyTable tm.id s (stored s tm row) := by
  refine ⟨catalog_stored s tm row, ?_, fun _ other => sameContent_stored other row⟩
  rw [rowStore_stored]
  exact TableStore.fresh_insert fresh tm.id row

/-- INSERT takes the rows the table takes and stops where it refuses one. -/
theorem insertRows_holds (fresh : s.rowStore.Fresh) (holds : Holds s tm t)
    (values : List (List (Value F))) (count : Nat) :
    ∃ s', insertRows tm (tm.schema.columnIndex "id") values count s =
        (match (t.insert values).1 with
          | some e => .error (.error e) s'
          | none => .ok (count + values.length) s') ∧
      Holds s' tm (t.insert values).2 ∧ OnlyTable tm.id s s' := by
  induction values generalizing s t count with
  | nil => exact ⟨s, rfl, holds, onlyTable_refl fresh _⟩
  | cons vals values ih =>
    rw [insertRows, bind_run, insertRow_run, refuses_eq holds, Table.insert]
    cases refused : t.refuses (.new vals) with
    | some e =>
      rw [← refuses_eq holds] at refused
      exact ⟨_, rfl, holds_strandRow fresh holds refused, onlyTable_strandRow fresh _⟩
    | none =>
      have first : OnlyTable tm.id s (stored s tm (.new vals)) := onlyTable_stored fresh _
      obtain ⟨s', run, held, rest⟩ :=
        ih first.freshRows (holds_stored fresh holds (.new vals)) (count + 1)
      refine ⟨s', ?_, held, onlyTable_trans first rest⟩
      rw [List.length_cons, Nat.add_comm values.length, ← Nat.add_assoc]
      exact run

end Inserts

section Queries
variable [ValueDebug F] {s s' : SessionState F} {tm : TableMeta} {t : Table F}
variable {ns : Option String} {table : String}

omit [ValueDebug F] in
/-- The index is taken exactly where the table looks its rows up. -/
theorem lookup_cases (holds : Holds s tm t) (input : PlanNode F) (predicate : FilterExpr F) :
    (indexPath s tm.id input predicate = none ∧ t.lookup input predicate = none) ∨
      ∃ index lookup, s.getIndex tm.id "id" = some index ∧ aggregates input = false ∧
        indexPath s tm.id input predicate = some (index, lookup) ∧
        t.lookup input predicate = some lookup := by
  cases input with
  | scan table ns =>
    rw [Table.lookup, ← holds.indexed]
    rcases indexPath_cases s tm ns table predicate with path | ⟨index, lookup, indexed, rec, path⟩
    · refine Or.inl ⟨path, ?_⟩
      cases recognised : predicateToIdLookup predicate "id" with
      | none => exact ite_self _
      | some lookup =>
        simp only [indexPath, recognised, Option.map_eq_none_iff] at path
        rw [path]
        rfl
    · refine Or.inr ⟨index, lookup, indexed, rfl, path, ?_⟩
      rw [indexed, Option.isSome_some, if_pos rfl, rec]
  | _ => exact Or.inl ⟨rfl, rfl⟩

omit [Float64 F] [ValueDebug F] in
theorem expectRows_run {sub : Exec F (ExecutionResult F)} {x : Except Stop (List (Row F))}
    (run : sub s = runExcept (x.map .rows) s') (message : String) :
    expectRows message sub s = runExcept x s' := by
  rw [expectRows, bind_run, run]
  cases x <;> rfl

theorem rows_project (t : Table F) (input : PlanNode F) (columns : List String) :
    (t.answer (.project input columns)).map ExecutionResult.rows =
      t.answer input >>= fun rows => .ok (.rows (rows.map (projectRow t.schema columns))) := by
  rw [Table.answer]
  cases t.answer input <;> rfl

theorem rows_limit (t : Table F) (input : PlanNode F) (limit offset : Nat) :
    (t.answer (.limit input limit offset)).map ExecutionResult.rows =
      t.answer input >>= fun rows => .ok (.rows (limitRows limit offset rows)) := by
  rw [Table.answer]
  cases t.answer input <;> rfl

theorem rows_groupBy (t : Table F) (input : PlanNode F) (groupBy : List String)
    (aggs : List AggExpr) :
    (t.answer (.groupBy input groupBy aggs)).map ExecutionResult.rows =
      t.answer input >>= fun rows =>
        ((groupRows t.schema groupBy aggs rows).mapError Stop.error).map .rows := by
  rw [Table.answer]
  cases t.answer input <;> rfl

theorem rows_orderBy (t : Table F) (input : PlanNode F) (columns : List (String × Bool)) :
    (t.answer (.orderBy input columns)).map ExecutionResult.rows =
      t.answer input >>= fun rows =>
        ((orderRows t.schema columns rows).mapError Stop.error).map .rows := by
  rw [Table.answer]
  cases t.answer input <;> rfl

/-- The state a query leaves behind. -/
def queried (p : PlanNode F) (tm : TableMeta) (s : SessionState F) : SessionState F :=
  if aggregates p then s.flushColumnarBuffer tm.id tm.schema else s

omit [Float64 F] [ValueDebug F] in
theorem tableMeta_queried (p : PlanNode F) (htm : s.tableMeta ns table = some tm) :
    (queried p tm s).tableMeta ns table = some tm := by
  rw [queried]
  split
  · rwa [SessionState.tableMeta, SessionState.catalog_flush]
  · exact htm

omit [Float64 F] [ValueDebug F] in
/-- A query flushed before it changes nothing more. -/
theorem queried_flush (p : PlanNode F) (tm : TableMeta) (s : SessionState F) :
    queried p tm (s.flushColumnarBuffer tm.id tm.schema) =
      s.flushColumnarBuffer tm.id tm.schema := by
  rw [queried, flush_twice, ite_self]

omit [Float64 F] [ValueDebug F] in
/-- An operator finds the entry of its table again once its input has run. -/
theorem afterRows_run {α : Type} {input : PlanNode F} (reads : ReadsFrom ns table input)
    (htm : s.tableMeta ns table = some tm) (k : TableMeta → Exec F α) :
    (do let tm ← orReturn (scanMeta (← get) input); k tm : Exec F α) s = k tm s := by
  rw [bind_run, get_run]
  simp only [scanMeta_of_readsFrom reads htm]
  rfl

/-- A query over a held table answers from it and at most flushes its buffer. -/
theorem query_run {p : PlanNode F} (reads : ReadsFrom ns table p)
    (htm : s.tableMeta ns table = some tm) (holds : Holds s tm t) :
    executePlan p s = runExcept ((t.answer p).map .rows) (queried p tm s) := by
  induction p generalizing s t with
  | scan table' ns' =>
    obtain ⟨rfl, rfl⟩ := reads
    rw [executePlan_scan htm, holds.rows]
    rfl
  | filter input predicate ih =>
    rw [executePlan_filter (scanMeta_of_readsFrom (p := input) reads htm), ih reads htm holds,
      Table.answer]
    rcases lookup_cases holds input predicate with
      ⟨path, plain⟩ | ⟨index, lookup, indexed, still, path, found⟩
    · rw [path, plain, queried, queried, aggregates, holds.schema]
      cases t.answer input <;> rfl
    · simp only [path, found, queried, aggregates, still, ← find_lookup holds indexed]
      cases lookupIds index lookup <;> rfl
  | project input columns ih =>
    rw [executePlan, rows_project, ← holds.schema]
    refine bind_runExcept (expectRows_run (ih reads htm holds) _) (fun rows => ?_)
    exact afterRows_run reads (tableMeta_queried input htm) _
  | limit input limit offset ih =>
    rw [executePlan, rows_limit]
    exact bind_runExcept (expectRows_run (ih reads htm holds) _) (fun rows => rfl)
  | groupBy input groupBy aggs ih =>
    rw [executePlan, rows_groupBy, ← holds.schema]
    refine bind_runExcept (expectRows_run (ih reads htm holds) _) (fun rows => ?_)
    refine (afterRows_run reads (tableMeta_queried input htm) _).trans ?_
    cases groupRows tm.schema groupBy aggs rows <;> rfl
  | orderBy input columns ih =>
    rw [executePlan, rows_orderBy, ← holds.schema]
    refine bind_runExcept (expectRows_run (ih reads htm holds) _) (fun rows => ?_)
    refine (afterRows_run reads (tableMeta_queried input htm) _).trans ?_
    cases orderRows tm.schema columns rows <;> rfl
  | aggregate input aggs ih =>
    have flushed := holds_flush holds
    have live : (s.flushColumnarBuffer tm.id tm.schema).tableMeta ns table = some tm :=
      tableMeta_queried (.aggregate input aggs) htm
    have run := ih reads live flushed
    rw [queried_flush] at run
    have value : (t.answer (.aggregate input aggs)).map ExecutionResult.rows =
        aggs.mapM (t.flush.aggregate (t.flush.answer input)) >>= fun values =>
          .ok (.rows [.new values]) := by
      rw [Table.answer]
      cases aggs.mapM (t.flush.aggregate (t.flush.answer input)) <;> rfl
    rw [executePlan_aggregate (scanMeta_of_readsFrom (p := input) reads htm), value]
    refine bind_runExcept (mapM_runExcept (fun agg _ => ?_)) (fun values => rfl)
    have none : (flushedChunks s tm).isEmpty = true ↔ t.flush.chunks = [] := by
      rw [flushedChunks, ← isEmpty_of_alike flushed.chunks, Table.columnar, List.isEmpty_map,
        List.isEmpty_iff]
    rw [Table.aggregate]
    by_cases empty : t.flush.chunks = []
    · rw [if_pos (none.mpr empty), if_pos empty, aggregateOverRows]
      refine bind_runExcept (expectRows_run run _) (fun rows => ?_)
      rw [Table.schema_flush, ← holds.schema]
      rfl
    · rw [if_neg (fun h => empty (none.mp h)), if_neg empty, Table.schema_flush, ← holds.schema,
        aggregateOverChunks_alike flushed.chunks]
      rfl
  | _ => exact False.elim reads

end Queries

section States
variable {s s' : SessionState F} {d : Database F} {tm : TableMeta} {t : Table F}
variable {ns : String} {table : String}

omit [Float64 F] in
theorem rel_imp {α β : Type} {R S : α → β → Prop} {a : Option α} {b : Option β}
    (rel : Option.Rel R a b) (imp : ∀ x y, a = some x → R x y → S x y) : Option.Rel S a b := by
  cases rel with
  | some related => exact .some (imp _ _ rfl related)
  | none => exact .none

omit [Float64 F] in
theorem rel_cases {α β : Type} {R : α → β → Prop} {a : Option α} {b : Option β}
    (rel : Option.Rel R a b) :
    (a = none ∧ b = none) ∨ ∃ x y, a = some x ∧ b = some y ∧ R x y := by
  cases rel with
  | some related => exact Or.inr ⟨_, _, rfl, rfl, related⟩
  | none => exact Or.inl ⟨rfl, rfl⟩

/-- A table goes on being held where its content stays. -/
theorem holds_of_sameContent (same : SameContent tm.id s s') (holds : Holds s tm t) :
    Holds s' tm t := by
  constructor
  · exact holds.schema
  · rw [scanRows, same.rows]
    exact holds.rows
  · rw [same.index]
    exact holds.indexed
  · rw [same.index, same.rows]
    exact holds.index
  · exact forall₂_comp holds.chunks same.chunks (fun _ _ _ => Eq.trans)
  · rw [same.buffer]
    exact holds.buffer

omit [Float64 F] in
theorem bound_of_getTable (live : s.catalog.getTable ns table = some tm) : Bound s tm :=
  ⟨ns, table, live⟩

/-- Changing the content of one table changes that table of the database. -/
theorem represents_onlyTable (represents : Represents d s)
    (live : s.catalog.getTable ns table = some tm) (only : OnlyTable tm.id s s')
    (holds : Holds s' tm t) : Represents (d.set ns table (some t)) s' := by
  have unique := represents.catalog.toUniqueIds
  constructor
  · rw [only.catalog]
    exact represents.catalog
  · exact only.freshRows
  · rw [only.catalog]
    intro i above
    have below := bound_lt represents.catalog (bound_of_getTable live)
    exact unused_of_sameContent (represents.unused i above) (only.others i (by omega))
  · rw [only.catalog]
    exact represents.namespaces
  · intro ns' table'
    rw [only.catalog, Database.tables_set]
    by_cases own : ns = ns' ∧ table = table'
    · obtain ⟨rfl, rfl⟩ := own
      rw [live, if_pos ⟨rfl, rfl⟩]
      exact .some holds
    · rw [if_neg own]
      refine rel_imp (represents.tables ns' table') (fun tm' t' live' holds' => ?_)
      refine holds_of_sameContent (only.others _ (fun same => ?_)) holds'
      exact own (getTable_inj unique live live' same)

omit [Float64 F] in
theorem namespaceId_createTable (c : Catalog) (ns table : String) (schema : Schema)
    (ns' : String) : ((c.createTable ns table schema none).2.namespaceId ns').isSome =
      (decide (ns = ns') || (c.namespaceId ns').isSome) := by
  have spaces := namespaces_createNamespace c ns ns'
  have same : (c.createTable ns table schema none).2.namespaceId ns' =
      (c.createNamespace ns).2.namespaces[ns']? := rfl
  rw [same, spaces, Catalog.namespaceId]
  by_cases own : ns = ns'
  · simp [own]
  · simp [own]

/-- The table CREATE TABLE makes is held under its new entry. -/
theorem holds_created {ns : Option String} {columns : List (String × ColumnType)}
    (unused : Unused s.catalog.nextTableId s) :
    Holds (createTable s ns table columns) (newMeta s ns table columns) (.created columns) := by
  obtain ⟨_, rows, chunks, buffer⟩ := createTable_frame s ns table columns
  have nothing : (createTable s ns table columns).rowStore.scan s.catalog.nextTableId = [] := by
    rw [rows, unused.rows]
  constructor
  · exact newMeta_schema
  · rw [scanRows, newMeta_id, nothing]
    rfl
  · have declared : (Table.created columns : Table F).indexed =
        ((createdSchema columns).columnIndex "id").isSome := rfl
    rw [newMeta_id, getIndex_createTable, unused.indexes, declared]
    cases ((createdSchema columns).columnIndex "id").isSome <;> simp
  · intro index indexed
    rw [newMeta_id, getIndex_createTable, unused.indexes] at indexed
    split at indexed
    · obtain rfl := Option.some.inj indexed
      rw [newMeta_id, nothing]
      exact indexes_new
    · cases indexed
  · rw [newMeta_id, chunks, unused.chunks]
    exact .nil
  · rw [newMeta_id, SessionState.buffered, buffer]
    exact unused.buffer

theorem represents_createTable (represents : Represents d s) (ns : Option String)
    (table : String) (columns : List (String × ColumnType)) :
    Represents { d.set (ns.getD "public") table (some (.created columns)) with
      namespaces := insert (ns.getD "public") d.namespaces } (createTable s ns table columns) := by
  have unique := represents.catalog.toUniqueIds
  obtain ⟨catalog, rows, chunks, buffer⟩ := createTable_frame s ns table columns
  have next : (createTable s ns table columns).catalog.nextTableId =
      s.catalog.nextTableId + 1 := by
    rw [catalog, nextTableId_createTable]
  have others (i : Nat) (other : s.catalog.nextTableId ≠ i) :
      SameContent i s (createTable s ns table columns) := sameContent_createTable other
  constructor
  · rw [catalog]
    exact valid_createTable represents.catalog
  · rw [rows]
    exact represents.freshRows
  · rw [next]
    intro i above
    exact unused_of_sameContent (represents.unused i (by omega)) (others i (by omega))
  · intro ns'
    rw [catalog, namespaceId_createTable, Bool.or_eq_true, decide_eq_true_iff,
      ← represents.namespaces ns', Set.mem_insert_iff, eq_comm]
  · intro ns' table'
    rw [catalog, getTable_createTable unique, Database.tables_set]
    by_cases own : ns.getD "public" = ns' ∧ table = table'
    · rw [if_pos own, if_pos own]
      exact .some (holds_created (represents.unused _ (Nat.le_refl _)))
    · rw [if_neg own, if_neg own]
      refine rel_imp (represents.tables ns' table') (fun tm' t' live' holds' => ?_)
      refine holds_of_sameContent (others _ ?_) holds'
      have below := bound_lt represents.catalog (bound_of_getTable live')
      omega

theorem represents_dropTable (represents : Represents d s) {ns : Option String}
    (live : s.tableMeta ns table = some tm) :
    Represents (d.set (ns.getD "public") table none) (dropTable s tm ns table) := by
  have unique := represents.catalog.toUniqueIds
  have catalog : (dropTable s tm ns table).catalog =
      (s.catalog.dropTable (ns.getD "public") table).2 := rfl
  have others (i : Nat) (other : tm.id ≠ i) : SameContent i s (dropTable s tm ns table) :=
    sameContent_dropTable other
  have below := bound_lt represents.catalog (bound_of_tableMeta live)
  constructor
  · exact valid_dropTable represents.catalog
  · exact TableStore.fresh_dropTable represents.freshRows tm.id
  · rw [catalog, nextTableId_dropTable]
    intro i above
    exact unused_of_sameContent (represents.unused i above) (others i (by omega))
  · rw [catalog, dropTable_of_bound unique live]
    exact represents.namespaces
  · intro ns' table'
    rw [catalog, getTable_dropTable unique, Database.tables_set]
    by_cases own : ns.getD "public" = ns' ∧ table = table'
    · rw [if_pos own, if_pos own]
      exact .none
    · rw [if_neg own, if_neg own]
      refine rel_imp (represents.tables ns' table') (fun tm' t' live' holds' => ?_)
      refine holds_of_sameContent (others _ (fun same => ?_)) holds'
      exact own (getTable_inj unique live live' same)

end States

section Statements
variable [ValueDebug F] {s : SessionState F} {d : Database F} {tm : TableMeta} {t : Table F}
variable {ns : Option String} {table : String} {p : PlanNode F}

omit [Float64 F] [ValueDebug F] in
theorem subject_of_readsFrom (reads : ReadsFrom ns table p) : subject p = (ns, table) := by
  induction p with
  | scan table' ns' =>
    obtain ⟨rfl, rfl⟩ := reads
    rfl
  | filter input predicate ih => exact ih reads
  | project input columns ih => exact ih reads
  | limit input limit offset ih => exact ih reads
  | aggregate input aggs ih => exact ih reads
  | groupBy input groupBy aggs ih => exact ih reads
  | orderBy input columns ih => exact ih reads
  | _ => exact False.elim reads

omit [Float64 F] [ValueDebug F] in
theorem scanMeta_unknown (reads : ReadsFrom ns table p) (unbound : s.tableMeta ns table = none) :
    scanMeta s p = .error (.tableNotFound (ns.getD "public" ++ "." ++ table)) := by
  induction p with
  | scan table' ns' =>
    obtain ⟨rfl, rfl⟩ := reads
    exact scanMeta_of_unknown unbound
  | filter input predicate ih => exact ih reads
  | project input columns ih => exact ih reads
  | limit input limit offset ih => exact ih reads
  | aggregate input aggs ih => exact ih reads
  | groupBy input groupBy aggs ih => exact ih reads
  | orderBy input columns ih => exact ih reads
  | _ => exact False.elim reads

omit [Float64 F] [ValueDebug F] in
/-- A SELECT reads from one table. -/
theorem reads_of_select (select : SelectPlan p) : ∃ ns table, ReadsFrom ns table p :=
  isQuery_iff_readsFrom.mp (isQuery_of_selectPlan select)

/-- A query over an unknown table says so, whatever its operators are. -/
theorem query_unknown (reads : ReadsFrom ns table p) (unbound : s.tableMeta ns table = none) :
    executePlan p s = .error (unknown (ns, table)) s := by
  have operator {input : PlanNode F} {f : List (Row F) → Exec F (ExecutionResult F)}
      (run : executePlan input s = .error (unknown (ns, table)) s) (message : String) :
      (expectRows message (executePlan input) >>= f) s =
        .error (unknown (ns, table)) s := by
    have stopped : executePlan input s = runExcept
        ((.error (unknown (ns, table)) : Except Stop (List (Row F))).map .rows) s := run
    rw [bind_run, expectRows_run stopped]
    rfl
  have guard (input : PlanNode F) (reads : ReadsFrom ns table input)
      (f : TableMeta → Exec F (ExecutionResult F)) :
      (do let tm ← orReturn (scanMeta (← get) input); f tm : Exec F (ExecutionResult F)) s =
        .error (unknown (ns, table)) s := by
    rw [bind_run, get_run]
    simp only [scanMeta_unknown reads unbound]
    rfl
  induction p with
  | scan table' ns' =>
    obtain ⟨rfl, rfl⟩ := reads
    rw [executePlan, bind_run, get_run]
    simp only [resolveTable, unbound]
    rfl
  | filter input predicate ih =>
    rw [executePlan, bind_run, get_run]
    simp only [scanMeta_unknown (p := input) reads unbound]
    rfl
  | aggregate input aggs ih =>
    rw [executePlan]
    exact guard input reads _
  | project input columns ih =>
    rw [executePlan]
    exact operator (ih reads) _
  | limit input limit offset ih =>
    rw [executePlan]
    exact operator (ih reads) _
  | groupBy input groupBy aggs ih =>
    rw [executePlan]
    exact operator (ih reads) _
  | orderBy input columns ih =>
    rw [executePlan]
    exact operator (ih reads) _
  | _ => exact False.elim reads

omit [Float64 F] [ValueDebug F] in
theorem onlyTable_queried (fresh : s.rowStore.Fresh) (p : PlanNode F) (tm : TableMeta) :
    OnlyTable tm.id s (queried p tm s) := by
  rw [queried]
  split
  · refine ⟨SessionState.catalog_flush _, ?_, fun _ other => sameContent_flush other⟩
    rw [SessionState.rowStore_flush]
    exact fresh
  · exact onlyTable_refl fresh _

/-- What a query does to the entry it reads from. -/
theorem act_query (reads : ReadsFrom ns table p) (entry : Option (Table F)) :
    act p entry = match entry with
      | some t => ((t.answer p).map .rows, some (if aggregates p then t.flush else t))
      | none => (.error (unknown (ns, table)), none) := by
  have about := subject_of_readsFrom reads
  cases p with
  | insert | createTable | dropTable | describeTable => exact False.elim reads
  | _ => cases entry <;> simp only [act, about]

omit [ValueDebug F] in
/-- A name is bound in both or in neither. -/
theorem entry_cases (represents : Represents d s) (ns : Option String) (table : String) :
    (s.tableMeta ns table = none ∧ d.tables (ns.getD "public") table = none) ∨
      ∃ tm t, s.tableMeta ns table = some tm ∧ d.tables (ns.getD "public") table = some t ∧
        Holds s tm t :=
  rel_cases (represents.tables (ns.getD "public") table)

omit [ValueDebug F] in
/-- A statement that leaves the entry of its name leaves the database. -/
theorem represents_same (represents : Represents d s) {entry : Option (Table F)}
    (found : d.tables (ns.getD "public") table = entry) :
    Represents (d.set (ns.getD "public") table entry) s := by
  rwa [Database.set_of_tables found]

/-- A statement answers alike in the session and in the database it represents. -/
theorem execute_refines (planned : Planned p) (represents : Represents d s) :
    (Database.execute p d).1 = outcome (executePlan p s) ∧
      Represents (Database.execute p d).2 (final (executePlan p s)) := by
  cases planned with
  | query select =>
    obtain ⟨ns, table, reads⟩ := reads_of_select select
    have others : creates p = false := by
      cases p with
      | createTable => exact False.elim reads
      | _ => rfl
    simp only [Database.execute, subject_of_readsFrom reads, act_query reads, others]
    rcases entry_cases represents ns table with ⟨unbound, none⟩ | ⟨tm, t, live, found, holds⟩
    · rw [none, query_unknown reads unbound]
      exact ⟨rfl, represents_same represents none⟩
    · rw [found, query_run reads live holds, outcome_runExcept, final_runExcept]
      refine ⟨rfl, ?_⟩
      have only := onlyTable_queried represents.freshRows p tm
      simp only [queried] at only ⊢
      split at only
      · rename_i flushes
        rw [if_pos flushes, if_pos flushes]
        exact represents_onlyTable represents live only (holds_flush holds)
      · rename_i still
        rw [if_neg still, if_neg still]
        exact represents_same represents found
  | insert table ns columns values =>
    simp only [Database.execute, subject, executePlan_insert]
    rcases entry_cases represents ns table with ⟨unbound, none⟩ | ⟨tm, t, live, found, holds⟩
    · rw [none, unbound]
      exact ⟨rfl, represents_same represents none⟩
    · obtain ⟨s', run, held, only⟩ := insertRows_holds represents.freshRows holds values 0
      simp only [found, live, run, Nat.zero_add, act]
      have after := represents_onlyTable represents live only held
      cases (t.insert values).1 with
      | none => exact ⟨rfl, after⟩
      | some e => exact ⟨rfl, after⟩
  | createTable table ns columns => exact ⟨rfl, represents_createTable represents ns table columns⟩
  | dropTable table ns =>
    simp only [Database.execute, subject, executePlan_dropTable]
    rcases entry_cases represents ns table with ⟨unbound, none⟩ | ⟨tm, t, live, found, holds⟩
    · rw [none, unbound]
      exact ⟨rfl, represents_same represents none⟩
    · rw [found, live]
      exact ⟨rfl, represents_dropTable represents live⟩
  | describeTable table ns =>
    simp only [Database.execute, subject]
    rw [executePlan, bind_run, get_run]
    rcases entry_cases represents ns table with ⟨unbound, none⟩ | ⟨tm, t, live, found, holds⟩
    · simp only [none, resolveTable, unbound]
      exact ⟨rfl, represents_same represents none⟩
    · simp only [found, resolveTable, live]
      refine ⟨?_, represents_same represents found⟩
      change Except.ok (ExecutionResult.rows t.describe) =
        Except.ok (ExecutionResult.rows (describeRows tm))
      rw [Table.describe, describeRows, holds.schema]
      rfl

end Statements

section Runs

theorem represents_new : Represents (.empty : Database F) .new := by
  have empty := sessionValid_new (F := F)
  constructor
  · exact empty.catalog
  · exact empty.freshRows
  · exact fun i _ => unused_of_catalog i
  · intro ns
    simp [Database.empty, SessionState.new, Catalog.new, Catalog.namespaceId]
  · intro ns table
    have unbound : (SessionState.new : SessionState F).catalog.getTable ns table = none := by
      simp [SessionState.new, Catalog.new, Catalog.getTable, Catalog.namespaceId]
    rw [unbound]
    exact .none

variable [FloatText F] [SqlText] [SqlParser] [ValueDebug F]

/-- A session as its client sees it: a text goes in, and a result, an error or a panic out. -/
def session : Machine String (Except Stop (ExecutionResult F)) (SessionState F) :=
  fun sql s => (outcome (execute sql s), final (execute sql s))

/-- The database of named tables, asked in the same texts. -/
def database : Machine String (Except Stop (ExecutionResult F)) (Database F) :=
  fun sql d =>
    match sqlToPlan sql with
    | .ok p => Database.execute p d
    | .error e => (.error (.error e), d)

theorem database_of_ok {sql : String} {p : PlanNode F} (accepted : sqlToPlan sql = .ok p)
    (d : Database F) : database sql d = Database.execute p d := by
  rw [database, accepted]

theorem database_of_error {sql : String} {e : RustafariError}
    (rejected : (sqlToPlan sql : Except RustafariError (PlanNode F)) = .error e)
    (d : Database F) : database sql d = (.error (.error e), d) := by
  rw [database, rejected]

theorem session_refines :
    Refines (fun s d => Represents d s) (session (F := F)) (database (F := F)) := by
  intro sql s d represents
  rw [session, execute_run]
  cases planned : (sqlToPlan sql : Except RustafariError (PlanNode F)) with
  | ok p =>
    rw [database_of_ok planned]
    exact execute_refines (planned_of_sql planned) represents
  | error e =>
    rw [database_of_error planned]
    exact ⟨rfl, represents⟩

/-- Whatever texts are executed one after another, a new session gives the answers of an
empty database of named tables. -/
theorem answers_of_named_tables (texts : List String) :
    answers (session (F := F)) texts .new = answers (database (F := F)) texts .empty :=
  (refines_run session_refines texts represents_new).1.symm

end Runs

end NamedTableRefinement
