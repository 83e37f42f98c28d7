import RustafariDB.AggregateAgreement
import RustafariDB.CatalogPersistence
import RustafariDB.IndexLookups
import RustafariDB.TableViews

/-!
# A new table is empty

CREATE TABLE takes the next table id, and no store ever holds anything under that id or a
later one. This needs little of the catalog, so it also holds after a server has loaded a
snapshot that no catalog would have written. What earlier tables of the same name left
behind, in the columnar buffer after a DROP or everywhere after a second CREATE, lies
under earlier ids.
-/

namespace FreshTables

open Std OrderedMaps Catalogs Values RowStorage ColumnarStorage BTreeIndexing Plans Floats
open Sessions Aggregates Execution StatefulPrograms CatalogInvariants PlanEffects
open SessionInvariants AggregateAgreement IndexLookups TableViews

variable {F : Type}

section Startup

/-- The session a server starts with: new, or with the catalog of a snapshot. -/
def startup (snap : Option CatalogSnapshot) : SessionState F :=
  match snap with
  | none => .new
  | some snap => { SessionState.new with catalog := Catalog.new.loadSnapshot snap }

/-- Nothing is stored under a table id. -/
structure Unused (t : Nat) (s : SessionState F) : Prop where
  rows : s.rowStore.scan t = []
  chunks : s.columnarStore.chunksOf t = []
  buffer : s.buffered t = []
  indexes : ∀ column, s.getIndex t column = none

/-- Names are bound below the counter and data is stored below it. -/
structure FreshIds (s : SessionState F) : Prop where
  names : ∀ (k : Nat × String) (tm : TableMeta),
    s.catalog.tablesByName[k]? = some tm → tm.id < s.catalog.nextTableId
  unused : ∀ t, s.catalog.nextTableId ≤ t → Unused t s

variable {s s' : SessionState F}

theorem bound_below (fresh : FreshIds s) {tm : TableMeta} (bound : Bound s tm) :
    tm.id < s.catalog.nextTableId := by
  obtain ⟨ns, name, found⟩ := bound
  obtain ⟨i, _, named⟩ := getTable_eq_some.mp found
  exact fresh.names _ tm named

theorem unused_of_catalog {c : Catalog} (t : Nat) :
    Unused t ({ SessionState.new with catalog := c } : SessionState F) := by
  constructor
  · exact TableStore.scan_new t
  · exact ColumnarStore.chunksOf_new t
  · simp [SessionState.new, SessionState.buffered]
  · simp [SessionState.new, SessionState.getIndex]

theorem freshIds_startup (snap : Option CatalogSnapshot) :
    FreshIds (startup snap : SessionState F) := by
  cases snap with
  | none =>
    constructor
    · intro k tm named
      simp [startup, SessionState.new, Catalog.new] at named
    · exact fun t _ => unused_of_catalog t
  | some snap =>
    constructor
    · intro k tm named
      have collected : (collect (fun tm => (tm.namespaceId, tm.name)) TableMeta.rebuilt
          snap.tables)[k]? = some tm := named
      obtain ⟨listed, inside, _, rfl⟩ := exists_of_getElem?_collect collected
      have below := (CatalogPersistence.le_foldl_max TableMeta.id snap.tables 0).2 listed inside
      exact Nat.lt_succ_of_le below
    · exact fun t _ => unused_of_catalog t

end Startup

section Steps
variable {s s' : SessionState F} {t : Nat}

theorem unused_of_sameContent (unused : Unused t s) (same : SameContent t s s') :
    Unused t s' := by
  constructor
  · rw [same.rows, unused.rows]
  · have chunks := same.chunks
    rw [unused.chunks] at chunks
    exact List.forall₂_nil_left_iff.mp chunks
  · rw [same.buffer, unused.buffer]
  · exact fun column => (same.index column).trans (unused.indexes column)

/-- A state that follows a fresh one is fresh when the counter does not fall, names stay
below it, and nothing is stored above it. -/
theorem freshIds_of_frame (fresh : FreshIds s)
    (names : ∀ (k : Nat × String) (tm : TableMeta),
      s'.catalog.tablesByName[k]? = some tm → tm.id < s'.catalog.nextTableId)
    (grown : s.catalog.nextTableId ≤ s'.catalog.nextTableId)
    (same : ∀ t, s'.catalog.nextTableId ≤ t → SameContent t s s') : FreshIds s' :=
  ⟨names, fun t above => unused_of_sameContent (fresh.unused t (by omega)) (same t above)⟩

theorem nextTableId_dropTable (c : Catalog) (ns name : String) :
    (c.dropTable ns name).2.nextTableId = c.nextTableId := by
  rw [Catalog.dropTable]
  split
  · rfl
  · split <;> rfl

theorem tablesByName_dropTable_of_some {c : Catalog} {ns name : String} {k : Nat × String}
    {tm : TableMeta} (named : (c.dropTable ns name).2.tablesByName[k]? = some tm) :
    c.tablesByName[k]? = some tm := by
  rw [Catalog.dropTable] at named
  split at named
  · exact named
  · split at named
    · exact named
    · simp only [ExtTreeMap.getElem?_erase] at named
      split at named
      · cases named
      · exact named

theorem freshIds_createTable (fresh : FreshIds s) (ns : Option String) (table : String)
    (columns : List (String × ColumnType)) : FreshIds (createTable s ns table columns) := by
  have catalog := (createTable_frame s ns table columns).1
  have next : (createTable s ns table columns).catalog.nextTableId =
      s.catalog.nextTableId + 1 := by
    rw [catalog, nextTableId_createTable]
  refine freshIds_of_frame fresh ?_ (by omega) (fun t above => ?_)
  · intro k tm named
    rw [catalog, tablesByName_createTable] at named
    split at named
    · obtain rfl := Option.some.inj named
      rw [next, (createdMeta_fields _ _ _ _ _).1]
      omega
    · have below := fresh.names k tm named
      omega
  · apply sameContent_createTable
    omega

theorem freshIds_dropTable (fresh : FreshIds s) {tm : TableMeta} {ns : Option String}
    {table : String} (resolved : s.tableMeta ns table = some tm) :
    FreshIds (dropTable s tm ns table) := by
  have next : (dropTable s tm ns table).catalog.nextTableId = s.catalog.nextTableId :=
    nextTableId_dropTable _ _ _
  have below := bound_below fresh (bound_of_tableMeta resolved)
  refine freshIds_of_frame fresh ?_ (by omega) (fun t above => ?_)
  · intro k tm' named
    rw [next]
    exact fresh.names k tm' (tablesByName_dropTable_of_some named)
  · apply sameContent_dropTable
    omega

variable [Float64 F]

theorem freshIds_step {strands : Prop} (step : Step strands s s') (fresh : FreshIds s) :
    FreshIds s' := by
  cases step with
  | @flush tm bound =>
    have below := bound_below fresh bound
    have catalog : (s.flushColumnarBuffer tm.id tm.schema).catalog = s.catalog :=
      SessionState.catalog_flush tm.id
    refine freshIds_of_frame fresh ?_ ?_ (fun t above => ?_)
    · rw [catalog]
      exact fresh.names
    · rw [catalog]
    · rw [catalog] at above
      apply sameContent_flush
      omega
  | @storeRow tm bound row =>
    have below := bound_below fresh bound
    have catalog := catalog_stored s tm row
    refine freshIds_of_frame fresh ?_ ?_ (fun t above => ?_)
    · rw [catalog]
      exact fresh.names
    · rw [catalog]
    · rw [catalog] at above
      apply sameContent_stored
      omega
  | @strandRow tm allowed bound row e blocked =>
    have below := bound_below fresh bound
    refine freshIds_of_frame fresh fresh.names (Nat.le_refl _) (fun t above => ?_)
    have above : s.catalog.nextTableId ≤ t := above
    apply sameContent_withRow
    omega
  | createTable ns table columns => exact freshIds_createTable fresh ns table columns
  | dropTable ns table resolved => exact freshIds_dropTable fresh resolved

variable [ValueDebug F]

/-- Ids stay fresh in every run from a startup. -/
theorem freshIds_runPlans (snap : Option CatalogSnapshot) (plans : List (PlanNode F)) :
    FreshIds (runPlans plans (startup snap)) := by
  induction plans using List.reverseRecOn with
  | nil => exact freshIds_startup snap
  | append_singleton plans p ih =>
    have last : runPlans (plans ++ [p]) (startup snap) =
        final (executePlan p (runPlans plans (startup snap))) := by
      rw [runPlans, List.foldl_append]
      rfl
    rw [last]
    exact steps_invariant (fun _ _ => freshIds_step)
      (executePlan_steps True p _ (Or.inl trivial)) ih

end Steps

section Empty
variable [Float64 F]

/-- Aggregates that read declared columns only. -/
def OverColumns (columns : List (String × ColumnType)) : AggExpr → Prop
  | .countStar => True
  | .count c | .sum c | .avg c | .min c | .max c => c ∈ columns.map Prod.fst

/-- What an aggregate over no rows returns. -/
def emptyAnswer : AggExpr → Value F
  | .countStar | .count _ => .int64 0
  | .sum _ | .avg _ | .min _ | .max _ => .null

omit [Float64 F] in
theorem columnOrError_created {columns : List (String × ColumnType)} {c : String}
    (declared : c ∈ columns.map Prod.fst) :
    ∃ i, columnOrError (createdSchema columns) c = .ok i := by
  obtain ⟨col, inside, rfl⟩ := List.mem_map.mp declared
  have listed : (⟨col.1, col.2, true⟩ : Column) ∈
      columns.map (fun c => (⟨c.1, c.2, true⟩ : Column)) := List.mem_map_of_mem inside
  obtain ⟨i, found⟩ := nameIndex_isSome listed
  refine ⟨i, ?_⟩
  have index : (createdSchema columns).columnIndex col.1 = some i := found
  rw [columnOrError, index]

theorem aggregate_no_rows {columns : List (String × ColumnType)} {agg : AggExpr}
    (declared : OverColumns columns agg) :
    aggregateOverRowSlice ([] : List (Row F)) (createdSchema columns) agg =
      .ok (emptyAnswer agg) := by
  cases agg with
  | countStar => rfl
  | _ c =>
    obtain ⟨i, found⟩ := columnOrError_created declared
    rw [aggregateOverRowSlice, found]
    rfl

variable [ValueDebug F] {s : SessionState F} {tm : TableMeta} {ns : Option String}
variable {table : String} {columns : List (String × ColumnType)}

/-- A query over a table that holds nothing, with at most an empty index. -/
theorem answers_of_empty (htm : s.tableMeta ns table = some tm)
    (schema : tm.schema = createdSchema columns) (rows : s.rowStore.scan tm.id = [])
    (chunks : s.columnarStore.chunksOf tm.id = []) (buffer : s.buffered tm.id = [])
    (index : ∀ index, s.getIndex tm.id "id" = some index → index = .new) :
    executePlan (.scan table ns) s = .ok (.rows []) s ∧
      (∀ aggs, (∀ agg ∈ aggs, OverColumns columns agg) →
        outcome (executePlan (.aggregate (.scan table ns) aggs) s) =
          .ok (.rows [.new (aggs.map emptyAnswer)])) ∧
      ∀ v key, IndexKey.fromValue v = .ok key →
        executePlan (.filter (.scan table ns) (.cmp "id" .eq v)) s = .ok (.rows []) s := by
  have scanned : scanRows s tm = [] := by
    rw [scanRows, rows, List.map_nil]
  have scan : executePlan (.scan table ns) s = .ok (.rows []) s := by
    rw [executePlan_scan htm, scanned]
  refine ⟨scan, ?_, ?_⟩
  · intro aggs declared
    have flushed : s.flushColumnarBuffer tm.id tm.schema = s := by
      rw [SessionState.flushColumnarBuffer_eq, if_pos buffer]
    have noChunk : flushedChunks s tm = [] := by
      rw [flushedChunks, flushed, chunks]
    have live : scanMeta s (.scan table ns) = .ok tm := resolveTable_eq_ok.mpr htm
    rw [aggregate_of_rows live noChunk (by rw [flushed, scan]), oneRow, schema,
      mapM_of_forall (fun agg inside => aggregate_no_rows (declared agg inside))]
    rfl
  · intro v key hkey
    rw [executePlan_filterScan htm, scanned]
    rcases indexPath_cases s tm ns table (.cmp "id" .eq v) with path | ⟨i, l, indexed, rec, path⟩
    · rw [path]
      rfl
    · obtain rfl := index i indexed
      cases rec
      rw [path]
      simp only [lookupIds_keyed _ hkey, get_new, List.filterMap_nil]

end Empty

section Created
variable {s : SessionState F} {ns : Option String} {table : String}
variable {columns : List (String × ColumnType)}

/-- The entry a CREATE TABLE makes. -/
def newMeta (s : SessionState F) (ns : Option String) (table : String)
    (columns : List (String × ColumnType)) : TableMeta :=
  createdMeta s.catalog (ns.getD "public") table (createdSchema columns) none

theorem newMeta_id : (newMeta s ns table columns).id = s.catalog.nextTableId :=
  (createdMeta_fields _ _ _ _ _).1

theorem newMeta_schema : (newMeta s ns table columns).schema = createdSchema columns :=
  (createdMeta_fields _ _ _ _ _).2.2.2

/-- A known namespace keeps its id. -/
theorem namespaces_createNamespace_of_known {c : Catalog} (name : String) {ns : String} {i : Nat}
    (known : c.namespaces[ns]? = some i) :
    (c.createNamespace name).2.namespaces[ns]? = some i := by
  rw [namespaces_createNamespace]
  split
  · rename_i same
    subst same
    rcases createNamespace_id c name with ⟨found, _⟩ | ⟨unknown, _⟩
    · rw [← found, known]
    · rw [unknown] at known
      cases known
  · exact known

theorem tableMeta_created (s : SessionState F) (ns : Option String) (table : String)
    (columns : List (String × ColumnType)) :
    (createTable s ns table columns).tableMeta ns table = some (newMeta s ns table columns) := by
  rw [SessionState.tableMeta, (createTable_frame s ns table columns).1]
  refine getTable_eq_some.mpr ⟨(s.catalog.createNamespace (ns.getD "public")).1, ?_, ?_⟩
  · have own := namespaces_createNamespace s.catalog (ns.getD "public") (ns.getD "public")
    rwa [if_pos rfl] at own
  · rw [tablesByName_createTable, if_pos rfl]
    rfl

/-- A name that was bound is rebound to the new table or keeps its binding. -/
theorem tableMeta_createTable {ns' : Option String} {table' : String} {tm' : TableMeta}
    (live : s.tableMeta ns' table' = some tm') :
    (createTable s ns table columns).tableMeta ns' table' = some (newMeta s ns table columns) ∨
      (createTable s ns table columns).tableMeta ns' table' = some tm' := by
  obtain ⟨i, space, named⟩ := getTable_eq_some.mp live
  have catalog := (createTable_frame s ns table columns).1
  have space' := namespaces_createNamespace_of_known (ns.getD "public") space
  have named' : (s.catalog.createTable (ns.getD "public") table (createdSchema columns)
      none).2.tablesByName[(i, table')]? =
        if ((s.catalog.createNamespace (ns.getD "public")).1, table) = (i, table') then
          some (newMeta s ns table columns) else s.catalog.tablesByName[(i, table')]? :=
    tablesByName_createTable s.catalog _ _
  rw [SessionState.tableMeta, catalog]
  split at named'
  · exact Or.inl (getTable_eq_some.mpr ⟨i, space', named'⟩)
  · exact Or.inr (getTable_eq_some.mpr ⟨i, space', named'.trans named⟩)

variable [Float64 F] [ValueDebug F]

/-- A loaded catalog with a table; another one created, filled and dropped. -/
def droppedBuffered : SessionState Float :=
  runPlans [.createTable "t" none [("id", .bigInt)], .insert "t" none [] [[.int64 1]],
      .dropTable "t" none]
    (startup (some ⟨[("public", 0)], [.new 4 0 "u" (.new [⟨"id", .bigInt, true⟩])]⟩))

end Created

end FreshTables
