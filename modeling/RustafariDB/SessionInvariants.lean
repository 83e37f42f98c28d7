import RustafariDB.CatalogInvariants
import RustafariDB.PlanEffects

/-!
# Invariants of every session

What holds in every state that statements can reach, including those that
failed half-way: fresh ids, nothing stored under an unused table id, an id index
for exactly the tables with an id column, and indexes that list the stored rows.
The columnar store is not related to the row store here; a stranded row breaks
that relation.
-/

namespace SessionInvariants

open Std Catalogs Values RowStorage ColumnarStorage BTreeIndexing Floats Sessions Execution
open CatalogInvariants PlanEffects

variable {F : Type} [Float64 F]

structure SessionValid (s : SessionState F) : Prop where
  catalog : Valid s.catalog
  freshRows : s.rowStore.Fresh
  noRows : ∀ t, s.catalog.nextTableId ≤ t → s.rowStore.scan t = []
  noChunks : ∀ t, s.catalog.nextTableId ≤ t →
    s.columnarStore.chunksOf t = [] ∧ s.buffered t = []
  smallBuffers : ∀ t, (s.buffered t).length < columnarChunkSize
  indexed : ∀ (t : Nat) (tm : TableMeta), s.catalog.tablesById[t]? = some tm →
    (tm.schema.columnIndex "id").isSome → (s.getIndex t "id").isSome
  contents : ∀ (t : Nat) (c : String) (index : BTreeIndex), s.getIndex t c = some index →
    c = "id" ∧ ∃ tm i, s.catalog.tablesById[t]? = some tm ∧
      tm.schema.columnIndex "id" = some i ∧ Indexes index (idKey i) (s.rowStore.scan t)

variable {s : SessionState F}

omit [Float64 F] in
theorem bound_known (valid : Valid s.catalog) {tm : TableMeta} (bound : Bound s tm) :
    s.catalog.tablesById[tm.id]? = some tm := by
  obtain ⟨ns, name, h⟩ := bound
  exact (getTable_spec valid.toUniqueIds h).2.2

omit [Float64 F] in
theorem bound_lt (valid : Valid s.catalog) {tm : TableMeta} (bound : Bound s tm) :
    tm.id < s.catalog.nextTableId :=
  (valid.byId _ _ (bound_known valid bound)).2

/-- A bound table with an id column has an index. -/
theorem index_of_idColumn (valid : SessionValid s) {tm : TableMeta} (bound : Bound s tm) {i : Nat}
    (hcol : tm.schema.columnIndex "id" = some i) :
    ∃ index, s.getIndex tm.id "id" = some index := by
  apply Option.isSome_iff_exists.mp
  exact valid.indexed tm.id tm (bound_known valid.catalog bound)
    (by rw [hcol, Option.isSome_some])

theorem sessionValid_new : SessionValid (SessionState.new : SessionState F) := by
  constructor
  · exact valid_new
  · intro t r row h
    simp [SessionState.new, TableStore.new, TableStore.get] at h
  · exact fun t _ => TableStore.scan_new t
  · intro t _
    exact ⟨ColumnarStore.chunksOf_new t, by simp [SessionState.new, SessionState.buffered]⟩
  · intro t
    simp [SessionState.new, SessionState.buffered, columnarChunkSize]
  · intro t tm h
    simp [SessionState.new, Catalog.new] at h
  · intro t c index h
    simp [SessionState.new, SessionState.getIndex] at h

section Columnar

theorem sessionValid_flush (valid : SessionValid s) {tm : TableMeta} (bound : Bound s tm) :
    SessionValid (s.flushColumnarBuffer tm.id tm.schema) := by
  have live := bound_lt valid.catalog bound
  constructor
  · rw [SessionState.catalog_flush]
    exact valid.catalog
  · rw [SessionState.rowStore_flush]
    exact valid.freshRows
  · rw [SessionState.catalog_flush, SessionState.rowStore_flush]
    exact valid.noRows
  · rw [SessionState.catalog_flush]
    intro t ht
    have other : tm.id ≠ t := by omega
    rw [SessionState.chunksOf_flush_other other, SessionState.buffered_flush, if_neg other]
    exact valid.noChunks t ht
  · intro t
    rw [SessionState.buffered_flush]
    split
    · exact Nat.zero_lt_succ _
    · exact valid.smallBuffers t
  · rw [SessionState.catalog_flush]
    simp only [SessionState.getIndex, SessionState.indexStore_flush]
    exact valid.indexed
  · rw [SessionState.catalog_flush, SessionState.rowStore_flush]
    simp only [SessionState.getIndex, SessionState.indexStore_flush]
    exact valid.contents

end Columnar

section Rows

/-- Rows of other tables and unused ids are not affected by an insert. -/
theorem noRows_insert (valid : SessionValid s) {tm : TableMeta} (bound : Bound s tm)
    (row : Row F) (t : Nat) (ht : s.catalog.nextTableId ≤ t) :
    (s.rowStore.insert tm.id row).2.scan t = [] := by
  have live := bound_lt valid.catalog bound
  rw [TableStore.scan_insert_other (by omega)]
  exact valid.noRows t ht

omit [Float64 F] in
/-- A row added to a table is its last one. -/
theorem scanRows_withRow (fresh : s.rowStore.Fresh) (tm : TableMeta) (row : Row F) :
    scanRows (withRow s tm.id row) tm = scanRows s tm ++ [row] := by
  rw [scanRows, withRow, TableStore.scan_insert_self fresh, List.map_append]
  rfl

theorem idKey_of_blocked {tm : TableMeta} {row : Row F} {e : RustafariError} {i : Nat}
    (hcol : tm.schema.columnIndex "id" = some i) (blocked : blockedBy s tm row = some e) :
    idKey i row = none := by
  rw [blockedBy, hcol] at blocked
  rw [idKey]
  cases hindex : s.getIndex tm.id "id" with
  | none => simp [hindex] at blocked
  | some index =>
    cases hval : row.get i with
    | none => rfl
    | some v =>
      cases hkey : IndexKey.fromValue v with
      | error e' => simp [hkey, Except.toOption]
      | ok key => simp [hindex, hval, hkey] at blocked

theorem sessionValid_strandRow (valid : SessionValid s) {tm : TableMeta} (bound : Bound s tm)
    {row : Row F} {e : RustafariError} (blocked : blockedBy s tm row = some e) :
    SessionValid (withRow s tm.id row) := by
  constructor
  · exact valid.catalog
  · exact TableStore.fresh_insert valid.freshRows tm.id row
  · exact noRows_insert valid bound row
  · exact valid.noChunks
  · exact valid.smallBuffers
  · exact valid.indexed
  · intro t c index h
    obtain ⟨hc, tm', i, htm, hcol, listed⟩ := valid.contents t c index h
    refine ⟨hc, tm', i, htm, hcol, ?_⟩
    by_cases ht : tm.id = t
    · subst ht
      have same : tm' = tm := by
        rw [bound_known valid.catalog bound] at htm
        exact (Option.some.inj htm).symm
      subst same
      rw [withRow, TableStore.scan_insert_self valid.freshRows]
      exact indexes_skip listed (idKey_of_blocked hcol blocked) _
    · rw [withRow, TableStore.scan_insert_other (Ne.symm ht)]
      exact listed

theorem columnar_stored_other {tm : TableMeta} {t : Nat} (other : tm.id ≠ t) (row : Row F) :
    (stored s tm row).buffered t = s.buffered t ∧
      (stored s tm row).columnarStore.chunksOf t = s.columnarStore.chunksOf t := by
  obtain ⟨hstore, hbuffer⟩ :=
    columnar_fileRow (withRow s tm.id row) tm row s.rowStore.nextRowId
  have push := SessionState.columnar_push_other
    (fileRow (withRow s tm.id row) tm row s.rowStore.nextRowId) tm.schema other row
  rw [SessionState.buffered, SessionState.buffered, hstore, hbuffer] at push
  exact push

theorem length_buffered_stored (small : ∀ t, (s.buffered t).length < columnarChunkSize)
    (tm : TableMeta) (row : Row F) (t : Nat) :
    ((stored s tm row).buffered t).length < columnarChunkSize := by
  refine SessionState.length_buffered_push tm.id row (fun u => ?_) t
  have hbuffer := (columnar_fileRow (withRow s tm.id row) tm row s.rowStore.nextRowId).2
  rw [SessionState.buffered, hbuffer]
  exact small u

/-- The index of the table a row is stored in goes on listing the rows. -/
theorem indexes_stored (fresh : s.rowStore.Fresh) {tm : TableMeta} {row : Row F} {i : Nat}
    {old index : BTreeIndex} (hcol : tm.schema.columnIndex "id" = some i)
    (hold : s.getIndex tm.id "id" = some old)
    (listed : Indexes old (idKey i) (s.rowStore.scan tm.id))
    (h : (stored s tm row).getIndex tm.id "id" = some index) :
    Indexes index (idKey i) ((s.rowStore.insert tm.id row).2.scan tm.id) := by
  rw [TableStore.scan_insert_self fresh]
  rw [getIndex_stored, getIndex_fileRow, hcol, Option.bind_some] at h
  cases hkey : idKey i row with
  | none =>
    simp only [hkey] at h
    rw [hold] at h
    obtain rfl := Option.some.inj h
    exact indexes_skip listed hkey _
  | some key =>
    simp only [hkey, if_pos] at h
    rw [hold] at h
    obtain rfl := Option.some.inj h
    exact indexes_insert listed hkey _

theorem sessionValid_storeRow (valid : SessionValid s) {tm : TableMeta} (bound : Bound s tm)
    (row : Row F) : SessionValid (stored s tm row) := by
  have live := bound_lt valid.catalog bound
  constructor
  · rw [catalog_stored]
    exact valid.catalog
  · rw [rowStore_stored]
    exact TableStore.fresh_insert valid.freshRows tm.id row
  · rw [catalog_stored, rowStore_stored]
    exact noRows_insert valid bound row
  · rw [catalog_stored]
    intro t ht
    have other : tm.id ≠ t := by omega
    obtain ⟨hbuffer, hchunks⟩ := columnar_stored_other (s := s) other row
    rw [hbuffer, hchunks]
    exact valid.noChunks t ht
  · exact length_buffered_stored valid.smallBuffers tm row
  · rw [catalog_stored]
    intro t tm' htm hcol
    rw [isSome_getIndex_stored]
    exact valid.indexed t tm' htm hcol
  · rw [catalog_stored, rowStore_stored]
    intro t c index h
    have was := isSome_getIndex_stored s tm row t c
    rw [h] at was
    obtain ⟨old, hold⟩ := Option.isSome_iff_exists.mp was.symm
    obtain ⟨rfl, tm', i, htm, hcol, listed⟩ := valid.contents t c old hold
    refine ⟨rfl, tm', i, htm, hcol, ?_⟩
    by_cases ht : tm.id = t
    · subst ht
      have same : tm' = tm := by
        rw [bound_known valid.catalog bound] at htm
        exact (Option.some.inj htm).symm
      subst same
      exact indexes_stored valid.freshRows hcol hold listed h
    · have kept : (stored s tm row).getIndex t "id" = s.getIndex t "id" := by
        rw [getIndex_stored, getIndex_fileRow]
        split
        · exact if_neg (fun heq => ht (Prod.mk.inj heq).1)
        · rfl
      rw [kept, hold] at h
      obtain rfl := Option.some.inj h
      rw [TableStore.scan_insert_other (Ne.symm ht)]
      exact listed

section Stored

theorem fresh_storedAll (fresh : s.rowStore.Fresh) (tm : TableMeta)
    (values : List (List (Value F))) : (storedAll s tm values).rowStore.Fresh := by
  induction values generalizing s with
  | nil => exact fresh
  | cons vals values ih =>
    refine ih ?_
    rw [rowStore_stored]
    exact TableStore.fresh_insert fresh tm.id _

/-- Stored rows follow in the order they were given, under the next row ids. -/
theorem scan_storedAll_ids (fresh : s.rowStore.Fresh) (tm : TableMeta)
    (values : List (List (Value F))) :
    (storedAll s tm values).rowStore.scan tm.id = s.rowStore.scan tm.id ++
      (values.zipIdx s.rowStore.nextRowId).map (fun e => (e.2, .new e.1)) := by
  induction values generalizing s with
  | nil => simp [storedAll]
  | cons vals values ih =>
    have fresh' : (stored s tm (.new vals)).rowStore.Fresh := by
      rw [rowStore_stored]
      exact TableStore.fresh_insert fresh tm.id _
    have next : (stored s tm (.new vals)).rowStore.nextRowId = s.rowStore.nextRowId + 1 := by
      rw [rowStore_stored]
      rfl
    rw [storedAll_cons, ih fresh', next, rowStore_stored, TableStore.scan_insert_self fresh]
    simp

theorem scan_storedAll_self (fresh : s.rowStore.Fresh) (tm : TableMeta)
    (values : List (List (Value F))) :
    ((storedAll s tm values).rowStore.scan tm.id).map Prod.snd =
      (s.rowStore.scan tm.id).map Prod.snd ++ values.map Row.new := by
  have rows : ((fun e : Nat × Row F => e.2) ∘ fun e : List (Value F) × Nat => (e.2, Row.new e.1)) =
      Row.new ∘ Prod.fst := rfl
  rw [scan_storedAll_ids fresh, List.map_append, List.map_map, rows, ← List.map_map,
    List.zipIdx_map_fst]

theorem scan_storedAll_other {tm : TableMeta} {t : Nat} (other : t ≠ tm.id)
    (values : List (List (Value F))) :
    (storedAll s tm values).rowStore.scan t = s.rowStore.scan t := by
  induction values generalizing s with
  | nil => rfl
  | cons vals values ih =>
    rw [storedAll_cons, ih, rowStore_stored, TableStore.scan_insert_other other]

end Stored

end Rows

section Tables

variable {ns : Option String} {table : String} {columns : List (String × ColumnType)}

/-- The schema CREATE TABLE builds. -/
def createdSchema (columns : List (String × ColumnType)) : Schema :=
  .new (columns.map (fun c => ⟨c.1, c.2, true⟩))

omit [Float64 F] in
theorem createTable_frame (s : SessionState F) (ns : Option String) (table : String)
    (columns : List (String × ColumnType)) :
    (createTable s ns table columns).catalog =
        (s.catalog.createTable (ns.getD "public") table (createdSchema columns) none).2 ∧
      (createTable s ns table columns).rowStore = s.rowStore ∧
      (createTable s ns table columns).columnarStore = s.columnarStore ∧
      (createTable s ns table columns).columnarBuffer = s.columnarBuffer := by
  simp only [createTable]
  split <;> exact ⟨rfl, rfl, rfl, rfl⟩

omit [Float64 F] in
/-- A table with an id column gets an empty index under its fresh id. -/
theorem getIndex_createTable (s : SessionState F) (u : Nat) (c : String) :
    (createTable s ns table columns).getIndex u c =
      if ((createdSchema columns).columnIndex "id").isSome ∧
          (s.catalog.nextTableId, "id") = (u, c) then some .new
      else s.getIndex u c := by
  obtain ⟨hid, _, _, hschema⟩ := createdMeta_fields s.catalog (ns.getD "public") table
    (createdSchema columns) none
  have hcol : (createdMeta s.catalog (ns.getD "public") table (createdSchema columns)
      none).schema.columnIndex "id" = (createdSchema columns).columnIndex "id" := by
    rw [hschema]
  rw [createdMeta] at hid hcol
  simp only [createTable]
  split
  · rename_i i found
    have indexed := hcol.symm.trans found
    have created : (s.catalog.createTable (ns.getD "public") table
        (Schema.new (columns.map (fun c => ⟨c.1, c.2, true⟩))) none).1.id =
          s.catalog.nextTableId := hid
    simp only [SessionState.getIndex, ExtTreeMap.getElem?_insert,
      LawfulEqCmp.compare_eq_iff_eq, indexed, created, Option.isSome_some, true_and]
  · rename_i missing
    have unindexed := hcol.symm.trans missing
    rw [unindexed]
    rfl

theorem sessionValid_createTable (valid : SessionValid s) :
    SessionValid (createTable s ns table columns) := by
  obtain ⟨hcatalog, hrows, hstore, hbuffer⟩ :=
    createTable_frame s ns table columns
  have next : (createTable s ns table columns).catalog.nextTableId =
      s.catalog.nextTableId + 1 := by
    rw [hcatalog, nextTableId_createTable]
  have byId (t : Nat) : (createTable s ns table columns).catalog.tablesById[t]? =
      if s.catalog.nextTableId = t then some (createdMeta s.catalog (ns.getD "public") table
        (createdSchema columns) none) else s.catalog.tablesById[t]? := by
    rw [hcatalog, tablesById_createTable]
  have hschema := (createdMeta_fields s.catalog (ns.getD "public") table
    (createdSchema columns) none).2.2.2
  have buffered (t : Nat) : (createTable s ns table columns).buffered t = s.buffered t := by
    rw [SessionState.buffered, hbuffer, SessionState.buffered]
  constructor
  · rw [hcatalog]
    exact valid_createTable valid.catalog
  · rw [hrows]
    exact valid.freshRows
  · rw [next, hrows]
    exact fun t ht => valid.noRows t (by omega)
  · rw [next, hstore]
    intro t ht
    rw [buffered]
    exact valid.noChunks t (by omega)
  · intro t
    rw [buffered]
    exact valid.smallBuffers t
  · intro t tm htm hcol
    rw [byId] at htm
    rw [getIndex_createTable]
    split at htm
    · rename_i heq
      obtain rfl := Option.some.inj htm
      rw [hschema] at hcol
      rw [if_pos ⟨hcol, by rw [heq]⟩]
      rfl
    · rename_i hne
      rw [if_neg (fun h => hne (Prod.mk.inj h.2).1)]
      exact valid.indexed t tm htm hcol
  · intro t c index h
    rw [getIndex_createTable] at h
    rw [byId, hrows]
    split at h
    · rename_i new
      obtain ⟨rfl, rfl⟩ := Prod.mk.inj new.2
      obtain rfl := Option.some.inj h
      obtain ⟨i, hi⟩ := Option.isSome_iff_exists.mp new.1
      refine ⟨rfl, _, i, if_pos rfl, by rw [hschema, hi], ?_⟩
      rw [valid.noRows _ (Nat.le_refl _)]
      exact indexes_new
    · obtain ⟨hc, tm, i, htm, hcol, listed⟩ := valid.contents t c index h
      have hlt := (valid.catalog.byId t tm htm).2
      exact ⟨hc, tm, i, by rw [if_neg (by omega), htm], hcol, listed⟩

variable {tm : TableMeta}

omit [Float64 F] in
theorem getIndex_dropTable (s : SessionState F) (u : Nat) (c : String) :
    (dropTable s tm ns table).getIndex u c = if tm.id = u then none else s.getIndex u c := by
  exact SessionState.getIndex_retain s tm.id u c

theorem sessionValid_dropTable (valid : SessionValid s)
    (resolved : s.tableMeta ns table = some tm) : SessionValid (dropTable s tm ns table) := by
  have byId (t : Nat) := tablesById_dropTable valid.catalog.toUniqueIds resolved t
  have next : (s.catalog.dropTable (ns.getD "public") table).2.nextTableId =
      s.catalog.nextTableId := by
    rw [dropTable_of_bound valid.catalog.toUniqueIds resolved]
  constructor
  · exact valid_dropTable valid.catalog
  · exact TableStore.fresh_dropTable valid.freshRows tm.id
  · intro t ht
    change (s.rowStore.dropTable tm.id).scan t = []
    by_cases other : t = tm.id
    · rw [other, TableStore.scan_dropTable_self]
    · rw [TableStore.scan_dropTable_other other]
      exact valid.noRows t (next ▸ ht)
  · intro t ht
    obtain ⟨hchunks, hbuffer⟩ := valid.noChunks t (next ▸ ht)
    refine ⟨?_, hbuffer⟩
    change (s.columnarStore.dropTable tm.id).chunksOf t = []
    rw [ColumnarStore.chunksOf_dropTable, hchunks, ite_self]
  · exact valid.smallBuffers
  · intro t tm' htm hcol
    change (s.catalog.dropTable (ns.getD "public") table).2.tablesById[t]? = some tm' at htm
    rw [byId] at htm
    rw [getIndex_dropTable]
    split at htm
    · cases htm
    · rename_i hne
      rw [if_neg hne]
      exact valid.indexed t tm' htm hcol
  · intro t c index h
    rw [getIndex_dropTable] at h
    split at h
    · cases h
    · rename_i hne
      obtain ⟨hc, tm', i, htm, hcol, listed⟩ := valid.contents t c index h
      refine ⟨hc, tm', i, ?_, hcol, ?_⟩
      · change (s.catalog.dropTable (ns.getD "public") table).2.tablesById[t]? = some tm'
        rw [byId, if_neg hne, htm]
      · change Indexes index (idKey i) ((s.rowStore.dropTable tm.id).scan t)
        rw [TableStore.scan_dropTable_other (Ne.symm hne)]
        exact listed

end Tables

section Runs

theorem sessionValid_step {strands : Prop} {s s' : SessionState F} (step : Step strands s s')
    (valid : SessionValid s) : SessionValid s' := by
  cases step with
  | flush bound => exact sessionValid_flush valid bound
  | storeRow bound row => exact sessionValid_storeRow valid bound row
  | strandRow allowed bound row e blocked => exact sessionValid_strandRow valid bound blocked
  | createTable ns table columns => exact sessionValid_createTable valid
  | dropTable ns table resolved => exact sessionValid_dropTable valid resolved

/-- Every reachable state is valid. -/
theorem reachable_valid [ValueDebug F] (h : Reachable s) : SessionValid s :=
  steps_invariant (fun _ _ => sessionValid_step) (reachable_steps h) sessionValid_new

end Runs

section Contents

/-- The chunks, the buffer and the stored rows of a table. -/
def contentOf (s : SessionState F) (tm : TableMeta) :
    List (ColumnarChunk F) × List (Row F) × List (Row F) :=
  (s.columnarStore.chunksOf tm.id, s.buffered tm.id, scanRows s tm)

omit [Float64 F] in
theorem contentOf_eq {tm : TableMeta} {content} :
    contentOf s tm = content ↔ s.columnarStore.chunksOf tm.id = content.1 ∧
      s.buffered tm.id = content.2.1 ∧ scanRows s tm = content.2.2 := by
  rw [contentOf, Prod.ext_iff, Prod.ext_iff]

/-- What a step can do to the content of a table that is known after it. -/
inductive TableStep (strands : Prop) (s : SessionState F) (tm : TableMeta) :
    SessionState F → Prop
  | fresh {s' : SessionState F} (empty : contentOf s' tm = ([], [], [])) :
      TableStep strands s tm s'
  | kept {s' : SessionState F} (known : s.catalog.tablesById[tm.id]? = some tm)
      (same : contentOf s' tm = contentOf s tm) : TableStep strands s tm s'
  | flush (known : s.catalog.tablesById[tm.id]? = some tm) :
      TableStep strands s tm (s.flushColumnarBuffer tm.id tm.schema)
  | storeRow (known : s.catalog.tablesById[tm.id]? = some tm) (row : Row F) :
      TableStep strands s tm (stored s tm row)
  | strandRow (allowed : strands) (known : s.catalog.tablesById[tm.id]? = some tm)
      (row : Row F) (e : RustafariError) (blocked : blockedBy s tm row = some e) :
      TableStep strands s tm (withRow s tm.id row)

variable {strands : Prop} {tm : TableMeta}

omit [Float64 F] in
/-- The table with the id of a bound one is that one. -/
theorem eq_of_bound (valid : Valid s.catalog) {tm' : TableMeta} (bound : Bound s tm')
    (known : s.catalog.tablesById[tm.id]? = some tm) (same : tm'.id = tm.id) : tm' = tm := by
  have first := bound_known valid bound
  rw [same, known] at first
  exact (Option.some.inj first).symm

theorem tableStep_createTable (valid : SessionValid s) {ns : Option String} {table : String}
    {columns : List (String × ColumnType)}
    (known : (createTable s ns table columns).catalog.tablesById[tm.id]? = some tm) :
    TableStep strands s tm (createTable s ns table columns) := by
  obtain ⟨hcatalog, hrows, hstore, hbuffer⟩ :=
    createTable_frame s ns table columns
  have same : contentOf (createTable s ns table columns) tm = contentOf s tm := by
    rw [contentOf, contentOf, scanRows, scanRows, SessionState.buffered, SessionState.buffered,
      hrows, hstore, hbuffer]
  rw [hcatalog, tablesById_createTable] at known
  split at known
  · rename_i unused
    have unused := Nat.le_of_eq unused
    obtain ⟨noChunks, noBuffer⟩ := valid.noChunks _ unused
    refine TableStep.fresh ?_
    rw [same, contentOf, noChunks, noBuffer, scanRows, valid.noRows _ unused]
    rfl
  · exact TableStep.kept known same

theorem tableStep_dropTable (valid : SessionValid s) {tm' : TableMeta} {ns : Option String}
    {table : String} (resolved : s.tableMeta ns table = some tm')
    (known : (dropTable s tm' ns table).catalog.tablesById[tm.id]? = some tm) :
    TableStep strands s tm (dropTable s tm' ns table) := by
  have byId := tablesById_dropTable valid.catalog.toUniqueIds resolved tm.id
  change (s.catalog.dropTable (ns.getD "public") table).2.tablesById[tm.id]? = some tm at known
  rw [byId] at known
  split at known
  · cases known
  · rename_i other
    have rows : (dropTable s tm' ns table).rowStore.scan tm.id = s.rowStore.scan tm.id :=
      TableStore.scan_dropTable_other (Ne.symm other)
    have chunks : (dropTable s tm' ns table).columnarStore.chunksOf tm.id =
        s.columnarStore.chunksOf tm.id := by
      simp only [dropTable, ColumnarStore.chunksOf_dropTable, if_neg other]
    refine TableStep.kept known ?_
    rw [contentOf, contentOf, scanRows, rows, chunks]
    rfl

theorem tableStep_of_step {s' : SessionState F} (valid : SessionValid s)
    (step : Step strands s s') (known : s'.catalog.tablesById[tm.id]? = some tm) :
    TableStep strands s tm s' := by
  cases step with
  | @flush tm' bound =>
    rw [SessionState.catalog_flush] at known
    by_cases same : tm'.id = tm.id
    · obtain rfl := eq_of_bound valid.catalog bound known same
      exact TableStep.flush known
    · refine TableStep.kept known ?_
      rw [contentOf, contentOf, scanRows, scanRows, SessionState.chunksOf_flush_other same,
        SessionState.buffered_flush, if_neg same, SessionState.rowStore_flush]
  | @storeRow tm' bound row =>
    rw [catalog_stored] at known
    by_cases same : tm'.id = tm.id
    · obtain rfl := eq_of_bound valid.catalog bound known same
      exact TableStep.storeRow known row
    · refine TableStep.kept known ?_
      obtain ⟨hbuffer, hchunks⟩ := columnar_stored_other same row
      rw [contentOf, contentOf, scanRows, scanRows, hchunks, hbuffer, rowStore_stored,
        TableStore.scan_insert_other (Ne.symm same)]
  | @strandRow tm' allowed bound row e blocked =>
    change s.catalog.tablesById[tm.id]? = some tm at known
    by_cases same : tm'.id = tm.id
    · obtain rfl := eq_of_bound valid.catalog bound known same
      exact TableStep.strandRow allowed known row e blocked
    · refine TableStep.kept known ?_
      rw [contentOf, contentOf, scanRows, scanRows, withRow,
        TableStore.scan_insert_other (Ne.symm same)]
      rfl
  | createTable ns table columns => exact tableStep_createTable valid known
  | dropTable ns table resolved => exact tableStep_dropTable valid resolved known

/-- A property of single tables that fresh tables have and every table step preserves
holds of every known table of a run. -/
theorem tables_invariant {P : SessionState F → TableMeta → Prop}
    (preserved : ∀ s s' tm, SessionValid s → TableStep strands s tm s' →
      (s.catalog.tablesById[tm.id]? = some tm → P s tm) → P s' tm)
    (steps : Steps strands .new s) (known : s.catalog.tablesById[tm.id]? = some tm) :
    P s tm := by
  have all := steps_invariant
    (P := fun s => SessionValid s ∧ ∀ tm : TableMeta,
      s.catalog.tablesById[tm.id]? = some tm → P s tm)
    (fun s s' step before => ⟨sessionValid_step step before.1, fun tm known =>
      preserved s s' tm before.1 (tableStep_of_step before.1 step known) (before.2 tm)⟩)
    steps ⟨sessionValid_new, fun tm unknown => by simp [SessionState.new, Catalog.new] at unknown⟩
  exact all.2 tm known

end Contents

end SessionInvariants
