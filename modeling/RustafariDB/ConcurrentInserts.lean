import Mathlib.Algebra.Group.Prod
import Mathlib.Algebra.Order.Group.Multiset
import RustafariDB.StatementShares
import RustafariDB.StoreAgreement

/-!
# Concurrent inserts balance

Between its sections an INSERT owes the columnar side the row it has stored, and a statement
that has taken a batch owes all rows of the batch. Stored rows are columnar rows plus what all
statements together owe, and a chunk number in a statement's hands is in no chunk. When all
statements have returned, nothing is owed.
-/

namespace ConcurrentInserts

open Catalogs Values RowStorage ColumnarStorage BTreeIndexing Plans Floats Sessions
open StatefulPrograms Interleavings LockSections StatementShares
open Execution (Stop ExecutionResult executePlan)
open PlanEffects SessionInvariants StoreAgreement

variable {F : Type}

def chunkIds (s : SessionState F) (t : Nat) : List Nat :=
  (s.columnarStore.chunksOf t).map ColumnarChunk.chunkId

section Numbers

/-- No two chunks of a table have one number, and numbers to come are unused. -/
def Numbered (s : SessionState F) : Prop :=
  ∀ t, (chunkIds s t).Nodup ∧ ∀ id ∈ chunkIds s t, id < s.columnarStore.nextChunkId

theorem numbered_congr {s s' : SessionState F} (numbered : Numbered s)
    (same : s'.columnarStore = s.columnarStore) : Numbered s' := by
  rw [Numbered]
  simp only [chunkIds, same]
  exact numbered

theorem numbered_storeChunk {s : SessionState F} (numbered : Numbered s) (tableId : Nat)
    (schema : Schema) (rows : List (Row F)) : Numbered (s.storeChunk tableId schema rows) := by
  intro t
  obtain ⟨distinct, used⟩ := numbered t
  have next : (s.storeChunk tableId schema rows).columnarStore.nextChunkId =
      s.columnarStore.nextChunkId + 1 := rfl
  rw [chunkIds, SessionState.chunksOf_storeChunk, next]
  split
  · rw [List.map_append]
    refine ⟨List.Nodup.append distinct (List.nodup_singleton _) ?_, fun id inside => ?_⟩
    · intro id older newest
      have below := used id older
      have last : id = s.columnarStore.nextChunkId := List.mem_singleton.mp newest
      omega
    · rcases List.mem_append.mp inside with older | newest
      · have below := used id older
        omega
      · have last : id = s.columnarStore.nextChunkId := List.mem_singleton.mp newest
        omega
  · refine ⟨distinct, fun id inside => ?_⟩
    have below := used id inside
    omega

theorem numbered_flush {s : SessionState F} (numbered : Numbered s) (tableId : Nat)
    (schema : Schema) : Numbered (s.flushColumnarBuffer tableId schema) := by
  rw [SessionState.flushColumnarBuffer_eq]
  split
  · exact numbered
  · exact numbered_storeChunk numbered tableId schema _

theorem numbered_push {s : SessionState F} (numbered : Numbered s) (tableId : Nat)
    (row : Row F) (schema : Schema) : Numbered (s.pushColumnarRow tableId row schema) := by
  by_cases room : (s.buffered tableId ++ [row]).length < columnarChunkSize
  · refine numbered_congr numbered ?_
    simp only [SessionState.pushColumnarRow, if_pos room]
  · rw [SessionState.push_of_full room]
    exact numbered_storeChunk numbered tableId schema _

variable [Float64 F]

theorem numbered_step {strands : Prop} {s s' : SessionState F}
    (step : PlanEffects.Step strands s s') (numbered : Numbered s) : Numbered s' := by
  cases step with
  | flush bound => exact numbered_flush numbered _ _
  | @storeRow tm bound row =>
    refine numbered_push (numbered_congr numbered ?_) tm.id row tm.schema
    exact (columnar_fileRow (withRow s tm.id row) tm row s.rowStore.nextRowId).1
  | strandRow allowed bound row e blocked => exact numbered
  | createTable ns table columns =>
    exact numbered_congr numbered (createTable_frame s ns table columns).2.2.1
  | @dropTable tm ns table resolved =>
    intro t
    rw [chunkIds]
    change (((s.columnarStore.dropTable tm.id).chunksOf t).map _).Nodup ∧
      ∀ id ∈ ((s.columnarStore.dropTable tm.id).chunksOf t).map _, id < _
    rw [ColumnarStore.chunksOf_dropTable]
    split
    · exact ⟨List.nodup_nil, fun id inside => by cases inside⟩
    · exact numbered t

theorem reachable_numbered [ValueDebug F] {s : SessionState F} (h : Reachable s) :
    Numbered s := by
  refine steps_invariant (fun _ _ => numbered_step) (reachable_steps h) (fun t => ?_)
  rw [chunkIds, SessionState.new, ColumnarStore.chunksOf_new]
  exact ⟨List.nodup_nil, fun id inside => by cases inside⟩

end Numbers

section Balance

/-- Rows as the columnar side keeps them. -/
def cells (schema : Schema) (rows : List (Row F)) : Multiset (List (Value F)) :=
  ↑(rows.map (normalise schema))

theorem cells_append (schema : Schema) (rows rows' : List (Row F)) :
    cells schema (rows ++ rows') = cells schema rows + cells schema rows' := by
  rw [cells, List.map_append, ← Multiset.coe_add]
  rfl

/-- The rows and the chunk numbers in the hands of statements, besides what the stores hold. -/
structure Balanced (tm : TableMeta) (catalog : Catalog) (s : SessionState F)
    (owed : Multiset (List (Value F))) (held : Multiset Nat) : Prop where
  catalog : s.catalog = catalog
  fresh : s.rowStore.Fresh
  rows : cells tm.schema (scanRows s tm) = ↑(s.columnarRows tm.schema tm.id) + owed
  distinct : (held + ↑(chunkIds s tm.id)).Nodup
  used : ∀ id ∈ held + (↑(chunkIds s tm.id) : Multiset Nat), id < s.columnarStore.nextChunkId

variable {tm : TableMeta} {catalog : Catalog} {s : SessionState F}
variable {owed owed' : Multiset (List (Value F))} {held : Multiset Nat}

theorem columnarRows_eq (s : SessionState F) (schema : Schema) (t : Nat) :
    (↑(s.columnarRows schema t) : Multiset (List (Value F))) =
      ↑((s.columnarStore.chunksOf t).flatMap chunkRows) + cells schema (s.buffered t) := by
  rw [SessionState.columnarRows, ← Multiset.coe_add]
  rfl

theorem balanced_insertRow (balanced : Balanced tm catalog s owed held) (row : Row F) :
    Balanced tm catalog (act (.insertRow tm.id row) s).2 (cells tm.schema [row] + owed) held := by
  refine ⟨balanced.catalog, TableStore.fresh_insert balanced.fresh tm.id row, ?_,
    balanced.distinct, balanced.used⟩
  have stored : scanRows (act (.insertRow tm.id row) s).2 tm = scanRows s tm ++ [row] :=
    scanRows_withRow balanced.fresh tm row
  rw [stored, cells_append, balanced.rows, add_assoc, add_comm owed]
  rfl

/-- What leaves the buffer is owed. -/
theorem balanced_withBuffer (balanced : Balanced tm catalog s owed held) {rows : List (Row F)}
    (moved : cells tm.schema (s.buffered tm.id) + owed = cells tm.schema rows + owed') :
    Balanced tm catalog (withBuffer s tm.id rows) owed' held := by
  refine ⟨balanced.catalog, balanced.fresh, ?_, balanced.distinct, balanced.used⟩
  have before := balanced.rows
  rw [columnarRows_eq, add_assoc, moved, ← add_assoc] at before
  rw [columnarRows_eq, buffered_withBuffer]
  exact before

theorem balanced_nextChunkId (balanced : Balanced tm catalog s owed held) :
    Balanced tm catalog (act .nextChunkId s).2 owed
      ({s.columnarStore.nextChunkId} + held) := by
  have unused : s.columnarStore.nextChunkId ∉ held + (↑(chunkIds s tm.id) : Multiset Nat) := by
    intro inside
    have below := balanced.used _ inside
    omega
  refine ⟨balanced.catalog, balanced.fresh, balanced.rows, ?_, fun id inside => ?_⟩
  · rw [add_assoc, Multiset.singleton_add]
    exact Multiset.nodup_cons.mpr ⟨unused, balanced.distinct⟩
  · change id < s.columnarStore.nextChunkId + 1
    rw [add_assoc, Multiset.singleton_add] at inside
    rcases Multiset.mem_cons.mp inside with newest | older
    · omega
    · have below := balanced.used id older
      omega

/-- A published chunk pays its rows and gives its number away. -/
theorem balanced_insertChunk (built : tm.schema = .new tm.schema.columns)
    (some_column : tm.schema.columns ≠ []) {rows : List (Row F)} {id : Nat}
    (balanced : Balanced tm catalog s (cells tm.schema rows + owed) ({id} + held)) :
    Balanced tm catalog
      (act (.insertChunk tm.id (.new id (columnChunks tm.schema rows))) s).2 owed held := by
  let chunk : ColumnarChunk F := .new id (columnChunks tm.schema rows)
  have chunks := chunksOf_insertChunk s tm.id chunk
  have ids : held + (↑(chunkIds (act (.insertChunk tm.id chunk) s).2 tm.id) : Multiset Nat) =
      {id} + held + ↑(chunkIds s tm.id) := by
    rw [chunkIds, chunks, List.map_append, ← Multiset.coe_add, add_comm {id} held, add_assoc]
    exact congrArg (held + ·) (add_comm _ _)
  refine ⟨balanced.catalog, balanced.fresh, ?_, ?_, ?_⟩
  · have before := balanced.rows
    rw [columnarRows_eq] at before ⊢
    rw [chunks, List.flatMap_append, List.flatMap_singleton, ← Multiset.coe_add,
      chunkRows_columnChunks built some_column]
    refine before.trans ?_
    change _ + cells tm.schema (s.buffered tm.id) + (cells tm.schema rows + owed) =
      _ + cells tm.schema rows + cells tm.schema (s.buffered tm.id) + owed
    rw [← add_assoc]
    exact congrArg (· + owed) (add_right_comm _ _ _)
  · rw [ids]
    exact balanced.distinct
  · rw [ids]
    exact balanced.used

end Balance

section Debts

abbrev Debt (F : Type) := Multiset (List (Value F)) × Multiset Nat

/-- What a statement holds are the rows it owes and the chunk numbers in its hands. -/
def balance (tm : TableMeta) (catalog : Catalog) :
    Protocol (LockSection F) (SessionState F) (Debt F) where
  inv _ s g := Balanced tm catalog s g.1 g.2
  allows _ _ _ _ _ := True
  shows _ _ := True

variable {tm : TableMeta} {catalog : Catalog} {i : Nat}

theorem calm_balance : Calm (balance (F := F) tm catalog) catalog := by
  refine ⟨fun history s g balanced => balanced.catalog, fun op => trivial, ?_⟩
  intro op h i history s g balanced
  obtain ⟨indexes, same⟩ := act_quiet h s
  rw [same]
  exact ⟨balanced.catalog, balanced.fresh, balanced.rows, balanced.distinct, balanced.used⟩

theorem free_balance (g : Debt F) : Free (balance tm catalog) g := fun _ => trivial

theorem keeps_publish (built : tm.schema = .new tm.schema.columns)
    (some_column : tm.schema.columns ≠ []) (rows : List (Row F)) :
    Keeps act (balance tm catalog) i (Same 0) (publish tm rows) (cells tm.schema rows, 0) := by
  refine keeps_perform_bind trivial (fun history s rest balanced _ => ?_)
  have numbered := balanced_nextChunkId balanced
  refine ⟨(cells tm.schema rows, {s.columnarStore.nextChunkId}), ?_, trivial, ?_⟩
  · change Balanced tm catalog _ _ ({s.columnarStore.nextChunkId} + rest.2)
    rw [← zero_add rest.2]
    exact numbered
  · intro history s' rest holding _
    refine ⟨0, ?_, keeps_pure rfl⟩
    change Balanced tm catalog _ (0 + rest.1) (0 + rest.2)
    rw [zero_add, zero_add]
    exact balanced_insertChunk built some_column holding

theorem keeps_flush (built : tm.schema = .new tm.schema.columns)
    (some_column : tm.schema.columns ≠ []) :
    Keeps act (balance tm catalog) i (Same 0) (flushColumnarBuffer (F := F) tm) 0 := by
  refine keeps_perform_bind trivial (fun history s rest balanced _ => ?_)
  by_cases empty : s.buffered tm.id = []
  · rw [act_takeBuffer_empty empty]
    exact ⟨0, balanced, keeps_pure rfl⟩
  · rw [act_takeBuffer empty]
    refine ⟨(cells tm.schema (s.buffered tm.id), 0), ?_, keeps_publish built some_column _⟩
    refine balanced_withBuffer balanced ?_
    change cells tm.schema (s.buffered tm.id) + (0 + rest.1) =
      0 + (cells tm.schema (s.buffered tm.id) + rest.1)
    rw [zero_add, zero_add]

theorem keeps_push (built : tm.schema = .new tm.schema.columns)
    (some_column : tm.schema.columns ≠ []) (row : Row F) :
    Keeps act (balance tm catalog) i (Same 0) (pushColumnarRow tm row)
      (cells tm.schema [row], 0) := by
  refine keeps_perform_bind trivial (fun history s rest balanced _ => ?_)
  by_cases room : (s.buffered tm.id ++ [row]).length < columnarChunkSize
  · rw [act_pushRow_room room]
    refine ⟨0, ?_, keeps_pure rfl⟩
    refine balanced_withBuffer balanced ?_
    change cells tm.schema (s.buffered tm.id) + (cells tm.schema [row] + rest.1) =
      cells tm.schema (s.buffered tm.id ++ [row]) + (0 + rest.1)
    rw [cells_append, zero_add, add_assoc]
  · rw [act_pushRow_full room]
    refine ⟨(cells tm.schema (s.buffered tm.id ++ [row]), 0), ?_,
      keeps_publish built some_column _⟩
    refine balanced_withBuffer balanced ?_
    change cells tm.schema (s.buffered tm.id) + (cells tm.schema [row] + rest.1) =
      0 + (cells tm.schema (s.buffered tm.id ++ [row]) + rest.1)
    rw [cells_append, zero_add, add_assoc]

variable [Float64 F]

/-- An inserted row is owed from the row store to the buffer. -/
theorem keeps_insertRow (built : tm.schema = .new tm.schema.columns)
    (some_column : tm.schema.columns ≠ []) (idCol : Option Nat) (rowVals : List (Value F)) :
    Keeps act (balance tm catalog) i (fun result g => True ∧ ∀ u, result = .ok u → g = 0)
      (insertRow tm idCol rowVals) 0 := by
  refine keeps_perform_bind trivial (fun history s rest balanced _ => ?_)
  refine ⟨(cells tm.schema [.new rowVals], 0), ?_, ?_⟩
  · have owing := balanced_insertRow balanced (.new rowVals)
    change Balanced tm catalog _ (cells tm.schema [.new rowVals] + rest.1) (0 + rest.2)
    rw [← zero_add rest.1]
    exact owing
  · refine keeps_bind (keeps_indexRow calm_balance (free_balance _) idCol _ _) ?_ ?_
    · rintro u g same
      rw [same]
      exact keeps_mono (fun result g' zero => ⟨trivial, fun _ _ => zero⟩)
        (keeps_push built some_column _)
    · exact fun e g same => ⟨trivial, fun u failed => by cases failed⟩

/-- A statement that returns an answer owes nothing. -/
theorem settles_traffic [ValueDebug F] {s : SessionState F}
    (built : tm.schema = .new tm.schema.columns) (some_column : tm.schema.columns ≠ [])
    {m : Task F (ExecutionResult F)} (traffic : Traffic s tm m) :
    Settles act (balance tm s.catalog) i (fun result g => ∀ r, result = .ok r → g = 0) m 0 := by
  obtain ⟨plan, on_table, rfl⟩ := traffic
  cases plan with
  | insert table ns columns values =>
    refine keeps_resolveTable calm_balance (free_balance 0) on_table ?_
    refine keeps_bind (keeps_insertRows (fun _ => 0) _ values 0
      (fun rowVals _ => keeps_insertRow built some_column _ rowVals) (fun _ => trivial)) ?_ ?_
    · exact fun count g h => keeps_pure ⟨trivial, fun _ _ => h.2 count rfl⟩
    · exact fun e g h => ⟨trivial, fun r failed => by cases failed⟩
  | aggregate input aggs =>
    have scans : ScansIn s.catalog tm (.aggregate input aggs) := scansIn_iff.mpr on_table
    refine keeps_mono (fun result g zero => ⟨trivial, fun _ _ => zero⟩) ?_
    exact keeps_query calm_balance (free_balance 0) (keeps_flush built some_column) scans
  | _ => exact False.elim on_table

end Debts

section Runs
variable [Float64 F] [ValueDebug F] {s : SessionState F} {tm : TableMeta}

theorem balanced_start (h : ReachableInsertsOk s) (bound : Bound s tm)
    (some_column : tm.schema.columns ≠ []) : Balanced tm s.catalog s 0 0 := by
  have valid := reachable_valid (reachable_of_insertsOk h)
  have known := bound_known valid.catalog bound
  have built := valid.catalog.schemaBuilt tm.id tm known
  obtain ⟨distinct, used⟩ := reachable_numbered (reachable_of_insertsOk h) tm.id
  refine ⟨rfl, valid.freshRows, ?_, ?_, ?_⟩
  · rw [columnarRows_of_cut built some_column (insertsOk_cut h known), add_zero]
    rfl
  · rw [zero_add]
    exact distinct
  · rw [zero_add]
    exact used

/-- Whatever the interleaving, when INSERTs and aggregates over a table have all returned `Ok`
the chunks and the buffer of the table hold its stored rows, each once and normalised, and no
two chunks have one number. -/
theorem concurrent_inserts_balance (h : ReachableInsertsOk s) (bound : Bound s tm)
    (some_column : tm.schema.columns ≠ []) {p : StatementPool F}
    (run : Run act (Traffic s tm) always ⟨s, [], []⟩ p) (ok : p.Succeeded) :
    (p.state.columnarRows tm.schema tm.id).Perm
        ((p.state.rowStore.scan tm.id).map (fun e => normalise tm.schema e.2)) ∧
      ((p.state.columnarStore.chunksOf tm.id).map ColumnarChunk.chunkId).Nodup := by
  have valid := reachable_valid (reachable_of_insertsOk h)
  have built := valid.catalog.schemaBuilt tm.id tm (bound_known valid.catalog bound)
  obtain ⟨certs, k, cert, posts⟩ := certified_of_run
    (covers_of_allows (by exact fun _ _ _ _ _ => trivial))
    (fun i m => settles_traffic built some_column) (balanced_start h bound some_column) run
  have paid : (certs.map Prod.snd).sum = 0 := by
    refine sum_eq_zero (AddMonoidHom.id (Debt F)) cert posts (fun m running => ?_)
    obtain ⟨r, rfl⟩ := ok m running
    exact ⟨.ok r, rfl, fun g post => post r rfl⟩
  have settled := cert.inv
  rw [paid] at settled
  refine ⟨?_, ?_⟩
  · have rows := settled.rows
    change cells tm.schema (scanRows p.state tm) = _ + 0 at rows
    rw [add_zero, cells, scanRows, List.map_map] at rows
    exact (Multiset.coe_eq_coe.mp rows).symm
  · have distinct := settled.distinct
    change ((0 : Multiset Nat) + _).Nodup at distinct
    rw [zero_add] at distinct
    exact distinct

section Instances

/-- Two INSERTs and a COUNT(*). -/
def threeStatements : List (Task Float (ExecutionResult Float)) :=
  [statement (.insert "t" none [] [[.int64 1], [.int64 2]]),
    statement (.aggregate (.scan "t" none) [.countStar]),
    statement (.insert "t" (some "public") [] [[.int64 3]])]

theorem traffic_threeStatements {tm : TableMeta} (bound : newTable.tableMeta none "t" = some tm) :
    ∀ m ∈ threeStatements, Traffic newTable tm m := by
  have aggregated : Execution.scanMeta newTable (.scan "t" none) = .ok tm :=
    resolveTable_eq_ok.mpr bound
  refine List.forall_mem_cons.mpr ⟨⟨.insert "t" none _ _, bound, rfl⟩, ?_⟩
  refine List.forall_mem_cons.mpr ⟨⟨.aggregate (.scan "t" none) _, aggregated, rfl⟩, ?_⟩
  exact List.forall_mem_singleton.mpr ⟨.insert "t" (some "public") _ _, bound, rfl⟩

/-- The COUNT(*) publishes a chunk between the two INSERTs. -/
def turnsTaken : List Nat := [0, 1, 2, 0, 0, 0, 0, 1, 1, 2, 0, 0, 1, 2, 0, 0, 1, 2, 2]

theorem concurrent_inserts_balance_three :
    ∃ tm p, newTable.tableMeta none "t" = some tm ∧
      turns act always turnsTaken ⟨newTable, threeStatements, []⟩ = some p ∧
      (p.state.columnarRows tm.schema tm.id).Perm
        ((p.state.rowStore.scan tm.id).map (fun e => normalise tm.schema e.2)) ∧
      ((p.state.columnarStore.chunksOf tm.id).map ColumnarChunk.chunkId).Nodup := by
  refine ⟨_, _, rfl, rfl, ?_⟩
  have created : ReachableInsertsOk newTable :=
    insertsOk_runPlans _ RunFrom.new ⟨fun _ => rfl, trivial⟩
  refine concurrent_inserts_balance created ⟨"public", "t", rfl⟩ (by decide)
    (run_of_schedule (traffic_threeStatements rfl) turnsTaken rfl) ?_
  refine List.forall_mem_cons.mpr ⟨⟨_, rfl⟩, List.forall_mem_cons.mpr ⟨⟨_, rfl⟩, ?_⟩⟩
  exact List.forall_mem_singleton.mpr ⟨_, rfl⟩

end Instances

end Runs

end ConcurrentInserts
