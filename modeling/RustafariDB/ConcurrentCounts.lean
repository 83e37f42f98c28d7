import Mathlib.Algebra.Group.Prod
import Mathlib.Algebra.Order.Group.Multiset
import RustafariDB.SessionInvariants
import RustafariDB.StatementShares

/-!
# What a concurrent COUNT(*) counts

A row that has left an INSERT is in a chunk, in the buffer, or in a batch that some statement
has taken from the buffer and not yet published. COUNT(*) empties the buffer and then reads the
chunks, so it misses exactly the batches in the hands of others, unless it finds no chunk at all
and scans the row store.
-/

namespace ConcurrentCounts

open Catalogs Values RowStorage ColumnarStorage BTreeIndexing Plans Floats Sessions Aggregates
open StatefulPrograms Interleavings LockSections StatementShares
open Execution (Stop ExecutionResult executePlan)
open PlanEffects SessionInvariants

variable {F : Type}

/-- The rows in the chunks of a table. -/
def chunked (s : SessionState F) (t : Nat) : Nat :=
  ((s.columnarStore.chunksOf t).map ColumnarChunk.rowCount).sum

theorem length_columnarRows (s : SessionState F) (schema : Schema) (t : Nat) :
    (s.columnarRows schema t).length = chunked s t + (s.buffered t).length := by
  rw [SessionState.columnarRows, List.length_append, List.length_flatMap, List.length_map, chunked]
  have each : (fun ch : ColumnarChunk F => (chunkRows ch).length) = ColumnarChunk.rowCount := by
    funext ch
    rw [chunkRows, List.length_map, List.length_range]
  rw [each]

section Starts

theorem rowCount_le (schema : Schema) (rows : List (Row F)) (chunkId : Nat) :
    (ColumnarChunk.new chunkId (columnChunks schema rows)).rowCount ≤ rows.length := by
  by_cases none : schema.columns = []
  · simp [ColumnarChunk.new, columnChunks, none]
  · rw [rowCount_columnChunks none]

theorem chunked_storeChunk (s : SessionState F) (t : Nat) (schema : Schema)
    (rows : List (Row F)) : chunked (s.storeChunk t schema rows) t ≤ chunked s t + rows.length := by
  rw [chunked, SessionState.chunksOf_storeChunk, if_pos rfl, List.map_append, List.sum_append]
  have fits := rowCount_le schema rows s.columnarStore.nextChunkId
  simp only [List.map_cons, List.map_nil, List.sum_cons, List.sum_nil]
  exact Nat.add_le_add_left fits _

/-- The columnar side of a table never has more rows than the row store. -/
def Covered (s : SessionState F) (tm : TableMeta) : Prop :=
  chunked s tm.id + (s.buffered tm.id).length ≤ (s.rowStore.scan tm.id).length

theorem covered_flush {s : SessionState F} {tm : TableMeta} (covered : Covered s tm) :
    Covered (s.flushColumnarBuffer tm.id tm.schema) tm := by
  rw [Covered, SessionState.rowStore_flush, SessionState.buffered_flush, if_pos rfl,
    SessionState.flushColumnarBuffer_eq]
  split
  · have bound : _ ≤ _ := covered
    simp only [List.length_nil]
    omega
  · have grown := chunked_storeChunk s tm.id tm.schema (s.buffered tm.id)
    have bound : _ ≤ _ := covered
    simp only [List.length_nil]
    omega

theorem columnar_push_le (s : SessionState F) (t : Nat) (row : Row F) (schema : Schema) :
    chunked (s.pushColumnarRow t row schema) t +
        ((s.pushColumnarRow t row schema).buffered t).length ≤
      chunked s t + (s.buffered t).length + 1 := by
  by_cases room : (s.buffered t ++ [row]).length < columnarChunkSize
  · rw [chunked, SessionState.chunksOf_push_of_lt room, SessionState.buffered_push_of_lt room,
      if_pos rfl, List.length_append, List.length_singleton, ← chunked]
    omega
  · rw [SessionState.push_of_full room, SessionState.buffered_storeChunk, if_pos rfl]
    have grown := chunked_storeChunk s t schema (s.buffered t ++ [row])
    simp only [List.length_append, List.length_singleton, List.length_nil] at grown ⊢
    omega

variable [Float64 F]

theorem covered_tableStep {s s' : SessionState F} {tm : TableMeta} (valid : SessionValid s)
    (step : TableStep True s tm s')
    (before : s.catalog.tablesById[tm.id]? = some tm → Covered s tm) : Covered s' tm := by
  have counts {s : SessionState F} {rows : List (Row F)} (h : scanRows s tm = rows) :
      (s.rowStore.scan tm.id).length = rows.length := by
    rw [← h, scanRows, List.length_map]
  cases step with
  | fresh empty =>
    obtain ⟨chunks, buffer, rows⟩ := contentOf_eq.mp empty
    rw [Covered, chunked, chunks, buffer]
    exact Nat.zero_le _
  | kept known same =>
    obtain ⟨chunks, buffer, rows⟩ := contentOf_eq.mp same
    rw [Covered, chunked, chunks, buffer, counts rows, contentOf, ← counts rfl]
    exact before known
  | flush known => exact covered_flush (before known)
  | storeRow known row =>
    have filed := columnar_fileRow (withRow s tm.id row) tm row s.rowStore.nextRowId
    have pushed := columnar_push_le (fileRow (withRow s tm.id row) tm row s.rowStore.nextRowId)
      tm.id row tm.schema
    have bound : _ ≤ _ := before known
    rw [Covered, rowStore_stored, TableStore.scan_insert_self valid.freshRows, List.length_append,
      List.length_singleton]
    have chunks : chunked (fileRow (withRow s tm.id row) tm row s.rowStore.nextRowId) tm.id =
        chunked s tm.id := by
      rw [chunked, filed.1]
      rfl
    have buffer : (fileRow (withRow s tm.id row) tm row s.rowStore.nextRowId).buffered tm.id =
        s.buffered tm.id := by
      rw [SessionState.buffered, filed.2]
      rfl
    rw [chunks, buffer] at pushed
    exact Nat.le_trans pushed (Nat.succ_le_succ bound)
  | strandRow allowed known row e blocked =>
    have bound : _ ≤ _ := before known
    rw [Covered, withRow, TableStore.scan_insert_self valid.freshRows, List.length_append]
    exact Nat.le_add_right_of_le bound

theorem reachable_covered [ValueDebug F] {s : SessionState F} {tm : TableMeta}
    (h : Reachable s) (known : s.catalog.tablesById[tm.id]? = some tm) : Covered s tm :=
  tables_invariant (fun _ _ _ valid => covered_tableStep valid) (reachable_steps h) known

end Starts

section Tallies

/-- What stays true of a table over which statements only insert and aggregate: that many
rows were pushed, that many of them have left the buffer, that many are stored. -/
inductive Fact where
  | pushed (n : Nat)
  | drained (n : Nat)
  | stored (n : Nat)

/-- Rows stored but not yet pushed, rows pushed, rows of a batch, and what is known. -/
abbrev Tally := (Nat × Nat × Nat) × Multiset Fact

def tally (waiting pushed batch : Nat) (known : Multiset Fact) : Tally :=
  ((waiting, pushed, batch), known)

/-- A fact about a table that started with `start` rows in chunks and buffer. -/
def Holds (start t : Nat) (s : SessionState F) (pushed batch : Nat) : Fact → Prop
  | .pushed n => n ≤ start + pushed
  | .drained n => n ≤ chunked s t + batch
  | .stored n => n ≤ (s.rowStore.scan t).length

structure Counted (tm : TableMeta) (catalog : Catalog) (start : Nat) (s : SessionState F)
    (waiting pushed batch : Nat) (known : Multiset Fact) : Prop where
  catalog : s.catalog = catalog
  fresh : s.rowStore.Fresh
  rows : start + pushed = chunked s tm.id + (s.buffered tm.id).length + batch
  stored : start + pushed + waiting ≤ (s.rowStore.scan tm.id).length
  known : ∀ fact ∈ known, Holds start tm.id s pushed batch fact

variable {tm : TableMeta} {catalog : Catalog} {start : Nat} {s : SessionState F}
variable {waiting pushed batch : Nat} {known : Multiset Fact}

/-- More rows do not make a fact false. -/
theorem holds_mono {s' : SessionState F} {pushed' batch' : Nat} {fact : Fact}
    (h : Holds start tm.id s pushed batch fact) (more : pushed ≤ pushed')
    (out : chunked s tm.id + batch ≤ chunked s' tm.id + batch')
    (rows : (s.rowStore.scan tm.id).length ≤ (s'.rowStore.scan tm.id).length) :
    Holds start tm.id s' pushed' batch' fact := by
  cases fact with
  | pushed n => exact Nat.le_trans h (Nat.add_le_add_left more start)
  | drained n => exact Nat.le_trans h out
  | stored n => exact Nat.le_trans h rows

theorem counted_insertRow (counted : Counted tm catalog start s waiting pushed batch known)
    (row : Row F) :
    Counted tm catalog start (act (.insertRow tm.id row) s).2 (1 + waiting) pushed batch
      known := by
  have rows : ((act (.insertRow tm.id row) s).2.rowStore.scan tm.id).length =
      (s.rowStore.scan tm.id).length + 1 := by
    change ((s.rowStore.insert tm.id row).2.scan tm.id).length = _
    rw [TableStore.scan_insert_self counted.fresh, List.length_append, List.length_singleton]
  have bound := counted.stored
  refine ⟨counted.catalog, TableStore.fresh_insert counted.fresh tm.id row, counted.rows,
    by omega, fun fact inside => ?_⟩
  exact holds_mono (counted.known fact inside) (Nat.le_refl _) (Nat.le_refl _) (by omega)

/-- Rows move into the buffer or out of it into a batch. -/
theorem counted_withBuffer (counted : Counted tm catalog start s waiting pushed batch known)
    {rows : List (Row F)} {waiting' pushed' batch' : Nat}
    (same : pushed' + waiting' = pushed + waiting) (more : pushed ≤ pushed')
    (out : batch ≤ batch')
    (moved : pushed + (rows.length + batch') = pushed' + ((s.buffered tm.id).length + batch)) :
    Counted tm catalog start (withBuffer s tm.id rows) waiting' pushed' batch' known := by
  have total := counted.rows
  have bound := counted.stored
  refine ⟨counted.catalog, counted.fresh, ?_, ?_, fun fact inside => ?_⟩
  · rw [buffered_withBuffer]
    change _ = chunked s tm.id + _ + _
    omega
  · change _ ≤ (s.rowStore.scan tm.id).length
    omega
  · refine holds_mono (counted.known fact inside) more ?_ (Nat.le_refl _)
    exact Nat.add_le_add_left out _

theorem counted_insertChunk (some_column : tm.schema.columns ≠ []) {rows : List (Row F)}
    {id : Nat} (counted : Counted tm catalog start s waiting pushed (rows.length + batch) known) :
    Counted tm catalog start
      (act (.insertChunk tm.id (.new id (columnChunks tm.schema rows))) s).2
      waiting pushed batch known := by
  have grown : chunked (act (.insertChunk tm.id (.new id (columnChunks tm.schema rows))) s).2
      tm.id = chunked s tm.id + rows.length := by
    rw [chunked, chunksOf_insertChunk, List.map_append, List.sum_append, ← chunked,
      List.map_singleton, List.sum_singleton, rowCount_columnChunks some_column]
  have total := counted.rows
  refine ⟨counted.catalog, counted.fresh, ?_, counted.stored, fun fact inside => ?_⟩
  · rw [grown]
    change _ = _ + (s.buffered tm.id).length + _
    omega
  · exact holds_mono (counted.known fact inside) (Nat.le_refl _) (by omega) (Nat.le_refl _)

theorem counted_learn (counted : Counted tm catalog start s waiting pushed batch known)
    {facts : Multiset Fact} (true_now : ∀ fact ∈ facts, Holds start tm.id s pushed batch fact) :
    Counted tm catalog start s waiting pushed batch (facts + known) := by
  refine ⟨counted.catalog, counted.fresh, counted.rows, counted.stored, fun fact inside => ?_⟩
  rcases Multiset.mem_add.mp inside with newly | before
  · exact true_now fact newly
  · exact counted.known fact before

end Tallies

section Protocols

/-- About to publish a batch. -/
def publishing : Option (LockSection F) → Bool
  | some .nextChunkId => true
  | some (.insertChunk _ _) => true
  | _ => false

def readsChunks (t : Nat) : LockSection F → Bool
  | .chunks u => u == t
  | _ => false

/-- Whoever has a batch is about to publish it. -/
def counting (tm : TableMeta) (catalog : Catalog) (start : Nat) :
    Protocol (LockSection F) (SessionState F) Tally where
  inv _ s g := Counted tm catalog start s g.1.1 g.1.2.1 g.1.2.2 g.2
  allows _ _ _ _ _ := True
  shows op g := g.1.2.2 = 0 ∨ publishing op = true

/-- The statement at a position reads the chunks of a table only while there are none, or
nobody else has a batch. -/
def countingFor (n : Nat) (tm : TableMeta) (catalog : Catalog) (start : Nat) :
    Protocol (LockSection F) (SessionState F) Tally :=
  { counting tm catalog start with
    allows := fun i _ s op others => i = n → readsChunks tm.id op = true →
      (s.columnarStore.chunksOf tm.id).isEmpty = true ∨ others.1.2.2 = 0 }

variable {tm : TableMeta} {catalog : Catalog} {start i : Nat} {known : Multiset Fact}
variable {waiting pushed : Nat}

theorem calm_counting : Calm (counting (F := F) tm catalog start) catalog := by
  refine ⟨fun history s g counted => counted.catalog, fun op => Or.inl rfl, ?_⟩
  intro op h i history s g counted
  obtain ⟨indexes, same⟩ := act_quiet h s
  rw [same]
  exact ⟨counted.catalog, counted.fresh, counted.rows, counted.stored, counted.known⟩

theorem free_tally : Free (counting (F := F) tm catalog start) (tally waiting pushed 0 known) :=
  fun _ => Or.inl rfl

theorem keeps_publish (some_column : tm.schema.columns ≠ []) (rows : List (Row F)) :
    Keeps act (counting tm catalog start) i (Same (tally waiting pushed 0 known))
      (publish tm rows) (tally waiting pushed rows.length known) := by
  refine keeps_perform_bind (Or.inr rfl) (fun history s rest counted _ => ?_)
  refine ⟨tally waiting pushed rows.length known, ?_, Or.inr rfl, ?_⟩
  · exact ⟨counted.catalog, counted.fresh, counted.rows, counted.stored, counted.known⟩
  · intro history s' rest counted _
    refine ⟨tally waiting pushed 0 known, ?_, keeps_pure rfl⟩
    change Counted tm catalog start _ _ _ (0 + rest.1.2.2) _
    rw [zero_add]
    exact counted_insertChunk some_column counted

/-- A flush empties the buffer, so afterwards every pushed row has left it. -/
theorem keeps_flush (some_column : tm.schema.columns ≠ []) {facts : Multiset Fact}
    (drains : ∀ fact ∈ facts, ∃ n, fact = .drained n ∧ .pushed n ∈ known) :
    Keeps act (counting (F := F) tm catalog start) i
      (Same (tally waiting pushed 0 (facts + known))) (flushColumnarBuffer tm)
      (tally waiting pushed 0 known) := by
  have learnt : ∀ (s : SessionState F) (rest : Tally) (batch : Nat),
      s.buffered tm.id = [] →
      (counting tm catalog start).inv [] s (tally waiting pushed batch known + rest) →
      (counting tm catalog start).inv [] s (tally waiting pushed batch (facts + known) + rest) := by
    intro s rest batch empty counted
    change Counted _ _ _ _ _ _ _ (facts + known + rest.2)
    rw [add_assoc]
    refine counted_learn counted (fun fact inside => ?_)
    obtain ⟨n, rfl, listed⟩ := drains fact inside
    have bound : n ≤ start + _ := counted.known (.pushed n) (Multiset.mem_add.mpr (Or.inl listed))
    have total := counted.rows
    rw [empty, List.length_nil, Nat.add_zero] at total
    exact Nat.le_trans bound (Nat.le_of_eq total)
  refine keeps_perform_bind (Or.inl rfl) (fun history s rest counted _ => ?_)
  by_cases empty : s.buffered tm.id = []
  · rw [act_takeBuffer_empty empty]
    exact ⟨tally waiting pushed 0 (facts + known), learnt s rest 0 empty counted, keeps_pure rfl⟩
  · rw [act_takeBuffer empty]
    refine ⟨tally waiting pushed (s.buffered tm.id).length (facts + known), ?_,
      keeps_publish some_column _⟩
    refine learnt _ rest _ (buffered_withBuffer s tm.id []) ?_
    refine counted_withBuffer counted rfl (Nat.le_refl _) ?_ ?_
    · exact Nat.add_le_add_right (Nat.zero_le _) _
    · change _ + (0 + ((s.buffered tm.id).length + rest.1.2.2)) =
        _ + ((s.buffered tm.id).length + (0 + rest.1.2.2))
      rw [Nat.zero_add, Nat.zero_add]
      rfl

theorem keeps_push (some_column : tm.schema.columns ≠ []) (row : Row F) :
    Keeps act (counting tm catalog start) i (Same (tally 0 (pushed + 1) 0 known))
      (pushColumnarRow tm row) (tally 1 pushed 0 known) := by
  refine keeps_perform_bind (Or.inl rfl) (fun history s rest counted _ => ?_)
  have shift : pushed + 1 + rest.1.2.1 + (0 + rest.1.1) = pushed + rest.1.2.1 + (1 + rest.1.1) := by
    omega
  by_cases room : (s.buffered tm.id ++ [row]).length < columnarChunkSize
  · rw [act_pushRow_room room]
    refine ⟨tally 0 (pushed + 1) 0 known, ?_, keeps_pure rfl⟩
    refine counted_withBuffer counted shift ?_ (Nat.le_refl _) ?_
    · change pushed + _ ≤ pushed + 1 + _
      omega
    · rw [List.length_append, List.length_singleton]
      change pushed + _ + (_ + (0 + rest.1.2.2)) = pushed + 1 + _ + (_ + (0 + rest.1.2.2))
      omega
  · rw [act_pushRow_full room]
    refine ⟨tally 0 (pushed + 1) (s.buffered tm.id ++ [row]).length known, ?_,
      keeps_publish some_column _⟩
    refine counted_withBuffer counted shift ?_ ?_ ?_
    · change pushed + _ ≤ pushed + 1 + _
      omega
    · exact Nat.add_le_add_right (Nat.zero_le _) _
    · rw [List.length_nil]
      change pushed + _ + (0 + ((s.buffered tm.id ++ [row]).length + rest.1.2.2)) =
        pushed + 1 + _ + (_ + (0 + rest.1.2.2))
      rw [List.length_append, List.length_singleton]
      omega

variable [Float64 F]

theorem keeps_insertRow (some_column : tm.schema.columns ≠ []) (idCol : Option Nat)
    (rowVals : List (Value F)) (count : Nat) :
    Keeps act (counting tm catalog start) i
      (fun result g => (counting (F := F) tm catalog start).shows none g ∧
        ∀ u, result = .ok u → g = tally 0 (count + 1) 0 0)
      (insertRow tm idCol rowVals) (tally 0 count 0 0) := by
  refine keeps_perform_bind (Or.inl rfl) (fun history s rest counted _ => ?_)
  refine ⟨tally 1 count 0 0, ?_, ?_⟩
  · have stored := counted_insertRow counted (.new rowVals)
    change Counted tm catalog start _ (1 + rest.1.1) _ _ _
    change Counted tm catalog start _ (1 + (0 + rest.1.1)) _ _ _ at stored
    rwa [Nat.zero_add] at stored
  · refine keeps_then (keeps_indexRow calm_counting free_tally idCol _ _) (fun u => ?_) ?_
    · exact keeps_mono (fun result g same => ⟨same ▸ Or.inl rfl, fun _ _ => same⟩)
        (keeps_push some_column _)
    · exact fun e => ⟨Or.inl rfl, fun u failed => by cases failed⟩

end Protocols

section Statements
variable {tm : TableMeta} {catalog : Catalog} {start i n : Nat}
variable [Float64 F]

/-- An INSERT that reports a number of rows has pushed so many. -/
def Reports (result : Except Stop (ExecutionResult F)) (g : Tally) : Prop :=
  ∀ count, result = .ok (.rowsAffected count) → count ≤ g.1.2.1

theorem settles_traffic [ValueDebug F] {s : SessionState F}
    (some_column : tm.schema.columns ≠ []) {m : Task F (ExecutionResult F)}
    (traffic : Traffic s tm m) : Settles act (counting tm s.catalog start) i Reports m 0 := by
  obtain ⟨plan, on_table, rfl⟩ := traffic
  have free : Free (counting (F := F) tm s.catalog start) (tally 0 0 0 0) := free_tally
  cases plan with
  | insert table ns columns values =>
    refine keeps_resolveTable calm_counting free on_table ?_
    refine keeps_bind (keeps_insertRows (fun count => tally 0 count 0 0) _ values 0
      (keeps_insertRow some_column _) (fun count => Or.inl rfl)) (fun count g h => ?_) ?_
    · refine keeps_pure ⟨h.1, fun reported same => ?_⟩
      cases same
      rw [h.2 count rfl]
      exact Nat.le_refl _
    · exact fun e g h => ⟨h.1, fun reported failed => by cases failed⟩
  | aggregate input aggs =>
    have scans : ScansIn s.catalog tm input := scansIn_iff.mpr on_table
    have flushes : Keeps act (counting (F := F) tm s.catalog start) i
        (Same (tally 0 0 0 (0 + 0))) (flushColumnarBuffer tm) (tally 0 0 0 0) :=
      keeps_flush some_column (fun fact inside => False.elim (Multiset.notMem_zero fact inside))
    rw [zero_add] at flushes
    refine keeps_aggregate calm_counting free flushes scans
      (keeps_query calm_counting free flushes scans) aggs ?_ ?_
    · exact fun values => ⟨Or.inl rfl, fun reported other => by cases other⟩
    · exact fun e => ⟨Or.inl rfl, fun reported failed => by cases failed⟩
  | _ => exact False.elim on_table

/-- The share changes by what has been learnt only. -/
def Learns (g g' : Tally) : Prop := g'.1 = g.1 ∧ g.2 ≤ g'.2

instance : IsPreorder Tally Learns where
  refl g := ⟨rfl, le_refl g.2⟩
  trans _ _ _ first second := ⟨second.1.trans first.1, le_trans first.2 second.2⟩

omit [Float64 F] in
theorem calm_countingFor : Calm (countingFor (F := F) n tm catalog start) catalog :=
  calm_of_allows calm_counting _

omit [Float64 F] in
theorem free_countingFor {known : Multiset Fact} :
    Free (countingFor (F := F) n tm catalog start) (tally 0 0 0 known) := fun _ => Or.inl rfl

/-- A scan after so many rows were pushed finds as many, and no more than are stored. -/
theorem keeps_scan [ValueDebug F] {table : String} {ns : Option String} {N : Nat}
    (found : catalog.getTable (ns.getD "public") table = some tm) {known : Multiset Fact}
    (listed : .pushed N ∈ known) :
    Keeps act (countingFor n tm catalog start) i
      (fun result g => Learns (tally 0 0 0 known) g ∧ ∀ rows : List (Row F),
        result = .ok (.rows rows) → N ≤ rows.length ∧ .stored rows.length ∈ g.2)
      (statement (.scan table ns)) (tally 0 0 0 known) := by
  refine keeps_resolveTable calm_countingFor free_countingFor found ?_
  refine keeps_perform_bind (Or.inl rfl) (fun history s rest counted _ => ?_)
  refine ⟨tally 0 0 0 ({.stored (s.rowStore.scan tm.id).length} + known), ?_, keeps_pure ⟨?_, ?_⟩⟩
  · change Counted tm catalog start s _ _ _ (_ + known + rest.2)
    rw [add_assoc]
    refine counted_learn counted (fun fact inside => ?_)
    rw [Multiset.mem_singleton.mp inside]
    exact Nat.le_refl _
  · exact ⟨rfl, Multiset.le_add_left _ _⟩
  · intro rows same
    cases same
    have scanned : ((act (.scanRows tm.id) s).1.map Prod.snd).length =
        (s.rowStore.scan tm.id).length := List.length_map _
    rw [scanned]
    have bound : N ≤ start + _ := counted.known _ (Multiset.mem_add.mpr (Or.inl listed))
    have stored := counted.stored
    exact ⟨by omega, Multiset.mem_add.mpr (Or.inl (Multiset.mem_singleton_self _))⟩

/-- The value counts at least so many rows, and no more than have been stored. -/
def CountsFrom (N : Nat) (agg : AggExpr) (v : Value F) (g : Tally) : Prop :=
  agg = .countStar → ∃ k, N ≤ k ∧ .stored k ∈ g.2 ∧ v = .int64 (Int64.ofNat k)

def AnswersFrom (N : Nat) (aggs : List AggExpr) (result : Except Stop (ExecutionResult F))
    (g : Tally) : Prop :=
  ∀ r, result = .ok r → ∃ values, r = .rows [.new values] ∧
    List.Forall₂ (fun agg v => CountsFrom N agg v g) aggs values

theorem keeps_countRows [ValueDebug F] {table : String} {ns : Option String} {N : Nat}
    (found : catalog.getTable (ns.getD "public") table = some tm) {known : Multiset Fact}
    (listed : .pushed N ∈ known) (agg : AggExpr) :
    Keeps act (countingFor n tm catalog start) i
      (fun result g => Learns (tally 0 0 0 known) g ∧
        ∀ v : Value F, result = .ok v → CountsFrom N agg v g)
      (aggregateOverRows tm (statement (.scan table ns)) agg) (tally 0 0 0 known) := by
  have rows : Keeps act (countingFor n tm catalog start) i
      (fun result g => Learns (tally 0 0 0 known) g ∧ ∀ rows : List (Row F),
        result = .ok rows → N ≤ rows.length ∧ .stored rows.length ∈ g.2)
      (expectRows "aggregate input must yield rows" (statement (.scan table ns)))
      (tally 0 0 0 known) := by
    refine keeps_bind (keeps_scan found listed) (fun result g h => ?_) ?_
    · cases result with
      | rows rows =>
        refine keeps_pure ⟨h.1, fun rows' same => ?_⟩
        cases same
        exact h.2 rows rfl
      | rowsAffected count => exact keeps_orReturn ⟨h.1, fun rows failed => by cases failed⟩
    · exact fun e g h => ⟨h.1, fun rows failed => by cases failed⟩
  refine keeps_bind rows (fun rows g h => ?_) (fun e g h => ⟨h.1, fun v failed => by cases failed⟩)
  refine keeps_orReturn ⟨h.1, fun v same star => ?_⟩
  subst star
  cases same
  obtain ⟨low, high⟩ := h.2 rows rfl
  exact ⟨rows.length, low, high, rfl⟩

/-- A COUNT(*) that starts when so many rows were pushed counts them. -/
theorem keeps_count [ValueDebug F] (some_column : tm.schema.columns ≠ []) {table : String}
    {ns : Option String} (found : catalog.getTable (ns.getD "public") table = some tm)
    (aggs : List AggExpr) (N : Nat) :
    Settles act (countingFor (F := F) n tm catalog start) n (AnswersFrom N aggs)
      (statement (.aggregate (.scan table ns) aggs)) (tally 0 0 0 {.pushed N}) := by
  refine keeps_scanMeta (p := .scan table ns) calm_countingFor free_countingFor found ?_
  have flushes : Keeps act (counting (F := F) tm catalog start) n
      (Same (tally 0 0 0 ({.drained N} + {.pushed N}))) (flushColumnarBuffer tm)
      (tally 0 0 0 {.pushed N}) := by
    refine keeps_flush some_column (fun fact inside => ⟨N, ?_, Multiset.mem_singleton_self _⟩)
    exact Multiset.mem_singleton.mp inside
  refine keeps_bind (keeps_of_allows (fun _ _ _ _ _ => trivial) flushes) ?_ ?_
  · rintro u g rfl
    refine keeps_perform_bind (Or.inl rfl) (fun history s rest counted allowed => ?_)
    refine ⟨tally 0 0 0 ({.stored (chunked s tm.id)} + ({.drained N} + {.pushed N})), ?_, ?_⟩
    · change Counted tm catalog start s _ _ _ (_ + _ + rest.2)
      rw [add_assoc]
      refine counted_learn counted (fun fact inside => ?_)
      rw [Multiset.mem_singleton.mp inside]
      have total := counted.rows
      have stored := counted.stored
      change chunked s tm.id ≤ _
      omega
    · refine keeps_bind (keeps_mapM Learns (Q := CountsFrom N) ?_ (refl _) aggs ?_)
        (fun values g h => ?_) (fun e g h => ?_)
      · intro agg v g g' learns counts star
        obtain ⟨k, low, high, rfl⟩ := counts star
        exact ⟨k, low, Multiset.mem_of_le learns.2 high, rfl⟩
      · intro agg _ g learns
        obtain ⟨counts, known⟩ := g
        obtain ⟨same, more⟩ := learns
        cases same
        split
        · have started : .pushed N ∈ known := Multiset.mem_of_le more (by simp [tally])
          exact keeps_countRows found started agg
        · rename_i some_chunk
          refine keeps_orReturn ⟨refl _, fun v same star => ?_⟩
          subst star
          cases same
          refine ⟨chunked s tm.id, ?_, Multiset.mem_of_le more (by simp [tally]), rfl⟩
          rcases allowed rfl (beq_self_eq_true tm.id) with empty | alone
          · exact False.elim (some_chunk empty)
          · have drained : N ≤ chunked s tm.id + (0 + rest.1.2.2) :=
              counted.known (.drained N) (by simp [tally])
            omega
      · refine keeps_pure ⟨Or.inl (congrArg (fun counts => counts.2.2) h.1.1), fun r same => ?_⟩
        cases same
        exact ⟨values, rfl, h.2 values rfl⟩
      · exact ⟨Or.inl (congrArg (fun counts => counts.2.2) h.1.1), fun r failed => by cases failed⟩
  · rintro e g rfl
    exact ⟨Or.inl rfl, fun r failed => by cases failed⟩

end Statements

section Runs

/-- The statement at a position reads the chunks of a table only while there are none, or no
other statement is about to publish a batch. -/
def NobodyPublishes (t n i : Nat) (_ : List (Nat × LockSection F)) (s : SessionState F)
    (op : LockSection F) (others : List (Task F (ExecutionResult F))) : Prop :=
  i = n → readsChunks t op = true → (s.columnarStore.chunksOf t).isEmpty = true ∨
    ∀ m ∈ others, publishing m.nextOp = false

instance (t n i : Nat) (history : List (Nat × LockSection F)) (s : SessionState F)
    (op : LockSection F) (others : List (Task F (ExecutionResult F))) :
    Decidable (NobodyPublishes t n i history s op others) :=
  inferInstanceAs (Decidable (_ → _ → _ ∨ _))

variable {tm : TableMeta} {catalog : Catalog} {start n : Nat}

theorem covers_countingFor : Covers (NobodyPublishes tm.id n)
    (countingFor (F := F) n tm catalog start) := by
  intro i history s op others shares meets shown here reads
  rcases meets here reads with empty | calm
  · exact Or.inl empty
  · refine Or.inr ?_
    induction shown with
    | nil => rfl
    | @cons g m shares others first _ ih =>
      obtain ⟨head, tail⟩ := List.forall_mem_cons.mp calm
      have no_batch : g.1.2.2 = 0 := first.resolve_right (by simp [head])
      have rest := ih (fun _ _ => Or.inr tail) tail
      rw [List.sum_cons]
      change g.1.2.2 + _ = 0
      omega

/-- The rows a statement reported to have inserted. -/
def reported (m : Task F (ExecutionResult F)) : Nat :=
  match m.returned with
  | some (.rowsAffected count) => count
  | _ => 0

theorem reported_le {P : Protocol (LockSection F) (SessionState F) Tally} {i : Nat} {g : Tally}
    {m : Task F (ExecutionResult F)} (h : Settles act P i Reports m g) :
    reported m ≤ g.1.2.1 := by
  rw [reported]
  split
  · rename_i count returned
    cases m with
    | call op next => cases returned
    | done result =>
      cases result with
      | error e => cases returned
      | ok r =>
        cases returned
        exact h.2 count rfl
  · exact Nat.zero_le _

theorem sum_reported_le {P : Protocol (LockSection F) (SessionState F) Tally}
    {certs : List ((Except Stop (ExecutionResult F) → Tally → Prop) × Tally)}
    {ts : List (Task F (ExecutionResult F) × Nat)}
    (each : List.Forall₂ (fun cert m => Settles act P m.2 cert.1 m.1 cert.2) certs ts)
    (posts : ∀ post ∈ certs.map Prod.fst, post = Reports) :
    ((ts.map Prod.fst).map reported).sum ≤ (certs.map Prod.snd).sum.1.2.1 := by
  induction each with
  | nil => exact Nat.le_refl _
  | @cons cert m certs ts first _ ih =>
    obtain ⟨head, tail⟩ := List.forall_mem_cons.mp posts
    rw [head] at first
    exact Nat.add_le_add (reported_le first) (ih tail)

variable [Float64 F] [ValueDebug F] {s : SessionState F}

/-- The rows that INSERTs had put into a table when a pool had come so far: those of earlier
statements, and those the returned INSERTs of the pool reported. -/
def insertedBefore (s : SessionState F) (tm : TableMeta) (p : StatementPool F) : Nat :=
  (s.columnarRows tm.schema tm.id).length + (p.threads.map reported).sum

theorem counted_start (h : Reachable s) (bound : Bound s tm) :
    Counted tm s.catalog (s.columnarRows tm.schema tm.id).length s 0 0 0 0 := by
  have valid := reachable_valid h
  have covered : _ ≤ _ := reachable_covered h (bound_known valid.catalog bound)
  refine ⟨rfl, valid.freshRows, ?_, ?_, fun fact inside => ?_⟩
  · rw [length_columnarRows]
  · rw [length_columnarRows]
    exact covered
  · exact False.elim (Multiset.notMem_zero fact inside)

/-- A COUNT(*) counts every row inserted by statements that had returned before it started, if
at its chunk read the table had no chunk or no other statement was about to publish a batch. -/
theorem count_sees_finished_inserts (h : Reachable s) {table : String} {ns : Option String}
    (resolved : s.tableMeta ns table = some tm) (some_column : tm.schema.columns ≠ [])
    (aggs : List AggExpr) {p₁ p₂ : StatementPool F}
    (before : Run act (Traffic s tm) always ⟨s, [], []⟩ p₁)
    (after : Run act (Traffic s tm) (NobodyPublishes tm.id p₁.threads.length)
      { p₁ with threads := p₁.threads ++ [statement (.aggregate (.scan table ns) aggs)] } p₂)
    {result : ExecutionResult F}
    (returned : p₂.threads[p₁.threads.length]? = some (.done (.ok result))) :
    ∃ values : List (Value F), result = .rows [.new values] ∧
      ∀ i : Nat, aggs[i]? = some .countStar → ∃ count, insertedBefore s tm p₁ ≤ count ∧
        count ≤ (p₂.state.rowStore.scan tm.id).length ∧
        values[i]? = some (.int64 (Int64.ofNat count)) := by
  have initial := counted_start h (bound_of_tableMeta resolved)
  obtain ⟨certs₁, k₁, cert₁, posts₁⟩ := certified_of_run
    (covers_of_allows (by exact fun _ _ _ _ _ => trivial))
    (fun i m => settles_traffic some_column) initial before
  have reports : (p₁.threads.map reported).sum ≤ (certs₁.map Prod.snd).sum.1.2.1 := by
    have sums := sum_reported_le cert₁.threads (fun post listed => by
      rw [posts₁] at listed
      exact List.eq_of_mem_replicate listed)
    rwa [List.zipIdx_map_fst] at sums
  have begun : Certified act
      (countingFor p₁.threads.length tm s.catalog (s.columnarRows tm.schema tm.id).length)
      (certs₁ ++ [(AnswersFrom (insertedBefore s tm p₁) aggs,
        tally 0 0 0 {.pushed (insertedBefore s tm p₁)})])
      { p₁ with threads := p₁.threads ++ [statement (.aggregate (.scan table ns) aggs)] } := by
    refine ⟨?_, ?_⟩
    · rw [List.map_append, List.sum_append, List.map_singleton, List.sum_singleton, add_comm]
      change Counted tm s.catalog _ p₁.state (0 + _) (0 + _) (0 + _) _
      rw [Nat.zero_add, Nat.zero_add, Nat.zero_add]
      refine counted_learn cert₁.inv (fun fact inside => ?_)
      rw [Multiset.mem_singleton.mp inside]
      exact Nat.add_le_add_left reports _
    · rw [List.zipIdx_append]
      refine List.rel_append (cert₁.threads.imp (fun cert m settled =>
        keeps_of_allows (fun _ _ _ _ _ => trivial) settled)) (.cons ?_ .nil)
      rw [Nat.zero_add]
      exact keeps_count some_column resolved aggs _
  obtain ⟨certs₂, k₂, cert₂, posts₂⟩ := certified_run covers_countingFor (fun i m traffic =>
    keeps_of_allows (fun _ _ _ _ _ => trivial) (settles_traffic some_column traffic)) begun after
  have listed : (certs₂.map Prod.fst)[p₁.threads.length]? =
      some (AnswersFrom (insertedBefore s tm p₁) aggs) := by
    have place : certs₁.length = p₁.threads.length := by simpa using cert₁.threads.length_eq
    rw [posts₂, List.map_append, ← place]
    simp
  obtain ⟨g, held, settled⟩ := settles_of_certified cert₂ listed returned
  obtain ⟨values, rfl, counts⟩ := settled.2 result rfl
  refine ⟨values, rfl, fun i star => ?_⟩
  obtain ⟨inside, here⟩ := List.getElem?_eq_some_iff.mp star
  have within : i < values.length := counts.length_eq ▸ inside
  obtain ⟨count, low, high, same⟩ := counts.get inside within here
  refine ⟨count, low, ?_, List.getElem?_eq_some_iff.mpr ⟨within, same⟩⟩
  obtain ⟨left, right, rfl⟩ := List.append_of_mem held
  have known := cert₂.inv.known (.stored count)
  rw [sum_around] at known
  exact known (Multiset.mem_add.mpr (Or.inl high))

section Instances

/-- A row and a COUNT(*) that publishes it, then a row and a COUNT(*) that may publish it. -/
def fourStatements : List (Task Float (ExecutionResult Float)) :=
  [statement (.insert "t" none [] [[.int64 1]]),
    statement (.aggregate (.scan "t" none) [.countStar]),
    statement (.insert "t" none [] [[.int64 2]]),
    statement (.aggregate (.scan "t" none) [.countStar])]

theorem traffic_fourStatements {tm : TableMeta} (found : newTable.tableMeta none "t" = some tm) :
    ∀ m ∈ fourStatements, Traffic newTable tm m := by
  have scanned : Execution.scanMeta newTable (.scan "t" none) = .ok tm :=
    resolveTable_eq_ok.mpr found
  refine List.forall_mem_cons.mpr ⟨⟨.insert "t" none _ _, found, rfl⟩, ?_⟩
  refine List.forall_mem_cons.mpr ⟨⟨.aggregate (.scan "t" none) _, scanned, rfl⟩, ?_⟩
  refine List.forall_mem_cons.mpr ⟨⟨.insert "t" none _ _, found, rfl⟩, ?_⟩
  exact List.forall_mem_singleton.mpr ⟨.aggregate (.scan "t" none) _, scanned, rfl⟩

/-- Both rows are in; the second COUNT(*) has not begun. -/
def inserted : List Nat := [0, 0, 0, 0, 0, 1, 1, 1, 1, 1, 2, 2, 2, 2, 2]

theorem count_sees_finished_inserts_two :
    ∃ tm p₁ p₂ result, newTable.tableMeta none "t" = some tm ∧
      turns act always inserted ⟨newTable, fourStatements, []⟩ = some p₁ ∧
      turns act (NobodyPublishes tm.id p₁.threads.length) [4, 4, 4, 4, 4]
        { p₁ with threads := p₁.threads ++
            [statement (.aggregate (.scan "t" none) [.countStar])] } = some p₂ ∧
      p₂.threads[p₁.threads.length]? = some (.done (.ok result)) ∧
      ∃ values : List (Value Float), result = .rows [.new values] ∧
        ∀ i : Nat, [AggExpr.countStar][i]? = some .countStar → ∃ count,
          insertedBefore newTable tm p₁ ≤ count ∧
          count ≤ (p₂.state.rowStore.scan tm.id).length ∧
          values[i]? = some (.int64 (Int64.ofNat count)) := by
  obtain ⟨tm, p₁, p₂, result, found, some_column, first, second, returned⟩ :
      ∃ tm p₁ p₂ result, newTable.tableMeta none "t" = some tm ∧ tm.schema.columns ≠ [] ∧
        turns act always inserted ⟨newTable, fourStatements, []⟩ = some p₁ ∧
        turns act (NobodyPublishes tm.id p₁.threads.length) [4, 4, 4, 4, 4]
          { p₁ with threads := p₁.threads ++
              [statement (.aggregate (.scan "t" none) [.countStar])] } = some p₂ ∧
        p₂.threads[p₁.threads.length]? = some (.done (.ok result)) :=
    ⟨_, _, _, _, rfl, by decide, rfl, rfl, rfl⟩
  refine ⟨tm, p₁, p₂, result, found, first, second, returned, ?_⟩
  exact count_sees_finished_inserts reachable_newTable found some_column [.countStar]
    (run_of_schedule (traffic_fourStatements found) inserted first)
    (run_of_turns [4, 4, 4, 4, 4] second) returned

/-- The second COUNT(*) has taken the second row and stops there; the last one misses it. -/
theorem count_misses_taken_batch :
    ¬ ∀ (s : SessionState Float) (tm : TableMeta) (table : String) (ns : Option String)
      (aggs : List AggExpr) (p₁ p₂ : StatementPool Float) (result : ExecutionResult Float),
      Reachable s → s.tableMeta ns table = some tm → tm.schema.columns ≠ [] →
      Run act (Traffic s tm) always ⟨s, [], []⟩ p₁ →
      Run act (Traffic s tm) always
        { p₁ with threads := p₁.threads ++ [statement (.aggregate (.scan table ns) aggs)] } p₂ →
      p₂.threads[p₁.threads.length]? = some (.done (.ok result)) →
      ∃ values : List (Value Float), result = .rows [.new values] ∧
        ∀ i : Nat, aggs[i]? = some .countStar → ∃ count, insertedBefore s tm p₁ ≤ count ∧
          count ≤ (p₂.state.rowStore.scan tm.id).length ∧
          values[i]? = some (.int64 (Int64.ofNat count)) := by
  intro sees
  obtain ⟨values, same, counts⟩ := sees newTable _ "t" none [.countStar] _ _ _
    reachable_newTable rfl (by decide)
    (run_of_schedule (traffic_fourStatements rfl) (inserted ++ [3, 3]) rfl)
    (run_of_turns [4, 4, 4] rfl) rfl
  cases same
  obtain ⟨count, low, high, shown⟩ := counts 0 rfl
  obtain rfl : count = 2 := Nat.le_antisymm high low
  cases shown

end Instances

end Runs

end ConcurrentCounts
