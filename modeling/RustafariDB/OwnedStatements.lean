import RustafariDB.OwnedTables
import RustafariDB.TableIsolation

/-!
# Statements by lock section on a table of their own

Whatever happens elsewhere between its sections, an INSERT or a query that owns its table
answers by the table and leaves it as the database of named tables says. Row ids and chunk
numbers come from counters that all share, so the proof goes through the sections that
store, and takes the parts that only look as they are at once.
-/

namespace OwnedStatements

open Std Catalogs Values RowStorage ColumnarStorage BTreeIndexing Plans Floats Sessions
open Predicates Aggregates StatefulPrograms Interleavings LockSections
open Execution (Stop ExecutionResult executePlan)
open PlanEffects TableViews IndexLookups AggregateAgreement SessionInvariants
open NamedTables hiding act
open NamedTableRefinement OwnedTables TableIsolation SqlExecution

variable {F : Type} [Float64 F]

/-- A picture that holds a table, with the catalog of the start. -/
structure Shows (start : SessionState F) (tm : TableMeta) (t : Table F) (σ : SessionState F) :
    Prop where
  catalog : σ.catalog = start.catalog
  fresh : σ.rowStore.Fresh
  holds : Holds σ tm t

/-- A result, and a table left in the hands of its owner. -/
def Ends {α : Type} (start : SessionState F) (tm : TableMeta) (t : Table F)
    (expected : Except Stop α) (result : Except Stop α) (g : Owned F) : Prop :=
  result = expected ∧ ∃ σ, g = {(tm.id, σ)} ∧ Shows start tm t σ

section Rules
variable {start σ s : SessionState F} {tm : TableMeta} {t t' : Table F} {i : Nat}
variable {α β : Type} {g : Owned F}

theorem ends_picture {r : Except Stop α} (shows : Shows start tm t σ) :
    Ends start tm t r r {(tm.id, σ)} := ⟨rfl, σ, rfl, shows⟩

theorem shows_of_pictures (shows : Shows start tm t σ) {σ' : SessionState F}
    (pictures : Pictures start σ tm.id σ') : Shows start tm t σ' :=
  ⟨pictures.catalog, pictures.fresh,
    holds_of_sameContent (sameContent_of_agree pictures.agree) shows.holds⟩

/-- A section on the own table finds the table that the picture shows. -/
theorem keeps_section {op : LockSection F} {f : Answer op → Task F α}
    {post : Except Stop α → Owned F → Prop} (data : onData op = true)
    (own : ∀ u, touched op = some u → u = tm.id) (shows : Shows start tm t σ)
    (rest : ∀ s, Shows start tm t s →
      Keeps act (ownership start) i post (f (act op s).1) {(tm.id, (act op s).2)}) :
    Keeps act (ownership start) i post (locked op >>= f) {(tm.id, σ)} :=
  keeps_own_bind data own (fun s catalog fresh agree =>
    rest s (shows_of_pictures shows ⟨agree, catalog, fresh⟩))

/-- A part that only looks answers what it answers at once. -/
theorem keeps_looks_bind {q : Task F α} {k : α → Task F β} {a : α}
    {post : Except Stop β → Owned F → Prop} (looks : Looks tm.id σ q)
    (answer : Program.alone act q σ = .ok a σ) (shows : Shows start tm t σ)
    (rest : ∀ σ', Shows start tm t σ' → Keeps act (ownership start) i post (k a) {(tm.id, σ')}) :
    Keeps act (ownership start) i post (q >>= k) {(tm.id, σ)} := by
  have self : Pictures start σ tm.id σ := ⟨agree_refl _ _, shows.catalog, shows.fresh⟩
  refine keeps_bind (keeps_looks looks shows.catalog self) ?_ ?_
  · rintro a' g ⟨run, σ', rfl, pictures⟩
    rw [answer] at run
    cases run
    exact rest σ' (shows_of_pictures shows pictures)
  · rintro e g ⟨run, _⟩
    rw [answer] at run
    cases run

variable {ns : Option String} {table : String}

theorem live_of_shows (live : start.tableMeta ns table = some tm) (shows : Shows start tm t σ) :
    σ.tableMeta ns table = some tm := by
  rwa [SessionState.tableMeta, shows.catalog]

theorem keeps_scanMeta_bind {p : PlanNode F} {k : TableMeta → Task F α}
    {post : Except Stop α → Owned F → Prop} (reads : ReadsFrom ns table p)
    (live : start.tableMeta ns table = some tm) (shows : Shows start tm t σ)
    (rest : ∀ σ', Shows start tm t σ' →
      Keeps act (ownership start) i post (k tm) {(tm.id, σ')}) :
    Keeps act (ownership start) i post (scanMeta p >>= k) {(tm.id, σ)} := by
  refine keeps_looks_bind (looks_scanMeta _ _ p) ?_ shows rest
  rw [alone_scanMeta, scanMeta_of_readsFrom reads (live_of_shows live shows)]
  rfl

theorem keeps_expectRows_bind {message : String} {sub : Task F (ExecutionResult F)}
    {x : Except Stop (List (Row F))} {k : List (Row F) → Task F α}
    {y : List (Row F) → Except Stop α}
    (inner : Keeps act (ownership start) i (Ends start tm t (x.map .rows)) sub g)
    (rest : ∀ rows σ', Shows start tm t σ' →
      Keeps act (ownership start) i (Ends start tm t (y rows)) (k rows) {(tm.id, σ')}) :
    Keeps act (ownership start) i (Ends start tm t (x >>= y)) (expectRows message sub >>= k) g := by
  rw [expectRows, bind_assoc]
  refine keeps_bind inner ?_ ?_
  · rintro result g ⟨returned, σ', rfl, shows⟩
    cases x with
    | error e => cases returned
    | ok rows =>
      cases returned
      exact rest rows σ' shows
  · rintro e g ⟨failed, σ', rfl, shows⟩
    cases x with
    | error e' =>
      cases failed
      exact ends_picture shows
    | ok rows => cases failed

end Rules

section Writes
variable {start σ s : SessionState F} {tm : TableMeta} {t : Table F} {i : Nat} {row : Row F}

/-- A table whose buffer was taken. -/
def taken (t : Table F) : Table F := { t with buffer := [], room := Table.room_empty }

/-- A table with one more chunk. -/
def published (t : Table F) (part : List (Row F))
    (size : 1 ≤ part.length ∧ part.length ≤ columnarChunkSize) : Table F :=
  { t with
    chunks := t.chunks ++ [part]
    sizes := by
      intro part' inside
      rcases List.mem_append.mp inside with old | new
      · exact t.sizes part' old
      · rw [List.mem_singleton.mp new]
        exact size }

theorem holds_withBuffer (holds : Holds s tm t) {rows : List (Row F)}
    (room : rows.length < columnarChunkSize) :
    Holds (withBuffer s tm.id rows) tm { t with buffer := rows, room := room } :=
  ⟨holds.schema, holds.rows, holds.indexed, holds.index, holds.chunks,
    buffered_withBuffer s tm.id rows⟩

theorem holds_insertChunk (holds : Holds s tm t) {part : List (Row F)}
    (size : 1 ≤ part.length ∧ part.length ≤ columnarChunkSize) (id : Nat) :
    Holds (act (.insertChunk tm.id (.new id (columnChunks tm.schema part))) s).2 tm
      (published t part size) := by
  refine ⟨holds.schema, holds.rows, holds.indexed, holds.index, ?_, holds.buffer⟩
  rw [chunksOf_insertChunk, Table.columnar, holds.schema]
  change AlikeChunks ((t.chunks ++ [part]).map (chunkOf t.schema)) _
  rw [List.map_append]
  exact List.rel_append holds.chunks (.cons rfl .nil)

theorem keeps_publish {part : List (Row F)}
    (size : 1 ≤ part.length ∧ part.length ≤ columnarChunkSize) (shows : Shows start tm t σ) :
    Keeps act (ownership start) i (Ends start tm (published t part size) (.ok ()))
      (publish tm part) {(tm.id, σ)} := by
  refine keeps_section rfl (by exact nofun) shows (fun s shows => ?_)
  have numbered : Shows start tm t (act .nextChunkId s).2 :=
    ⟨shows.catalog, shows.fresh, holds_of_sameContent
      (sameContent_of_agree (agree_act rfl (by exact nofun) s)) shows.holds⟩
  rw [← bind_pure (locked _)]
  refine keeps_section rfl (fun u same => (Option.some.inj same).symm) numbered
    (fun s' shows' => ?_)
  exact ends_picture ⟨shows'.catalog, shows'.fresh, holds_insertChunk shows'.holds size _⟩

theorem keeps_flush (shows : Shows start tm t σ) :
    Keeps act (ownership start) i (Ends start tm t.flush (.ok ()))
      (flushColumnarBuffer (F := F) tm) {(tm.id, σ)} := by
  refine keeps_section rfl (fun u same => (Option.some.inj same).symm) shows (fun s shows => ?_)
  have buffer := shows.holds.buffer
  by_cases empty : t.buffer = []
  · rw [act_takeBuffer_empty (buffer.trans empty), Table.flush, dif_pos empty]
    exact ends_picture shows
  · rw [act_takeBuffer (by rwa [buffer]), buffer, Table.flush, dif_neg empty]
    have emptied : Shows start tm (taken t) (withBuffer s tm.id []) :=
      ⟨shows.catalog, shows.fresh, holds_withBuffer shows.holds Table.room_empty⟩
    exact keeps_publish ⟨List.length_pos_iff.mpr empty, Nat.le_of_lt t.room⟩ emptied

/-- A row that is stored and filed joins the buffer, or closes it into a chunk. -/
theorem keeps_push (shows : Shows start tm (t.strand row) σ) :
    Keeps act (ownership start) i (Ends start tm (t.push row) (.ok ()))
      (pushColumnarRow tm row) {(tm.id, σ)} := by
  refine keeps_section rfl (fun u same => (Option.some.inj same).symm) shows (fun s shows => ?_)
  have buffer : s.buffered tm.id = t.buffer := shows.holds.buffer
  by_cases fits : (t.buffer ++ [row]).length < columnarChunkSize
  · rw [act_pushRow_room (by rwa [buffer]), buffer, Table.push, dif_pos fits]
    exact ends_picture ⟨shows.catalog, shows.fresh, holds_withBuffer shows.holds fits⟩
  · rw [act_pushRow_full (by rwa [buffer]), buffer, Table.push, dif_neg fits]
    have emptied : Shows start tm (taken (t.strand row)) (withBuffer s tm.id []) :=
      ⟨shows.catalog, shows.fresh, holds_withBuffer shows.holds Table.room_empty⟩
    have room := t.room
    refine keeps_publish ⟨?_, ?_⟩ emptied <;> rw [List.length_append, List.length_singleton] <;>
      omega

end Writes

section Inserts
variable {start σ s : SessionState F} {tm : TableMeta} {t : Table F} {i id : Nat} {row : Row F}

/-- The row is stored under an id and not yet in the index. -/
structure Pending (start : SessionState F) (tm : TableMeta) (t : Table F) (id : Nat) (row : Row F)
    (σ : SessionState F) : Prop where
  catalog : σ.catalog = start.catalog
  fresh : σ.rowStore.Fresh
  schema : tm.schema = t.schema
  rows : ∃ entries, σ.rowStore.scan tm.id = entries ++ [(id, row)] ∧
    entries.map Prod.snd = t.rows ∧
    ∀ index, σ.getIndex tm.id "id" = some index → Indexes index t.key entries
  indexed : (σ.getIndex tm.id "id").isSome = t.indexed
  chunks : AlikeChunks t.columnar (σ.columnarStore.chunksOf tm.id)
  buffer : σ.buffered tm.id = t.buffer

theorem pending_insertRow (shows : Shows start tm t s) (row : Row F) :
    Pending start tm t s.rowStore.nextRowId row (withRow s tm.id row) :=
  ⟨shows.catalog, TableStore.fresh_insert shows.fresh tm.id row, shows.holds.schema,
    ⟨s.rowStore.scan tm.id, TableStore.scan_insert_self shows.fresh tm.id row, shows.holds.rows,
      shows.holds.index⟩, shows.holds.indexed, shows.holds.chunks, shows.holds.buffer⟩

theorem pending_agree (pending : Pending start tm t id row σ) (catalog : s.catalog = start.catalog)
    (fresh : s.rowStore.Fresh) (agree : Agree tm.id σ s) : Pending start tm t id row s := by
  refine ⟨catalog, fresh, pending.schema, ?_, ?_, ?_, ?_⟩
  · rw [agree.rows, agree.index]
    exact pending.rows
  · rw [agree.index]
    exact pending.indexed
  · rw [agree.chunks]
    exact pending.chunks
  · rw [agree.buffer]
    exact pending.buffer

/-- A row that belongs in no index need not be filed. -/
theorem shows_of_pending (pending : Pending start tm t id row s)
    (keyless : t.indexed = true → t.key row = none) : Shows start tm (t.strand row) s := by
  obtain ⟨entries, scan, rows, index⟩ := pending.rows
  refine ⟨pending.catalog, pending.fresh, pending.schema, ?_, pending.indexed, ?_, pending.chunks,
    pending.buffer⟩
  · rw [scanRows, scan, List.map_append, rows]
    rfl
  · intro held indexed
    have known : t.indexed = true := by rw [← pending.indexed, indexed, Option.isSome_some]
    rw [scan]
    exact indexes_skip (index held indexed) (keyless known) id

theorem shows_indexInsert (pending : Pending start tm t id row s) {k : IndexKey}
    (keyed : t.key row = some k) : Shows start tm (t.strand row) (withIndexed s tm.id k id) := by
  obtain ⟨entries, scan, rows, index⟩ := pending.rows
  obtain ⟨catalog, store⟩ := catalog_withIndexed s tm.id k id
  have columnar : (withIndexed s tm.id k id).columnarStore = s.columnarStore ∧
      (withIndexed s tm.id k id).buffered tm.id = s.buffered tm.id := by
    rw [withIndexed]
    split <;> exact ⟨rfl, rfl⟩
  have held : (withIndexed s tm.id k id).getIndex tm.id "id" =
      (s.getIndex tm.id "id").map (fun index => index.insert k id) := by
    rw [withIndexed]
    cases found : s.getIndex tm.id "id" with
    | none => exact found
    | some old => simp [SessionState.getIndex_insert]
  refine ⟨catalog.trans pending.catalog, store.symm ▸ pending.fresh, pending.schema, ?_, ?_, ?_, ?_,
    columnar.2.trans pending.buffer⟩
  · rw [scanRows, store, scan, List.map_append, rows]
    rfl
  · rw [held, Option.isSome_map]
    exact pending.indexed
  · intro new indexed
    rw [held] at indexed
    obtain ⟨old, before, rfl⟩ := Option.map_eq_some_iff.mp indexed
    rw [store, scan]
    exact indexes_insert (index old before) keyed id
  · rw [columnar.1]
    exact pending.chunks

/-- A pending row is filed, or left alone, or refused and left. -/
theorem keeps_indexRow (pending : Pending start tm t id row σ) :
    Keeps act (ownership start) i
      (Ends start tm (t.strand row) (match t.refuses row with
        | some e => .error (.error e)
        | none => .ok ()))
      (indexRow tm (tm.schema.columnIndex "id") row id) {(tm.id, σ)} := by
  refine keeps_own_bind rfl (fun u same => (Option.some.inj same).symm)
    (fun s catalog fresh agree => ?_)
  have pending' := pending_agree pending catalog fresh agree
  have found : (act (.getIndex tm.id) s).1 = t.indexed := pending'.indexed
  rw [found, pending.schema, Table.refuses]
  have keyOf : t.key row = (t.schema.columnIndex "id").bind (fun i => idKey i row) := rfl
  cases column : t.schema.columnIndex "id" with
  | none =>
    rw [column] at keyOf
    refine keeps_pure ?_
    simp only [Option.bind_none, Option.map_none, ite_self]
    exact ends_picture (shows_of_pending pending' (fun _ => keyOf))
  | some idCol =>
    rw [column] at keyOf
    cases indexed : t.indexed with
    | false =>
      refine keeps_pure ?_
      simp only [Bool.false_eq_true, if_false]
      refine ends_picture (shows_of_pending pending' (fun known => ?_))
      rw [indexed] at known
      cases known
    | true =>
      simp only [if_true, Option.bind_some]
      simp only [Option.bind_some, idKey] at keyOf
      cases cell : row.get idCol with
      | none =>
        rw [cell] at keyOf
        exact keeps_pure (ends_picture (shows_of_pending pending' (fun _ => keyOf)))
      | some v =>
        rw [cell] at keyOf
        simp only [Option.map_some]
        cases key : IndexKey.fromValue v with
        | error e =>
          rw [Option.bind_some, key] at keyOf
          exact keeps_done (ends_picture (shows_of_pending pending' (fun _ => keyOf)))
        | ok k =>
          rw [Option.bind_some, key] at keyOf
          change Keeps act _ i _ (locked (.indexInsert tm.id k id) >>= pure) _
          refine keeps_own_bind rfl (fun u same => (Option.some.inj same).symm)
            (fun s' catalog' fresh' agree' => ?_)
          have filed := pending_agree pending' catalog' fresh' agree'
          exact keeps_pure (ends_picture (shows_indexInsert filed keyOf))

theorem keeps_insertRow (shows : Shows start tm t σ) (rowVals : List (Value F)) :
    Keeps act (ownership start) i
      (match t.refuses (.new rowVals) with
        | some e => Ends start tm (t.strand (.new rowVals)) (.error (.error e))
        | none => Ends start tm (t.push (.new rowVals)) (.ok ()))
      (insertRow tm (tm.schema.columnIndex "id") rowVals) {(tm.id, σ)} := by
  refine keeps_section rfl (fun u same => (Option.some.inj same).symm) shows (fun s shows => ?_)
  refine keeps_bind (keeps_indexRow (pending_insertRow shows (.new rowVals))) ?_ ?_
  · rintro _ g ⟨accepted, σ', rfl, stored⟩
    cases refused : t.refuses (.new rowVals) with
    | some e =>
      rw [refused] at accepted
      cases accepted
    | none => exact keeps_push stored
  · rintro e g ⟨stopped, σ', rfl, stored⟩
    cases refused : t.refuses (.new rowVals) with
    | some e' =>
      rw [refused] at stopped
      cases stopped
      exact ends_picture stored
    | none =>
      rw [refused] at stopped
      cases stopped

theorem keeps_insertRows (shows : Shows start tm t σ) (values : List (List (Value F)))
    (count : Nat) :
    Keeps act (ownership start) i
      (Ends start tm (t.insert values).2 (match (t.insert values).1 with
        | some e => .error (.error e)
        | none => .ok (count + values.length)))
      (insertRows tm (tm.schema.columnIndex "id") values count) {(tm.id, σ)} := by
  induction values generalizing σ t count with
  | nil => exact keeps_pure (ends_picture shows)
  | cons rowVals values ih =>
    have first := keeps_insertRow (i := i) shows rowVals
    rw [Table.insert]
    cases refused : t.refuses (.new rowVals) with
    | some e =>
      simp only [refused] at first
      refine keeps_bind first ?_ ?_
      · rintro _ g ⟨accepted, _⟩
        cases accepted
      · rintro e' g ⟨stopped, σ', rfl, left⟩
        cases stopped
        exact ends_picture left
    | none =>
      simp only [refused] at first
      refine keeps_bind first ?_ ?_
      · rintro _ g ⟨_, σ', rfl, pushed⟩
        have onward := ih pushed (count + 1)
        rwa [Nat.add_assoc, Nat.add_comm 1] at onward
      · rintro e' g ⟨stopped, _⟩
        cases stopped

end Inserts

section Queries
variable [ValueDebug F] {start σ : SessionState F} {tm : TableMeta} {t : Table F} {i : Nat}
variable {ns : Option String} {table : String} {p : PlanNode F}

omit [Float64 F] [ValueDebug F] in
theorem runExcept_inj {α : Type} {x y : Except Stop α} {s s' : SessionState F}
    (same : runExcept x s = runExcept y s') : x = y := by
  cases x <;> cases y <;> cases same <;> rfl

omit [Float64 F] [ValueDebug F] in
theorem flush_of_empty (empty : t.buffer = []) : t.flush = t := by
  rw [Table.flush, dif_pos empty]

omit [Float64 F] [ValueDebug F] in
theorem flush_flush (t : Table F) : t.flush.flush = t.flush :=
  flush_of_empty (Table.buffer_flush t)

omit [ValueDebug F] in
/-- A program that only looks, and answers at once what a query answers, keeps the table. -/
theorem keeps_answer {q : Task F (ExecutionResult F)} {x : Except Stop (List (Row F))}
    (looks : Looks tm.id σ q) (shows : Shows start tm t σ)
    (run : Program.alone act q σ = runExcept (x.map .rows) σ) :
    Keeps act (ownership start) i (Ends start tm t (x.map .rows)) q {(tm.id, σ)} := by
  have self : Pictures start σ tm.id σ := ⟨agree_refl _ _, shows.catalog, shows.fresh⟩
  refine keeps_mono ?_ (keeps_looks looks shows.catalog self)
  rintro result g ⟨answer, σ', rfl, pictures⟩
  rw [run] at answer
  obtain rfl := runExcept_inj answer
  exact ends_picture (shows_of_pictures shows pictures)

omit [ValueDebug F] in
theorem queried_of_still (shows : Shows start tm t σ)
    (still : aggregates p = false ∨ t.buffer = []) : queried p tm σ = σ := by
  rw [queried]
  rcases still with plain | empty
  · rw [plain]
    rfl
  · rw [SessionState.flushColumnarBuffer_eq, if_pos (shows.holds.buffer.trans empty), ite_self]

/-- A query that has no buffer to flush answers as at once. -/
theorem keeps_quiet_query (reads : ReadsFrom ns table p)
    (live : start.tableMeta ns table = some tm) (shows : Shows start tm t σ)
    (plain : aggregates p = false) :
    Keeps act (ownership start) i (Ends start tm t ((t.answer p).map .rows)) (statement p)
      {(tm.id, σ)} := by
  have here := live_of_shows live shows
  refine keeps_answer (looks_query reads here (Or.inl plain)) shows ?_
  rw [alone_statement, query_run reads here shows.holds, queried_of_still shows (Or.inl plain)]

/-- After the flush an aggregate only looks, and answers as the whole query does then. -/
theorem keeps_afterFlush (input : PlanNode F) (reads : ReadsFrom ns table input)
    (live : start.tableMeta ns table = some tm) (shows : Shows start tm t σ)
    (empty : t.buffer = []) (aggs : List AggExpr) :
    Keeps act (ownership start) i
      (Ends start tm t ((t.answer (.aggregate input aggs)).map .rows))
      (afterFlush tm input aggs) {(tm.id, σ)} := by
  have here := live_of_shows live shows
  have whole : ReadsFrom ns table (.aggregate input aggs) := reads
  have none : σ.buffered tm.id = [] := shows.holds.buffer.trans empty
  refine keeps_answer (looks_afterFlush aggs (looks_query reads here (Or.inr none))) shows ?_
  have run := query_run whole here shows.holds
  rw [queried_of_still shows (Or.inr empty), ← alone_statement, statement, alone_afterScanMeta,
    bind_run, scanMeta_of_readsFrom reads here] at run
  change Program.alone act (flushColumnarBuffer tm >>= fun _ => afterFlush tm input aggs) σ = _
    at run
  rw [Program.alone_bind, bind_run, alone_flushColumnarBuffer,
    SessionState.flushColumnarBuffer_eq, if_pos none] at run
  exact run

/-- A query over the own table answers from it, and at most flushes its buffer. -/
theorem keeps_query (reads : ReadsFrom ns table p) (live : start.tableMeta ns table = some tm)
    (shows : Shows start tm t σ) :
    Keeps act (ownership start) i
      (Ends start tm (if aggregates p then t.flush else t) ((t.answer p).map .rows))
      (statement p) {(tm.id, σ)} := by
  induction p generalizing σ with
  | scan table' ns' => exact keeps_quiet_query reads live shows rfl
  | filter input predicate ih =>
    cases kind : aggregates input with
    | false =>
      have plain : aggregates (.filter input predicate) = false := kind
      rw [plain]
      exact keeps_quiet_query reads live shows plain
    | true =>
      -- the input is not a scan, so no index is looked for
      have total : aggregates (.filter input predicate) = true := kind
      have scanned : indexLookup input predicate = none ∧ t.lookup input predicate = none := by
        cases input with
        | scan => cases kind
        | _ => exact ⟨rfl, rfl⟩
      have answer : (t.answer (.filter input predicate)).map ExecutionResult.rows =
          t.answer input >>= fun rows => .ok (.rows (rows.filter (fun row =>
            evalPredicate row predicate tm.schema))) := by
        rw [Table.answer, scanned.2, shows.holds.schema]
        cases t.answer input <;> rfl
      rw [total, answer, statement]
      refine keeps_scanMeta_bind (p := input) reads live shows (fun σ shows => ?_)
      have inner := ih reads shows
      rw [kind] at inner
      rw [selectRows, scanned.1]
      simp only [filterRows, bind_assoc]
      exact keeps_expectRows_bind inner (fun rows σ shows => keeps_pure (ends_picture shows))
  | project input columns ih =>
    rw [rows_project, ← shows.holds.schema, statement]
    refine keeps_expectRows_bind (ih reads shows) (fun rows σ shows => ?_)
    exact keeps_scanMeta_bind (p := input) reads live shows
      (fun σ shows => keeps_pure (ends_picture shows))
  | limit input limit offset ih =>
    rw [rows_limit, statement]
    exact keeps_expectRows_bind (ih reads shows)
      (fun rows σ shows => keeps_pure (ends_picture shows))
  | aggregate input aggs ih =>
    refine keeps_scanMeta_bind (p := input) reads live shows (fun σ shows => ?_)
    refine keeps_bind (keeps_flush shows) ?_ ?_
    · rintro _ g ⟨_, σ', rfl, flushed⟩
      have answer : t.flush.answer (.aggregate input aggs) = t.answer (.aggregate input aggs) := by
        rw [Table.answer, Table.answer, flush_flush]
      rw [← answer]
      exact keeps_afterFlush input reads live flushed (Table.buffer_flush t) aggs
    · rintro e g ⟨stopped, _⟩
      cases stopped
  | groupBy input groupBy aggs ih =>
    rw [rows_groupBy, ← shows.holds.schema, statement]
    refine keeps_expectRows_bind (ih reads shows) (fun rows σ shows => ?_)
    refine keeps_scanMeta_bind (p := input) reads live shows (fun σ shows => ?_)
    cases Execution.groupRows tm.schema groupBy aggs rows <;> exact keeps_done (ends_picture shows)
  | orderBy input columns ih =>
    rw [rows_orderBy, ← shows.holds.schema, statement]
    refine keeps_expectRows_bind (ih reads shows) (fun rows σ shows => ?_)
    refine keeps_scanMeta_bind (p := input) reads live shows (fun σ shows => ?_)
    cases Execution.orderRows tm.schema columns rows <;> exact keeps_done (ends_picture shows)
  | _ => exact False.elim reads

end Queries

section Statements
variable [ValueDebug F] {start σ : SessionState F} {tm : TableMeta} {t : Table F} {i : Nat}
variable {ns table : String} {p : PlanNode F}

/-- CREATE TABLE and DROP TABLE. -/
def defines : PlanNode F → Bool
  | .createTable _ _ _ => true
  | .dropTable _ _ => true
  | _ => false

/-- A statement on the own table answers and leaves the table as the database says. -/
theorem keeps_statement (planned : Planned p) (data : defines p = false)
    (own : place p = (ns, table)) (live : start.catalog.getTable ns table = some tm)
    (shows : Shows start tm t σ) : ∃ t', (NamedTables.act p (some t)).2 = some t' ∧
      Keeps act (ownership start) i (Ends start tm t' (NamedTables.act p (some t)).1)
        (statement p) {(tm.id, σ)} := by
  have bound : start.catalog.getTable (place p).1 (place p).2 = some tm := by rw [own]; exact live
  cases planned with
  | query select =>
    obtain ⟨source, name, reads⟩ := reads_of_select select
    have here : start.tableMeta source name = some tm := by
      rw [place, subject_of_readsFrom reads] at bound
      exact bound
    rw [act_query reads]
    exact ⟨_, rfl, keeps_query reads here shows⟩
  | insert name source columns values =>
    refine ⟨_, rfl, ?_⟩
    refine keeps_scanMeta_bind (p := .scan name source) ⟨rfl, rfl⟩ bound shows
      (fun σ shows => ?_)
    refine keeps_bind (keeps_insertRows shows values 0) ?_ ?_
    · rintro count g ⟨stored, σ', rfl, left⟩
      simp only [NamedTables.act]
      cases refused : (t.insert values).1 with
      | some e =>
        rw [refused] at stored
        cases stored
      | none =>
        rw [refused, Nat.zero_add] at stored
        cases stored
        exact keeps_pure (ends_picture left)
    · rintro e g ⟨stopped, σ', rfl, left⟩
      simp only [NamedTables.act]
      cases refused : (t.insert values).1 with
      | some e' =>
        rw [refused] at stopped
        cases stopped
        exact ends_picture left
      | none =>
        rw [refused] at stopped
        cases stopped
  | describeTable name source =>
    refine ⟨t, rfl, ?_⟩
    refine keeps_scanMeta_bind (p := .scan name source) ⟨rfl, rfl⟩ bound shows
      (fun σ shows => keeps_pure ?_)
    have described : Execution.describeRows tm = t.describe := by
      rw [Table.describe, Execution.describeRows, shows.holds.schema]
      rfl
    rw [described]
    exact ends_picture shows
  | createTable => cases data
  | dropTable => cases data

end Statements

end OwnedStatements
