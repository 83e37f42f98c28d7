import RustafariDB.TableIsolation

/-!
# How many chunks a table has

A chunk is closed when it is full or when an aggregate wants to read the buffer. So the
columnar copy has a full chunk for every 100000 rows, and at most one short chunk for every
aggregate that was asked of the table since it was created.
-/

namespace ChunkSizes

open Catalogs Values ColumnarStorage Plans Floats Sessions Execution PlanEffects StatefulPrograms
open TableViews AnsweringMachines SqlPlanning SqlExecution NamedTables NamedTableRefinement
open TableIsolation

variable {F : Type}

section Tables
variable {t : Table F} {closed : Nat}

/-- The columnar copy holds no more than the rows, with a number of short chunks at most. -/
structure Tight (t : Table F) (closed : Nat) : Prop where
  short : t.chunks.countP (fun part => part.length < columnarChunkSize) ≤ closed
  held : t.chunks.flatten.length + t.buffer.length ≤ t.rows.length

theorem tight_empty (columns : List Column) (indexed : Bool) (closed : Nat) :
    Tight (.empty columns indexed : Table F) closed := ⟨Nat.zero_le _, Nat.zero_le _⟩

theorem tight_flush (tight : Tight t closed) : Tight t.flush (closed + 1) := by
  obtain ⟨short, held⟩ := tight
  by_cases some_row : t.buffer = []
  · rw [Table.flush, dif_pos some_row]
    exact ⟨Nat.le_succ_of_le short, held⟩
  · constructor
    · rw [Table.chunks_flush, if_neg some_row, List.countP_append, List.countP_singleton]
      split <;> omega
    · rw [Table.chunks_flush, if_neg some_row, Table.buffer_flush, Table.rows_flush]
      simpa using held

theorem tight_strand (tight : Tight t closed) (row : Row F) : Tight (t.strand row) closed := by
  refine ⟨tight.short, Nat.le_trans tight.held ?_⟩
  rw [Table.strand, List.length_append]
  exact Nat.le_add_right _ _

theorem tight_push (tight : Tight t closed) (row : Row F) : Tight (t.push row) closed := by
  obtain ⟨short, held⟩ := tight
  obtain ⟨chunks, buffer⟩ := Table.columnar_push t row
  have room := t.room
  constructor
  · rw [chunks]
    split
    · exact short
    · rename_i full
      -- the buffer was not full, so the chunk has its full size
      rw [List.countP_append, List.countP_singleton, if_neg (by simpa using full)]
      exact short
  · rw [chunks, buffer, Table.rows_push]
    split <;> simp only [List.length_append, List.flatten_append, List.flatten_singleton,
      List.length_singleton, List.length_nil] <;> omega

theorem tight_insert [Float64 F] (values : List (List (Value F))) (tight : Tight t closed) :
    Tight (t.insert values).2 closed := by
  induction values generalizing t with
  | nil => exact tight
  | cons vals values ih =>
    rw [Table.insert]
    cases t.refuses (.new vals) with
    | some e => exact tight_strand tight _
    | none => exact ih (tight_push tight _)

/-- Full chunks are paid for by the rows. -/
theorem chunks_le (tight : Tight t closed) :
    columnarChunkSize * t.chunks.length ≤ t.rows.length + columnarChunkSize * closed := by
  have filled (chunks : List (List (Row F))) : columnarChunkSize * chunks.length ≤
      chunks.flatten.length + columnarChunkSize *
        chunks.countP (fun part => part.length < columnarChunkSize) := by
    induction chunks with
    | nil => exact Nat.zero_le _
    | cons part chunks ih =>
      rw [List.length_cons, List.flatten_cons, List.length_append, List.countP_cons]
      rw [Nat.mul_succ, Nat.mul_add]
      split
      · omega
      · rename_i full
        rw [decide_eq_true_eq] at full
        omega
  have all := filled t.chunks
  have few := Nat.mul_le_mul_left columnarChunkSize tight.short
  have held := tight.held
  omega

end Tables

section Texts
variable [Float64 F] [FloatText F] [SqlText] [SqlParser]

variable (F) in
/-- The aggregates asked of a table, after a text: a CREATE TABLE of its name begins anew. -/
def asked (ns table : String) (closed : Nat) (sql : String) : Nat :=
  match (sqlToPlan sql : Except RustafariError (PlanNode F)) with
  | .ok p =>
    if place p = (ns, table) then
      if creates p then 0 else if aggregates p then closed + 1 else closed
    else closed
  | .error _ => closed

variable [ValueDebug F] {ns table : String} {d : Database F} {closed : Nat}

omit [FloatText F] [SqlText] [SqlParser] in
theorem tight_act {p : PlanNode F} (planned : Planned p) {entry : Option (Table F)}
    (tight : ∀ t, entry = some t → Tight t closed) {t : Table F}
    (left : (act p entry).2 = some t) :
    Tight t (if creates p then 0 else if aggregates p then closed + 1 else closed) := by
  cases planned with
  | query select =>
    obtain ⟨ns, table, reads⟩ := reads_of_select select
    have creates_none : creates p = false := by
      cases p with
      | createTable | dropTable => exact False.elim reads
      | _ => rfl
    rw [act_query reads] at left
    rw [if_neg (by rw [creates_none]; exact Bool.false_ne_true)]
    cases entry with
    | none => cases left
    | some t' =>
      cases left
      split
      · exact tight_flush (tight t' rfl)
      · exact tight t' rfl
  | insert table ns columns values =>
    cases entry with
    | none => cases left
    | some t' =>
      cases left
      exact tight_insert values (tight t' rfl)
  | createTable table ns columns =>
    cases left
    exact tight_empty _ _ _
  | dropTable table ns => cases entry <;> cases left
  | describeTable table ns =>
    cases entry with
    | none => cases left
    | some t' =>
      cases left
      exact tight t rfl

theorem tight_database (sql : String) (tight : ∀ t, d.tables ns table = some t → Tight t closed)
    {t : Table F} (left : (database sql d).2.tables ns table = some t) :
    Tight t (asked F ns table closed sql) := by
  rw [asked]
  cases planned : (sqlToPlan sql : Except RustafariError (PlanNode F)) with
  | error e =>
    rw [database_of_error planned] at left
    exact tight t left
  | ok p =>
    rw [database_of_ok planned, tables_execute] at left
    by_cases own : place p = (ns, table)
    · rw [if_pos own] at left
      simp only [if_pos own]
      exact tight_act (planned_of_sql planned) tight left
    · rw [if_neg own] at left
      simp only [if_neg own]
      exact tight t left

theorem tight_run (texts : List String)
    (tight : ∀ t, d.tables ns table = some t → Tight t closed) {t : Table F}
    (left : (after database texts d).tables ns table = some t) :
    Tight t (texts.foldl (asked F ns table) closed) := by
  induction texts generalizing d closed with
  | nil => exact tight t left
  | cons sql texts ih => exact ih (fun t => tight_database sql tight) left

end Texts

section Sessions
variable {s : SessionState F} {tm : TableMeta} {t : Table F} {closed : Nat}

/-- Every chunk of a table has a row at least and 100000 at most, the buffer has room, and there
is a chunk for every 100000 rows, besides a number of chunks that were closed early. -/
structure Bounded (s : SessionState F) (tm : TableMeta) (closed : Nat) : Prop where
  sizes : tm.schema.columns ≠ [] → ∀ ch ∈ s.columnarStore.chunksOf tm.id,
    1 ≤ ch.rowCount ∧ ch.rowCount ≤ columnarChunkSize
  room : (s.buffered tm.id).length < columnarChunkSize
  count : columnarChunkSize * (s.columnarStore.chunksOf tm.id).length ≤
    (scanRows s tm).length + columnarChunkSize * closed

variable [Float64 F]

theorem bounded_of_holds (holds : Holds s tm t) (tight : Tight t closed) :
    Bounded s tm closed := by
  constructor
  · intro some_column ch inside
    obtain ⟨ch', listed, alike⟩ := exists_of_forall₂ holds.chunks.flip ch inside
    obtain ⟨part, stored, rfl⟩ := List.mem_map.mp listed
    have column : t.schema.columns ≠ [] := holds.schema ▸ some_column
    have counts : part.length = ch.rowCount :=
      (rowCount_columnChunks column 0).symm.trans (congrArg Prod.snd alike)
    rw [← counts]
    exact t.sizes part stored
  · rw [holds.buffer]
    exact t.room
  · have same := holds.chunks.length_eq
    rw [Table.columnar, List.length_map] at same
    rw [← same, holds.rows]
    exact chunks_le tight

variable [FloatText F] [SqlText] [SqlParser] [ValueDebug F]

/-- After any texts a table has chunks that were closed early only for the aggregates that were
asked of it since its CREATE TABLE. -/
theorem chunks_bounded (texts : List String) {ns table : String}
    (live : (after (session (F := F)) texts .new).catalog.getTable ns table = some tm) :
    Bounded (after (session (F := F)) texts .new) tm (texts.foldl (asked F ns table) 0) := by
  have represents := (refines_run (session_refines (F := F)) texts represents_new).2
  rcases rel_cases (represents.tables ns table) with ⟨unbound, _⟩ | ⟨tm', t, live', found, holds⟩
  · cases live.symm.trans unbound
  · cases live.symm.trans live'
    have none : ∀ t, (Database.empty : Database F).tables ns table = some t → Tight t 0 := by
      intro t stored
      cases stored
    exact bounded_of_holds holds (tight_run texts none found)

end Sessions

section Concrete

/-- A table of the name is counted and replaced; the new one is counted between its rows. -/
def counted : List String :=
  ["create table a (id bigint)", "insert into a values ( 1 )", "select count(*) from a",
    "create table a (id bigint)", "insert into a values ( 1 ) , ( 2 )", "select count(*) from a",
    "insert into a values ( 3 )"]

/-- The new table has one chunk, for the one aggregate that was asked of it. -/
theorem counted_bounded : ∃ tm,
    (after (session (F := Float)) counted .new).catalog.getTable "public" "a" = some tm ∧
      ((after (session (F := Float)) counted .new).columnarStore.chunksOf tm.id).map
        ColumnarChunk.rowCount = [2] ∧
      Bounded (after (session (F := Float)) counted .new) tm 1 := by
  have once : counted.foldl (asked Float "public" "a") 0 = 1 := by decide
  have chunks : ((after (session (F := Float)) counted .new).catalog.getTable "public" "a").map
      (fun tm => ((after (session (F := Float)) counted .new).columnarStore.chunksOf tm.id).map
        ColumnarChunk.rowCount) = some [2] := by
    decide +kernel
  obtain ⟨tm, live, two⟩ := Option.map_eq_some_iff.mp chunks
  have bounded := chunks_bounded counted live
  rw [once] at bounded
  exact ⟨tm, live, two, bounded⟩

end Concrete

end ChunkSizes
