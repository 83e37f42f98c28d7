import RustafariDB.TableIsolation

/-!
# Results read page by page

With LIMIT and OFFSET a client reads a result in pages, and other texts may come between
them. Unless one of these changes the table, the pages make up the result.
-/

namespace ResultPages

open Values Plans Floats Sessions Execution PlanEffects StatefulPrograms SqlPlanning SqlExecution
open AnsweringMachines NamedTables NamedTableRefinement TableIsolation

variable {F : Type}

section Pages
variable [Float64 F] [FloatText F] [SqlText] [SqlParser] [ValueDebug F]

/-- Pages asked one after another, each with the texts that come after it. -/
def readPages : List (String × List String) → SessionState F →
    List (Except Stop (ExecutionResult F))
  | [], _ => []
  | (page, others) :: reads, s =>
    (session page s).1 :: readPages reads (after session (page :: others) s)

variable {s : SessionState F} {d : Database F} {input : PlanNode F} {whole : String}
variable {rows : List (Row F)}

/-- The table of a query is, apart from its columnar copy, one over which the query returns
some rows. -/
def Stands (input : PlanNode F) (rows : List (Row F)) (d : Database F) : Prop :=
  ∃ t, d.tables (place input).1 (place input).2 = some t ∧ t.answer input = .ok rows

theorem stands_after (planned : sqlToPlan whole = .ok input) (plain : aggregates input = false)
    {text : String} (quiet : matters F whole text = false) (stands : Stands input rows d) :
    Stands input rows (database text d).2 := by
  obtain ⟨t, found, answer⟩ := stands
  have kept := (unwinds_rows planned plain).kept text d quiet
  simp only [found, Option.map_some] at kept
  obtain ⟨t', found', same⟩ := Option.map_eq_some_iff.mp kept
  exact ⟨t', found', (answer_congr plain same).trans answer⟩

theorem stands_after_all (planned : sqlToPlan whole = .ok input)
    (plain : aggregates input = false) (texts : List String)
    (quiet : ∀ text ∈ texts, matters F whole text = false) (stands : Stands input rows d) :
    Stands input rows (after database texts d) := by
  induction texts generalizing d with
  | nil => exact stands
  | cons text texts ih =>
    obtain ⟨first, others⟩ := List.forall_mem_cons.mp quiet
    exact ih others (stands_after planned plain first stands)

omit [FloatText F] [SqlText] [SqlParser] in
/-- A page of a query that stands. -/
theorem page_answer (query : IsQuery input) (stands : Stands input rows d) (limit offset : Nat) :
    (Database.execute (.limit input limit offset) d).1 =
      .ok (.rows ((rows.drop offset).take limit)) := by
  obtain ⟨t, found, answer⟩ := stands
  obtain ⟨ns, table, reads⟩ := TableViews.isQuery_iff_readsFrom.mp query
  have whole : TableViews.ReadsFrom ns table (.limit input limit offset) := reads
  have entry : d.tables (place (.limit input limit offset)).1
      (place (.limit input limit offset)).2 = some t := found
  rw [answer_execute, entry, act_query whole]
  change Except.map _ ((t.answer input).map (limitRows limit offset)) = _
  rw [answer, ← QueryOperators.limitRows_eq]
  rfl

/-- The pages from some page on, whatever comes between them. -/
theorem pages_from (represents : Represents d s) (query : IsQuery input)
    (planned : sqlToPlan whole = .ok input) (plain : aggregates input = false) {size : Nat}
    (reads : List (String × List String)) (first : Nat)
    (pages : ∀ r ∈ reads.zipIdx first,
      sqlToPlan r.1.1 = .ok (.limit input size (r.2 * size)))
    (quiet : ∀ r ∈ reads, ∀ text ∈ r.2, matters F whole text = false)
    (stands : Stands input rows d) :
    ∃ parts : List (List (Row F)), readPages reads s = parts.map (fun part => .ok (.rows part)) ∧
      parts.flatten = (rows.drop (first * size)).take (reads.length * size) := by
  induction reads generalizing s d first with
  | nil => exact ⟨[], rfl, by simp⟩
  | cons r reads ih =>
    obtain ⟨page, others⟩ := r
    rw [List.zipIdx_cons] at pages
    obtain ⟨here, later⟩ := List.forall_mem_cons.mp pages
    obtain ⟨calm, calmer⟩ := List.forall_mem_cons.mp quiet
    have silent : matters F whole page = false := by
      simp [matters, planned, here, plain, changes]
    have all : ∀ text ∈ page :: others, matters F whole text = false :=
      List.forall_mem_cons.mpr ⟨silent, calm⟩
    obtain ⟨_, onward⟩ := refines_run session_refines (page :: others) represents
    obtain ⟨parts, answers, rest⟩ := ih onward (first + 1) later calmer
      (stands_after_all planned plain (page :: others) all stands)
    have answer : (session page s).1 = .ok (.rows ((rows.drop (first * size)).take size)) := by
      rw [← (session_refines page s d represents).1, database_of_ok here]
      exact page_answer query stands size (first * size)
    refine ⟨(rows.drop (first * size)).take size :: parts, ?_, ?_⟩
    · rw [readPages, answer, answers]
      rfl
    · rw [List.flatten_cons, rest, List.length_cons, Nat.succ_mul, Nat.succ_mul, ← List.drop_drop,
        Nat.add_comm (reads.length * size), List.take_add]

/-- A query that returns rows stands. -/
theorem stands_of_answered (represents : Represents d s) (query : IsQuery input)
    (planned : sqlToPlan whole = .ok input)
    (answered : (session whole s).1 = .ok (.rows rows)) : Stands input rows d := by
  obtain ⟨ns, table, reads⟩ := TableViews.isQuery_iff_readsFrom.mp query
  rw [← (session_refines whole s d represents).1, database_of_ok planned, answer_execute,
    act_query reads] at answered
  cases found : d.tables (place input).1 (place input).2 with
  | none =>
    rw [found] at answered
    cases answered
  | some t =>
    rw [found] at answered
    obtain ⟨rows', answer, same⟩ := map_eq_ok.mp answered
    cases same
    exact ⟨t, found, answer⟩

/-- A result without aggregates that is read in pages of one size is the result asked for at
once, up to the last page read, unless a text between the pages changes the table. -/
theorem pages_concatenate (before : List String) (planned : sqlToPlan whole = .ok input)
    (plain : aggregates input = false)
    (answered : (session whole (after session before .new)).1 = .ok (.rows rows)) (size : Nat)
    (reads : List (String × List String))
    (pages : ∀ r ∈ reads.zipIdx, sqlToPlan r.1.1 = .ok (.limit input size (r.2 * size)))
    (quiet : ∀ r ∈ reads, ∀ text ∈ r.2, matters F whole text = false) :
    ∃ parts : List (List (Row F)), readPages reads (after session before .new) =
        parts.map (fun part => .ok (.rows part)) ∧
      parts.flatten = rows.take (reads.length * size) := by
  have represents := (refines_run (session_refines (F := F)) before represents_new).2
  cases reads with
  | nil => exact ⟨[], rfl, by simp⟩
  | cons r reads =>
    have query : IsQuery input := by
      cases planned_of_sql (pages (r, 0) (by simp)) with
      | query select => exact show IsQuery (.limit input _ _) from isQuery_of_selectPlan select
    have stands := stands_of_answered represents query planned answered
    have parts := pages_from represents query planned plain (r :: reads) 0 pages quiet stands
    rwa [Nat.zero_mul, List.drop_zero] at parts

end Pages

section Concrete

/-- Two pages of one row, and a row for another table between them. -/
def twoPages : List (String × List String) :=
  [("select * from a limit 1 offset 0", ["insert into b values ( 3 )"]),
    ("select * from a limit 1 offset 1", [])]

def filled : List String :=
  ["create table a (id bigint)", "create table b (id bigint)", "insert into a values ( 1 )",
    "insert into a values ( 2 )"]

theorem filled_in_pages : ∃ parts : List (List (Row Float)),
    readPages twoPages (after session filled .new) = parts.map (fun part => .ok (.rows part)) ∧
      parts.flatten = [.new [.int64 1], .new [.int64 2]] := by
  have represents := (refines_run (session_refines (F := Float)) filled represents_new).2
  have whole : (session (F := Float) "select * from a" (after session filled .new)).1 =
      .ok (.rows [.new [.int64 1], .new [.int64 2]]) := by
    rw [← (session_refines _ _ _ represents).1]
    rfl
  have planned : sqlToPlan (F := Float) "select * from a" = .ok (.scan "a" none) := rfl
  refine pages_concatenate filled planned rfl whole 1 twoPages ?_ (by decide)
  rintro r inside
  rcases List.mem_cons.mp inside with rfl | inside
  · rfl
  · rcases List.mem_cons.mp inside with rfl | inside
    · rfl
    · cases inside

end Concrete

end ResultPages
