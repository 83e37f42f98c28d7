import RustafariDB.CatalogListings

/-!
# What is asked and answered about one table

The texts about a table and their answers make up its transcript. It does not depend on how
these texts are mixed with texts about other tables, so statements on different tables may
be reordered at will, and no later text nor listing can tell the orders apart. A CREATE
TABLE or DROP TABLE begins the transcript anew.
-/

namespace Transcripts

open Catalogs Values Plans Floats Sessions Execution StatefulPrograms SqlPlanning SqlExecution
open AnsweringMachines NamedTables NamedTableRefinement TableIsolation CatalogListings

section Texts
variable {F : Type} [Float64 F] [FloatText F] [SqlText] [SqlParser]

variable (F) in
/-- The text is a statement about a table. -/
def concerns (ns table sql : String) : Bool :=
  match (sqlToPlan sql : Except RustafariError (PlanNode F)) with
  | .ok p => decide (place p = (ns, table))
  | .error _ => false

variable (F) in
/-- The text creates or drops a table. -/
def resets (ns table sql : String) : Bool :=
  match (sqlToPlan sql : Except RustafariError (PlanNode F)) with
  | .ok (.createTable name source _) => decide ((source.getD "public", name) = (ns, table))
  | .ok (.dropTable name source) => decide ((source.getD "public", name) = (ns, table))
  | _ => false

variable [ValueDebug F]

/-- No texts and no listing tell two states apart. -/
structure Indistinguishable (s s' : SessionState F) : Prop where
  answers : ∀ texts, answers session texts s = answers session texts s'
  listTables : ∀ ns, s.listTables ns = s'.listTables ns
  listDatabases : s.listDatabases = s'.listDatabases

variable {ns table : String}

theorem indistinguishable_of_represents {d : Database F} {s s' : SessionState F}
    (represents : Represents d s) (represents' : Represents d s') : Indistinguishable s s' := by
  constructor
  · intro texts
    have run := refines_run session_refines texts represents
    have run' := refines_run session_refines texts represents'
    exact run.1.symm.trans run'.1
  · intro ns
    rw [listTables_eq_listed represents, listTables_eq_listed represents']
  · rw [listDatabases_eq represents, listDatabases_eq represents']

theorem unwinds_concerns :
    Unwinds (database (F := F)) (concerns F ns table) (fun d => d.tables ns table) := by
  constructor
  · intro sql d apart
    cases planned : (sqlToPlan sql : Except RustafariError (PlanNode F)) with
    | error e => rw [database_of_error planned]
    | ok p =>
      simp only [concerns, planned, decide_eq_false_iff_not] at apart
      rw [database_of_ok planned, tables_execute, if_neg apart]
  · intro sql d d' about same
    cases planned : (sqlToPlan sql : Except RustafariError (PlanNode F)) with
    | error e => simp [concerns, planned] at about
    | ok p =>
      rw [database_of_ok planned, database_of_ok planned, tables_execute, tables_execute, same]

/-- What texts leave under a name is what those about it leave. -/
theorem entry_after_filter (texts : List String) {d d' : Database F}
    (same : d.tables ns table = d'.tables ns table) :
    (after database texts d).tables ns table =
      (after database (texts.filter (concerns F ns table)) d').tables ns table :=
  view_after_filter unwinds_concerns texts same

theorem answer_of_concerns (sql : String) (d d' : Database F)
    (about : concerns F ns table sql = true) (same : d.tables ns table = d'.tables ns table) :
    (database sql d).1 = (database sql d').1 := by
  cases planned : (sqlToPlan sql : Except RustafariError (PlanNode F)) with
  | error e => simp [concerns, planned] at about
  | ok p =>
    simp only [concerns, planned, decide_eq_true_eq] at about
    rw [database_of_ok planned, database_of_ok planned, answer_execute, answer_execute, about, same]

/-- The transcript of a table is that of the texts about it. -/
theorem transcript_concerns (texts : List String) {d d' : Database F}
    (same : d.tables ns table = d'.tables ns table) :
    (transcript database texts d).filter (fun e => concerns F ns table e.1) =
      transcript database (texts.filter (concerns F ns table)) d' :=
  transcript_filter unwinds_concerns answer_of_concerns texts same

/-- The transcript of a table after some texts, as the database gives it. -/
theorem transcript_session (before texts : List String) :
    transcript (session (F := F)) texts (after session before .new) =
      transcript database texts (after database before .empty) := by
  have represents := (refines_run (session_refines (F := F)) before represents_new).2
  rw [transcript, transcript, (refines_run session_refines texts represents).1]

theorem entry_of_resets {sql : String} (reset : resets F ns table sql = true)
    (d d' : Database F) :
    (database sql d).2.tables ns table = (database sql d').2.tables ns table := by
  cases planned : (sqlToPlan sql : Except RustafariError (PlanNode F)) with
  | error e => simp [resets, planned] at reset
  | ok p =>
    rw [database_of_ok planned, database_of_ok planned, tables_execute, tables_execute]
    simp only [resets, planned] at reset
    cases p with
    | createTable name source columns =>
      have own : place (.createTable (F := F) name source columns) = (ns, table) :=
        of_decide_eq_true reset
      rw [if_pos own, if_pos own]
      rfl
    | dropTable name source =>
      have own : place (.dropTable (F := F) name source) = (ns, table) := of_decide_eq_true reset
      rw [if_pos own, if_pos own]
      cases d.tables ns table <;> cases d'.tables ns table <;> rfl
    | _ => cases reset

omit [ValueDebug F] in
/-- Texts open the namespaces that their statements on single tables open. -/
theorem opened_of_filters {texts texts' : List String}
    (same : ∀ ns table, texts.filter (concerns F ns table) = texts'.filter (concerns F ns table))
    {ns : String} (before : opened F texts ns = true) : opened F texts' ns = true := by
  obtain ⟨sql, inside, creates⟩ := List.any_eq_true.mp before
  refine List.any_eq_true.mpr ⟨sql, ?_, creates⟩
  cases planned : (sqlToPlan sql : Except RustafariError (PlanNode F)) with
  | error e => simp [planned] at creates
  | ok p =>
    have about : concerns F (place p).1 (place p).2 sql = true := by simp [concerns, planned]
    have kept : sql ∈ texts.filter (concerns F (place p).1 (place p).2) :=
      List.mem_filter.mpr ⟨inside, about⟩
    rw [same] at kept
    exact (List.mem_filter.mp kept).1

/-- Two sequences of texts that are alike for each table have the same transcript for each,
and lead to states that nothing tells apart. -/
theorem orders_indistinguishable (texts texts' : List String)
    (same : ∀ ns table,
      texts.filter (concerns F ns table) = texts'.filter (concerns F ns table)) :
    (∀ ns table, (transcript (session (F := F)) texts .new).filter
        (fun e => concerns F ns table e.1) =
      (transcript (session (F := F)) texts' .new).filter (fun e => concerns F ns table e.1)) ∧
      Indistinguishable (after (session (F := F)) texts .new) (after session texts' .new) := by
  have represents := (refines_run (session_refines (F := F)) texts represents_new).2
  have represents' := (refines_run (session_refines (F := F)) texts' represents_new).2
  constructor
  · intro ns table
    have split (texts : List String) := transcript_concerns texts
      (rfl : (Database.empty (F := F)).tables ns table = _)
    have first := transcript_session (F := F) [] texts
    have second := transcript_session (F := F) [] texts'
    simp only [after, List.foldl_nil] at first second
    rw [first, second, split, split, same]
  · have tables : (after (database (F := F)) texts .empty).tables =
        (after database texts' .empty).tables := by
      funext ns table
      have view (texts : List String) := entry_after_filter texts
        (rfl : (Database.empty (F := F)).tables ns table = _)
      have first := view texts
      rw [same ns table] at first
      exact first.trans (view texts').symm
    have namespaces : (after (database (F := F)) texts .empty).namespaces =
        (after (database (F := F)) texts' .empty).namespaces := by
      ext ns
      rw [(database_declared (F := F) texts).2, (database_declared (F := F) texts').2]
      exact ⟨opened_of_filters same, opened_of_filters (fun ns table => (same ns table).symm)⟩
    have equal : after (database (F := F)) texts .empty = after database texts' .empty :=
      Database.ext namespaces tables
    exact indistinguishable_of_represents represents (equal ▸ represents')

/-- After a text that creates or drops a table, the transcript of the table is what it would be
if nothing had gone before. -/
theorem transcript_since_reset {ns table reset : String} (fresh : resets F ns table reset = true)
    (before texts : List String) :
    (transcript (session (F := F)) texts (after session (before ++ [reset]) .new)).filter
        (fun e => concerns F ns table e.1) =
      (transcript (session (F := F)) texts (after session [reset] .new)).filter
        (fun e => concerns F ns table e.1) := by
  have same : (after (database (F := F)) (before ++ [reset]) .empty).tables ns table =
      (after database [reset] .empty).tables ns table := by
    rw [after_append, after_cons, after_cons]
    exact entry_of_resets fresh _ _
  rw [transcript_session, transcript_session, transcript_concerns texts same,
    transcript_concerns texts rfl]

end Texts

section Runs

/-- Two tables are created in either order. -/
theorem creations_swap : Indistinguishable
    (after (session (F := Float))
      ["create table a (id bigint)", "create table b (id bigint)"] .new)
    (after session ["create table b (id bigint)", "create table a (id bigint)"] .new) := by
  refine (orders_indistinguishable _ _ ?_).2
  intro ns table
  have first : concerns Float ns table "create table a (id bigint)" =
      decide (("public", "a") = (ns, table)) := rfl
  have second : concerns Float ns table "create table b (id bigint)" =
      decide (("public", "b") = (ns, table)) := rfl
  simp only [List.filter_cons, List.filter_nil, first, second, decide_eq_true_eq]
  split
  · rename_i own
    have other : ¬ ("public", "b") = ("public", "a") := by decide
    rw [← own, if_neg other, if_neg other]
  · rfl

/-- A table with a row in a chunk is dropped. -/
def heldRows : List String :=
  ["create table a (id bigint)", "insert into a values ( 1 )", "select count(*) from a",
    "drop table a"]

/-- The table that is created next is asked what it holds, before and after a row of its own. -/
theorem recreated_anew :
    (transcript (session (F := Float))
        ["select * from a", "insert into a values ( 2 )", "select count(*) from a"]
        (after session (heldRows ++ ["create table a (id bigint)"]) .new)).filter
      (fun e => concerns Float "public" "a" e.1) =
    (transcript (session (F := Float))
        ["select * from a", "insert into a values ( 2 )", "select count(*) from a"]
        (after session ["create table a (id bigint)"] .new)).filter
      (fun e => concerns Float "public" "a" e.1) :=
  transcript_since_reset (by decide) _ _

end Runs

end Transcripts
