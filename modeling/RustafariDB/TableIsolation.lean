import RustafariDB.NamedTableRefinement

/-!
# A table knows nothing of the others

What a statement answers depends on the earlier statements about its own table alone, and
of these on the ones that change it, unless the statement computes an aggregate: queries
with aggregates close the buffer, and a sum may depend on where. Statements on other tables
move ids in every store, so this is seen in the database of named tables.
-/

namespace TableIsolation

open Catalogs Values BTreeIndexing Plans Floats Sessions Predicates Execution PlanEffects
open StatefulPrograms TableViews AnsweringMachines SqlPlanning SqlExecution NamedTables
open NamedTableRefinement

variable {F : Type}

/-- INSERT, CREATE TABLE and DROP TABLE. -/
def changes : PlanNode F → Bool
  | .insert _ _ _ _ => true
  | .createTable _ _ _ => true
  | .dropTable _ _ => true
  | _ => false

/-- What a table holds apart from its columnar copy. -/
def rowSide (t : Table F) : List Column × Bool × List (Row F) := (t.columns, t.indexed, t.rows)

theorem rowSide_flush (t : Table F) : rowSide t.flush = rowSide t := by
  rw [Table.flush]
  split <;> rfl

theorem rowSide_push {t t' : Table F} (same : rowSide t = rowSide t') (row : Row F) :
    rowSide (t.push row) = rowSide (t'.push row) := by
  have moved (t : Table F) : rowSide (t.push row) =
      ((rowSide t).1, (rowSide t).2.1, (rowSide t).2.2 ++ [row]) := by
    rw [Table.push]
    split <;> rfl
  rw [moved, moved, same]

theorem rowSide_eq {t t' : Table F} : rowSide t = rowSide t' ↔
    t.schema = t'.schema ∧ t.columns = t'.columns ∧ t.indexed = t'.indexed ∧
      t.rows = t'.rows := by
  rw [rowSide, rowSide, Prod.mk.injEq, Prod.mk.injEq]
  constructor
  · rintro ⟨columns, indexed, rows⟩
    exact ⟨congrArg Schema.new columns, columns, indexed, rows⟩
  · exact fun same => same.2

section Tables
variable [Float64 F] {t t' : Table F}

theorem refuses_congr (same : rowSide t = rowSide t') (row : Row F) :
    t.refuses row = t'.refuses row := by
  obtain ⟨schema, _, indexed, _⟩ := rowSide_eq.mp same
  rw [Table.refuses, Table.refuses, schema, indexed]

theorem insert_congr (values : List (List (Value F))) (same : rowSide t = rowSide t') :
    (t.insert values).1 = (t'.insert values).1 ∧
      rowSide (t.insert values).2 = rowSide (t'.insert values).2 := by
  induction values generalizing t t' with
  | nil => exact ⟨rfl, same⟩
  | cons vals values ih =>
    rw [Table.insert, Table.insert, refuses_congr same]
    cases t'.refuses (.new vals) with
    | some e =>
      refine ⟨rfl, ?_⟩
      obtain ⟨_, columns, indexed, rows⟩ := rowSide_eq.mp same
      simp only [rowSide, Table.strand, columns, indexed, rows]
    | none => exact ih (rowSide_push same _)

theorem find_congr (same : rowSide t = rowSide t') (lookup : IdLookup F) :
    t.find lookup = t'.find lookup := by
  obtain ⟨schema, _, _, rows⟩ := rowSide_eq.mp same
  have key : t.key = t'.key := by
    funext row
    rw [Table.key, Table.key, schema]
  cases lookup with
  | point v => rw [Table.find, Table.find, rows, key]
  | rangeInclusive v1 v2 => rw [Table.find, Table.find, rows, key]

/-- A query without aggregates does not see the columnar copy. -/
theorem answer_congr [ValueDebug F] {p : PlanNode F} (plain : aggregates p = false)
    (same : rowSide t = rowSide t') : t.answer p = t'.answer p := by
  obtain ⟨schema, columns, indexed, rows⟩ := rowSide_eq.mp same
  induction p with
  | scan table ns => rw [Table.answer, Table.answer, rows]
  | filter input predicate ih =>
    have lookup : t.lookup input predicate = t'.lookup input predicate := by
      cases input with
      | scan table ns => rw [Table.lookup, Table.lookup, indexed]
      | _ => rfl
    rw [Table.answer, Table.answer, lookup, ih plain, schema]
    cases t'.lookup input predicate with
    | none => rfl
    | some found => exact find_congr same found
  | project input columns ih => rw [Table.answer, Table.answer, ih plain, schema]
  | limit input limit offset ih => rw [Table.answer, Table.answer, ih plain]
  | groupBy input groupBy aggs ih => rw [Table.answer, Table.answer, ih plain, schema]
  | orderBy input columns ih => rw [Table.answer, Table.answer, ih plain, schema]
  | aggregate input aggs ih => cases plain
  | _ => rfl

end Tables

section Entries
variable [Float64 F] [ValueDebug F] {p : PlanNode F}

/-- What a statement leaves apart from the columnar copy goes by what was there, and so does
its answer if it computes no aggregate. -/
theorem act_congr (planned : Planned p) {t t' : Table F} (same : rowSide t = rowSide t') :
    (act p (some t)).2.map rowSide = (act p (some t')).2.map rowSide ∧
      (aggregates p = false → (act p (some t)).1 = (act p (some t')).1) := by
  cases planned with
  | query select =>
    obtain ⟨ns, table, reads⟩ := reads_of_select select
    rw [act_query reads, act_query reads]
    constructor
    · simp only [Option.map_some, apply_ite rowSide, rowSide_flush, ite_self, same]
    · intro plain
      simp only [answer_congr plain same]
  | insert table ns columns values =>
    obtain ⟨refused, left⟩ := insert_congr values same
    refine ⟨congrArg some left, fun _ => ?_⟩
    simp only [act, refused]
  | createTable table ns columns => exact ⟨rfl, fun _ => rfl⟩
  | dropTable table ns => exact ⟨rfl, fun _ => rfl⟩
  | describeTable table ns =>
    obtain ⟨_, columns, _, _⟩ := rowSide_eq.mp same
    refine ⟨congrArg some same, fun _ => ?_⟩
    simp only [act, Table.describe, columns]

theorem act_entry_congr (planned : Planned p) {entry entry' : Option (Table F)}
    (same : entry.map rowSide = entry'.map rowSide) :
    (act p entry).2.map rowSide = (act p entry').2.map rowSide ∧
      (aggregates p = false → (act p entry).1 = (act p entry').1) := by
  cases entry with
  | none =>
    obtain rfl := Option.map_eq_none_iff.mp same.symm
    exact ⟨rfl, fun _ => rfl⟩
  | some t =>
    obtain ⟨t', rfl, alike⟩ := Option.map_eq_some_iff.mp same.symm
    exact act_congr planned alike.symm

/-- A statement that changes nothing leaves the rows of its table. -/
theorem rowSide_act (planned : Planned p) (still : changes p = false)
    (entry : Option (Table F)) : (act p entry).2.map rowSide = entry.map rowSide := by
  cases planned with
  | query select =>
    obtain ⟨ns, table, reads⟩ := reads_of_select select
    rw [act_query reads]
    cases entry with
    | none => rfl
    | some t => simp only [Option.map_some, apply_ite rowSide, rowSide_flush, ite_self]
  | describeTable table ns => cases entry <;> rfl
  | insert | createTable | dropTable => cases still

/-- The namespace and the name of the table a statement is about. -/
def place (p : PlanNode F) : String × String := ((subject p).1.getD "public", (subject p).2)

theorem answer_execute (p : PlanNode F) (d : Database F) :
    (Database.execute p d).1 = (act p (d.tables (place p).1 (place p).2)).1 := rfl

theorem tables_execute (p : PlanNode F) (d : Database F) (ns table : String) :
    (Database.execute p d).2.tables ns table =
      if place p = (ns, table) then (act p (d.tables ns table)).2 else d.tables ns table := by
  have moved : (Database.execute p d).2.tables ns table =
      if (place p).1 = ns ∧ (place p).2 = table then
        (act p (d.tables (place p).1 (place p).2)).2 else d.tables ns table := rfl
  rw [moved]
  by_cases own : place p = (ns, table)
  · rw [own, if_pos ⟨rfl, rfl⟩, if_pos rfl]
  · rw [if_neg own, if_neg]
    rintro ⟨rfl, rfl⟩
    exact own rfl

end Entries

section Texts
variable [Float64 F] [ValueDebug F] [FloatText F] [SqlText] [SqlParser]

variable (F) in
/-- What an earlier statement needs to matter: it is about the same table and changes it, or
the later statement computes an aggregate. -/
def matters (sql other : String) : Bool :=
  match (sqlToPlan sql : Except RustafariError (PlanNode F)),
    (sqlToPlan other : Except RustafariError (PlanNode F)) with
  | .ok p, .ok q => decide (place q = place p) && (changes q || aggregates p)
  | _, _ => false

/-- To an aggregate the whole table matters. -/
theorem unwinds_table {sql : String} {p : PlanNode F} (accepted : sqlToPlan sql = .ok p)
    (total : aggregates p = true) : Unwinds (database (F := F)) (matters F sql)
      (fun d => d.tables (place p).1 (place p).2) := by
  constructor
  · intro other d ignored
    cases planned : (sqlToPlan other : Except RustafariError (PlanNode F)) with
    | error e => rw [database_of_error planned]
    | ok q =>
      simp only [matters, accepted, planned, total, Bool.or_true, Bool.and_true,
        decide_eq_false_iff_not] at ignored
      rw [database_of_ok planned, tables_execute, if_neg ignored]
  · intro other d d' _ same
    cases planned : (sqlToPlan other : Except RustafariError (PlanNode F)) with
    | error e =>
      rw [database_of_error planned, database_of_error planned]
      exact same
    | ok q =>
      rw [database_of_ok planned, database_of_ok planned, tables_execute, tables_execute, same]

/-- To other statements the rows matter, and only statements that change them move these. -/
theorem unwinds_rows {sql : String} {p : PlanNode F} (accepted : sqlToPlan sql = .ok p)
    (plain : aggregates p = false) : Unwinds (database (F := F)) (matters F sql)
      (fun d => (d.tables (place p).1 (place p).2).map rowSide) := by
  constructor
  · intro other d ignored
    cases planned : (sqlToPlan other : Except RustafariError (PlanNode F)) with
    | error e => rw [database_of_error planned]
    | ok q =>
      simp only [matters, accepted, planned, plain, Bool.or_false, Bool.and_eq_false_iff,
        decide_eq_false_iff_not] at ignored
      rw [database_of_ok planned, tables_execute]
      split
      · rename_i own
        exact rowSide_act (planned_of_sql planned) (ignored.resolve_left (not_not_intro own)) _
      · rfl
  · intro other d d' _ same
    cases planned : (sqlToPlan other : Except RustafariError (PlanNode F)) with
    | error e =>
      rw [database_of_error planned, database_of_error planned]
      exact same
    | ok q =>
      rw [database_of_ok planned, database_of_ok planned, tables_execute, tables_execute]
      split
      · exact (act_entry_congr (planned_of_sql planned) same).1
      · exact same

theorem database_answer_by_own_table (texts : List String) (sql : String) :
    (database (F := F) sql (after database texts .empty)).1 =
      (database (F := F) sql (after database (texts.filter (matters F sql)) .empty)).1 := by
  cases accepted : (sqlToPlan sql : Except RustafariError (PlanNode F)) with
  | error e => rw [database_of_error accepted, database_of_error accepted]
  | ok p =>
    rw [database_of_ok accepted, database_of_ok accepted, answer_execute, answer_execute]
    cases kind : aggregates p with
    | true => rw [view_after_filter (unwinds_table accepted kind) texts rfl]
    | false =>
      have same := view_after_filter (unwinds_rows accepted kind) texts
        (rfl : _ = (Database.empty.tables (place p).1 (place p).2).map rowSide)
      exact (act_entry_congr (planned_of_sql accepted) same).2 kind

/-- After any texts, a text is answered as after those of them that matter to it. -/
theorem answer_by_own_table (texts : List String) (sql : String) :
    (session (F := F) sql (after session texts .new)).1 =
      (session (F := F) sql (after session (texts.filter (matters F sql)) .new)).1 := by
  have represented (texts : List String) :
      (session (F := F) sql (after session texts .new)).1 =
        (database (F := F) sql (after database texts .empty)).1 :=
    (session_refines sql _ _ (refines_run session_refines texts represents_new).2).1.symm
  rw [represented, represented, database_answer_by_own_table]

end Texts

end TableIsolation
