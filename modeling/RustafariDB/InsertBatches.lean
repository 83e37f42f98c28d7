import RustafariDB.Transcripts

/-!
# INSERT with many rows

The rows of an INSERT go in as if each had come with an INSERT of its own, up to the first
that is refused. No text nor listing tells the two apart afterwards.
-/

namespace InsertBatches

open Values Plans Floats Sessions Execution StatefulPrograms SqlPlanning SqlExecution
open AnsweringMachines NamedTables NamedTableRefinement TableIsolation Transcripts

section Batches
variable {F : Type} [Float64 F]

theorem insert_append (part rest : List (List (Value F))) (t : Table F) :
    t.insert (part ++ rest) = match (t.insert part).1 with
      | some e => (some e, (t.insert part).2)
      | none => (t.insert part).2.insert rest := by
  induction part generalizing t with
  | nil => rfl
  | cons vals part ih =>
    rw [List.cons_append, Table.insert, Table.insert]
    cases t.refuses (.new vals) with
    | some e => rfl
    | none => exact ih (t.push (.new vals))

variable [FloatText F] [SqlText] [SqlParser] [ValueDebug F]
variable {table : String} {ns : Option String} {columns : List String} {d : Database F}

/-- Each text inserts a part of the rows. -/
abbrev InsertParts (table : String) (ns : Option String) (columns : List String) :
    List String → List (List (List (Value F))) → Prop :=
  List.Forall₂ (fun sql part => sqlToPlan sql = .ok (.insert table ns columns part))

omit [FloatText F] [SqlText] [SqlParser] in
/-- An INSERT into a table that is there. -/
theorem execute_insert {t : Table F} (found : d.tables (ns.getD "public") table = some t)
    (values : List (List (Value F))) :
    Database.execute (.insert table ns columns values) d =
      (match (t.insert values).1 with
        | some e => .error (.error e)
        | none => .ok (.rowsAffected values.length),
        d.set (ns.getD "public") table (some (t.insert values).2)) := by
  simp only [Database.execute, subject, creates, found, act]
  rfl

omit [FloatText F] [SqlText] [SqlParser] in
/-- An INSERT into an unknown table. -/
theorem execute_unknown (unbound : d.tables (ns.getD "public") table = none)
    (values : List (List (Value F))) :
    Database.execute (.insert table ns columns values) d =
      (.error (unknown (ns, table)), d.set (ns.getD "public") table none) := by
  simp only [Database.execute, subject, creates, unbound, act]
  rfl

/-- The parts one by one are the whole. -/
theorem parts_eq_whole {texts : List String} {parts : List (List (List (Value F)))}
    (each : InsertParts table ns columns texts parts) {t : Table F}
    (found : d.tables (ns.getD "public") table = some t) :
    untilFailure database texts d =
      (match (t.insert parts.flatten).1 with
        | some e => .error (.error e)
        | none => .ok (),
        d.set (ns.getD "public") table (some (t.insert parts.flatten).2)) := by
  induction each generalizing d t with
  | nil =>
    rw [untilFailure, List.flatten_nil, Table.insert, Database.set_of_tables found]
  | @cons sql part texts parts planned _ ih =>
    rw [untilFailure, database_of_ok planned, execute_insert found, List.flatten_cons,
      insert_append]
    cases refused : (t.insert part).1 with
    | some e => rfl
    | none =>
      have next : (d.set (ns.getD "public") table (some (t.insert part).2)).tables
          (ns.getD "public") table = some (t.insert part).2 := by
        rw [Database.tables_set, if_pos ⟨rfl, rfl⟩]
      simp only [ih next, Database.set_set]

/-- What a new session makes of the rows at once and one part after another: the same error or
none, and nothing tells the states apart. -/
theorem batch_indistinguishable (before : List String) {whole : String} {texts : List String}
    {parts : List (List (List (Value F)))}
    (planned : sqlToPlan whole = .ok (.insert table ns columns parts.flatten))
    (each : InsertParts table ns columns texts parts) (some_text : texts ≠ []) :
    ((session whole (after (session (F := F)) before .new)).1.map (fun _ => ())) =
        (untilFailure session texts (after (session (F := F)) before .new)).1 ∧
      Indistinguishable (session whole (after (session (F := F)) before .new)).2
        (untilFailure session texts (after session before .new)).2 := by
  have represents := (refines_run (session_refines (F := F)) before represents_new).2
  obtain ⟨answer, at_once⟩ := session_refines whole _ _ represents
  obtain ⟨failure, in_parts⟩ := refines_untilFailure session_refines texts represents
  have same : (database whole (after (database (F := F)) before .empty)).1.map (fun _ => ()) =
        (untilFailure database texts (after (database (F := F)) before .empty)).1 ∧
      (database whole (after (database (F := F)) before .empty)).2 =
        (untilFailure database texts (after database before .empty)).2 := by
    rw [database_of_ok planned]
    cases found : (after (database (F := F)) before .empty).tables (ns.getD "public") table with
    | none =>
      cases each with
      | nil => exact absurd rfl some_text
      | cons first _ =>
        rw [untilFailure, database_of_ok first, execute_unknown found, execute_unknown found]
        exact ⟨rfl, rfl⟩
    | some t =>
      rw [parts_eq_whole each found, execute_insert found]
      cases (t.insert parts.flatten).1 <;> exact ⟨rfl, rfl⟩
  rw [← answer, ← failure]
  refine ⟨same.1, ?_⟩
  rw [same.2] at at_once
  exact indistinguishable_of_represents at_once in_parts

end Batches

section Concrete

/-- Two rows at once and one by one. -/
theorem two_rows : Indistinguishable
    (session (F := Float) "insert into a values ( 1 ) , ( 2 )"
      (after session ["create table a (id bigint)"] .new)).2
    (untilFailure (session (F := Float))
      ["insert into a values ( 1 )", "insert into a values ( 2 )"]
      (after session ["create table a (id bigint)"] .new)).2 := by
  have each : InsertParts (F := Float) "a" none []
      ["insert into a values ( 1 )", "insert into a values ( 2 )"]
      [[[.int64 1]], [[.int64 2]]] := .cons rfl (.cons rfl .nil)
  have planned : sqlToPlan (F := Float) "insert into a values ( 1 ) , ( 2 )" =
      .ok (.insert "a" none [] [[.int64 1], [.int64 2]]) := rfl
  exact (batch_indistinguishable ["create table a (id bigint)"] planned each nofun).2

end Concrete

end InsertBatches
