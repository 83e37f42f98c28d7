import RustafariDB.InsertAtomicity
import RustafariDB.NamedTableRefinement

/-!
# How a text ends

Before a text is executed its plan and the catalog tell whether it ends in a result, an
error or a panic, and which kind of result. Whether a table has an index, holds columnar
data or has a row that passes a condition matters, and nothing else that is stored does.
An error names what it is about: an unknown table, a column that does not exist, or a
value that has no key.
-/

namespace Verdicts

open Catalogs Values BTreeIndexing Plans Floats Sessions Predicates Aggregates Execution
open StatefulPrograms PlanEffects FilteredAggregates SelectedRows UnknownColumns TableViews
open SqlSyntax SqlPlanning SqlExecution AnsweringMachines NamedTables NamedTableRefinement

variable {F : Type}

section Conditions
variable [Float64 F]

/-- An indexed table has no key for the id of a row. -/
def Unkeyed (schema : Schema) (indexed : Prop) (vals : List (Value F)) (e : RustafariError) :
    Prop :=
  indexed ∧ ∃ i v, schema.columnIndex "id" = some i ∧ vals[i]? = some v ∧
    IndexKey.fromValue v = .error e

/-- The text panics: a query makes an index lookup that descends. -/
def Dies (s : SessionState F) (p : PlanNode F) : Prop :=
  ∃ tm, scanMeta s p = .ok tm ∧ Panics s tm p

/-- The text is an error: its table is unknown, a query is rejected, or a row has no key. -/
def Fails (s : SessionState F) : PlanNode F → Prop
  | .insert table ns _ values => ∀ tm, s.tableMeta ns table = some tm →
      ∃ vals ∈ values, ∃ e, Unkeyed tm.schema (s.getIndex tm.id "id").isSome vals e
  | .createTable _ _ _ => False
  | .dropTable table ns => s.tableMeta ns table = none
  | .describeTable table ns => s.tableMeta ns table = none
  | p => ∀ tm, scanMeta s p = .ok tm → Rejected s tm p

/-- The number of rows that a change reports. -/
def affects : PlanNode F → Option Nat
  | .insert _ _ _ values => some values.length
  | .createTable _ _ _ => some 0
  | .dropTable _ _ => some 0
  | _ => none

/-- What the conditions say of an answer. -/
structure Verdict (s : SessionState F) (p : PlanNode F)
    (answer : Except Stop (ExecutionResult F)) : Prop where
  panics : answer = .error .panicked ↔ Dies s p
  errs : (∃ e, answer = .error (.error e)) ↔ Fails s p
  affected : ∀ n, answer = .ok (.rowsAffected n) ↔ ¬ Fails s p ∧ affects p = some n
  rows : (∃ rows, answer = .ok (.rows rows)) ↔ ¬ Dies s p ∧ ¬ Fails s p ∧ affects p = none

end Conditions

section Statements
variable [Float64 F] [ValueDebug F] {s : SessionState F} {tm : TableMeta} {p : PlanNode F}
variable {table : String} {ns : Option String}

omit [ValueDebug F] in
theorem blockedBy_eq_some {vals : List (Value F)} {e : RustafariError} :
    blockedBy s tm (.new vals) = some e ↔
      Unkeyed tm.schema (s.getIndex tm.id "id").isSome vals e := by
  rw [blockedBy, Unkeyed]
  cases tm.schema.columnIndex "id" with
  | none => simp
  | some i =>
    cases s.getIndex tm.id "id" with
    | none => simp
    | some index =>
      cases cell : vals[i]? with
      | none => simp [cell]
      | some v => cases key : IndexKey.fromValue v <;> simp [cell, key]

omit [Float64 F] [ValueDebug F] in
theorem affects_of_isQuery (query : IsQuery p) : affects p = none := by
  cases p with
  | insert | createTable | dropTable => exact query.elim
  | _ => rfl

omit [ValueDebug F] in
theorem fails_of_isQuery (query : IsQuery p) :
    Fails s p ↔ ∀ tm, scanMeta s p = .ok tm → Rejected s tm p := by
  cases p with
  | insert | createTable | dropTable | describeTable => exact query.elim
  | _ => exact Iff.rfl

omit [ValueDebug F] in
theorem not_dies (change : ¬ IsQuery p) : ¬ Dies s p :=
  fun ⟨_, live, _⟩ => change (isQuery_of_scanMeta live)

omit [ValueDebug F] in
/-- A statement that reports a number of rows or fails. -/
theorem verdict_of_change {answer : Except Stop (ExecutionResult F)} (change : ¬ IsQuery p)
    {n : Nat} (count : affects p = some n)
    (decided : (Fails s p ∧ ∃ e, answer = .error (.error e)) ∨
      (¬ Fails s p ∧ answer = .ok (.rowsAffected n))) : Verdict s p answer := by
  have calm := not_dies (s := s) change
  rcases decided with ⟨fails, e, rfl⟩ | ⟨succeeds, rfl⟩
  · constructor <;> simp [calm, fails]
  · constructor <;> simp [calm, succeeds, count]

omit [ValueDebug F] in
/-- A statement that returns rows, fails or panics. -/
theorem verdict_of_rows {answer : Except Stop (ExecutionResult F)} (none : affects p = none)
    (decided : (Dies s p ∧ ¬ Fails s p ∧ answer = .error .panicked) ∨
      (¬ Dies s p ∧ Fails s p ∧ ∃ e, answer = .error (.error e)) ∨
      (¬ Dies s p ∧ ¬ Fails s p ∧ ∃ rows, answer = .ok (.rows rows))) : Verdict s p answer := by
  rcases decided with ⟨dies, accepted, rfl⟩ | ⟨calm, fails, e, rfl⟩ | ⟨calm, accepted, rows, rfl⟩
  · constructor <;> simp [dies, accepted, none]
  · constructor <;> simp [calm, fails, none]
  · constructor <;> simp [calm, accepted, none]

/-- A query over an unknown table is an error. -/
theorem unknown_stops (query : IsQuery p) {e : RustafariError} (unknown : scanMeta s p = .error e) :
    ∃ e, outcome (executePlan p s) = .error (.error e) := by
  obtain ⟨ns, table, reads⟩ := isQuery_iff_readsFrom.mp query
  cases found : s.tableMeta ns table with
  | none => exact ⟨_, congrArg outcome (query_unknown reads found)⟩
  | some tm =>
    rw [scanMeta_of_readsFrom reads found] at unknown
    cases unknown

theorem verdict_select (select : SelectPlan p) : Verdict s p (outcome (executePlan p s)) := by
  have query := isQuery_of_selectPlan select
  refine verdict_of_rows (affects_of_isQuery query) ?_
  rw [fails_of_isQuery query, Dies]
  cases found : scanMeta s p with
  | error e => exact Or.inr (Or.inl ⟨by simp, by simp, unknown_stops query found⟩)
  | ok tm =>
    have decided := decided_select select found
    simp only [Except.ok.injEq, exists_eq_left', forall_eq']
    by_cases panics : Panics s tm p
    · have answer := decided.panics panics
      refine Or.inl ⟨panics, fun rejected => ?_, answer⟩
      obtain ⟨e, failed⟩ := decided.errs rejected
      cases answer.symm.trans failed
    · by_cases rejected : Rejected s tm p
      · exact Or.inr (Or.inl ⟨panics, rejected, decided.errs rejected⟩)
      · exact Or.inr (Or.inr ⟨panics, rejected, decided.returns rejected panics⟩)

theorem verdict_insert (columns : List String) (values : List (List (Value F))) :
    Verdict s (.insert table ns columns values)
      (outcome (executePlan (.insert table ns columns values) s)) := by
  refine verdict_of_change id rfl ?_
  rw [executePlan_insert]
  cases live : s.tableMeta ns table with
  | none =>
    refine Or.inl ⟨fun tm found => ?_, _, rfl⟩
    cases live.symm.trans found
  | some tm =>
    rcases insertRows_cases tm values 0 s with
      ⟨clear, run⟩ | ⟨before, vals, after, e, rfl, _, blocked, run⟩
    · refine Or.inr ⟨fun fails => ?_, ?_⟩
      · obtain ⟨vals, listed, e, unkeyed⟩ := fails tm live
        cases (clear vals listed).symm.trans (blockedBy_eq_some.mpr unkeyed)
      · simp only [run, Nat.zero_add]
        rfl
    · refine Or.inl ⟨fun tm' found => ?_, e, by simp only [run]; rfl⟩
      cases live.symm.trans found
      exact ⟨vals, by simp, e, blockedBy_eq_some.mp blocked⟩

theorem verdict_dropTable : Verdict s (.dropTable table ns)
    (outcome (executePlan (.dropTable table ns) s)) := by
  refine verdict_of_change id rfl ?_
  rw [executePlan_dropTable]
  cases live : s.tableMeta ns table with
  | none => exact Or.inl ⟨live, _, rfl⟩
  | some tm => exact Or.inr ⟨fun unknown => Option.some_ne_none _ (live.symm.trans unknown), rfl⟩

theorem verdict_describeTable : Verdict s (.describeTable table ns)
    (outcome (executePlan (.describeTable table ns) s)) := by
  refine verdict_of_rows rfl ?_
  have calm : ¬ Dies s (.describeTable table ns) := not_dies id
  rw [executePlan, bind_run, get_run]
  simp only [resolveTable]
  cases live : s.tableMeta ns table with
  | none => exact Or.inr (Or.inl ⟨calm, live, _, rfl⟩)
  | some tm =>
    have known : ¬ Fails s (.describeTable table ns) := fun unknown =>
      Option.some_ne_none _ (live.symm.trans unknown)
    exact Or.inr (Or.inr ⟨calm, known, _, rfl⟩)

end Statements

section Texts
variable [Float64 F] [FloatText F] [SqlText] [SqlParser] [ValueDebug F]
variable {s : SessionState F} {p : PlanNode F}

omit [FloatText F] [SqlText] [SqlParser] in
/-- Every kind of statement. -/
theorem verdict_planned (planned : Planned p) : Verdict s p (outcome (executePlan p s)) := by
  cases planned with
  | query select => exact verdict_select select
  | insert table ns columns values => exact verdict_insert columns values
  | createTable table ns columns => exact verdict_of_change id rfl (Or.inr ⟨id, rfl⟩)
  | dropTable table ns => exact verdict_dropTable
  | describeTable table ns => exact verdict_describeTable

end Texts

section Causes
variable [Float64 F]

/-- The literals an index lookup makes keys of. -/
def literals : IdLookup F → List (Value F)
  | .point v => [v]
  | .rangeInclusive v1 v2 => [v1, v2]

/-- What an error says of a statement on a table: it names a column that does not exist, with
the clause where it is named, or it is that of a value without a key. -/
inductive Blames (schema : Schema) (indexed : Prop) : PlanNode F → RustafariError → Prop where
  | filter {input : PlanNode F} {e : RustafariError} (below : Blames schema indexed input e)
      (predicate : FilterExpr F) : Blames schema indexed (.filter input predicate) e
  | project {input : PlanNode F} {e : RustafariError} (below : Blames schema indexed input e)
      (columns : List String) : Blames schema indexed (.project input columns) e
  | limit {input : PlanNode F} {e : RustafariError} (below : Blames schema indexed input e)
      (limit offset : Nat) : Blames schema indexed (.limit input limit offset) e
  | aggregate {input : PlanNode F} {e : RustafariError} (below : Blames schema indexed input e)
      (aggs : List AggExpr) : Blames schema indexed (.aggregate input aggs) e
  | groupBy {input : PlanNode F} {e : RustafariError} (below : Blames schema indexed input e)
      (columns : List String) (aggs : List AggExpr) :
      Blames schema indexed (.groupBy input columns aggs) e
  | orderBy {input : PlanNode F} {e : RustafariError} (below : Blames schema indexed input e)
      (columns : List (String × Bool)) : Blames schema indexed (.orderBy input columns) e
  | lookup (table : String) (ns : Option String) {predicate : FilterExpr F} {lookup : IdLookup F}
      {v : Value F} {e : RustafariError} (held : indexed)
      (found : predicateToIdLookup predicate "id" = some lookup) (used : v ∈ literals lookup)
      (refused : IndexKey.fromValue v = .error e) :
      Blames schema indexed (.filter (.scan table ns) predicate) e
  | aggregated (input : PlanNode F) {aggs : List AggExpr} {c : String}
      (named : c ∈ aggs.filterMap columnOf) (unknown : schema.columnIndex c = none) :
      Blames schema indexed (.aggregate input aggs) (.execution ("column not found: " ++ c))
  | groupAggregated (input : PlanNode F) (columns : List String) {aggs : List AggExpr} {c : String}
      (named : c ∈ aggs.filterMap columnOf) (unknown : schema.columnIndex c = none) :
      Blames schema indexed (.groupBy input columns aggs) (.execution ("column not found: " ++ c))
  | grouped (input : PlanNode F) {columns : List String} (aggs : List AggExpr) {c : String}
      (named : c ∈ columns) (unknown : schema.columnIndex c = none) :
      Blames schema indexed (.groupBy input columns aggs)
        (.execution ("GROUP BY column not found: " ++ c))
  | ordered (input : PlanNode F) {columns : List (String × Bool)} {c : String}
      (named : c ∈ columns.map Prod.fst) (unknown : schema.columnIndex c = none) :
      Blames schema indexed (.orderBy input columns)
        (.execution ("ORDER BY column not found: " ++ c))
  | inserted (table : String) (ns : Option String) (columns : List String)
      {values : List (List (Value F))} {vals : List (Value F)} {e : RustafariError}
      (listed : vals ∈ values) (unkeyed : Unkeyed schema indexed vals e) :
      Blames schema indexed (.insert table ns columns values) e

/-- The table is unknown and the error says so, or the error blames the statement. -/
def Explains (s : SessionState F) (p : PlanNode F) (e : RustafariError) : Prop :=
  match s.tableMeta (subject p).1 (subject p).2 with
  | none => e = .tableNotFound ((subject p).1.getD "public" ++ "." ++ (subject p).2)
  | some tm => Blames tm.schema (s.getIndex tm.id "id").isSome p e

end Causes

section Errors
variable [Float64 F] [ValueDebug F] {t : Table F} {p : PlanNode F} {e : RustafariError}
variable {schema : Schema}

omit [Float64 F] [ValueDebug F] in
theorem mapError_eq_error {α : Type} {x : Except RustafariError α} :
    x.mapError Stop.error = .error (.error e) ↔ x = .error e := by
  cases x <;> simp [Except.mapError]

omit [ValueDebug F] in
theorem find_blames {lookup : IdLookup F} (failed : t.find lookup = .error (.error e)) :
    ∃ v ∈ literals lookup, IndexKey.fromValue v = .error e := by
  cases lookup with
  | point v =>
    rcases bind_eq_error.mp failed with refused | ⟨k, _, never⟩
    · exact ⟨v, List.mem_cons_self, mapError_eq_error.mp refused⟩
    · cases never
  | rangeInclusive v1 v2 =>
    rcases bind_eq_error.mp failed with refused | ⟨k1, _, later⟩
    · exact ⟨v1, List.mem_cons_self, mapError_eq_error.mp refused⟩
    · rcases bind_eq_error.mp later with refused | ⟨k2, _, last⟩
      · exact ⟨v2, List.mem_cons_of_mem _ List.mem_cons_self, mapError_eq_error.mp refused⟩
      · dsimp only at last
        split at last <;> cases last

omit [ValueDebug F] in
theorem refuses_eq_some {vals : List (Value F)} : t.refuses (.new vals) = some e ↔
    Unkeyed t.schema (t.indexed = true) vals e := by
  rw [Table.refuses, Unkeyed]
  cases t.indexed with
  | false => simp
  | true =>
    cases t.schema.columnIndex "id" with
    | none => simp
    | some i =>
      cases cell : vals[i]? with
      | none => simp [cell]
      | some v => cases key : IndexKey.fromValue v <;> simp [cell, key]

omit [Float64 F] [ValueDebug F] in
theorem columnOr_blames {label c : String} (failed : columnOr label schema c = .error e) :
    schema.columnIndex c = none ∧ e = .execution (label ++ c) := by
  rw [columnOr] at failed
  split at failed
  · cases failed
  · rename_i unknown
    exact ⟨unknown, (Except.error.inj failed).symm⟩

omit [ValueDebug F] in
theorem aggregate_blames {agg : AggExpr} {rows : List (Row F)}
    (failed : aggregateOverRowSlice rows schema agg = .error e) :
    ∃ c, columnOf agg = some c ∧ schema.columnIndex c = none ∧
      e = .execution ("column not found: " ++ c) := by
  have column {c : String} {value : Nat → Value F}
      (failed : (columnOrError schema c >>= fun i => .ok (value i)) = .error e) :
      schema.columnIndex c = none ∧ e = .execution ("column not found: " ++ c) := by
    rw [columnOrError] at failed
    split at failed
    · cases failed
    · rename_i unknown
      exact ⟨unknown, (Except.error.inj failed).symm⟩
  cases agg with
  | countStar => cases failed
  | sum c => exact ⟨c, rfl, column failed⟩
  | count c => exact ⟨c, rfl, column failed⟩
  | avg c => exact ⟨c, rfl, column failed⟩
  | min c => exact ⟨c, rfl, column failed⟩
  | max c => exact ⟨c, rfl, column failed⟩

omit [ValueDebug F] in
theorem aggregates_blame {aggs : List AggExpr} {rows : List (Row F)}
    (failed : aggs.mapM (aggregateOverRowSlice rows schema) = .error e) :
    ∃ c ∈ aggs.filterMap columnOf, schema.columnIndex c = none ∧
      e = .execution ("column not found: " ++ c) := by
  obtain ⟨agg, listed, stopped⟩ := mapM_error failed
  obtain ⟨c, names, blamed⟩ := aggregate_blames stopped
  exact ⟨c, List.mem_filterMap.mpr ⟨agg, listed, names⟩, blamed⟩

theorem groupRows_blames {columns : List String} {aggs : List AggExpr} {rows : List (Row F)}
    {indexed : Prop} (input : PlanNode F)
    (failed : groupRows schema columns aggs rows = .error e) :
    Blames schema indexed (.groupBy input columns aggs) e := by
  rcases bind_eq_error.mp failed with missing | ⟨indices, _, inner⟩
  · obtain ⟨c, named, stopped⟩ := mapM_error missing
    obtain ⟨unknown, rfl⟩ := columnOr_blames stopped
    exact .grouped input aggs named unknown
  · obtain ⟨group, _, stopped⟩ := mapM_error inner
    rcases bind_eq_error.mp stopped with missing | ⟨vs, _, never⟩
    · obtain ⟨c, named, unknown, rfl⟩ := aggregates_blame missing
      exact .groupAggregated input columns named unknown
    · cases never

omit [ValueDebug F] in
theorem orderRows_blames {columns : List (String × Bool)} {rows : List (Row F)}
    {indexed : Prop} (input : PlanNode F)
    (failed : orderRows schema columns rows = .error e) :
    Blames schema indexed (.orderBy input columns) e := by
  rcases bind_eq_error.mp failed with missing | ⟨order, _, never⟩
  · obtain ⟨c, listed, stopped⟩ := mapM_error missing
    rcases bind_eq_error.mp stopped with missing | ⟨i, _, never⟩
    · obtain ⟨unknown, rfl⟩ := columnOr_blames missing
      exact .ordered input (List.mem_map_of_mem listed) unknown
    · cases never
  · cases never

omit [ValueDebug F] in
theorem tableAggregate_blames {agg : AggExpr} {x : Except Stop (List (Row F))}
    (failed : t.aggregate x agg = .error (.error e)) :
    x = .error (.error e) ∨ ∃ c, columnOf agg = some c ∧ t.schema.columnIndex c = none ∧
      e = .execution ("column not found: " ++ c) := by
  rw [Table.aggregate] at failed
  split at failed
  · rcases bind_eq_error.mp failed with below | ⟨rows, _, stopped⟩
    · exact Or.inl below
    · exact Or.inr (aggregate_blames (mapError_eq_error.mp stopped))
  · obtain ⟨v, answered⟩ := chunks_defined t.columnar t.schema agg
    rw [answered] at failed
    cases failed

/-- By the operators of the query. -/
theorem answer_blames {ns : Option String} {table : String} (reads : ReadsFrom ns table p)
    (failed : t.answer p = .error (.error e)) : Blames t.schema (t.indexed = true) p e := by
  induction p generalizing t with
  | scan table ns => cases failed
  | filter input predicate ih =>
    rw [Table.answer] at failed
    cases taken : t.lookup input predicate with
    | none =>
      rw [taken] at failed
      exact .filter (ih reads (map_eq_error.mp failed)) predicate
    | some lookup =>
      rw [taken] at failed
      obtain ⟨v, used, refused⟩ := find_blames failed
      cases input with
      | scan table ns =>
        rw [Table.lookup] at taken
        split at taken
        · rename_i held
          exact .lookup table ns held taken used refused
        · cases taken
      | _ => cases taken
  | project input columns ih => exact .project (ih reads (map_eq_error.mp failed)) columns
  | limit input limit offset ih => exact .limit (ih reads (map_eq_error.mp failed)) limit offset
  | aggregate input aggs ih =>
    obtain ⟨agg, listed, stopped⟩ := mapM_error (map_eq_error.mp failed)
    rcases tableAggregate_blames stopped with below | ⟨c, names, unknown, rfl⟩
    · have blamed := ih reads below
      rw [Table.schema_flush, Table.indexed_flush] at blamed
      exact .aggregate blamed aggs
    · rw [Table.schema_flush] at unknown
      exact .aggregated input (List.mem_filterMap.mpr ⟨agg, listed, names⟩) unknown
  | groupBy input columns aggs ih =>
    rcases bind_eq_error.mp failed with below | ⟨rows, _, stopped⟩
    · exact .groupBy (ih reads below) columns aggs
    · exact groupRows_blames input (mapError_eq_error.mp stopped)
  | orderBy input columns ih =>
    rcases bind_eq_error.mp failed with below | ⟨rows, _, stopped⟩
    · exact .orderBy (ih reads below) columns
    · exact orderRows_blames input (mapError_eq_error.mp stopped)
  | _ => exact False.elim reads

omit [ValueDebug F] in
theorem insert_blames {values : List (List (Value F))} (failed : (t.insert values).1 = some e) :
    ∃ vals ∈ values, Unkeyed t.schema (t.indexed = true) vals e := by
  induction values generalizing t with
  | nil => cases failed
  | cons vals values ih =>
    rw [Table.insert] at failed
    cases refused : t.refuses (.new vals) with
    | none =>
      rw [refused] at failed
      obtain ⟨vals', listed, unkeyed⟩ := ih failed
      rw [Table.schema_push, Table.indexed_push] at unkeyed
      exact ⟨vals', List.mem_cons_of_mem _ listed, unkeyed⟩
    | some e' =>
      rw [refused] at failed
      cases failed
      exact ⟨vals, List.mem_cons_self, refuses_eq_some.mp refused⟩

end Errors

section Runs
variable [Float64 F] [FloatText F] [SqlText] [SqlParser] [ValueDebug F]
variable {s : SessionState F} {d : Database F} {p : PlanNode F} {e : RustafariError}

omit [FloatText F] [SqlText] [SqlParser] in
/-- An error of a statement is explained by the table it is about. -/
theorem explained (planned : Planned p) (represents : Represents d s)
    (failed : (Database.execute p d).1 = .error (.error e)) : Explains s p e := by
  change (act p (d.tables ((subject p).1.getD "public") (subject p).2)).1 = _ at failed
  rw [Explains]
  rcases entry_cases represents (subject p).1 (subject p).2 with
    ⟨unbound, none⟩ | ⟨tm, t, live, found, holds⟩
  · rw [none] at failed
    simp only [unbound]
    cases p <;> cases failed <;> rfl
  · rw [found] at failed
    simp only [live]
    rw [holds.schema, holds.indexed]
    cases planned with
    | query select =>
      obtain ⟨ns, table, reads⟩ := reads_of_select select
      rw [act_query reads] at failed
      exact answer_blames reads (map_eq_error.mp failed)
    | insert table ns columns values =>
      simp only [act] at failed
      cases refused : (t.insert values).1 with
      | none =>
        rw [refused] at failed
        cases failed
      | some e' =>
        rw [refused] at failed
        cases failed
        obtain ⟨vals, listed, unkeyed⟩ := insert_blames refused
        exact .inserted table ns columns listed unkeyed
    | createTable table ns columns => cases failed
    | dropTable table ns => cases failed
    | describeTable table ns => cases failed

/-- After any texts, an error is that of the planner or explains itself. -/
theorem error_explained (before : List String) (sql : String) (e : RustafariError)
    (failed : (session (F := F) sql (after session before .new)).1 = .error (.error e)) :
    sqlToPlan (F := F) sql = .error e ∨ ∃ p, sqlToPlan sql = .ok p ∧
      Explains (after (session (F := F)) before .new) p e := by
  have represents := (refines_run (session_refines (F := F)) before represents_new).2
  rw [← (session_refines sql _ _ represents).1] at failed
  cases planned : (sqlToPlan sql : Except RustafariError (PlanNode F)) with
  | error e' =>
    rw [database_of_error planned] at failed
    cases failed
    exact Or.inl rfl
  | ok p =>
    rw [database_of_ok planned] at failed
    exact Or.inr ⟨p, rfl, explained (planned_of_sql planned) represents failed⟩

end Runs

/-- A table that was dropped is unknown. -/
theorem dropped_explained :
    sqlToPlan (F := Float) "describe a" = .error (.tableNotFound "public.a") ∨
      ∃ p, sqlToPlan (F := Float) "describe a" = .ok p ∧
        Explains (after session ["create table a (id bigint)", "drop table a"] .new) p
          (.tableNotFound "public.a") :=
  error_explained _ "describe a" (.tableNotFound "public.a") rfl

end Verdicts
