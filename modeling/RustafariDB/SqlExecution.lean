import RustafariDB.Execution
import RustafariDB.SqlPlanning
import RustafariDB.UnknownColumns

/-!
# From a text to its result

`SqlExecutor::execute` and what it calls in `lib.rs` of the SQL crate: a text is parsed,
its first statement planned, the plan executed. The parser is a parameter. Only some of
the shapes that plans can have come out of a text.
-/

namespace SqlExecution

open Catalogs Values Plans Floats Sessions Execution PlanEffects SqlSyntax SqlPlanning
open StatefulPrograms SelectedRows UnknownColumns

/-- `Parser::parse_sql` with the PostgreSQL dialect: the statements of a text, or a message. -/
class SqlParser where
  parseSql : String → Except String (List Statement)

variable {F : Type}

/-- The plans of texts: that of a SELECT, or one of the other statements. -/
inductive Planned : PlanNode F → Prop where
  | query {p : PlanNode F} (select : SelectPlan p) : Planned p
  | insert (table : String) (ns : Option String) (columns : List String)
      (values : List (List (Value F))) : Planned (.insert table ns columns values)
  | createTable (table : String) (ns : Option String) (columns : List (String × ColumnType)) :
      Planned (.createTable table ns columns)
  | dropTable (table : String) (ns : Option String) : Planned (.dropTable table ns)
  | describeTable (table : String) (ns : Option String) : Planned (.describeTable table ns)

theorem isQuery_of_selectPlan {p : PlanNode F} (planned : SelectPlan p) : IsQuery p := by
  have source {input : PlanNode F} (below : TableInput input) : IsQuery input := by
    cases below <;> exact trivial
  induction planned with
  | scan table ns => exact trivial
  | filter _ predicate ih => exact ih
  | project _ columns ih => exact ih
  | @aggregate input below aggs => exact show IsQuery input from source below
  | @groupBy input below columns aggs => exact show IsQuery input from source below
  | orderBy _ columns ih => exact ih
  | limit _ limit offset ih => exact ih

variable [Float64 F] [FloatText F] [SqlText]

theorem planned_of_ast {stmt : Statement} {p : PlanNode F} (accepted : astToPlan stmt = .ok p) :
    Planned p := by
  cases stmt with
  | query q => exact .query (selectPlan_of_query accepted)
  | insert tableName columns source =>
    cases source with
    | none => cases accepted
    | some q =>
      cases body : q.body with
      | values rows =>
        simp only [astToPlan, body] at accepted
        obtain ⟨values, _, rfl⟩ := map_eq_ok.mp accepted
        exact .insert _ _ _ _
      | _ => simp [astToPlan, body] at accepted
  | createTable name columns ifNotExists query =>
    cases accepted
    exact .createTable _ _ _
  | drop objectType ifExists names =>
    cases objectType with
    | table =>
      cases names with
      | nil => cases accepted
      | cons name names =>
        cases accepted
        exact .dropTable _ _
    | _ => cases accepted
  | explainTable tableName =>
    cases accepted
    exact .describeTable _ _
  | other => cases accepted

variable [SqlParser]

def parseSql (sql : String) : Except RustafariError (List Statement) :=
  (SqlParser.parseSql sql).mapError RustafariError.parse

/-- The plan of the first statement; the others are dropped. -/
def sqlToPlan (sql : String) : Except RustafariError (PlanNode F) := do
  match ← parseSql sql with
  | [] => .error (.parse "empty statement")
  | stmt :: _ => astToPlan stmt

theorem planned_of_sql {sql : String} {p : PlanNode F} (accepted : sqlToPlan sql = .ok p) :
    Planned p := by
  obtain ⟨stmts, _, first⟩ := bind_eq_ok.mp accepted
  cases stmts with
  | nil => cases first
  | cons stmt rest => exact planned_of_ast first

/-- `SqlExecutor::execute`. -/
def execute [ValueDebug F] (sql : String) : Exec F (ExecutionResult F) := do
  let plan ← orReturn (sqlToPlan sql)
  executePlan plan

theorem execute_run [ValueDebug F] (sql : String) (s : SessionState F) :
    execute sql s = match (sqlToPlan sql : Except RustafariError (PlanNode F)) with
      | .ok plan => executePlan plan s
      | .error e => .error (.error e) s := by
  rw [execute]
  cases (sqlToPlan sql : Except RustafariError (PlanNode F)) <;> rfl

section Concrete

/-- A query for all rows of a table, or for a page of them. -/
def selectAll (name : String) (limit offset : Option String) : Statement :=
  .query ⟨.select ⟨none, [.wildcard], [⟨.table [⟨name, none⟩], []⟩], none, .expressions [], none⟩,
    [], limit.map (fun n => .value (.number n)), offset.map (fun n => .value (.number n))⟩

/-- The number of rows of a table. -/
def countAll (name : String) : Statement :=
  let count : SelectItem :=
    .unnamedExpr (.function ⟨[⟨"COUNT", none⟩], [.unnamed .wildcard], false, none, none⟩)
  .query ⟨.select ⟨none, [count], [⟨.table [⟨name, none⟩], []⟩], none, .expressions [], none⟩,
    [], none, none⟩

/-- An INSERT of some rows of one number. -/
def insertNumbers (name : String) (numbers : List String) : Statement :=
  .insert [⟨name, none⟩] []
    (some ⟨.values (numbers.map (fun n => [.value (.number n)])), [], none, none⟩)

/-- A parser for concrete runs, of tables with one column. -/
def parseWords : List String → Except String (List Statement)
  | ["insert", "into", name, "values", "(", n, ")"] => .ok [insertNumbers name [n]]
  | ["insert", "into", name, "values", "(", m, ")", ",", "(", n, ")"] =>
    .ok [insertNumbers name [m, n]]
  | ["select", "*", "from", name] => .ok [selectAll name none none]
  | ["select", "count(*)", "from", name] => .ok [countAll name]
  | ["select", "*", "from", name, "limit", limit, "offset", offset] =>
    .ok [selectAll name (some limit) (some offset)]
  | ["create", "table", name, "(id", "bigint)"] =>
    .ok [.createTable [⟨name, none⟩] [⟨⟨"id", none⟩, .bigInt⟩] false none]
  | ["drop", "table", name] => .ok [.drop .table false [[⟨name, none⟩]]]
  | ["describe", name] => .ok [.explainTable [⟨name, none⟩]]
  | _ => .error "Expected: an SQL statement"

instance : SqlParser where
  parseSql := fun sql => parseWords ((sql.toList.splitOn ' ').map String.ofList)

end Concrete

end SqlExecution
