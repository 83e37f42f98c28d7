import RustafariDB.Plans
import RustafariDB.SqlSyntax
import RustafariDB.StatefulPrograms

/-!
# From statements to plans

`plan.rs`: literals, WHERE conditions, select lists, queries and statements. What is
not recognised is an error in some places and left out in others; both are kept. The
text functions of the standard library and of the parser are parameters.
-/

namespace SqlPlanning

open Catalogs Values Plans Floats SqlSyntax StatefulPrograms

/-- `str::to_uppercase` and the `Display` of an identifier, quotes included. -/
class SqlText where
  toUppercase : String → String
  displayIdent : Ident → String

/-- `str::parse::<f64>`. -/
class FloatText (F : Type) where
  parseF64 : String → Option F

section Numbers

/-- At least one decimal digit and nothing else. -/
def parseDigits (digits : List Char) : Option Nat :=
  if digits.isEmpty || !digits.all Char.isDigit then none
  else some (digits.foldl (fun n c => 10 * n + (c.toNat - '0'.toNat)) 0)

/-- `str::parse::<i64>`: an optional sign, digits, no overflow. -/
def parseI64 (s : String) : Option Int64 :=
  match s.toList with
  | '-' :: digits => (parseDigits digits).bind (fun n =>
      if n ≤ 9223372036854775808 then some (Int64.ofInt (-n)) else none)
  | '+' :: digits => (parseDigits digits).bind (fun n =>
      if n < 9223372036854775808 then some (Int64.ofInt n) else none)
  | digits => (parseDigits digits).bind (fun n =>
      if n < 9223372036854775808 then some (Int64.ofInt n) else none)

def u64Max : Nat := 18446744073709551615

/-- `str::parse::<u64>`. -/
def parseU64 (s : String) : Option Nat :=
  let inRange := fun n => if n ≤ u64Max then some n else none
  match s.toList with
  | '+' :: digits => (parseDigits digits).bind inRange
  | digits => (parseDigits digits).bind inRange

end Numbers

section Concrete

/-- Texts for concrete runs: upper case of ASCII letters, quotes put back. -/
instance : SqlText where
  toUppercase := fun s => String.ofList (s.toList.map Char.toUpper)
  displayIdent := fun id =>
    match id.quoteStyle with
    | none => id.value
    | some q => q.toString ++ id.value ++ q.toString

/-- Decimals without an exponent, for concrete runs. -/
def parseDecimal (s : String) : Option Float :=
  let whole := s.toList.takeWhile (fun c => c ≠ '.')
  let rest := (s.toList.dropWhile (fun c => c ≠ '.')).drop 1
  (parseDigits (whole ++ rest)).map (fun n => Float.ofScientific n true rest.length)

instance : FloatText Float := ⟨parseDecimal⟩

end Concrete

section Names

def tableParts (name : ObjectName) : Option String × String :=
  let parts := name.map Ident.value
  match parts with
  | first :: second :: rest => (some first, ".".intercalate (second :: rest))
  | [only] => (none, only)
  | [] => (none, "")

/-- A plain column; anything else is left out by the callers. -/
def exprToGroupByCol : Expr → Option String
  | .identifier id => some id.value
  | _ => none

end Names

section Conditions
variable {F : Type} [Float64 F] [FloatText F]

/-- A literal; a number that does not parse becomes zero. -/
def literalValue : SqlValue → Except RustafariError (Value F)
  | .number n =>
    if '.' ∈ n.toList then .ok (.float64 ((FloatText.parseF64 n).getD Float64.zero))
    else .ok (.int64 ((parseI64 n).getD 0))
  | .singleQuotedString s => .ok (.string s)
  | .boolean b => .ok (.bool b)
  | .null => .ok .null
  | .unQuotedString s =>
    match parseI64 s with
    | some n => .ok (.int64 n)
    | none =>
      match (FloatText.parseF64 s : Option F) with
      | some f => .ok (.float64 f)
      | none => .ok (.string s)
  | .other => .error (.parse "unsupported literal in VALUES")

def exprToValue : Expr → Except RustafariError (Value F)
  | .value v => literalValue v
  | _ => .error (.parse "only literals supported in VALUES")

/-- `=`, with the column on either side of a literal. -/
def eqFilter (left right : Expr) : Except RustafariError (FilterExpr F) :=
  match left, right with
  | .identifier id, .value v => (exprToValue (.value v)).map (.cmp id.value .eq)
  | .value v, .identifier id => (exprToValue (.value v)).map (.cmp id.value .eq)
  | _, _ => .error (.parse "comparison: expected column and literal")

/-- `<>`, with the column on the left only. -/
def notEqFilter (left right : Expr) : Except RustafariError (FilterExpr F) :=
  match left, right with
  | .identifier id, .value v => (exprToValue (.value v)).map (.cmp id.value .ne)
  | _, _ => .error (.parse "comparison: expected column and literal")

/-- `>`, `<`, `>=` and `<=`. The operator is kept when the operands change places. -/
def orderingFilter (op : CmpOp) (left right : Expr) : Except RustafariError (FilterExpr F) :=
  match left with
  | .identifier id => (exprToValue right).map (.cmp id.value op)
  | _ =>
    match right with
    | .identifier id => (exprToValue left).map (.cmp id.value op)
    | _ => .error (.parse "comparison: expected column")

def exprToFilter : Expr → Except RustafariError (FilterExpr F)
  | .binaryOp left .and right => do
    let l ← exprToFilter left
    let r ← exprToFilter right
    return .and l r
  | .binaryOp left .or right => do
    let l ← exprToFilter left
    let r ← exprToFilter right
    return .or l r
  | .binaryOp left .eq right => eqFilter left right
  | .binaryOp left .notEq right => notEqFilter left right
  | .binaryOp left .gt right => orderingFilter .gt left right
  | .binaryOp left .lt right => orderingFilter .lt left right
  | .binaryOp left .gtEq right => orderingFilter .ge left right
  | .binaryOp left .ltEq right => orderingFilter .le left right
  | .binaryOp _ .other _ => .error (.parse "unsupported binary op in WHERE")
  | .value (.boolean b) => .ok (.literal b)
  | .nested inner => exprToFilter inner
  | _ => .error (.parse "unsupported expression in WHERE")

end Conditions

section SelectLists
variable [SqlText]

def columnFromArg : FunctionArg Expr → Except RustafariError String
  | .unnamed (.expr (.identifier id)) => .ok id.value
  | _ => .error (.parse "aggregate argument must be a column name")

/-- An aggregate of one column. Further arguments are not looked at. -/
def columnAgg (name : String) (build : String → AggExpr) (firstArg : Option (FunctionArg Expr)) :
    Except RustafariError AggExpr :=
  match firstArg with
  | none => .error (.parse (name ++ " requires one argument"))
  | some arg => (columnFromArg arg).map build

def countAgg (firstArg : Option (FunctionArg Expr)) : Except RustafariError AggExpr :=
  match firstArg with
  | some (.unnamed .wildcard) => .ok .countStar
  | some arg => (columnFromArg arg).map .count
  | none => .error (.parse "COUNT requires * or column")

/-- Parse a single aggregate expression from a function call (SUM, COUNT, AVG, MIN, MAX). -/
def exprToAgg (f : Function Expr) : Except RustafariError AggExpr :=
  let name := ((f.name.head?).map (fun i => SqlText.toUppercase i.value)).getD ""
  let firstArg := f.args.head?
  if name = "SUM" then columnAgg "SUM" .sum firstArg
  else if name = "COUNT" then countAgg firstArg
  else if name = "AVG" then columnAgg "AVG" .avg firstArg
  else if name = "MIN" then columnAgg "MIN" .min firstArg
  else if name = "MAX" then columnAgg "MAX" .max firstArg
  else .error (.parse ("unsupported aggregate: " ++ name))

def itemAsAgg : SelectItem → Option AggExpr
  | .unnamedExpr (.function f) => (exprToAgg f).toOption
  | _ => none

/-- If the projection is only aggregate expressions, return them. -/
def projectionAsAggs (projection : List SelectItem) : Option (List AggExpr) :=
  match projection.mapM itemAsAgg with
  | some [] => none
  | aggs => aggs

/-- For GROUP BY: the projection is group columns and aggregates. Return only the aggregates. -/
def projectionAsAggsWithGroup (groupBy : List String) :
    List SelectItem → Except RustafariError (List AggExpr)
  | [] => .ok []
  | .unnamedExpr (.identifier id) :: rest =>
    if id.value ∈ groupBy then projectionAsAggsWithGroup groupBy rest
    else .error (.parse "GROUP BY projection: non-group column must be aggregated")
  | .unnamedExpr (.function f) :: rest => do
    let agg ← exprToAgg f
    let aggs ← projectionAsAggsWithGroup groupBy rest
    return agg :: aggs
  | _ :: _ => .error (.parse "GROUP BY projection: only column and aggregate")

/-- A select item as projection sees it: a plain column, or nothing. -/
def itemAsColumn : SelectItem → Option String
  | .unnamedExpr e => exprToGroupByCol e
  | _ => none

end SelectLists

section Queries
variable {F : Type} [Float64 F] [FloatText F] [SqlText]

/-- The first FROM item, when it is a table. Joins and further items are not looked at. -/
def fromTable : List TableWithJoins → Except RustafariError (PlanNode F)
  | [] => .error (.parse "SELECT must have FROM")
  | item :: _ =>
    match item.relation with
    | .table name => .ok (.scan (tableParts name).2 (tableParts name).1)
    | .other => .error (.parse "only table scan supported")

def whereClause (selection : Option Expr) (input : PlanNode F) :
    Except RustafariError (PlanNode F) :=
  match selection with
  | none => .ok input
  | some e => (exprToFilter e).map (.filter input)

/-- The plain columns among the GROUP BY items. -/
def groupByColumns : GroupByExpr → Except RustafariError (List String)
  | .expressions exprs => .ok (exprs.filterMap exprToGroupByCol)
  | .all => .error (.parse "GROUP BY ALL not supported")

/-- The select list as GROUP BY, as aggregates or as a projection, in this order. -/
def selectClause (projection : List SelectItem) (groupBy : List String) (input : PlanNode F) :
    Except RustafariError (PlanNode F) :=
  if groupBy ≠ [] then
    (projectionAsAggsWithGroup groupBy projection).map (.groupBy input groupBy)
  else
    match projectionAsAggs projection with
    | some aggs => .ok (.aggregate input aggs)
    | none =>
      let columns := projection.filterMap itemAsColumn
      .ok (if columns ≠ [] then .project input columns else input)

/-- The plain columns among the ORDER BY items. -/
def orderColumns (orderBy : List OrderByExpr) : List (String × Bool) :=
  (orderBy.map (fun o => ((exprToGroupByCol o.expr).getD "", o.asc.getD true))).filter
    (fun c => c.1 ≠ "")

def orderClause (orderBy : List OrderByExpr) (input : PlanNode F) : PlanNode F :=
  if orderColumns orderBy ≠ [] then .orderBy input (orderColumns orderBy) else input

def parseLimit : Expr → Nat
  | .value (.number n) => (parseU64 n).getD 0
  | _ => 0

def limitClause (limit offset : Option Expr) (input : PlanNode F) : PlanNode F :=
  let limit := (limit.map parseLimit).getD u64Max
  let offset := (offset.map parseLimit).getD 0
  if limit ≠ u64Max ∨ offset ≠ 0 then .limit input limit offset else input

def queryToPlan (query : Query) : Except RustafariError (PlanNode F) :=
  match query.body with
  | .select sel => do
    let scan ← fromTable sel.fromItems
    let input ← whereClause sel.selection scan
    let groupBy ← groupByColumns sel.groupBy
    let root ← selectClause sel.projection groupBy input
    return limitClause query.limit query.offset (orderClause query.orderBy root)
  | _ => .error (.parse "only SELECT supported in query")

/-- The clauses of a planned query one by one. -/
theorem queryToPlan_eq_ok {query : Query} {plan : PlanNode F} :
    queryToPlan query = .ok plan ↔ ∃ sel scan input groupBy root, query.body = .select sel ∧
      fromTable sel.fromItems = .ok scan ∧ whereClause sel.selection scan = .ok input ∧
      groupByColumns sel.groupBy = .ok groupBy ∧
      selectClause sel.projection groupBy input = .ok root ∧
      plan = limitClause query.limit query.offset (orderClause query.orderBy root) := by
  unfold queryToPlan
  cases query.body with
  | select sel =>
    simp only [bind_eq_ok]
    constructor
    · rintro ⟨scan, hscan, input, hinput, groupBy, hgroup, root, hroot, same⟩
      exact ⟨sel, scan, input, groupBy, root, rfl, hscan, hinput, hgroup, hroot,
        (Except.ok.inj same).symm⟩
    · rintro ⟨_, scan, input, groupBy, root, ⟨⟩, hscan, hinput, hgroup, hroot, rfl⟩
      exact ⟨scan, hscan, input, hinput, groupBy, hgroup, root, hroot, rfl⟩
  | _ => exact iff_of_false nofun (fun ⟨_, _, _, _, _, h, _⟩ => nomatch h)

end Queries

section Statements
variable {F : Type} [Float64 F] [FloatText F] [SqlText]

def valuesFromAst (rows : List (List Expr)) : Except RustafariError (List (List (Value F))) :=
  rows.mapM (fun row => row.mapM exprToValue)

/-- An unknown type is stored as text. -/
def columnType : DataType → ColumnType
  | .bigInt => .bigInt
  | .doublePrecision => .double
  | .boolean => .boolean
  | .varchar => .varchar none
  | .text => .text
  | .timestamp => .timestamp
  | .date => .date
  | .blob => .blob
  | .other => .text

def astToPlan : Statement → Except RustafariError (PlanNode F)
  | .query q => queryToPlan q
  | .insert tableName columns source =>
    match source with
    | none => .error (.parse "INSERT must have source")
    | some q =>
      match q.body with
      | .values rows => (valuesFromAst rows).map
          (.insert (tableParts tableName).2 (tableParts tableName).1
            (columns.map SqlText.displayIdent))
      | _ => .error (.parse "INSERT only supports VALUES")
  | .createTable name columns _ _ =>
    .ok (.createTable (tableParts name).2 (tableParts name).1
      (columns.map (fun c => (SqlText.displayIdent c.name, columnType c.dataType))))
  | .drop .table _ names =>
    match names with
    | [] => .error (.parse "DROP TABLE requires a table name")
    | name :: _ => .ok (.dropTable (tableParts name).2 (tableParts name).1)
  | .explainTable tableName =>
    .ok (.describeTable (tableParts tableName).2 (tableParts tableName).1)
  | _ => .error (.parse "unsupported statement")

end Statements

end SqlPlanning
