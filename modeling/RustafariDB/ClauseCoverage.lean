import RustafariDB.ConditionMeaning

/-!
# Which statements are planned

The planner rejects a statement for reasons that can be read off its syntax. What it
does not reject it plans, also when a clause is left out of the plan; so no clause is
ignored exactly where a statement is rejected or has no clause that is left out.
-/

namespace ClauseCoverage

open Floats Values Plans SqlSyntax SqlPlanning ConditionMeaning StatefulPrograms

section Covered

def isColumn : Expr → Bool
  | .identifier _ => true
  | _ => false

/-- An unsigned number without a fraction or an exponent. -/
def isIntegerLiteral : Expr → Bool
  | .value (.number n) => (parseDigits n.toList).isSome
  | _ => false

def itemExpr : SelectItem → Option Expr
  | .unnamedExpr e => some e
  | .exprWithAlias e _ => some e
  | _ => none

/-- A call without DISTINCT, FILTER and OVER. -/
def PlainCall (f : Function Expr) : Prop :=
  f.distinct = false ∧ f.filter = none ∧ f.overWindow = none

/-- Every clause of a query has a part in its plan; `aggregate` tells which calls are
aggregate calls. -/
structure CoveredSelect (aggregate : Function Expr → Bool) (q : Query) (sel : Select) : Prop where
  distinct : sel.distinct = none
  having : sel.having = none
  fromItems : ∃ item, sel.fromItems = [item] ∧ item.joins = []
  groupBy : ∃ exprs, sel.groupBy = .expressions exprs ∧ ∀ e ∈ exprs, isColumn e = true
  orderBy : ∀ o ∈ q.orderBy, isColumn o.expr = true
  limit : ∀ e, q.limit = some e → isIntegerLiteral e = true
  offset : ∀ e, q.offset = some e → isIntegerLiteral e = true
  calls : ∀ item ∈ sel.projection, ∀ e, itemExpr item = some e → ∀ f, Calls e f →
    aggregate f = true → PlainCall f

/-- No clause of the statement is one that its plan cannot represent. -/
def Covered (aggregate : Function Expr → Bool) : Statement → Prop
  | .query q => ∀ sel, q.body = .select sel → CoveredSelect aggregate q sel
  | .createTable _ _ ifNotExists query => ifNotExists = false ∧ query = none
  | .drop .table ifExists names => ifExists = false ∧ names.length = 1
  | _ => True

end Covered

section Rejected

/-- A literal that has a value. -/
def isLiteral : Expr → Bool
  | .value .other => false
  | .value _ => true
  | _ => false

/-- A column and a literal, in either order. -/
def comparable (left right : Expr) : Bool :=
  (isColumn left && isLiteral right) || (isLiteral left && isColumn right)

/-- The conditions that have a filter. -/
def compilable : Expr → Bool
  | .binaryOp left .and right => compilable left && compilable right
  | .binaryOp left .or right => compilable left && compilable right
  | .binaryOp left .notEq right => isColumn left && isLiteral right
  | .binaryOp _ .other _ => false
  | .binaryOp left _ right => comparable left right
  | .value (.boolean _) => true
  | .nested inner => compilable inner
  | _ => false

variable [SqlText]

/-- A group column, or a call of one of the five aggregates on a column. -/
def groupItem (columns : List String) : SelectItem → Bool
  | .unnamedExpr (.identifier id) => id.value ∈ columns
  | .unnamedExpr (.function f) => (exprToAgg f).toOption.isSome
  | _ => false

/-- The reasons for which a statement has no plan. -/
inductive Rejected : Statement → Prop where
  | notSelect (q : Query) (h : ∀ sel, q.body ≠ .select sel) : Rejected (.query q)
  | noFrom {q : Query} {sel : Select} (h : q.body = .select sel) (empty : sel.fromItems = []) :
      Rejected (.query q)
  | notTable {q : Query} {sel : Select} (h : q.body = .select sel) {item : TableWithJoins}
      {rest : List TableWithJoins} (first : sel.fromItems = item :: rest)
      (other : item.relation = .other) : Rejected (.query q)
  | condition {q : Query} {sel : Select} (h : q.body = .select sel) {e : Expr}
      (selection : sel.selection = some e) (failed : compilable e = false) : Rejected (.query q)
  | groupByAll {q : Query} {sel : Select} (h : q.body = .select sel)
      (all : sel.groupBy = .all) : Rejected (.query q)
  | projection {q : Query} {sel : Select} (h : q.body = .select sel) {exprs : List Expr}
      (groupBy : sel.groupBy = .expressions exprs) (grouped : exprs.filterMap exprToGroupByCol ≠ [])
      {item : SelectItem} (inside : item ∈ sel.projection)
      (failed : groupItem (exprs.filterMap exprToGroupByCol) item = false) : Rejected (.query q)
  | noSource (name : ObjectName) (columns : List Ident) : Rejected (.insert name columns none)
  | notValues (name : ObjectName) (columns : List Ident) (q : Query)
      (h : ∀ rows, q.body ≠ .values rows) : Rejected (.insert name columns (some q))
  | literal (name : ObjectName) (columns : List Ident) {q : Query} {rows : List (List Expr)}
      (h : q.body = .values rows) {row : List Expr} (inRows : row ∈ rows) {e : Expr}
      (inRow : e ∈ row) (failed : isLiteral e = false) : Rejected (.insert name columns (some q))
  | dropNothing (ifExists : Bool) : Rejected (.drop .table ifExists [])
  | dropOther (ifExists : Bool) (names : List ObjectName) : Rejected (.drop .other ifExists names)
  | other : Rejected .other

end Rejected

section Acceptance
variable {F : Type} [Float64 F] [FloatText F]

theorem literalValue_ok_iff (v : SqlValue) :
    (∃ lit : Value F, literalValue v = .ok lit) ↔ v ≠ .other := by
  cases v with
  | number n =>
    refine iff_of_true ?_ nofun
    rw [literalValue]
    split <;> exact ⟨_, rfl⟩
  | unQuotedString s =>
    refine iff_of_true ?_ nofun
    rw [literalValue]
    cases parseI64 s with
    | some n => exact ⟨.int64 n, rfl⟩
    | none =>
      cases (FloatText.parseF64 s : Option F) with
      | some x => exact ⟨.float64 x, rfl⟩
      | none => exact ⟨.string s, rfl⟩
  | other => exact iff_of_false (not_ok_of_error _) (fun h => h rfl)
  | _ => exact iff_of_true ⟨_, rfl⟩ nofun

theorem exprToValue_ok_iff (e : Expr) :
    (∃ lit : Value F, exprToValue e = .ok lit) ↔ isLiteral e = true := by
  cases e with
  | value v =>
    rw [exprToValue, literalValue_ok_iff]
    cases v <;> simp [isLiteral]
  | _ => exact iff_of_false (not_ok_of_error _) Bool.false_ne_true

theorem isColumn_iff (e : Expr) : isColumn e = true ↔ ∃ id, e = .identifier id := by
  cases e with
  | identifier id => exact iff_of_true rfl ⟨id, rfl⟩
  | _ => simp [isColumn]

theorem isLiteral_iff (e : Expr) : isLiteral e = true ↔ ∃ v, v ≠ .other ∧ e = .value v := by
  cases e with
  | value v => cases v <;> simp [isLiteral]
  | _ => simp [isLiteral]

theorem comparable_iff (left right : Expr) :
    comparable left right = true ↔ ∃ id v, v ≠ SqlValue.other ∧
      (ColumnFirst left right id v ∨ LiteralFirst left right id v) := by
  rw [comparable, Bool.or_eq_true, Bool.and_eq_true, Bool.and_eq_true, isColumn_iff, isColumn_iff,
    isLiteral_iff, isLiteral_iff]
  constructor
  · rintro (⟨⟨id, hl⟩, v, known, hr⟩ | ⟨⟨v, known, hl⟩, id, hr⟩)
    · exact ⟨id, v, known, Or.inl ⟨hl, hr⟩⟩
    · exact ⟨id, v, known, Or.inr ⟨hl, hr⟩⟩
  · rintro ⟨id, v, known, ⟨hl, hr⟩ | ⟨hl, hr⟩⟩
    · exact Or.inl ⟨⟨id, hl⟩, v, known, hr⟩
    · exact Or.inr ⟨⟨v, known, hl⟩, id, hr⟩

/-- A comparison is compiled when it is one of a column and a literal, if only such are and
all such are. -/
theorem compared_ok_iff {op : CmpOp} {left right : Expr}
    {filter : Except RustafariError (FilterExpr F)}
    (only : ∀ g, filter = .ok g → ∃ id v lit, literalValue v = .ok lit ∧
      g = .cmp id.value op lit ∧ (ColumnFirst left right id v ∨ LiteralFirst left right id v))
    (all : ∀ id v lit, literalValue v = .ok lit →
      (ColumnFirst left right id v ∨ LiteralFirst left right id v) →
        filter = .ok (.cmp id.value op lit)) :
    (∃ g, filter = .ok g) ↔ comparable left right = true := by
  rw [comparable_iff]
  constructor
  · rintro ⟨g, h⟩
    obtain ⟨id, v, lit, hv, _, order⟩ := only g h
    exact ⟨id, v, (literalValue_ok_iff v).mp ⟨lit, hv⟩, order⟩
  · rintro ⟨id, v, known, order⟩
    obtain ⟨lit, hv⟩ := (literalValue_ok_iff (F := F) v).mpr known
    exact ⟨_, all id v lit hv order⟩

theorem orderingFilter_ok_iff (op : CmpOp) (left right : Expr) :
    (∃ g : FilterExpr F, orderingFilter op left right = .ok g) ↔ comparable left right = true := by
  apply compared_ok_iff (fun g => orderingFilter_cases)
  rintro id v lit hv (⟨rfl, rfl⟩ | ⟨rfl, rfl⟩)
  · exact map_eq_ok.mpr ⟨lit, hv, rfl⟩
  · exact map_eq_ok.mpr ⟨lit, hv, rfl⟩

theorem eqFilter_ok_iff (left right : Expr) :
    (∃ g : FilterExpr F, eqFilter left right = .ok g) ↔ comparable left right = true := by
  apply compared_ok_iff (fun g => eqFilter_cases)
  rintro id v lit hv (⟨rfl, rfl⟩ | ⟨rfl, rfl⟩)
  · exact map_eq_ok.mpr ⟨lit, hv, rfl⟩
  · exact map_eq_ok.mpr ⟨lit, hv, rfl⟩

theorem notEqFilter_ok_iff (left right : Expr) :
    (∃ g : FilterExpr F, notEqFilter left right = .ok g) ↔
      (isColumn left && isLiteral right) = true := by
  rw [Bool.and_eq_true, isColumn_iff, isLiteral_iff]
  constructor
  · rintro ⟨g, h⟩
    obtain ⟨id, v, lit, hv, _, hl, hr⟩ := notEqFilter_cases h
    exact ⟨⟨id, hl⟩, v, (literalValue_ok_iff v).mp ⟨lit, hv⟩, hr⟩
  · rintro ⟨⟨id, rfl⟩, v, known, rfl⟩
    obtain ⟨lit, hv⟩ := (literalValue_ok_iff (F := F) v).mpr known
    exact ⟨.cmp id.value .ne lit, map_eq_ok.mpr ⟨lit, hv, rfl⟩⟩

/-- Two conditions are combined when both are compiled. -/
theorem both_ok_iff {left right : Expr} (build : FilterExpr F → FilterExpr F → FilterExpr F)
    (hl : (∃ g : FilterExpr F, exprToFilter left = .ok g) ↔ compilable left = true)
    (hr : (∃ g : FilterExpr F, exprToFilter right = .ok g) ↔ compilable right = true) :
    (∃ g, (exprToFilter left >>= fun l => exprToFilter right >>= fun r =>
      Except.ok (build l r)) = .ok g) ↔ (compilable left && compilable right) = true := by
  rw [Bool.and_eq_true, ← hl, ← hr]
  constructor
  · rintro ⟨g, h⟩
    obtain ⟨l, hleft, h⟩ := bind_eq_ok.mp h
    obtain ⟨r, hright, _⟩ := bind_eq_ok.mp h
    exact ⟨⟨l, hleft⟩, r, hright⟩
  · rintro ⟨⟨l, hleft⟩, r, hright⟩
    exact ⟨build l r, by rw [hleft, hright]; rfl⟩

theorem exprToFilter_ok_iff (e : Expr) :
    (∃ g : FilterExpr F, exprToFilter e = .ok g) ↔ compilable e = true := by
  induction e using exprToFilter.induct with
  | case1 left right ihl ihr => exact both_ok_iff .and ihl ihr
  | case2 left right ihl ihr => exact both_ok_iff .or ihl ihr
  | case3 left right => exact eqFilter_ok_iff left right
  | case4 left right => exact notEqFilter_ok_iff left right
  | case5 left right => exact orderingFilter_ok_iff .gt left right
  | case6 left right => exact orderingFilter_ok_iff .lt left right
  | case7 left right => exact orderingFilter_ok_iff .ge left right
  | case8 left right => exact orderingFilter_ok_iff .le left right
  | case9 => exact iff_of_false (not_ok_of_error _) Bool.false_ne_true
  | case10 b => exact iff_of_true ⟨.literal b, rfl⟩ rfl
  | case11 inner ih => exact ih
  | case12 e and or eq ne gt lt ge le other boolean nested =>
    cases e with
    | binaryOp l op r =>
      cases op with
      | and => exact (and l r rfl).elim
      | or => exact (or l r rfl).elim
      | eq => exact (eq l r rfl).elim
      | notEq => exact (ne l r rfl).elim
      | gt => exact (gt l r rfl).elim
      | lt => exact (lt l r rfl).elim
      | gtEq => exact (ge l r rfl).elim
      | ltEq => exact (le l r rfl).elim
      | other => exact (other l r rfl).elim
    | value v =>
      cases v with
      | boolean b => exact (boolean b rfl).elim
      | _ => exact iff_of_false (not_ok_of_error _) Bool.false_ne_true
    | nested inner => exact (nested inner rfl).elim
    | _ => exact iff_of_false (not_ok_of_error _) Bool.false_ne_true

variable [SqlText]

/-- A list grouped by columns is planned when each item is one of them or an aggregate. -/
theorem grouped_ok_iff (columns : List String) (projection : List SelectItem) :
    (∃ aggs, projectionAsAggsWithGroup columns projection = .ok aggs) ↔
      ∀ item ∈ projection, groupItem columns item = true := by
  induction projection with
  | nil => exact iff_of_true ⟨[], rfl⟩ nofun
  | cons item rest ih =>
    rw [List.forall_mem_cons, ← ih]
    cases item with
    | unnamedExpr e =>
      cases e with
      | identifier id =>
        rw [projectionAsAggsWithGroup, groupItem]
        by_cases listed : id.value ∈ columns
        · simp only [if_pos listed, decide_eq_true listed, true_and]
        · simp only [if_neg listed, decide_eq_false listed, Bool.false_eq_true, false_and,
            reduceCtorEq, exists_false]
      | function f =>
        rw [groupItem]
        cases hagg : exprToAgg f with
        | error err =>
          refine iff_of_false ?_ (fun h => Bool.false_ne_true h.1)
          rintro ⟨aggs, h⟩
          obtain ⟨agg, hagg', _⟩ := bind_eq_ok.mp h
          cases hagg.symm.trans hagg'
        | ok agg =>
          refine Iff.trans ?_ (and_iff_right rfl).symm
          constructor
          · rintro ⟨aggs, h⟩
            obtain ⟨_, _, h⟩ := bind_eq_ok.mp h
            obtain ⟨aggs', haggs, _⟩ := bind_eq_ok.mp h
            exact ⟨aggs', haggs⟩
          · rintro ⟨aggs, haggs⟩
            exact ⟨agg :: aggs, bind_eq_ok.mpr ⟨agg, hagg, bind_eq_ok.mpr ⟨aggs, haggs, rfl⟩⟩⟩
      | _ => exact iff_of_false (not_ok_of_error _) (fun h => Bool.false_ne_true h.1)
    | _ => exact iff_of_false (not_ok_of_error _) (fun h => Bool.false_ne_true h.1)

omit [Float64 F] [FloatText F] in
theorem selectClause_ok_iff (projection : List SelectItem) (columns : List String)
    (input : PlanNode F) :
    (∃ plan, selectClause projection columns input = .ok plan) ↔
      (columns ≠ [] → ∀ item ∈ projection, groupItem columns item = true) := by
  rw [← grouped_ok_iff]
  unfold selectClause
  by_cases grouped : columns ≠ []
  · rw [if_pos grouped]
    constructor
    · rintro ⟨plan, h⟩ _
      obtain ⟨aggs, haggs, _⟩ := map_eq_ok.mp h
      exact ⟨aggs, haggs⟩
    · intro h
      obtain ⟨aggs, haggs⟩ := h grouped
      exact ⟨_, map_eq_ok.mpr ⟨aggs, haggs, rfl⟩⟩
  · rw [if_neg grouped]
    refine iff_of_true ?_ (fun h => absurd h grouped)
    cases projectionAsAggs projection with
    | some aggs => exact ⟨_, rfl⟩
    | none => exact ⟨_, rfl⟩

omit [SqlText] in
theorem whereClause_ok_iff (selection : Option Expr) (input : PlanNode F) :
    (∃ plan, whereClause selection input = .ok plan) ↔
      ∀ e, selection = some e → compilable e = true := by
  cases selection with
  | none => exact iff_of_true ⟨input, rfl⟩ nofun
  | some e =>
    constructor
    · rintro ⟨plan, h⟩ _ ⟨⟩
      obtain ⟨g, hg, _⟩ := map_eq_ok.mp h
      exact (exprToFilter_ok_iff e).mp ⟨g, hg⟩
    · intro h
      obtain ⟨g, hg⟩ := (exprToFilter_ok_iff (F := F) e).mpr (h e rfl)
      exact ⟨_, map_eq_ok.mpr ⟨g, hg, rfl⟩⟩

omit [SqlText] in
theorem valuesFromAst_ok_iff (rows : List (List Expr)) :
    (∃ values : List (List (Value F)), valuesFromAst rows = .ok values) ↔
      ∀ row ∈ rows, ∀ e ∈ row, isLiteral e = true := by
  simp only [valuesFromAst, mapM_ok_iff, exprToValue_ok_iff]

/-- A query that is not rejected has a plan. -/
theorem query_planned_or_rejected (q : Query) :
    (∃ plan : PlanNode F, queryToPlan q = .ok plan) ∨ Rejected (.query q) := by
  cases hbody : q.body with
  | select sel =>
    cases hfrom : sel.fromItems with
    | nil => exact Or.inr (.noFrom hbody hfrom)
    | cons item rest =>
      cases hrelation : item.relation with
      | other => exact Or.inr (.notTable hbody hfrom hrelation)
      | table name =>
        have scanned : (fromTable sel.fromItems : Except _ (PlanNode F)) =
            .ok (.scan (tableParts name).2 (tableParts name).1) := by
          rw [hfrom, fromTable, hrelation]
        by_cases hwhere : ∀ e, sel.selection = some e → compilable e = true
        · obtain ⟨input, hinput⟩ := (whereClause_ok_iff (F := F) sel.selection _).mpr hwhere
          cases hgroup : sel.groupBy with
          | all => exact Or.inr (.groupByAll hbody hgroup)
          | expressions exprs =>
            by_cases items : exprs.filterMap exprToGroupByCol ≠ [] → ∀ item ∈ sel.projection,
                groupItem (exprs.filterMap exprToGroupByCol) item = true
            · obtain ⟨root, hroot⟩ := (selectClause_ok_iff sel.projection _ input).mpr items
              exact Or.inl ⟨_, queryToPlan_eq_ok.mpr ⟨sel, _, input, _, root, hbody, scanned,
                hinput, by rw [hgroup]; rfl, hroot, rfl⟩⟩
            · rw [Classical.not_imp, not_forall] at items
              obtain ⟨grouped, item, failed⟩ := items
              rw [Classical.not_imp, Bool.not_eq_true] at failed
              exact Or.inr (.projection hbody hgroup grouped failed.1 failed.2)
        · rw [not_forall] at hwhere
          obtain ⟨e, failed⟩ := hwhere
          rw [Classical.not_imp, Bool.not_eq_true] at failed
          exact Or.inr (.condition hbody failed.1 failed.2)
  | values rows => exact Or.inr (.notSelect q (fun sel h => by cases hbody.symm.trans h))
  | other => exact Or.inr (.notSelect q (fun sel h => by cases hbody.symm.trans h))

/-- A statement that is not rejected has a plan. -/
theorem planned_or_rejected (stmt : Statement) :
    (∃ plan : PlanNode F, astToPlan stmt = .ok plan) ∨ Rejected stmt := by
  cases stmt with
  | query q => exact query_planned_or_rejected q
  | insert name columns source =>
    cases source with
    | none => exact Or.inr (.noSource name columns)
    | some q =>
      cases hbody : q.body with
      | values rows =>
        by_cases literals : ∀ row ∈ rows, ∀ e ∈ row, isLiteral e = true
        · obtain ⟨values, hvalues⟩ := (valuesFromAst_ok_iff (F := F) rows).mpr literals
          refine Or.inl ⟨.insert (tableParts name).2 (tableParts name).1
            (columns.map SqlText.displayIdent) values, ?_⟩
          simp only [astToPlan, hbody]
          exact map_eq_ok.mpr ⟨values, hvalues, rfl⟩
        · simp only [not_forall] at literals
          obtain ⟨row, inRows, e, inRow, failed⟩ := literals
          exact Or.inr (.literal name columns hbody inRows inRow (Bool.not_eq_true _ ▸ failed))
      | select sel =>
        exact Or.inr (.notValues name columns q (fun rows h => by cases hbody.symm.trans h))
      | other =>
        exact Or.inr (.notValues name columns q (fun rows h => by cases hbody.symm.trans h))
  | createTable name columns ifNotExists query => exact Or.inl ⟨_, rfl⟩
  | drop objectType ifExists names =>
    cases objectType with
    | table =>
      cases names with
      | nil => exact Or.inr (.dropNothing ifExists)
      | cons name rest => exact Or.inl ⟨_, rfl⟩
    | other => exact Or.inr (.dropOther ifExists names)
  | explainTable name => exact Or.inl ⟨_, rfl⟩
  | other => exact Or.inr .other

/-- What a planned query has in each place where it could have been rejected. -/
theorem planned_query {q : Query} {plan : PlanNode F} (h : queryToPlan q = .ok plan)
    {sel : Select} (hbody : q.body = .select sel) :
    (∃ item rest name, sel.fromItems = item :: rest ∧ item.relation = .table name) ∧
      (∀ e, sel.selection = some e → compilable e = true) ∧
      ∃ exprs, sel.groupBy = .expressions exprs ∧
        (exprs.filterMap exprToGroupByCol ≠ [] → ∀ item ∈ sel.projection,
          groupItem (exprs.filterMap exprToGroupByCol) item = true) := by
  obtain ⟨sel', scan, input, groupBy, root, hbody', hscan, hinput, hgroup, hroot, _⟩ :=
    queryToPlan_eq_ok.mp h
  cases hbody.symm.trans hbody'
  refine ⟨?_, (whereClause_ok_iff _ scan).mp ⟨input, hinput⟩, ?_⟩
  · cases hfrom : sel.fromItems with
    | nil =>
      rw [hfrom] at hscan
      cases hscan
    | cons item rest =>
      cases hrelation : item.relation with
      | table name => exact ⟨item, rest, name, rfl, hrelation⟩
      | other =>
        rw [hfrom, fromTable, hrelation] at hscan
        cases hscan
  · cases hexprs : sel.groupBy with
    | all =>
      rw [hexprs] at hgroup
      cases hgroup
    | expressions exprs =>
      rw [hexprs] at hgroup
      cases hgroup
      exact ⟨exprs, rfl, (selectClause_ok_iff _ _ input).mp ⟨root, hroot⟩⟩

theorem rejected_has_no_plan {stmt : Statement} (rejected : Rejected stmt) :
    ¬ ∃ plan : PlanNode F, astToPlan stmt = .ok plan := by
  rintro ⟨plan, h⟩
  cases rejected with
  | notSelect q other =>
    obtain ⟨sel, _, _, _, _, hbody, _⟩ := queryToPlan_eq_ok.mp h
    exact other sel hbody
  | noFrom hbody empty =>
    obtain ⟨⟨item, rest, name, hfrom, _⟩, _⟩ := planned_query h hbody
    cases empty.symm.trans hfrom
  | notTable hbody first other =>
    obtain ⟨⟨item, rest, name, hfrom, hrelation⟩, _⟩ := planned_query h hbody
    cases first.symm.trans hfrom
    cases other.symm.trans hrelation
  | condition hbody selection failed =>
    obtain ⟨_, conditions, _⟩ := planned_query h hbody
    cases (conditions _ selection).symm.trans failed
  | groupByAll hbody all =>
    obtain ⟨_, _, exprs, hexprs, _⟩ := planned_query h hbody
    cases all.symm.trans hexprs
  | projection hbody groupBy grouped inside failed =>
    obtain ⟨_, _, exprs, hexprs, items⟩ := planned_query h hbody
    cases groupBy.symm.trans hexprs
    cases (items grouped _ inside).symm.trans failed
  | noSource name columns => cases h
  | notValues name columns q other =>
    cases hbody : q.body with
    | values rows => exact other rows hbody
    | select sel =>
      simp only [astToPlan, hbody] at h
      cases h
    | other =>
      simp only [astToPlan, hbody] at h
      cases h
  | literal name columns hbody inRows inRow failed =>
    simp only [astToPlan, hbody] at h
    obtain ⟨values, hvalues, _⟩ := map_eq_ok.mp h
    cases ((valuesFromAst_ok_iff _).mp ⟨values, hvalues⟩ _ inRows _ inRow).symm.trans failed
  | dropNothing ifExists => cases h
  | dropOther ifExists names => cases h
  | other => cases h

/-- A statement has no plan exactly for the listed reasons. -/
theorem rejected_iff (stmt : Statement) :
    Rejected stmt ↔ ∀ plan : PlanNode F, astToPlan stmt ≠ .ok plan := by
  constructor
  · intro rejected plan hplan
    exact rejected_has_no_plan rejected ⟨plan, hplan⟩
  · intro none
    exact (planned_or_rejected stmt).resolve_left (fun ⟨plan, hplan⟩ => none plan hplan)

/-- No clause of a statement is ignored exactly if it is rejected, or if it has no clause
that a plan leaves out. -/
theorem no_clause_ignored_iff (aggregate : Function Expr → Bool) (stmt : Statement) :
    (∀ plan : PlanNode F, astToPlan stmt = .ok plan → Covered aggregate stmt) ↔
      Rejected stmt ∨ Covered aggregate stmt := by
  rw [rejected_iff (F := F)]
  constructor
  · intro h
    by_cases planned : ∃ plan : PlanNode F, astToPlan stmt = .ok plan
    · obtain ⟨plan, hplan⟩ := planned
      exact Or.inr (h plan hplan)
    · exact Or.inl (fun plan hplan => planned ⟨plan, hplan⟩)
  · rintro (rejected | covered) plan hplan
    · exact absurd hplan (rejected plan)
    · exact covered

end Acceptance

section Dropped

/-- `SELECT DISTINCT a FROM t`. -/
def selectDistinct : Statement :=
  .query ⟨.select ⟨some .distinct, [.unnamedExpr (.identifier ⟨"a", none⟩)],
    [⟨.table [⟨"t", none⟩], []⟩], none, .expressions [], none⟩, [], none, none⟩

/-- DISTINCT is not in the plan and no error either. -/
theorem distinct_dropped :
    ¬ ∀ (stmt : Statement) (plan : PlanNode Float), astToPlan stmt = .ok plan →
      Covered (fun _ => true) stmt := by
  intro covered
  have planned : (astToPlan selectDistinct : Except _ (PlanNode Float)) =
      .ok (.project (.scan "t" none) ["a"]) := rfl
  have noDistinct := (covered selectDistinct _ planned _ rfl).distinct
  cases noDistinct

end Dropped

end ClauseCoverage
