import RustafariDB.FilteredAggregates
import RustafariDB.QueryOperators
import RustafariDB.SelectLists

/-!
# The rows of a select list

A select list owes one row for each row of its input, one for a table of aggregates or one
for each group, with a value for each item. A list that is read as it is written gives exactly
these rows; on rows whose values tell the columns apart no other list does.
-/

namespace SelectedRows

open Floats Values Catalogs Plans SqlSyntax SqlPlanning Aggregates Sessions Execution
open Predicates StatefulPrograms PlanEffects QueryOperators SelectLists RowStorage
open FilteredAggregates

variable {F : Type} [Float64 F] [ValueDebug F]

section Inputs

/-- What stands below a select list: the table, or the table under a condition. -/
inductive TableInput : PlanNode F → Prop where
  | scan (table : String) (ns : Option String) : TableInput (.scan table ns)
  | filter (table : String) (ns : Option String) (predicate : FilterExpr F) :
      TableInput (.filter (.scan table ns) predicate)

/-- The rows of such an input, through the index or by a scan. -/
def inputRows (s : SessionState F) (tm : TableMeta) : PlanNode F → Except Stop (List (Row F))
  | .filter input predicate =>
    match indexPath s tm.id input predicate with
    | some (index, lookup) =>
      (lookupIds index lookup).map (List.filterMap (s.rowStore.get tm.id))
    | none => .ok ((scanRows s tm).filter (fun row => evalPredicate row predicate tm.schema))
  | _ => .ok (scanRows s tm)

variable {s t : SessionState F} {input : PlanNode F} {tm : TableMeta} {rows : List (Row F)}

theorem executePlan_input (h : TableInput input) (live : scanMeta s input = .ok tm) :
    executePlan input s = runExcept ((inputRows s tm input).map .rows) s := by
  cases h with
  | scan table ns => exact executePlan_scan (resolveTable_eq_ok.mp live)
  | filter table ns predicate =>
    have live : scanMeta s (.scan table ns) = .ok tm := live
    rw [executePlan_filter live, executePlan_scan (resolveTable_eq_ok.mp live), inputRows]
    cases indexPath s tm.id (.scan table ns) predicate with
    | some found =>
      obtain ⟨index, lookup⟩ := found
      simp only
      cases lookupIds index lookup <;> rfl
    | none => rfl

theorem executePlan_unknown (h : TableInput input) {e : RustafariError}
    (unknown : scanMeta s input = .error e) : executePlan input s = .error (.error e) s := by
  cases h with
  | scan table ns =>
    simp only [scanMeta] at unknown
    rw [executePlan, bind_run, get_run]
    simp only [unknown]
    rfl
  | filter table ns predicate =>
    have unknown : scanMeta s (.scan table ns) = .error e := unknown
    rw [executePlan, bind_run, get_run]
    simp only [unknown]
    rfl

/-- A run of the input is a run of the pure function, in a state that stays. -/
theorem input_eq_ok (h : TableInput input) {result : ExecutionResult F} :
    executePlan input s = .ok result t ↔ ∃ tm rows, scanMeta s input = .ok tm ∧
      inputRows s tm input = .ok rows ∧ result = .rows rows ∧ s = t := by
  cases live : scanMeta s input with
  | ok tm =>
    rw [executePlan_input h live, runExcept_eq_ok, map_eq_ok]
    constructor
    · rintro ⟨⟨rows, hrows, rfl⟩, rfl⟩
      exact ⟨tm, rows, rfl, hrows, rfl, rfl⟩
    · rintro ⟨_, rows, ⟨⟩, hrows, rfl, rfl⟩
      exact ⟨⟨rows, hrows, rfl⟩, rfl⟩
  | error e =>
    refine iff_of_false (fun run => ?_) (fun ⟨_, _, known, _⟩ => nomatch known)
    rw [executePlan_unknown h live] at run
    cases run

theorem input_outcome (h : TableInput input) (live : scanMeta s input = .ok tm) :
    outcome (executePlan input s) = .ok (.rows rows) ↔ inputRows s tm input = .ok rows := by
  rw [executePlan_input h live, outcome_runExcept, map_eq_ok]
  constructor
  · rintro ⟨_, hrows, same⟩
    cases same
    exact hrows
  · intro hrows
    exact ⟨rows, hrows, rfl⟩

theorem readOnly_input (h : TableInput input) : ReadOnly (executePlan input) := by
  intro s
  cases live : scanMeta s input with
  | ok tm => rw [executePlan_input h live, final_runExcept]
  | error e => rw [executePlan_unknown h live, final_error]

omit [ValueDebug F] in
/-- The rows below a select list are rows of the table. -/
theorem mem_scanRows_of_input (h : TableInput input) (run : inputRows s tm input = .ok rows) :
    ∀ row ∈ rows, row ∈ scanRows s tm := by
  cases h with
  | scan table ns =>
    cases run
    exact fun _ inside => inside
  | filter table ns predicate =>
    rw [inputRows] at run
    split at run
    · obtain ⟨ids, _, rfl⟩ := map_eq_ok.mp run
      intro row inside
      obtain ⟨id, _, hrow⟩ := List.mem_filterMap.mp inside
      exact List.mem_map.mpr ⟨(id, row), TableStore.mem_scan.mpr hrow, rfl⟩
    · cases run
      exact fun row inside => (List.mem_filter.mp inside).1

omit [ValueDebug F] in
/-- They do not depend on the columnar side of the state. -/
theorem inputRows_congr (rowStore : t.rowStore = s.rowStore)
    (indexStore : t.indexStore = s.indexStore) (tm : TableMeta) (input : PlanNode F) :
    inputRows t tm input = inputRows s tm input := by
  have path (below : PlanNode F) (predicate : FilterExpr F) :
      indexPath t tm.id below predicate = indexPath s tm.id below predicate := by
    have index : t.getIndex tm.id "id" = s.getIndex tm.id "id" := by
      rw [SessionState.getIndex, SessionState.getIndex, indexStore]
    simp only [indexPath, index]
  cases input <;> simp only [inputRows, path, scanRows, rowStore]

end Inputs

section Specification
variable [SqlText] [FloatText F]

/-- The value of the item's column in a row. -/
def ColumnValue (schema : Schema) (row : Row F) (item : SelectItem) (v : Value F) : Prop :=
  ∃ c i, NamesColumn item c ∧ schema.columnIndex c = some i ∧ row.get i = some v

/-- The value of the item's aggregate. -/
def AggregateValue (value : AggExpr → Value F → Prop) (item : SelectItem) (v : Value F) : Prop :=
  ∃ agg, CallsAggregate item agg ∧ value agg v

/-- The rows of a list, each with one value for each item: for columns one row for each row of
the input, for aggregates of the whole input one row, or one row for each group of the input. -/
inductive Selected (s : SessionState F) (schema : Schema) (input : PlanNode F)
    (columns : List String) (projection : List SelectItem) : List (Row F) → Prop where
  | ofRows (plain : columns = []) {rows selected : List (Row F)}
      (named : ∀ item ∈ projection, ∃ c, NamesColumn item c)
      (run : outcome (executePlan input s) = .ok (.rows rows))
      (each : List.Forall₂ (fun row out =>
        List.Forall₂ (ColumnValue schema row) projection out.values) rows selected) :
      Selected s schema input columns projection selected
  | ofTable (plain : columns = []) {out : Row F}
      (values : List.Forall₂ (AggregateValue (fun agg v =>
        outcome (executePlan (.aggregate input [agg]) s) = .ok (.rows [.new [v]])))
        projection out.values) :
      Selected s schema input columns projection [out]
  | ofGroups (grouped : columns ≠ []) {rows firsts selected : List (Row F)} {indices : List Nat}
      (run : outcome (executePlan input s) = .ok (.rows rows))
      (known : List.Forall₂ (fun c i => schema.columnIndex c = some i) columns indices)
      (leaders : Groupings.Leaders (groupKey indices) rows firsts)
      (each : List.Forall₂ (fun first out =>
        List.Forall₂ (fun item v => ColumnValue schema first item v ∨
          AggregateValue (fun agg v => aggregateOverRowSlice
            (rows.filter (fun row => groupKey indices row = groupKey indices first))
            schema agg = .ok v) item v) projection out.values) firsts selected) :
      Selected s schema input columns projection selected

/-- LIMIT and OFFSET of a query, with the defaults of the planner. -/
def window (q : Query) (rows : List (Row F)) : List (Row F) :=
  let limit := (q.limit.map parseLimit).getD u64Max
  let offset := (q.offset.map parseLimit).getD 0
  if limit ≠ u64Max ∨ offset ≠ 0 then (rows.drop offset).take limit else rows

/-- What ORDER BY and LIMIT may make of the rows of a list. -/
def Arranged (q : Query) (selected rows : List (Row F)) : Prop :=
  ∃ ordered, ordered.Perm selected ∧ rows = window q ordered

/-- A planned query with the input and the group columns of its plan. -/
structure Planned (q : Query) (sel : Select) (input : PlanNode F) (columns : List String)
    (plan : PlanNode F) : Prop where
  accepted : queryToPlan q = .ok plan
  body : q.body = .select sel
  source : ∃ scan, fromTable sel.fromItems = .ok scan ∧
    whereClause sel.selection scan = .ok input
  grouping : groupByColumns sel.groupBy = .ok columns

/-- The input returns rows and every column named beside it exists. -/
structure Supplied (s : SessionState F) (schema : Schema) (q : Query) (input : PlanNode F)
    (columns : List String) (projection : List SelectItem) : Prop where
  input : ∃ rows, outcome (executePlan input s) = .ok (.rows rows)
  groups : ∀ c ∈ columns, ∃ i, schema.columnIndex c = some i
  aggregates : ∀ item ∈ projection, ∀ agg c, CallsAggregate item agg → columnOf agg = some c →
    ∃ i, schema.columnIndex c = some i
  order : ∀ c ∈ orderColumns q.orderBy, ∃ i, schema.columnIndex c.1 = some i

/-- What a query with this select list owes: the list is representable, the plan returns
rows, and without a wildcard these are the rows of the list, in some order and as far as LIMIT
lets them through. -/
structure Fidelity (s : SessionState F) (schema : Schema) (q : Query) (sel : Select)
    (input : PlanNode F) (columns : List String) (plan : PlanNode F) : Prop where
  representable : Representable sel.groupBy sel.projection
  returns : Supplied s schema q input columns sel.projection →
    ∃ rows, outcome (executePlan plan s) = .ok (.rows rows)
  selected : (∀ item ∈ sel.projection, ¬ IsWildcard item) →
    ∀ rows, outcome (executePlan plan s) = .ok (.rows rows) →
      ∃ selected, Selected s schema input columns sel.projection selected ∧
        Arranged q selected rows

end Specification

section Roots
variable [SqlText] [FloatText F] {s t : SessionState F} {q : Query} {sel : Select}
variable {input plan root : PlanNode F} {columns : List String} {tm : TableMeta}

omit [Float64 F] [ValueDebug F] [SqlText] [FloatText F] in
theorem fromTable_scans {items : List TableWithJoins} {scan : PlanNode F}
    (h : fromTable items = .ok scan) : ∃ table ns, scan = .scan table ns := by
  unfold fromTable at h
  split at h
  · cases h
  · split at h
    · exact ⟨_, _, (Except.ok.inj h).symm⟩
    · cases h

omit [ValueDebug F] in
/-- The root of the select list below ORDER BY and LIMIT. -/
theorem planned_root (h : Planned q sel input columns plan) :
    TableInput input ∧ ∃ root, selectClause sel.projection columns input = .ok root ∧
      plan = limitClause q.limit q.offset (orderClause q.orderBy root) := by
  obtain ⟨sel', scan, input', groupBy, root, hbody, hscan, hinput, hgroup, hroot, rfl⟩ :=
    queryToPlan_eq_ok.mp h.accepted
  cases h.body.symm.trans hbody
  obtain ⟨scan', hscan', hinput'⟩ := h.source
  cases hscan.symm.trans hscan'
  cases hinput.symm.trans hinput'
  cases h.grouping.symm.trans hgroup
  refine ⟨?_, root, hroot, rfl⟩
  obtain ⟨table, ns, rfl⟩ := fromTable_scans hscan
  cases hsel : sel.selection with
  | none =>
    rw [hsel] at hinput
    cases hinput
    exact .scan table ns
  | some e =>
    rw [hsel] at hinput
    obtain ⟨predicate, _, rfl⟩ := map_eq_ok.mp hinput
    exact .filter table ns predicate

omit [SqlText] [FloatText F] in
/-- ORDER BY and LIMIT arrange the rows of the root. -/
theorem arranged_of_root {rows : List (Row F)}
    (run : executePlan (limitClause q.limit q.offset (orderClause q.orderBy root)) s =
      .ok (.rows rows) t) :
    ∃ rows', executePlan root s = .ok (.rows rows') t ∧ Arranged q rows' rows := by
  have sorted {rows : List (Row F)}
      (run : executePlan (orderClause q.orderBy root) s = .ok (.rows rows) t) :
      ∃ rows', executePlan root s = .ok (.rows rows') t ∧ rows.Perm rows' := by
    rw [orderClause] at run
    split at run
    · obtain ⟨rows', tm, found, below, _, hsort, same⟩ := orderBy_eq_ok.mp run
      cases same
      obtain ⟨order, _, same⟩ := bind_eq_ok.mp hsort
      cases same
      exact ⟨rows', below, List.perm_insertionSort _ rows'⟩
    · exact ⟨rows, run, .refl rows⟩
  rw [limitClause] at run
  split at run
  · rename_i limited
    obtain ⟨ordered, below, same⟩ := limit_eq_ok.mp run
    cases same
    obtain ⟨rows', run', order⟩ := sorted below
    refine ⟨rows', run', ordered, order, ?_⟩
    rw [window, if_pos limited, limitRows_eq]
  · rename_i unlimited
    obtain ⟨rows', run', order⟩ := sorted run
    refine ⟨rows', run', rows, order, ?_⟩
    rw [window, if_neg unlimited]

omit [SqlText] [FloatText F] in
/-- They return rows when the root does and the sort columns exist. -/
theorem returns_of_root {orderBy : List OrderByExpr} (limit offset : Option Expr)
    {rows : List (Row F)} (run : executePlan root s = .ok (.rows rows) t)
    (live : scanMeta t root = .ok tm)
    (known : ∀ c ∈ orderColumns orderBy, ∃ i, tm.schema.columnIndex c.1 = some i) :
    ∃ rows', executePlan (limitClause limit offset (orderClause orderBy root)) s =
      .ok (.rows rows') t := by
  have sorted : ∃ rows', executePlan (orderClause orderBy root) s = .ok (.rows rows') t := by
    rw [orderClause]
    split
    · obtain ⟨sorted, hsort⟩ := orderRows_returns known rows
      exact ⟨sorted, orderBy_eq_ok.mpr ⟨rows, tm, sorted, run, live, hsort, rfl⟩⟩
    · exact ⟨rows, run⟩
  obtain ⟨rows', run⟩ := sorted
  rw [limitClause]
  split
  · exact ⟨_, limit_eq_ok.mpr ⟨rows', run, rfl⟩⟩
  · exact ⟨rows', run⟩

end Roots

section Values
variable {schema : Schema} {row : Row F} {columns : List String} {items : List SelectItem}

omit [Float64 F] [ValueDebug F] in
/-- Each known column of a full row has a value. -/
theorem get_of_full (built : schema = .new schema.columns)
    (full : row.values.length = schema.columns.length) {c : String} {i : Nat}
    (known : schema.columnIndex c = some i) : ∃ v, row.get i = some v := by
  rw [built] at known
  obtain ⟨col, hcol, _⟩ := column_of_nameIndex known
  have inside : i < row.values.length := by
    rw [full]
    exact (List.getElem?_eq_some_iff.mp hcol).1
  exact ⟨row.values[i], List.getElem?_eq_getElem inside⟩

omit [Float64 F] [ValueDebug F] in
/-- A full row is read column by column. -/
theorem columnValues_of_names (built : schema = .new schema.columns)
    (full : row.values.length = schema.columns.length) {indices : List Nat}
    (names : List.Forall₂ NamesColumn items columns)
    (known : List.Forall₂ (fun c i => schema.columnIndex c = some i) columns indices) :
    List.Forall₂ (ColumnValue schema row) items (indices.filterMap row.get) := by
  induction names generalizing indices with
  | nil =>
    cases known
    exact .nil
  | cons name _ ih =>
    cases known with
    | cons index known =>
      obtain ⟨v, hv⟩ := get_of_full built full index
      rw [List.filterMap_cons_some hv]
      exact .cons ⟨_, _, name, index, hv⟩ (ih known)

omit [Float64 F] [ValueDebug F] in
theorem projectRow_values {indices : List Nat}
    (known : List.Forall₂ (fun c i => schema.columnIndex c = some i) columns indices) :
    (projectRow schema columns row).values = indices.filterMap row.get := by
  change columns.filterMap (fun c => (schema.columnIndex c).bind row.get) = _
  induction known with
  | nil => rfl
  | cons index _ ih => simp only [List.filterMap_cons, index, Option.bind_some, ih]

omit [ValueDebug F] in
/-- An aggregate has a value as soon as its column is known. -/
theorem aggregate_defined {agg : AggExpr}
    (known : ∀ c, columnOf agg = some c → ∃ i, schema.columnIndex c = some i)
    (rows : List (Row F)) : ∃ v, aggregateOverRowSlice rows schema agg = .ok v := by
  cases agg with
  | countStar => exact ⟨_, rfl⟩
  | _ c =>
    obtain ⟨i, hi⟩ := known c rfl
    simp only [aggregateOverRowSlice, columnOrError, hi]
    exact ⟨_, rfl⟩

omit [ValueDebug F] in
/-- Aggregates are numbers or Null. -/
theorem aggregate_not_text {agg : AggExpr} {rows : List (Row F)} {text : String} :
    aggregateOverRowSlice rows schema agg ≠ .ok (.string text) := by
  intro h
  cases agg with
  | countStar => cases h
  | sum c | min c | max c =>
    obtain ⟨i, _, h⟩ := bind_eq_ok.mp h
    have same := Except.ok.inj h
    simp only [sumResult, extremeResult] at same
    split at same
    · cases same
    · split at same
      · cases same
      · cases same
  | count c =>
    obtain ⟨i, _, h⟩ := bind_eq_ok.mp h
    cases h
  | avg c =>
    obtain ⟨i, _, h⟩ := bind_eq_ok.mp h
    have same := Except.ok.inj h
    split at same
    · cases same
    · cases same

end Values

section Faithful
variable [SqlText] {s t : SessionState F} {schema : Schema} {tm : TableMeta}
variable {input : PlanNode F} {columns : List String} {projection : List SelectItem}
variable {rows : List (Row F)}

/-- A list of columns selects from each row of the input. -/
theorem selected_columns (below : TableInput input) (live : scanMeta s input = .ok tm)
    (built : tm.schema = .new tm.schema.columns)
    (full : ∀ row ∈ scanRows s tm, row.values.length = tm.schema.columns.length)
    (all : ∀ item ∈ projection, ∃ c i, NamesColumn item c ∧ tm.schema.columnIndex c = some i)
    (run : executePlan (.project input (projection.filterMap itemAsColumn)) s =
      .ok (.rows rows) t) : Selected s tm.schema input [] projection rows := by
  obtain ⟨rows', tm', below', live', same⟩ := project_eq_ok.mp run
  cases same
  obtain ⟨_, _, hmeta, hrows, same, rfl⟩ := (input_eq_ok below).mp below'
  cases same
  cases live.symm.trans live'
  cases live.symm.trans hmeta
  have names := names_filterMap (fun item inside => (all item inside).imp (fun _ ⟨_, h, _⟩ => h))
  have known : ∀ c ∈ projection.filterMap itemAsColumn, ∃ i, tm.schema.columnIndex c = some i := by
    intro c listed
    obtain ⟨item, inList, hc⟩ := List.mem_filterMap.mp listed
    obtain ⟨c', i, hname, hi⟩ := all item inList
    cases (namesColumn_iff.mp hname).symm.trans hc
    exact ⟨i, hi⟩
  have indices := forall₂_filterMap (f := tm.schema.columnIndex) known
  refine .ofRows rfl (fun item inside => (all item inside).imp (fun _ ⟨_, h, _⟩ => h))
    (by rw [below']; rfl)
    (List.forall₂_map_right_iff.mpr (List.forall₂_same.mpr (fun row inRows => ?_)))
  rw [projectRow_values indices]
  exact columnValues_of_names built
    (full row (mem_scanRows_of_input below hrows row inRows)) names indices

/-- A list of aggregates selects each aggregate of the whole input. -/
theorem selected_aggregates (below : TableInput input)
    (all : ∀ item ∈ projection, ∃ agg, CallsAggregate item agg)
    (run : executePlan (.aggregate input (projection.filterMap itemAsAgg)) s =
      .ok (.rows rows) t) : Selected s schema input [] projection rows := by
  have still := readOnly_input below
  obtain ⟨tm, values, live, rfl, steps, same⟩ := (aggregate_eq_ok still).mp run
  cases same
  refine .ofTable rfl (forall₂_comp (calls_filterMap all) steps ?_)
  intro item agg v calls hv
  have alone := (aggregate_eq_ok still).mpr ⟨tm, [v], live, rfl, .cons hv .nil, rfl⟩
  exact ⟨agg, calls, congrArg outcome alone⟩

/-- Group columns and then aggregates select from each group. -/
theorem selected_groups (below : TableInput input) (live : scanMeta s input = .ok tm)
    (built : tm.schema = .new tm.schema.columns)
    (full : ∀ row ∈ scanRows s tm, row.values.length = tm.schema.columns.length)
    (grouped : columns ≠ []) {keys items : List SelectItem}
    (names : List.Forall₂ NamesColumn keys columns)
    (all : ∀ item ∈ items, ∃ agg, CallsAggregate item agg)
    (run : executePlan (.groupBy input columns ((keys ++ items).filterMap itemAsAgg)) s =
      .ok (.rows rows) t) :
    Selected s tm.schema input columns (keys ++ items) rows := by
  obtain ⟨rows', tm', out', below', live', hgroups, same⟩ := groupBy_eq_ok.mp run
  cases same
  obtain ⟨_, _, hmeta, hrows, same, rfl⟩ := (input_eq_ok below).mp below'
  cases same
  cases live.symm.trans live'
  cases live.symm.trans hmeta
  have aggs : (keys ++ items).filterMap itemAsAgg = items.filterMap itemAsAgg := by
    have none : keys.filterMap itemAsAgg = [] := by
      refine List.filterMap_eq_nil_iff.mpr (fun item inside => ?_)
      obtain ⟨c, _, hc⟩ := exists_of_forall₂ names item inside
      exact Option.eq_none_iff_forall_ne_some.mpr (fun agg => not_reads_of_names hc)
    rw [List.filterMap_append, none, List.nil_append]
  obtain ⟨indices, known, each⟩ := groupRows_eq_ok.mp hgroups
  obtain ⟨firsts, leaders, groups⟩ := rowGroups_leaders indices rows'
  rw [aggs, groups, List.forall₂_map_left_iff] at each
  have inRows : ∀ first ∈ firsts, first ∈ rows' := fun first listed =>
    List.mem_of_find?_eq_some ((leaders.first first).mp listed)
  refine .ofGroups grouped (by rw [below']; rfl) known leaders ?_
  refine ((List.forall₂_and_left _ _).mpr ⟨inRows, each⟩).imp ?_
  rintro first out ⟨inside, vs, hvs, rfl⟩
  refine List.rel_append ?_ ?_
  · exact (columnValues_of_names built
      (full first (mem_scanRows_of_input below hrows first inside)) names known).imp
      (fun _ _ => Or.inl)
  · exact forall₂_comp (calls_filterMap all) (mapM_eq_ok.mp hvs)
      (fun item agg v calls hv => Or.inr ⟨agg, calls, hv⟩)

omit [ValueDebug F] [SqlText] in
theorem chunks_defined (chunks : List (ColumnarStorage.ColumnarChunk F)) (schema : Schema)
    (agg : AggExpr) : ∃ v, aggregateOverChunks chunks schema agg = .ok v := by
  cases agg <;> exact ⟨_, rfl⟩

omit [SqlText] in
/-- One aggregate has a value, over the chunks or over the rows that the input returns. -/
theorem aggregateValue_returns (below : TableInput input) (live : scanMeta s input = .ok tm)
    (runs : inputRows s tm input = .ok rows) {agg : AggExpr}
    (known : ∀ c, columnOf agg = some c → ∃ i, tm.schema.columnIndex c = some i)
    (chunks : List (ColumnarStorage.ColumnarChunk F)) :
    ∃ v, aggregateValue tm chunks input agg (s.flushColumnarBuffer tm.id tm.schema) =
      .ok v (s.flushColumnarBuffer tm.id tm.schema) := by
  rw [aggregateValue]
  split
  · obtain ⟨v, hv⟩ := aggregate_defined known rows
    have frame : inputRows (s.flushColumnarBuffer tm.id tm.schema) tm input =
        inputRows s tm input :=
      inputRows_congr (SessionState.rowStore_flush tm.id) (SessionState.indexStore_flush tm.id) tm
        input
    have live' : scanMeta (s.flushColumnarBuffer tm.id tm.schema) input = .ok tm :=
      (scanMeta_congr (SessionState.catalog_flush tm.id) input).trans live
    refine ⟨v, bind_run_eq_ok.mpr ⟨rows, _, expectRows_eq_ok.mpr ?_, orReturn_eq_ok.mpr ⟨hv, rfl⟩⟩⟩
    exact (input_eq_ok below).mpr ⟨tm, rows, live', frame.trans runs, rfl, rfl⟩
  · obtain ⟨v, hv⟩ := chunks_defined chunks tm.schema agg
    exact ⟨v, orReturn_eq_ok.mpr ⟨hv, rfl⟩⟩

/-- The root of a select list returns rows when everything it names exists. -/
theorem root_returns [FloatText F] {q : Query} {root : PlanNode F} {groupBy : GroupByExpr}
    (below : TableInput input) (live : scanMeta s input = .ok tm)
    (representable : Representable groupBy projection)
    (supplied : Supplied s tm.schema q input columns projection)
    (h : selectClause projection columns input = .ok root) :
    ∃ rows t, executePlan root s = .ok (.rows rows) t ∧ scanMeta t root = .ok tm := by
  obtain ⟨rows, hrun⟩ := supplied.input
  have runs := (input_outcome below live).mp hrun
  have run := (input_eq_ok below).mpr ⟨tm, rows, live, runs, rfl, rfl⟩
  have known : ∀ agg ∈ projection.filterMap itemAsAgg, ∀ c, columnOf agg = some c →
      ∃ i, tm.schema.columnIndex c = some i := by
    intro agg listed c column
    obtain ⟨item, inside, reads⟩ := List.mem_filterMap.mp listed
    exact supplied.aggregates item inside agg c (calls_of_reads representable inside reads) column
  rcases selectClause_cases h with ⟨_, rfl, _⟩ | ⟨_, rfl, _⟩ | ⟨_, rfl, _⟩
  · obtain ⟨out, hout⟩ := groupRows_returns supplied.groups
      (fun agg listed => aggregate_defined (known agg listed)) rows
    exact ⟨out, s, groupBy_eq_ok.mpr ⟨rows, tm, out, run, live, hout, rfl⟩, live⟩
  · obtain ⟨values, steps⟩ := forall₂_of_exists (fun agg listed =>
      aggregateValue_returns below live runs (known agg listed)
        ((s.flushColumnarBuffer tm.id tm.schema).columnarStore.chunksOf tm.id))
    exact ⟨_, _, (aggregate_eq_ok (readOnly_input below)).mpr ⟨tm, values, live, rfl, steps, rfl⟩,
      (scanMeta_congr (SessionState.catalog_flush tm.id) input).trans live⟩
  · split
    · exact ⟨_, s, project_eq_ok.mpr ⟨rows, tm, run, live, rfl⟩, live⟩
    · exact ⟨rows, s, run, live⟩

end Faithful

section Separating
variable [SqlText] [FloatText F] {s : SessionState F} {q : Query} {sel : Select}
variable {input plan : PlanNode F} {columns : List String} {tm : TableMeta}

/-- The rows of the table are texts that tell its columns apart. -/
structure Separating (s : SessionState F) (tm : TableMeta) : Prop where
  some_row : scanRows s tm ≠ []
  some_column : tm.schema.columns ≠ []
  texts : ∀ row ∈ scanRows s tm, ∀ i v, row.get i = some v → ∃ text, v = .string text
  apart : ∀ a ∈ scanRows s tm, ∀ b ∈ scanRows s tm, ∀ i j v,
    a.get i = some v → b.get j = some v → i = j

/-- No clause of the query changes which rows it returns. -/
structure Bare (q : Query) (sel : Select) : Prop where
  selection : sel.selection = none
  orderBy : q.orderBy = []
  limit : q.limit = none
  offset : q.offset = none

omit [Float64 F] [ValueDebug F] [SqlText] [FloatText F] in
/-- The items whose values are those of the group columns are the group columns. -/
theorem names_of_values {schema : Schema} (built : schema = .new schema.columns)
    {value : SelectItem → Value F → Prop} {row : Row F} {keys : List SelectItem}
    {indices : List Nat}
    (known : List.Forall₂ (fun c i => schema.columnIndex c = some i) columns indices)
    (present : ∀ i ∈ indices, ∃ v, row.get i = some v)
    (values : List.Forall₂ value keys (indices.filterMap row.get))
    (tells : ∀ item i v, value item v → row.get i = some v →
      ∃ c, NamesColumn item c ∧ schema.columnIndex c = some i) :
    List.Forall₂ NamesColumn keys columns := by
  induction known generalizing keys with
  | nil =>
    cases values
    exact .nil
  | cons index _ ih =>
    obtain ⟨⟨v, hv⟩, rest⟩ := List.forall_mem_cons.mp present
    rw [List.filterMap_cons_some hv] at values
    cases values with
    | cons head values =>
      obtain ⟨c, names, hc⟩ := tells _ _ v head hv
      refine .cons ?_ (ih rest values)
      rw [built] at hc index
      obtain ⟨col, hcol, rfl⟩ := column_of_nameIndex hc
      obtain ⟨col', hcol', rfl⟩ := column_of_nameIndex index
      cases hcol.symm.trans hcol'
      exact names

/-- A list read as it is written gets exactly its rows. -/
theorem fidelity_of_faithful (planned : Planned q sel input columns plan)
    (live : scanMeta s input = .ok tm) (built : tm.schema = .new tm.schema.columns)
    (full : ∀ row ∈ scanRows s tm, row.values.length = tm.schema.columns.length)
    (faithful : FaithfulList tm.schema sel.groupBy columns sel.projection) :
    Fidelity s tm.schema q sel input columns plan := by
  obtain ⟨below, root, hroot, rfl⟩ := planned_root planned
  refine ⟨faithful.representable, fun supplied => ?_, fun plain rows hrows => ?_⟩
  · obtain ⟨rows, t, run, live'⟩ :=
      root_returns below live faithful.representable supplied hroot
    obtain ⟨rows', run'⟩ := returns_of_root q.limit q.offset run live' supplied.order
    exact ⟨rows', by rw [run']; rfl⟩
  · cases hplan : executePlan (limitClause q.limit q.offset (orderClause q.orderBy root)) s with
    | error e t =>
      rw [hplan] at hrows
      cases hrows
    | ok result t =>
      rw [hplan] at hrows
      cases hrows
      obtain ⟨rows', run, arranged⟩ := arranged_of_root hplan
      refine ⟨rows', ?_, arranged⟩
      have written := faithful.asWritten plain
      rw [ReadAsWritten] at written
      rcases selectClause_cases hroot with ⟨grouped, rfl, _⟩ | ⟨rfl, rfl, _, reads⟩ |
        ⟨rfl, rfl, other⟩
      · rw [if_neg grouped] at written
        obtain ⟨keys, items, same, names, all⟩ := written
        rw [same] at run ⊢
        exact selected_groups below live built full grouped names all run
      · refine selected_aggregates below (fun item listed => ?_) run
        obtain ⟨agg, hagg⟩ := reads item listed
        exact ⟨agg, calls_of_reads faithful.representable listed hagg⟩
      · rw [if_pos rfl] at written
        obtain ⟨some_item, written⟩ := written
        obtain ⟨item, listed, noAggregate⟩ := other some_item
        have all := written.resolve_left (fun all => by
          obtain ⟨agg, calls⟩ := all item listed
          exact noAggregate ⟨agg, reads_of_calls calls⟩)
        have some_column : sel.projection.filterMap itemAsColumn ≠ [] := by
          obtain ⟨c, _, names, _⟩ := all item listed
          exact List.ne_nil_of_mem (List.mem_filterMap.mpr ⟨item, listed, namesColumn_iff.mp names⟩)
        rw [if_pos some_column] at run
        exact selected_columns below live built full all run

omit [ValueDebug F] in
/-- A bare query reads the table itself and returns what its select list makes of it. -/
theorem bare_plan (bare : Bare q sel) (planned : Planned q sel input columns plan) :
    (∃ table ns, input = .scan table ns) ∧
      selectClause sel.projection columns input = .ok plan := by
  obtain ⟨_, root, hroot, rfl⟩ := planned_root planned
  obtain ⟨scan, hscan, hinput⟩ := planned.source
  rw [bare.selection] at hinput
  cases hinput
  refine ⟨fromTable_scans hscan, ?_⟩
  rw [bare.orderBy, bare.limit, bare.offset]
  exact hroot

omit [FloatText F] in
/-- On separating rows a grouped list that has the values of its items is group columns
and then aggregates. -/
theorem written_of_groups (below : TableInput input) (live : scanMeta s input = .ok tm)
    (built : tm.schema = .new tm.schema.columns)
    (full : ∀ row ∈ scanRows s tm, row.values.length = tm.schema.columns.length)
    (separating : Separating s tm) {projection : List SelectItem} {aggs : List AggExpr}
    {indices : List Nat} {first : Row F} {vs : List (Value F)} {members : List (Row F)}
    (known : List.Forall₂ (fun c i => tm.schema.columnIndex c = some i) columns indices)
    (inRows : first ∈ scanRows s tm)
    (hvs : aggs.mapM (aggregateOverRowSlice members tm.schema) = .ok vs) {outs : List (Row F)}
    (selected : Selected s tm.schema input columns projection outs)
    (listed : .new (groupValues indices first ++ vs) ∈ outs) (grouped : columns ≠ []) :
    ∃ keys items, projection = keys ++ items ∧ List.Forall₂ NamesColumn keys columns ∧
      ∀ item ∈ items, ∃ agg, CallsAggregate item agg := by
  cases selected with
  | ofRows plain _ _ _ => exact absurd plain grouped
  | ofTable plain _ => exact absurd plain grouped
  | @ofGroups _ rows firsts _ _ run _ leaders each =>
    obtain ⟨other, first_listed, values⟩ := exists_of_forall₂ each.flip _ listed
    have inside := List.mem_of_find?_eq_some ((leaders.first other).mp first_listed)
    have inTable : other ∈ scanRows s tm :=
      mem_scanRows_of_input below ((input_outcome below live).mp run) other inside
    have present : ∀ i ∈ indices, ∃ v, first.get i = some v := by
      intro i listed
      obtain ⟨c, _, index⟩ := exists_of_forall₂ known.flip i listed
      exact get_of_full built (full first inRows) index
    refine ⟨projection.take (groupValues indices first).length,
      projection.drop (groupValues indices first).length,
      (List.take_append_drop _ projection).symm, ?_, ?_⟩
    · refine names_of_values built known present
        (List.forall₂_take_append projection _ vs values) ?_
      rintro item i v (⟨c, j, names, index, hv⟩ | ⟨agg, _, hv⟩) hfirst
      · rw [separating.apart other inTable first inRows j i v hv hfirst] at index
        exact ⟨c, names, index⟩
      · obtain ⟨text, rfl⟩ := separating.texts first inRows i v hfirst
        exact absurd hv aggregate_not_text
    · intro item listed
      obtain ⟨v, inValues, hv⟩ :=
        exists_of_forall₂ (List.forall₂_drop_append projection _ vs values) item listed
      rcases hv with ⟨c, j, _, _, hv⟩ | ⟨agg, calls, _⟩
      · obtain ⟨text, rfl⟩ := separating.texts other inTable j v hv
        obtain ⟨agg, _, hagg⟩ := exists_of_forall₂ (mapM_eq_ok.mp hvs).flip _ inValues
        exact absurd hagg aggregate_not_text
      · exact ⟨agg, calls⟩

omit [SqlText] [FloatText F] in
/-- Grouping a table with rows returns a row for some group. -/
theorem group_returned {table : String} {ns : Option String} {aggs : List AggExpr}
    {rows : List (Row F)} (live : scanMeta s (.scan table ns) = .ok tm)
    (some_row : scanRows s tm ≠ [])
    (returned : outcome (executePlan (.groupBy (.scan table ns) columns aggs) s) =
      .ok (.rows rows)) :
    ∃ indices first members vs,
      List.Forall₂ (fun c i => tm.schema.columnIndex c = some i) columns indices ∧
        first ∈ scanRows s tm ∧ aggs.mapM (aggregateOverRowSlice members tm.schema) = .ok vs ∧
        .new (groupValues indices first ++ vs) ∈ rows := by
  cases hrun : executePlan (.groupBy (.scan table ns) columns aggs) s with
  | error e t =>
    rw [hrun] at returned
    cases returned
  | ok result t =>
    rw [hrun] at returned
    cases returned
    obtain ⟨rows', tm', out, below', live', hgroups, same⟩ := groupBy_eq_ok.mp hrun
    cases same
    cases (executePlan_scan (resolveTable_eq_ok.mp live)).symm.trans below'
    cases live.symm.trans live'
    obtain ⟨indices, known, each⟩ := groupRows_eq_ok.mp hgroups
    have some_group : rowGroups indices (scanRows s tm) ≠ [] := rowGroups_ne_nil some_row
    obtain ⟨g, rest, hg⟩ := List.exists_cons_of_ne_nil some_group
    obtain ⟨row, inside, vs, hvs, rfl⟩ := exists_of_forall₂ each g (hg ▸ List.mem_cons_self)
    obtain ⟨first, inRows, hkeys, _⟩ := mem_rowGroups (hg ▸ List.mem_cons_self)
    rw [hkeys] at inside
    exact ⟨indices, first, g.2, vs, known, inRows, hvs, inside⟩

omit [FloatText F] in
/-- Ungrouped rows have the values of columns or those of aggregates. -/
theorem read_of_selected {schema : Schema} {projection : List SelectItem} {outs : List (Row F)}
    {out : Row F} (selected : Selected s schema input [] projection outs) (inside : out ∈ outs) :
    (∀ item ∈ projection, ∃ agg, CallsAggregate item agg) ∨
      ∀ item ∈ projection, ∃ c i, NamesColumn item c ∧ schema.columnIndex c = some i := by
  cases selected with
  | ofRows _ _ _ each =>
    obtain ⟨row, _, values⟩ := exists_of_forall₂ each.flip out inside
    refine Or.inr (fun item listed => ?_)
    obtain ⟨v, _, c, i, names, known, _⟩ := exists_of_forall₂ values item listed
    exact ⟨c, i, names, known⟩
  | ofTable _ values =>
    refine Or.inl (fun item listed => ?_)
    obtain ⟨v, _, agg, calls, _⟩ := exists_of_forall₂ values item listed
    exact ⟨agg, calls⟩
  | ofGroups grouped _ _ _ _ => exact absurd rfl grouped

omit [FloatText F] in
/-- No items have no values. -/
theorem values_of_no_items {schema : Schema} {outs : List (Row F)} {out : Row F}
    (selected : Selected s schema input [] [] outs) (inside : out ∈ outs) : out.values = [] := by
  cases selected with
  | ofRows _ _ _ each =>
    obtain ⟨row, _, values⟩ := exists_of_forall₂ each.flip out inside
    exact List.forall₂_nil_left_iff.mp values
  | ofTable _ values =>
    rw [List.mem_singleton.mp inside]
    exact List.forall₂_nil_left_iff.mp values
  | ofGroups grouped _ _ _ _ => exact absurd rfl grouped

omit [Float64 F] [ValueDebug F] [SqlText] [FloatText F] in
/-- Nothing is arranged in a bare query but the order. -/
theorem perm_of_bare {selected rows : List (Row F)} (bare : Bare q sel)
    (arranged : Arranged q selected rows) : rows.Perm selected := by
  obtain ⟨ordered, order, rfl⟩ := arranged
  have all : window q ordered = ordered := by
    simp [window, bare.limit, bare.offset]
  rw [all]
  exact order

omit [SqlText] [FloatText F] in
/-- Without aggregates a table with rows returns a row, a whole one if no item is a column. -/
theorem row_returned {table : String} {ns : Option String} {projection : List SelectItem}
    {rows : List (Row F)} (live : scanMeta s (.scan table ns) = .ok tm)
    (full : ∀ row ∈ scanRows s tm, row.values.length = tm.schema.columns.length)
    (some_row : scanRows s tm ≠ [])
    (returned : outcome (executePlan (if projection.filterMap itemAsColumn ≠ [] then
      .project (.scan table ns) (projection.filterMap itemAsColumn) else .scan table ns) s) =
      .ok (.rows rows)) :
    ∃ out ∈ rows, projection = [] → out.values.length = tm.schema.columns.length := by
  have scanned := executePlan_scan (resolveTable_eq_ok.mp live)
  obtain ⟨row, inside⟩ := List.exists_mem_of_ne_nil _ some_row
  split at returned
  · rename_i some_column
    rw [executePlan_project scanned live] at returned
    cases returned
    refine ⟨_, List.mem_map_of_mem inside, fun empty => ?_⟩
    rw [empty] at some_column
    exact absurd rfl some_column
  · rw [scanned] at returned
    cases returned
    exact ⟨row, inside, fun _ => full row inside⟩

/-- On separating rows a list with the values of its items is read as it is written. -/
theorem written_of_fidelity (bare : Bare q sel) (planned : Planned q sel input columns plan)
    (live : scanMeta s input = .ok tm) (built : tm.schema = .new tm.schema.columns)
    (full : ∀ row ∈ scanRows s tm, row.values.length = tm.schema.columns.length)
    (separating : Separating s tm)
    (supplied : Supplied s tm.schema q input columns sel.projection)
    (fidelity : Fidelity s tm.schema q sel input columns plan)
    (plain : ∀ item ∈ sel.projection, ¬ IsWildcard item) :
    ReadAsWritten tm.schema columns sel.projection := by
  obtain ⟨⟨table, ns, rfl⟩, hroot⟩ := bare_plan bare planned
  have below : TableInput (.scan table ns : PlanNode F) := .scan table ns
  obtain ⟨rows, returned⟩ := fidelity.returns supplied
  obtain ⟨outs, selected, arranged⟩ := fidelity.selected plain rows returned
  have among {out : Row F} (inside : out ∈ rows) : out ∈ outs :=
    (perm_of_bare bare arranged).mem_iff.mp inside
  rw [ReadAsWritten]
  rcases selectClause_cases hroot with ⟨grouped, rfl, _⟩ | ⟨rfl, rfl, some_item, reads⟩ |
    ⟨rfl, rfl, _⟩
  · rw [if_neg grouped]
    obtain ⟨indices, first, members, vs, known, inRows, hvs, inside⟩ :=
      group_returned live separating.some_row returned
    exact written_of_groups below live built full separating known inRows hvs selected
      (among inside) grouped
  · rw [if_pos rfl]
    refine ⟨some_item, Or.inl (fun item listed => ?_)⟩
    obtain ⟨agg, hagg⟩ := reads item listed
    exact ⟨agg, calls_of_reads fidelity.representable listed hagg⟩
  · rw [if_pos rfl]
    obtain ⟨out, inside, wide⟩ := row_returned live full separating.some_row returned
    refine ⟨fun empty => ?_, read_of_selected selected (among inside)⟩
    have width := wide empty
    rw [values_of_no_items (empty ▸ selected) (among inside)] at width
    exact separating.some_column (List.length_eq_zero_iff.mp width.symm)

end Separating

section Mixed

/-- One row of two texts. -/
def lettered : SessionState Float :=
  runPlans [.createTable "t" none [("a", .text), ("b", .text)],
    .insert "t" none [] [[.string "x", .string "y"]]] .new

def letteredMeta : TableMeta :=
  ⟨0, 0, "t", .new [⟨"a", .text, true⟩, ⟨"b", .text, true⟩], "row"⟩

theorem scanRows_lettered :
    scanRows lettered letteredMeta = [.new [.string "x", .string "y"]] := rfl

def columnItem (name : String) : SelectItem := .unnamedExpr (.identifier ⟨name, none⟩)

def countItem : SelectItem :=
  .unnamedExpr (.function ⟨[⟨"COUNT", none⟩], [.unnamed .wildcard], false, none, none⟩)

theorem countItem_calls : CallsAggregate countItem .countStar := .countStar (by decide)

/-- `SELECT items FROM t`. -/
def selectFrom (items : List SelectItem) : Select :=
  ⟨none, items, [⟨.table [⟨"t", none⟩], []⟩], none, .expressions [], none⟩

def queryFrom (items : List SelectItem) : Query := ⟨.select (selectFrom items), [], none, none⟩

theorem planned_from {items : List SelectItem} {plan : PlanNode Float}
    (accepted : queryToPlan (queryFrom items) = .ok plan) :
    Planned (queryFrom items) (selectFrom items) (.scan "t" none) [] plan :=
  ⟨accepted, rfl, ⟨.scan "t" none, rfl, rfl⟩, rfl⟩

theorem full_lettered : ∀ row ∈ scanRows lettered letteredMeta,
    row.values.length = letteredMeta.schema.columns.length := by
  rw [scanRows_lettered]
  exact List.forall_mem_singleton.mpr rfl

theorem separating_lettered : Separating lettered letteredMeta := by
  have texts (i : Nat) (v : Value Float)
      (h : (Row.new [.string "x", .string "y"]).get i = some v) :
      i = 0 ∧ v = .string "x" ∨ i = 1 ∧ v = .string "y" := by
    match i, h with
    | 0, h => exact Or.inl ⟨rfl, (Option.some.inj h).symm⟩
    | 1, h => exact Or.inr ⟨rfl, (Option.some.inj h).symm⟩
  refine ⟨by rw [scanRows_lettered]; exact List.cons_ne_nil _ _, List.cons_ne_nil _ _, ?_, ?_⟩
  · rw [scanRows_lettered]
    refine List.forall_mem_singleton.mpr (fun i v h => ?_)
    rcases texts i v h with ⟨_, rfl⟩ | ⟨_, rfl⟩
    · exact ⟨"x", rfl⟩
    · exact ⟨"y", rfl⟩
  · rw [scanRows_lettered]
    refine List.forall_mem_singleton.mpr (List.forall_mem_singleton.mpr (fun i j v hi hj => ?_))
    rcases texts i v hi with ⟨rfl, rfl⟩ | ⟨rfl, rfl⟩
    · rcases texts j _ hj with ⟨rfl, _⟩ | ⟨_, same⟩
      · rfl
      · simp at same
    · rcases texts j _ hj with ⟨_, same⟩ | ⟨rfl, _⟩
      · simp at same
      · rfl

end Mixed

end SelectedRows
