import RustafariDB.SelectedRows

/-!
# Columns of result rows

PROJECT and GROUP BY collect the values that a stored row has, one after another. A value
that a short row lacks is left out, and those behind it move up, where the columnar path
puts Null.
-/

namespace PaddedResults

open Floats Values Catalogs Plans Aggregates Sessions Execution StatefulPrograms
open PlanEffects QueryOperators FilteredAggregates SelectLists SelectedRows

variable {F : Type}

section Padding

/-- The value of a column, Null where the row ends before it. -/
def paddedValue (schema : Schema) (row : Row F) (c : String) : Value F :=
  ((schema.columnIndex c).bind row.get).getD .null

/-- The row is long enough for the columns. -/
def Reaches (schema : Schema) (columns : List String) (row : Row F) : Prop :=
  ∀ c ∈ columns, ∀ i, schema.columnIndex c = some i → i < row.values.length

variable {schema : Schema} {columns : List String} {row : Row F}

/-- A chunk holds the same value. -/
theorem cell_eq_paddedValue {col : Column} {i : Nat}
    (known : schema.columnIndex col.name = some i) :
    cell schema col row = paddedValue schema row col.name := by
  rw [cell, paddedValue, known]
  rfl

/-- What is collected is as long as the list of columns just if the row reaches them all. -/
theorem length_projectRow_iff (known : ∀ c ∈ columns, ∃ i, schema.columnIndex c = some i) :
    (projectRow schema columns row).values.length = columns.length ↔
      Reaches schema columns row := by
  rw [projectRow, Row.new, List.length_filterMap_eq_countP, List.countP_eq_length]
  refine forall_congr' (fun c => imp_congr_right (fun listed => ?_))
  obtain ⟨i, hi⟩ := known c listed
  simp [hi, Row.get]

/-- Such a row keeps its columns in place. -/
theorem projectRow_of_reaches (known : ∀ c ∈ columns, ∃ i, schema.columnIndex c = some i)
    (reaches : Reaches schema columns row) :
    (projectRow schema columns row).values = columns.map (paddedValue schema row) := by
  rw [projectRow, Row.new, ← List.filterMap_eq_map]
  refine List.filterMap_congr (fun c listed => ?_)
  obtain ⟨i, hi⟩ := known c listed
  have inside := reaches c listed i hi
  simp [paddedValue, hi, Row.get, inside]

end Padding

section Results
variable [Float64 F] [ValueDebug F] {s : SessionState F} {tm : TableMeta} {input : PlanNode F}
variable {columns : List String} {aggs : List AggExpr}

/-- The text a row is grouped by, from the names of the group columns. -/
def columnsKey (schema : Schema) (columns : List String) (row : Row F) : String :=
  groupKey (columns.filterMap schema.columnIndex) row

/-- Each row of a projection holds the values of its columns, with Null for what is missing. -/
def ProjectsInPlace (s : SessionState F) (tm : TableMeta) (input : PlanNode F)
    (columns : List String) : Prop :=
  ∀ rows out, outcome (executePlan input s) = .ok (.rows rows) →
    outcome (executePlan (.project input columns) s) = .ok (.rows out) →
    List.Forall₂ (fun row o => o.values = columns.map (paddedValue tm.schema row)) rows out

/-- Each row of a GROUP BY holds the values of the group columns, as the first row of its
group has them or Null, and then one value for each aggregate of the group. -/
def GroupsInPlace (s : SessionState F) (tm : TableMeta) (input : PlanNode F)
    (columns : List String) (aggs : List AggExpr) : Prop :=
  ∀ rows out, outcome (executePlan input s) = .ok (.rows rows) →
    outcome (executePlan (.groupBy input columns aggs) s) = .ok (.rows out) →
    ∀ o ∈ out, ∃ first values, Groupings.Leads (columnsKey tm.schema columns) rows first ∧
      aggs.mapM (aggregateOverRowSlice (rows.filter (fun row =>
        columnsKey tm.schema columns row = columnsKey tm.schema columns first)) tm.schema) =
          .ok values ∧
      o.values = columns.map (paddedValue tm.schema first) ++ values

theorem outcome_project (below : TableInput input) (live : scanMeta s input = .ok tm)
    {rows : List (Row F)} (supplied : inputRows s tm input = .ok rows) :
    outcome (executePlan (.project input columns) s) =
      .ok (.rows (rows.map (projectRow tm.schema columns))) := by
  have run := (input_eq_ok below).mpr ⟨tm, rows, live, supplied, rfl, rfl⟩
  rw [executePlan_project run live]
  rfl

theorem project_in_place_iff (below : TableInput input) (live : scanMeta s input = .ok tm)
    (known : ∀ c ∈ columns, ∃ i, tm.schema.columnIndex c = some i) :
    ProjectsInPlace s tm input columns ↔
      ∀ rows, inputRows s tm input = .ok rows → ∀ row ∈ rows, Reaches tm.schema columns row := by
  constructor
  · intro inPlace rows supplied row inside
    have each := inPlace rows _ ((input_outcome below live).mpr supplied)
      (outcome_project below live supplied)
    rw [List.forall₂_map_right_iff, List.forall₂_same] at each
    rw [← length_projectRow_iff known, each row inside, List.length_map]
  · intro reaches rows out answered projected
    have supplied := (input_outcome below live).mp answered
    rw [outcome_project below live supplied] at projected
    cases projected
    rw [List.forall₂_map_right_iff, List.forall₂_same]
    exact fun row inside => projectRow_of_reaches known (reaches rows supplied row inside)

/-- On known columns GROUP BY returns one row for each first row of a group. -/
theorem groupBy_rows_iff (below : TableInput input) (live : scanMeta s input = .ok tm)
    (known : ∀ c ∈ columns, ∃ i, tm.schema.columnIndex c = some i) {rows out : List (Row F)}
    (supplied : inputRows s tm input = .ok rows) :
    outcome (executePlan (.groupBy input columns aggs) s) = .ok (.rows out) ↔
      List.Forall₂ (fun g row => ∃ vs, aggs.mapM (aggregateOverRowSlice g.2 tm.schema) = .ok vs ∧
        row = .new (g.1 ++ vs)) (rowGroups (columns.filterMap tm.schema.columnIndex) rows) out := by
  have run := (input_eq_ok below).mpr ⟨tm, rows, live, supplied, rfl, rfl⟩
  have indices := forall₂_filterMap (f := tm.schema.columnIndex) known
  have grouped : outcome (executePlan (.groupBy input columns aggs) s) = .ok (.rows out) ↔
      groupRows tm.schema columns aggs rows = .ok out := by
    rw [executePlan_groupBy run live, orReturn, outcome_runExcept]
    cases groupRows tm.schema columns aggs rows <;> simp [Except.map, Except.mapError]
  rw [grouped, groupRows_eq_ok]
  constructor
  · rintro ⟨indices', known', each⟩
    rwa [indices_unique indices known']
  · exact fun each => ⟨_, indices, each⟩

theorem group_in_place_iff (below : TableInput input) (live : scanMeta s input = .ok tm)
    (known : ∀ c ∈ columns, ∃ i, tm.schema.columnIndex c = some i)
    (defined : ∀ agg ∈ aggs, ∀ c, columnOf agg = some c →
      ∃ i, tm.schema.columnIndex c = some i) :
    GroupsInPlace s tm input columns aggs ↔
      ∀ rows, inputRows s tm input = .ok rows → ∀ first,
        Groupings.Leads (columnsKey tm.schema columns) rows first →
          Reaches tm.schema columns first := by
  have indices := forall₂_filterMap (f := tm.schema.columnIndex) known
  have values (row : Row F) : groupValues (columns.filterMap tm.schema.columnIndex) row =
      (projectRow tm.schema columns row).values := (projectRow_values indices).symm
  constructor
  · intro inPlace rows supplied first leads
    have values_defined : ∀ agg ∈ aggs, ∀ rows : List (Row F), ∃ v,
        aggregateOverRowSlice rows tm.schema agg = .ok v :=
      fun agg listed => aggregate_defined (defined agg listed)
    obtain ⟨out, returns⟩ := groupRows_returns known values_defined rows
    obtain ⟨indices', known', each⟩ := groupRows_eq_ok.mp returns
    rw [← indices_unique indices known'] at each
    have listed : (groupValues (columns.filterMap tm.schema.columnIndex) first, _) ∈
        rowGroups (columns.filterMap tm.schema.columnIndex) rows :=
      Groupings.mem_groups_iff.mpr ⟨first, leads, rfl⟩
    obtain ⟨o, inOut, vs, answered, rfl⟩ := exists_of_forall₂ each _ listed
    obtain ⟨first', vs', _, answered', same⟩ := inPlace rows out
      ((input_outcome below live).mpr supplied)
      ((groupBy_rows_iff below live known supplied).mpr each) _ inOut
    have lengths := congrArg List.length same
    rw [Row.new, List.length_append, List.length_append, List.length_map, values,
      ← (mapM_eq_ok.mp answered).length_eq, ← (mapM_eq_ok.mp answered').length_eq] at lengths
    exact (length_projectRow_iff known).mp (Nat.add_right_cancel lengths)
  · intro reaches rows out answered grouped o inside
    have supplied := (input_outcome below live).mp answered
    have each := (groupBy_rows_iff below live known supplied).mp grouped
    obtain ⟨g, inGroups, vs, hvs, rfl⟩ := exists_of_forall₂ each.flip o inside
    obtain ⟨first, leads, rfl⟩ := Groupings.mem_groups_iff.mp inGroups
    refine ⟨first, vs, leads, hvs, ?_⟩
    rw [← projectRow_of_reaches known (reaches rows supplied first leads), ← values]
    rfl

/-- PROJECT and GROUP BY of known columns keep them in place just if each stored row that
passes the input, or the first one of each group, reaches all of them. -/
theorem columns_in_place_iff (below : TableInput input) (live : scanMeta s input = .ok tm)
    (known : ∀ c ∈ columns, ∃ i, tm.schema.columnIndex c = some i)
    (defined : ∀ agg ∈ aggs, ∀ c, columnOf agg = some c →
      ∃ i, tm.schema.columnIndex c = some i) :
    (ProjectsInPlace s tm input columns ↔
      ∀ rows, inputRows s tm input = .ok rows →
        ∀ row ∈ rows, Reaches tm.schema columns row) ∧
    (GroupsInPlace s tm input columns aggs ↔
      ∀ rows, inputRows s tm input = .ok rows → ∀ first,
        Groupings.Leads (columnsKey tm.schema columns) rows first →
          Reaches tm.schema columns first) :=
  ⟨project_in_place_iff below live known, group_in_place_iff below live known defined⟩

end Results

section Short

/-- A row with both columns and a row without the second. -/
def shortened : SessionState Float :=
  runPlans [.createTable "t" none [("a", .bigInt), ("b", .text)],
    .insert "t" none [] [[.int64 1, .string "x"], [.int64 2]]] .new

def shortenedMeta : TableMeta :=
  ⟨0, 0, "t", .new [⟨"a", .bigInt, true⟩, ⟨"b", .text, true⟩], "row"⟩

theorem columns_in_place_first : ProjectsInPlace shortened shortenedMeta (.scan "t" none) ["a"] ∧
    GroupsInPlace shortened shortenedMeta (.scan "t" none) ["a"] [.count "b"] := by
  have known : ∀ c ∈ ["a"], ∃ i, shortenedMeta.schema.columnIndex c = some i :=
    List.forall_mem_singleton.mpr ⟨0, rfl⟩
  have defined : ∀ agg ∈ [AggExpr.count "b"], ∀ c, columnOf agg = some c →
      ∃ i, shortenedMeta.schema.columnIndex c = some i := by
    rw [List.forall_mem_singleton]
    rintro c ⟨⟩
    exact ⟨1, rfl⟩
  have reaches : ∀ rows, inputRows shortened shortenedMeta (.scan "t" none) = .ok rows →
      ∀ row ∈ rows, Reaches shortenedMeta.schema ["a"] row := by
    rintro rows ⟨⟩ row inside c listed i hi
    obtain rfl := List.mem_singleton.mp listed
    cases hi
    have long : ∀ row ∈ scanRows shortened shortenedMeta, 0 < row.values.length := by decide
    exact long row inside
  obtain ⟨project, group⟩ := columns_in_place_iff (s := shortened) (.scan "t" none) rfl known
    defined
  refine ⟨project.mpr reaches, group.mpr (fun rows supplied first leads => ?_)⟩
  exact reaches rows supplied first (List.mem_of_find?_eq_some leads)

/-- Of the second row `SELECT b, a` returns the value of `a` alone, in the first place. -/
theorem short_row_shifts :
    ¬∀ s : SessionState Float, Reachable s → ∀ tm input columns, TableInput input →
      scanMeta s input = .ok tm → (∀ c ∈ columns, ∃ i, tm.schema.columnIndex c = some i) →
        ProjectsInPlace s tm input columns := by
  intro inPlace
  have known : ∀ c ∈ ["b", "a"], ∃ i, shortenedMeta.schema.columnIndex c = some i :=
    List.forall_mem_cons.mpr ⟨⟨1, rfl⟩, List.forall_mem_singleton.mpr ⟨0, rfl⟩⟩
  have shifted := inPlace shortened (reachable_runPlans _ RunFrom.new) shortenedMeta
    (.scan "t" none) ["b", "a"] (.scan "t" none) rfl known _ _ rfl rfl
  have second := (List.forall₂_cons.mp (List.forall₂_cons.mp shifted).2).1
  exact absurd (congrArg List.length second) (by decide)

end Short

end PaddedResults
