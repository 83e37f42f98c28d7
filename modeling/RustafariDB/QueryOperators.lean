import RustafariDB.Groupings
import RustafariDB.PlanEffects

/-!
# What the row operators return

PROJECT, GROUP BY, ORDER BY and LIMIT run their input and apply a pure function of the
rows and the base table. Their results are stated through that function.
-/

namespace QueryOperators

open Values Catalogs ColumnarStorage Plans Floats Aggregates Sessions Execution StatefulPrograms
open PlanEffects

variable {F : Type} [Float64 F] [ValueDebug F]

section Operators
variable {s s' : SessionState F} {tm : TableMeta} {input : PlanNode F} {rows : List (Row F)}

theorem executePlan_project (run : executePlan input s = .ok (.rows rows) s')
    (htm : scanMeta s' input = .ok tm) (columns : List String) :
    executePlan (.project input columns) s =
      .ok (.rows (rows.map (projectRow tm.schema columns))) s' := by
  simp only [executePlan, expectRows, bind_run, run, pure_run, get_run, htm]
  rfl

theorem executePlan_groupBy (run : executePlan input s = .ok (.rows rows) s')
    (htm : scanMeta s' input = .ok tm) (groupBy : List String) (aggs : List AggExpr) :
    executePlan (.groupBy input groupBy aggs) s =
      (orReturn ((groupRows tm.schema groupBy aggs rows).map ExecutionResult.rows) :
        Exec F (ExecutionResult F)) s' := by
  simp only [executePlan, expectRows, bind_run, run, pure_run, get_run, htm]
  simp only [orReturn, Except.mapError, runExcept_ok_run]
  cases groupRows tm.schema groupBy aggs rows <;> rfl

theorem executePlan_orderBy (run : executePlan input s = .ok (.rows rows) s')
    (htm : scanMeta s' input = .ok tm) (columns : List (String × Bool)) :
    executePlan (.orderBy input columns) s =
      (orReturn ((orderRows tm.schema columns rows).map ExecutionResult.rows) :
        Exec F (ExecutionResult F)) s' := by
  simp only [executePlan, expectRows, bind_run, run, pure_run, get_run, htm]
  simp only [orReturn, Except.mapError, runExcept_ok_run]
  cases orderRows tm.schema columns rows <;> rfl

end Operators

omit [Float64 F] [ValueDebug F] in
theorem limitRows_eq (limit offset : Nat) (rows : List (Row F)) :
    limitRows limit offset rows = (rows.drop offset).take limit := by
  rw [limitRows]
  rcases Nat.le_total offset rows.length with inside | beyond
  · rw [Nat.min_eq_left inside, ← List.length_drop, ← List.take_eq_take_min]
  · rw [Nat.min_eq_right beyond, List.drop_length, List.drop_of_length_le beyond]
    simp

section Answers
variable {s s' : SessionState F} {input : PlanNode F} {result : ExecutionResult F}

omit [Float64 F] [ValueDebug F] in
theorem orReturn_eq_ok {α : Type} {x : Except RustafariError α} {a : α} :
    (orReturn x : Exec F α) s = .ok a s' ↔ x = .ok a ∧ s = s' := by
  rw [orReturn, runExcept_eq_ok]
  cases x <;> simp [Except.mapError]

omit [Float64 F] [ValueDebug F] in
theorem expectRows_eq_ok {message : String} {sub : Exec F (ExecutionResult F)}
    {rows : List (Row F)} :
    expectRows message sub s = .ok rows s' ↔ sub s = .ok (.rows rows) s' := by
  rw [expectRows, bind_run_eq_ok]
  constructor
  · rintro ⟨result, s₁, h, same⟩
    cases result with
    | rows rows' =>
      obtain ⟨rfl, rfl⟩ := pure_eq_ok.mp same
      exact h
    | rowsAffected n => cases same
  · intro h
    exact ⟨.rows rows, s', h, rfl⟩

omit [Float64 F] [ValueDebug F] in
/-- An operator that maps the rows of its input with the base table at hand. -/
theorem afterRows_eq_ok {message : String} {sub : Exec F (ExecutionResult F)}
    {f : TableMeta → List (Row F) → Except RustafariError (List (Row F))} :
    (do
      let rows ← expectRows message sub
      let tm ← orReturn (scanMeta (← get) input)
      let rows' ← orReturn (f tm rows)
      return .rows rows' : Exec F (ExecutionResult F)) s = .ok result s' ↔
    ∃ rows tm rows', sub s = .ok (.rows rows) s' ∧ scanMeta s' input = .ok tm ∧
      f tm rows = .ok rows' ∧ result = .rows rows' := by
  simp only [bind_run_eq_ok, expectRows_eq_ok, orReturn_eq_ok, get_eq_ok, pure_eq_ok]
  constructor
  · rintro ⟨rows, s₁, run, _, _, ⟨rfl, rfl⟩, tm, _, ⟨htm, rfl⟩, rows', _, ⟨hf, rfl⟩, rfl, rfl⟩
    exact ⟨rows, tm, rows', run, htm, hf, rfl⟩
  · rintro ⟨rows, tm, rows', run, htm, hf, rfl⟩
    exact ⟨rows, s', run, s', s', ⟨rfl, rfl⟩, tm, s', ⟨htm, rfl⟩, rows', s', ⟨hf, rfl⟩, rfl, rfl⟩

theorem project_eq_ok {columns : List String} :
    executePlan (.project input columns) s = .ok result s' ↔
      ∃ rows tm, executePlan input s = .ok (.rows rows) s' ∧ scanMeta s' input = .ok tm ∧
        result = .rows (rows.map (projectRow tm.schema columns)) := by
  simp only [executePlan, bind_run_eq_ok, expectRows_eq_ok, orReturn_eq_ok, get_eq_ok,
    pure_eq_ok]
  constructor
  · rintro ⟨rows, s₁, run, _, _, ⟨rfl, rfl⟩, tm, _, ⟨htm, rfl⟩, rfl, rfl⟩
    exact ⟨rows, tm, run, htm, rfl⟩
  · rintro ⟨rows, tm, run, htm, rfl⟩
    exact ⟨rows, s', run, s', s', ⟨rfl, rfl⟩, tm, s', ⟨htm, rfl⟩, rfl, rfl⟩

theorem limit_eq_ok {limit offset : Nat} :
    executePlan (.limit input limit offset) s = .ok result s' ↔
      ∃ rows, executePlan input s = .ok (.rows rows) s' ∧
        result = .rows (limitRows limit offset rows) := by
  simp only [executePlan, bind_run_eq_ok, expectRows_eq_ok, pure_eq_ok]
  constructor
  · rintro ⟨rows, s₁, run, rfl, rfl⟩
    exact ⟨rows, run, rfl⟩
  · rintro ⟨rows, run, rfl⟩
    exact ⟨rows, s', run, rfl, rfl⟩

theorem groupBy_eq_ok {columns : List String} {aggs : List AggExpr} :
    executePlan (.groupBy input columns aggs) s = .ok result s' ↔
      ∃ rows tm grouped, executePlan input s = .ok (.rows rows) s' ∧
        scanMeta s' input = .ok tm ∧ groupRows tm.schema columns aggs rows = .ok grouped ∧
        result = .rows grouped :=
  afterRows_eq_ok

theorem orderBy_eq_ok {columns : List (String × Bool)} :
    executePlan (.orderBy input columns) s = .ok result s' ↔
      ∃ rows tm sorted, executePlan input s = .ok (.rows rows) s' ∧
        scanMeta s' input = .ok tm ∧ orderRows tm.schema columns rows = .ok sorted ∧
        result = .rows sorted :=
  afterRows_eq_ok

/-- One value of an aggregate, over the chunks or over the rows of the input. -/
def aggregateValue (tm : TableMeta) (chunks : List (ColumnarChunk F)) (input : PlanNode F)
    (agg : AggExpr) : Exec F (Value F) :=
  if chunks.isEmpty then aggregateOverRows tm (executePlan input) agg
  else orReturn (aggregateOverChunks chunks tm.schema agg)

/-- Over an input that leaves the state alone each aggregate is computed by itself. -/
theorem aggregate_eq_ok (still : ReadOnly (executePlan input)) {aggs : List AggExpr} :
    executePlan (.aggregate input aggs) s = .ok result s' ↔
      ∃ tm values, scanMeta s input = .ok tm ∧
        s' = s.flushColumnarBuffer tm.id tm.schema ∧
        List.Forall₂ (fun agg v =>
          aggregateValue tm (s'.columnarStore.chunksOf tm.id) input agg s' = .ok v s')
          aggs values ∧ result = .rows [.new values] := by
  have each (tm : TableMeta) (chunks : List (ColumnarChunk F)) (agg : AggExpr) :
      ReadOnly (aggregateValue tm chunks input agg) := by
    intro t
    rw [aggregateValue]
    split
    · rw [aggregateOverRows, final_bind_readOnly (fun _ => readOnly_orReturn _),
        final_expectRows, still t]
    · exact readOnly_orReturn _ t
  simp only [executePlan, bind_run_eq_ok, orReturn_eq_ok, get_eq_ok, modify_run,
    EStateM.Result.ok.injEq]
  constructor
  · rintro ⟨_, _, ⟨rfl, rfl⟩, tm, _, ⟨htm, rfl⟩, _, _, ⟨_, rfl⟩, _, _, ⟨rfl, rfl⟩, values, s₂,
      run, same⟩
    obtain ⟨rfl, rfl⟩ := pure_eq_ok.mp same
    obtain ⟨steps, rfl⟩ := (mapM_run_eq_ok (each tm _)).mp run
    exact ⟨tm, values, htm, rfl, steps, rfl⟩
  · rintro ⟨tm, values, htm, rfl, steps, rfl⟩
    exact ⟨s, s, ⟨rfl, rfl⟩, tm, s, ⟨htm, rfl⟩, ⟨⟩, _, ⟨trivial, rfl⟩, _, _, ⟨rfl, rfl⟩, values,
      _, (mapM_run_eq_ok (each tm _)).mpr ⟨steps, rfl⟩, rfl⟩

end Answers

section Columns
variable {schema : Schema} {label : String}

theorem columnOr_eq_ok {c : String} {i : Nat} :
    columnOr label schema c = .ok i ↔ schema.columnIndex c = some i := by
  rw [columnOr]
  cases schema.columnIndex c <;> simp

theorem indices_unique {columns : List String} {indices indices' : List Nat}
    (h : List.Forall₂ (fun c i => schema.columnIndex c = some i) columns indices)
    (h' : List.Forall₂ (fun c i => schema.columnIndex c = some i) columns indices') :
    indices = indices' :=
  List.right_unique_forall₂' (fun _ _ _ hi hj => Option.some.inj (hi.symm.trans hj)) h h'

omit [ValueDebug F] in
/-- ORDER BY succeeds when its columns are known. -/
theorem orderRows_returns {columns : List (String × Bool)}
    (known : ∀ c ∈ columns, ∃ i, schema.columnIndex c.1 = some i) (rows : List (Row F)) :
    ∃ sorted, orderRows schema columns rows = .ok sorted := by
  have steps : columns.mapM (fun c => do
      let i ← columnOr "ORDER BY column not found: " schema c.1
      return (i, c.2)) = .ok (columns.map (fun c => ((schema.columnIndex c.1).getD 0, c.2))) := by
    refine mapM_of_forall (fun c inside => ?_)
    obtain ⟨i, hi⟩ := known c inside
    rw [columnOr_eq_ok.mpr hi, hi]
    rfl
  exact ⟨_, bind_eq_ok.mpr ⟨_, steps, rfl⟩⟩

end Columns

section Groups
variable {schema : Schema} {columns : List String} {indices : List Nat}

/-- The values of the group columns, in GROUP BY order. -/
def groupValues (indices : List Nat) (row : Row F) : List (Value F) := indices.filterMap row.get

/-- The text a row is grouped by. -/
def groupKey (indices : List Nat) (row : Row F) : String :=
  "\x00".intercalate ((groupValues indices row).map ValueDebug.debug)

omit [Float64 F] in
theorem addToGroup_eq (indices : List Nat) :
    (addToGroup indices : _ → Row F → _) =
      Groupings.join (groupKey indices) (groupValues indices) := rfl

/-- The groups of a list of rows, in key order. -/
def rowGroups (indices : List Nat) (rows : List (Row F)) : List (List (Value F) × List (Row F)) :=
  (Groupings.grouped (groupKey indices) (groupValues indices) rows).toList.map Prod.snd

/-- One output row for each group, when every aggregate has a value on every group. -/
theorem groupRows_eq (known : columns.mapM (columnOr "GROUP BY column not found: " schema) =
    .ok indices) {aggs : List AggExpr} {value : List (Row F) → AggExpr → Value F}
    (defined : ∀ rows, ∀ agg ∈ aggs,
      aggregateOverRowSlice rows schema agg = .ok (value rows agg)) (rows : List (Row F)) :
    groupRows schema columns aggs rows =
      .ok ((rowGroups indices rows).map (fun g => .new (g.1 ++ aggs.map (value g.2)))) := by
  rw [groupRows, known, ok_bind, addToGroup_eq, rowGroups, List.map_map]
  refine mapM_of_forall (fun entry _ => ?_)
  rw [mapM_of_forall (defined entry.2.2)]
  rfl

/-- GROUP BY succeeds when its columns are known and its aggregates have values. -/
theorem groupRows_eq_ok {aggs : List AggExpr} {rows out : List (Row F)} :
    groupRows schema columns aggs rows = .ok out ↔ ∃ indices,
      List.Forall₂ (fun c i => schema.columnIndex c = some i) columns indices ∧
      List.Forall₂ (fun g row => ∃ vs, aggs.mapM (aggregateOverRowSlice g.2 schema) = .ok vs ∧
        row = .new (g.1 ++ vs)) (rowGroups indices rows) out := by
  simp only [groupRows, bind_eq_ok, mapM_eq_ok, columnOr_eq_ok, addToGroup_eq, rowGroups,
    List.forall₂_map_left_iff]
  refine exists_congr (fun indices => and_congr_right (fun _ => ?_))
  refine Iff.of_eq (congrArg (fun R => List.Forall₂ R _ _) ?_)
  funext entry row
  exact propext ⟨fun ⟨vs, hvs, same⟩ => ⟨vs, hvs, (Except.ok.inj same).symm⟩,
    fun ⟨vs, hvs, same⟩ => ⟨vs, hvs, congrArg Except.ok same.symm⟩⟩

theorem groupRows_returns {aggs : List AggExpr}
    (known : ∀ c ∈ columns, ∃ i, schema.columnIndex c = some i)
    (defined : ∀ agg ∈ aggs, ∀ rows : List (Row F), ∃ v,
      aggregateOverRowSlice rows schema agg = .ok v) (rows : List (Row F)) :
    ∃ out, groupRows schema columns aggs rows = .ok out := by
  obtain ⟨indices, hindices⟩ := forall₂_of_exists known
  have each : ∀ g ∈ rowGroups indices rows, ∃ row : Row F, ∃ vs,
      aggs.mapM (aggregateOverRowSlice g.2 schema) = .ok vs ∧ row = .new (g.1 ++ vs) := by
    intro g _
    obtain ⟨vs, hvs⟩ := mapM_ok_iff.mpr (fun agg listed => defined agg listed g.2)
    exact ⟨.new (g.1 ++ vs), vs, hvs, rfl⟩
  obtain ⟨out, hout⟩ := forall₂_of_exists each
  exact ⟨out, groupRows_eq_ok.mpr ⟨indices, hindices, hout⟩⟩

variable {indices : List Nat} {rows : List (Row F)}

omit [Float64 F] in
/-- A group has the rows with the key of one of them, and its key values. -/
theorem mem_rowGroups {g : List (Value F) × List (Row F)} (inside : g ∈ rowGroups indices rows) :
    ∃ first ∈ rows, g.1 = groupValues indices first ∧
      g.2 = rows.filter (fun row => groupKey indices row = groupKey indices first) := by
  obtain ⟨⟨key, group⟩, listed, rfl⟩ := List.mem_map.mp inside
  obtain ⟨first, inRows, same, label, members⟩ := Groupings.group_members listed
  exact ⟨first, inRows, label, members.trans (by rw [same])⟩

omit [Float64 F] in
/-- One group for each row that comes first with its key. -/
theorem rowGroups_leaders (indices : List Nat) (rows : List (Row F)) :
    ∃ firsts, Groupings.Leaders (groupKey indices) rows firsts ∧
      rowGroups indices rows = firsts.map (fun first => (groupValues indices first,
        rows.filter (fun row => groupKey indices row = groupKey indices first))) :=
  Groupings.exists_leaders (groupKey indices) (groupValues indices) rows

omit [Float64 F] in
/-- Every row is in a group. -/
theorem rowGroups_ne_nil (some_row : rows ≠ []) : rowGroups indices rows ≠ [] := by
  obtain ⟨row, rest, rfl⟩ := List.exists_cons_of_ne_nil some_row
  intro none
  rw [rowGroups, List.map_eq_nil_iff] at none
  have members := Groupings.grouped_perm (groupKey indices) (groupValues indices) (row :: rest)
  rw [none] at members
  cases members.symm.eq_nil

end Groups

end QueryOperators
