import RustafariDB.SelectedRows

/-!
# Columns that do not exist

ORDER BY and GROUP BY look their columns up before they touch a row. A filter takes an
unknown column for a missing value, a projection leaves it out, and an aggregate looks it
up only where it meets rows: not over chunks, and not for a GROUP BY without groups.
-/

namespace UnknownColumns

open Floats Values Catalogs Plans SqlSyntax SqlPlanning ColumnarStorage BTreeIndexing
open Aggregates Predicates Sessions Execution StatefulPrograms PlanEffects QueryOperators
open IndexLookups AggregateAgreement FilteredAggregates SelectLists SelectedRows

variable {F : Type}

section Names

/-- The columns a condition compares. -/
def filterColumns : FilterExpr F → List String
  | .literal _ => []
  | .and a b => filterColumns a ++ filterColumns b
  | .or a b => filterColumns a ++ filterColumns b
  | .not a => filterColumns a
  | .cmp c _ _ => [c]

/-- The columns a plan names in any of its clauses. -/
def planColumns : PlanNode F → List String
  | .filter input predicate => filterColumns predicate ++ planColumns input
  | .project input columns => columns ++ planColumns input
  | .aggregate input aggs => aggs.filterMap columnOf ++ planColumns input
  | .groupBy input columns aggs => columns ++ aggs.filterMap columnOf ++ planColumns input
  | .orderBy input columns => columns.map Prod.fst ++ planColumns input
  | .limit input _ _ => planColumns input
  | _ => []

def Unknown (schema : Schema) (columns : List String) : Prop :=
  ∃ c ∈ columns, schema.columnIndex c = none

/-- Plans of a SELECT: grouping and aggregates stand on the table or on its condition. -/
inductive SelectPlan : PlanNode F → Prop where
  | scan (table : String) (ns : Option String) : SelectPlan (.scan table ns)
  | filter {input : PlanNode F} (below : SelectPlan input) (predicate : FilterExpr F) :
      SelectPlan (.filter input predicate)
  | project {input : PlanNode F} (below : SelectPlan input) (columns : List String) :
      SelectPlan (.project input columns)
  | aggregate {input : PlanNode F} (below : TableInput input) (aggs : List AggExpr) :
      SelectPlan (.aggregate input aggs)
  | groupBy {input : PlanNode F} (below : TableInput input) (columns : List String)
      (aggs : List AggExpr) : SelectPlan (.groupBy input columns aggs)
  | orderBy {input : PlanNode F} (below : SelectPlan input) (columns : List (String × Bool)) :
      SelectPlan (.orderBy input columns)
  | limit {input : PlanNode F} (below : SelectPlan input) (limit offset : Nat) :
      SelectPlan (.limit input limit offset)

theorem selectPlan_input {input : PlanNode F} (h : TableInput input) : SelectPlan input := by
  cases h with
  | scan table ns => exact .scan table ns
  | filter table ns predicate => exact .filter (.scan table ns) predicate

/-- Every SELECT that is planned has such a plan. -/
theorem selectPlan_of_query [Float64 F] [FloatText F] [SqlText] {q : Query} {plan : PlanNode F}
    (accepted : queryToPlan q = .ok plan) : SelectPlan plan := by
  obtain ⟨sel, scan, input, columns, root, body, source, condition, grouping, selected, same⟩ :=
    queryToPlan_eq_ok.mp accepted
  obtain ⟨below, root', selected', rfl⟩ :=
    planned_root ⟨accepted, body, ⟨scan, source, condition⟩, grouping⟩
  cases selected.symm.trans selected'
  have base : SelectPlan root := by
    rcases selectClause_cases selected with ⟨_, rfl, _⟩ | ⟨_, rfl, _⟩ | ⟨_, rfl, _⟩
    · exact .groupBy below _ _
    · exact .aggregate below _
    · split
      · exact .project (selectPlan_input below) _
      · exact selectPlan_input below
  have sorted : SelectPlan (orderClause q.orderBy root) := by
    rw [orderClause]
    split
    · exact .orderBy base _
    · exact base
  rw [limitClause]
  split
  · exact .limit sorted _ _
  · exact sorted

end Names

section Conditions
variable [Float64 F]

/-- A literal of the lookup has no key. -/
def LacksKey : IdLookup F → Prop
  | .point v => ∃ e, IndexKey.fromValue v = .error e
  | .rangeInclusive v1 v2 =>
    (∃ e, IndexKey.fromValue v1 = .error e) ∨ ∃ e, IndexKey.fromValue v2 = .error e

/-- A range from a greater key to a lesser one. -/
def Descends : IdLookup F → Prop
  | .point _ => False
  | .rangeInclusive v1 v2 => ∃ k1 k2, IndexKey.fromValue v1 = .ok k1 ∧
      IndexKey.fromValue v2 = .ok k2 ∧ compare k1 k2 = .gt

/-- The table has neither a chunk nor a row in its buffer. -/
def Unstored (s : SessionState F) (tm : TableMeta) : Prop :=
  s.columnarStore.chunksOf tm.id = [] ∧ s.buffered tm.id = []

/-- Some stored row passes the input. -/
def SomeRow (s : SessionState F) (tm : TableMeta) (input : PlanNode F) : Prop :=
  ∃ rows, inputRows s tm input = .ok rows ∧ rows ≠ []

/-- An index lookup below descends and is made. -/
def Panics (s : SessionState F) (tm : TableMeta) : PlanNode F → Prop
  | .filter input predicate =>
    (∃ index lookup, indexPath s tm.id input predicate = some (index, lookup) ∧
      Descends lookup) ∨ indexPath s tm.id input predicate = none ∧ Panics s tm input
  | .project input _ => Panics s tm input
  | .aggregate input aggs => Unstored s tm ∧ aggs ≠ [] ∧ Panics s tm input
  | .groupBy input _ _ => Panics s tm input
  | .orderBy input _ => Panics s tm input
  | .limit input _ _ => Panics s tm input
  | _ => False

/-- What makes a plan fail: a sort or group column that does not exist, an aggregate of such
a column where it meets rows, or a literal without a key in an index lookup. -/
def Rejected (s : SessionState F) (tm : TableMeta) : PlanNode F → Prop
  | .filter input predicate =>
    (∃ index lookup, indexPath s tm.id input predicate = some (index, lookup) ∧
      LacksKey lookup) ∨ indexPath s tm.id input predicate = none ∧ Rejected s tm input
  | .project input _ => Rejected s tm input
  | .aggregate input aggs => Unstored s tm ∧ (aggs ≠ [] ∧ Rejected s tm input ∨
      ¬Panics s tm input ∧ Unknown tm.schema (aggs.filterMap columnOf))
  | .groupBy input columns aggs => Rejected s tm input ∨ ¬Panics s tm input ∧
      (Unknown tm.schema columns ∨
        SomeRow s tm input ∧ Unknown tm.schema (aggs.filterMap columnOf))
  | .orderBy input columns => Rejected s tm input ∨
      ¬Panics s tm input ∧ Unknown tm.schema (columns.map Prod.fst)
  | .limit input _ _ => Rejected s tm input
  | _ => False

variable [ValueDebug F]

def Errs (s : SessionState F) (plan : PlanNode F) : Prop :=
  ∃ e, outcome (executePlan plan s) = .error (.error e)

/-- The conditions decide whether a plan fails, panics or returns rows. -/
structure Decided (s : SessionState F) (tm : TableMeta) (plan : PlanNode F) : Prop where
  errs : Rejected s tm plan → Errs s plan
  panics : Panics s tm plan → outcome (executePlan plan s) = .error .panicked
  returns : ¬Rejected s tm plan → ¬Panics s tm plan →
    ∃ rows, outcome (executePlan plan s) = .ok (.rows rows)

end Conditions

section Lookups
variable [Float64 F] {lookup : IdLookup F} {index : BTreeIndex}

theorem lookupIds_lacks (index : BTreeIndex) (h : LacksKey lookup) :
    ∃ e, lookupIds index lookup = .error (.error e) := by
  cases lookup with
  | point v =>
    obtain ⟨e, failed⟩ := h
    exact ⟨e, lookupIds_keyless index failed⟩
  | rangeInclusive v1 v2 =>
    simp only [lookupIds]
    cases first : IndexKey.fromValue v1 with
    | error e => exact ⟨e, rfl⟩
    | ok k1 =>
      rcases h with ⟨e, failed⟩ | ⟨e, failed⟩
      · cases first.symm.trans failed
      · exact ⟨e, by rw [failed]; rfl⟩

theorem lookupIds_descends (h : Descends lookup) : lookupIds index lookup = .error .panicked := by
  cases lookup with
  | point v => exact h.elim
  | rangeInclusive v1 v2 =>
    obtain ⟨k1, k2, first, second, descends⟩ := h
    rw [lookupIds_range first second, (range_eq_none_iff index).mpr descends]

theorem lookupIds_answers (index : BTreeIndex) (keyed : ¬LacksKey lookup)
    (ascends : ¬Descends lookup) :
    ∃ ids, lookupIds index lookup = .ok ids := by
  cases lookup with
  | point v =>
    cases key : IndexKey.fromValue v with
    | error e => exact absurd ⟨e, key⟩ keyed
    | ok k => exact ⟨_, lookupIds_keyed index key⟩
  | rangeInclusive v1 v2 =>
    cases first : IndexKey.fromValue v1 with
    | error e => exact absurd (Or.inl ⟨e, first⟩) keyed
    | ok k1 =>
      cases second : IndexKey.fromValue v2 with
      | error e => exact absurd (Or.inr ⟨e, second⟩) keyed
      | ok k2 =>
        rw [lookupIds_range first second]
        cases found : index.range k1 (some k2) with
        | none => exact absurd ⟨k1, k2, first, second, (range_eq_none_iff index).mp found⟩ ascends
        | some ids => exact ⟨ids, rfl⟩

end Lookups

section Operators
variable [Float64 F] [ValueDebug F] {s : SessionState F} {tm : TableMeta} {input : PlanNode F}

omit [Float64 F] [ValueDebug F] in
theorem outcome_eq_ok {α : Type} {m : Exec F α} {a : α} :
    outcome (m s) = .ok a ↔ ∃ t, m s = .ok a t := by
  cases m s <;> simp [outcome]

omit [Float64 F] [ValueDebug F] in
/-- What stops the input stops the operator. -/
theorem stopped_above {message : String} {sub : Exec F (ExecutionResult F)} {stop : Stop}
    (stopped : outcome (sub s) = .error stop) {α : Type} (rest : List (Row F) → Exec F α) :
    outcome ((expectRows message sub >>= rest) s) = .error stop :=
  outcome_bind_of_error (outcome_bind_of_error stopped)

/-- After a query that returns rows its table is still found. -/
theorem returned (live : scanMeta s input = .ok tm) {rows : List (Row F)}
    (h : outcome (executePlan input s) = .ok (.rows rows)) :
    ∃ t, executePlan input s = .ok (.rows rows) t ∧ scanMeta t input = .ok tm := by
  obtain ⟨t, run⟩ := outcome_eq_ok.mp h
  have still := scanMeta_final live input
  rw [run] at still
  exact ⟨t, run, still.trans live⟩

/-- An operator that runs its input and applies a function that may fail to the rows. -/
theorem decided_after {plan : PlanNode F} (below : Decided s tm input)
    (f : List (Row F) → Except RustafariError (List (Row F))) (fails : Prop)
    (stops : ∀ stop, outcome (executePlan input s) = .error stop →
      outcome (executePlan plan s) = .error stop)
    (runs : ∀ rows, outcome (executePlan input s) = .ok (.rows rows) →
      outcome (executePlan plan s) = ((f rows).mapError Stop.error).map .rows)
    (fails_iff : ∀ rows, outcome (executePlan input s) = .ok (.rows rows) →
      ((∃ e, f rows = .error e) ↔ fails))
    (rejected : Rejected s tm plan ↔ Rejected s tm input ∨ ¬Panics s tm input ∧ fails)
    (panics : Panics s tm plan ↔ Panics s tm input) : Decided s tm plan := by
  refine ⟨fun h => ?_, fun h => stops _ (below.panics (panics.mp h)), fun accepted calm => ?_⟩
  · by_cases early : Rejected s tm input
    · obtain ⟨e, failed⟩ := below.errs early
      exact ⟨e, stops _ failed⟩
    · obtain ⟨calm, failing⟩ := (rejected.mp h).resolve_left early
      obtain ⟨rows, answered⟩ := below.returns early calm
      obtain ⟨e, failed⟩ := (fails_iff rows answered).mpr failing
      refine ⟨e, ?_⟩
      rw [runs rows answered, failed]
      rfl
  · rw [rejected, not_or, not_and] at accepted
    rw [panics] at calm
    obtain ⟨rows, answered⟩ := below.returns accepted.1 calm
    cases h : f rows with
    | error e => exact absurd ((fails_iff rows answered).mp ⟨e, h⟩) (accepted.2 calm)
    | ok rows' =>
      refine ⟨rows', ?_⟩
      rw [runs rows answered, h]
      rfl

theorem decided_filter (below : Decided s tm input) (live : scanMeta s input = .ok tm)
    (predicate : FilterExpr F) : Decided s tm (.filter input predicate) := by
  have path := executePlan_filter live predicate
  cases taken : indexPath s tm.id input predicate with
  | some found =>
    obtain ⟨index, lookup⟩ := found
    simp only [taken] at path
    refine ⟨fun rejected => ?_, fun panics => ?_, fun accepted calm => ?_⟩
    · rcases rejected with ⟨_, _, same, lacks⟩ | ⟨none, _⟩
      · cases taken.symm.trans same
        obtain ⟨e, failed⟩ := lookupIds_lacks index lacks
        refine ⟨e, ?_⟩
        rw [path, failed]
        rfl
      · cases taken.symm.trans none
    · rcases panics with ⟨_, _, same, descends⟩ | ⟨none, _⟩
      · cases taken.symm.trans same
        rw [path, lookupIds_descends descends]
        rfl
      · cases taken.symm.trans none
    · obtain ⟨ids, found⟩ := lookupIds_answers index
        (fun lacks => accepted (Or.inl ⟨_, _, taken, lacks⟩))
        (fun descends => calm (Or.inl ⟨_, _, taken, descends⟩))
      refine ⟨ids.filterMap (s.rowStore.get tm.id), ?_⟩
      rw [path, found]
      rfl
  | none =>
    have run : executePlan (.filter input predicate) s =
        (expectRows "filter expects rows" (executePlan input) >>= fun rows =>
          pure (.rows (rows.filter (fun row => evalPredicate row predicate tm.schema)))) s := by
      rw [executePlan, bind_run, get_run]
      simp only [live, orReturn, Except.mapError, bind_run, runExcept_ok_run, taken]
    refine decided_after below (fun rows => .ok (rows.filter (fun row =>
      evalPredicate row predicate tm.schema))) False (fun stop stopped => ?_)
      (fun rows answered => ?_) (fun rows _ => ?_) ?_ ?_
    · rw [run]
      exact stopped_above stopped _
    · obtain ⟨t, ran, _⟩ := returned live answered
      rw [run, bind_run, expectRows_eq_ok.mpr ran]
      rfl
    · simp
    · simp [Rejected, taken]
    · simp [Panics, taken]

theorem decided_project (below : Decided s tm input) (live : scanMeta s input = .ok tm)
    (columns : List String) : Decided s tm (.project input columns) := by
  refine decided_after below (fun rows => .ok (rows.map (projectRow tm.schema columns))) False
    (fun stop stopped => ?_) (fun rows answered => ?_) (fun rows _ => ?_) ?_ Iff.rfl
  · rw [executePlan]
    exact stopped_above stopped _
  · obtain ⟨t, ran, still⟩ := returned live answered
    rw [executePlan_project ran still]
    rfl
  · simp
  · rw [and_false, or_false]
    rfl

theorem decided_limit (below : Decided s tm input) (live : scanMeta s input = .ok tm)
    (limit offset : Nat) : Decided s tm (.limit input limit offset) := by
  refine decided_after below (fun rows => .ok (limitRows limit offset rows)) False
    (fun stop stopped => ?_) (fun rows answered => ?_) (fun rows _ => ?_) ?_ Iff.rfl
  · rw [executePlan]
    exact stopped_above stopped _
  · obtain ⟨t, ran, _⟩ := returned live answered
    rw [limit_eq_ok.mpr ⟨rows, ran, rfl⟩]
    rfl
  · simp
  · rw [and_false, or_false]
    rfl

omit [Float64 F] [ValueDebug F] in
theorem outcome_orReturn {α : Type} (x : Except RustafariError α) :
    outcome ((orReturn x : Exec F α) s) = x.mapError Stop.error := by
  rw [orReturn, outcome_runExcept]

omit [ValueDebug F] in
/-- ORDER BY fails just if it names an unknown column. -/
theorem orderRows_fails_iff {schema : Schema} {columns : List (String × Bool)}
    {rows : List (Row F)} :
    (∃ e, orderRows schema columns rows = .error e) ↔ Unknown schema (columns.map Prod.fst) := by
  constructor
  · rintro ⟨e, failed⟩
    by_contra known
    have known : ∀ c ∈ columns, ∃ i, schema.columnIndex c.1 = some i := by
      intro c listed
      refine Option.ne_none_iff_exists'.mp (fun none => known ?_)
      exact ⟨c.1, List.mem_map_of_mem listed, none⟩
    obtain ⟨sorted, answered⟩ := orderRows_returns known rows
    cases failed.symm.trans answered
  · rintro ⟨name, listed, unknown⟩
    obtain ⟨c, inside, rfl⟩ := List.mem_map.mp listed
    cases h : orderRows schema columns rows with
    | error e => exact ⟨e, rfl⟩
    | ok sorted =>
      obtain ⟨order, steps, _⟩ := bind_eq_ok.mp h
      obtain ⟨step, found⟩ := mapM_ok_iff.mp ⟨order, steps⟩ c inside
      obtain ⟨i, known, _⟩ := bind_eq_ok.mp found
      cases unknown.symm.trans (columnOr_eq_ok.mp known)

theorem decided_orderBy (below : Decided s tm input) (live : scanMeta s input = .ok tm)
    (columns : List (String × Bool)) : Decided s tm (.orderBy input columns) := by
  refine decided_after below (orderRows tm.schema columns) _ (fun stop stopped => ?_)
    (fun rows answered => ?_) (fun rows _ => orderRows_fails_iff) Iff.rfl Iff.rfl
  · rw [executePlan]
    exact stopped_above stopped _
  · obtain ⟨t, ran, still⟩ := returned live answered
    rw [executePlan_orderBy ran still, outcome_orReturn]
    cases orderRows tm.schema columns rows <;> rfl

omit [ValueDebug F] in
theorem aggregate_unknown {schema : Schema} {agg : AggExpr} {c : String}
    (column : columnOf agg = some c) (unknown : schema.columnIndex c = none)
    (rows : List (Row F)) : ∃ e, aggregateOverRowSlice rows schema agg = .error e := by
  cases agg with
  | countStar => cases column
  | _ _ =>
    cases column
    simp only [aggregateOverRowSlice, columnOrError, unknown, error_bind]
    exact ⟨_, rfl⟩

omit [ValueDebug F] in
/-- Aggregates over rows fail just if one names an unknown column. -/
theorem aggregates_fail_iff {schema : Schema} {aggs : List AggExpr} (rows : List (Row F)) :
    (∃ e, aggs.mapM (aggregateOverRowSlice rows schema) = .error e) ↔
      Unknown schema (aggs.filterMap columnOf) := by
  constructor
  · rintro ⟨e, failed⟩
    by_contra known
    have defined : ∀ agg ∈ aggs, ∃ v, aggregateOverRowSlice rows schema agg = .ok v := by
      intro agg listed
      refine aggregate_defined (fun c column => ?_) rows
      refine Option.ne_none_iff_exists'.mp (fun none => known ?_)
      exact ⟨c, List.mem_filterMap.mpr ⟨agg, listed, column⟩, none⟩
    obtain ⟨values, answered⟩ := mapM_ok_iff.mpr defined
    cases failed.symm.trans answered
  · rintro ⟨c, listed, unknown⟩
    obtain ⟨agg, inside, column⟩ := List.mem_filterMap.mp listed
    cases h : aggs.mapM (aggregateOverRowSlice rows schema) with
    | error e => exact ⟨e, rfl⟩
    | ok values =>
      obtain ⟨v, found⟩ := mapM_ok_iff.mp ⟨values, h⟩ agg inside
      obtain ⟨e, failed⟩ := aggregate_unknown column unknown rows
      cases failed.symm.trans found

/-- GROUP BY fails just if it names an unknown group column, or an unknown column in an
aggregate and there is a group. -/
theorem groupRows_fails_iff {schema : Schema} {columns : List String} {aggs : List AggExpr}
    {rows : List (Row F)} :
    (∃ e, groupRows schema columns aggs rows = .error e) ↔
      Unknown schema columns ∨ rows ≠ [] ∧ Unknown schema (aggs.filterMap columnOf) := by
  constructor
  · rintro ⟨e, failed⟩
    by_contra accepted
    rw [not_or, not_and] at accepted
    obtain ⟨known, defined⟩ := accepted
    have known : ∀ c ∈ columns, ∃ i, schema.columnIndex c = some i := fun c listed =>
      Option.ne_none_iff_exists'.mp (fun none => known ⟨c, listed, none⟩)
    obtain ⟨indices, found⟩ := forall₂_of_exists known
    have each : ∀ g ∈ rowGroups indices rows, ∃ row : Row F, ∃ vs,
        aggs.mapM (aggregateOverRowSlice g.2 schema) = .ok vs ∧ row = .new (g.1 ++ vs) := by
      intro g inside
      obtain ⟨first, inRows, _⟩ := mem_rowGroups inside
      cases h : aggs.mapM (aggregateOverRowSlice g.2 schema) with
      | error e =>
        exact absurd ((aggregates_fail_iff _).mp ⟨e, h⟩) (defined (List.ne_nil_of_mem inRows))
      | ok vs => exact ⟨.new (g.1 ++ vs), vs, rfl, rfl⟩
    obtain ⟨out, returned⟩ := forall₂_of_exists each
    cases failed.symm.trans (groupRows_eq_ok.mpr ⟨indices, found, returned⟩)
  · intro unknown
    cases h : groupRows schema columns aggs rows with
    | error e => exact ⟨e, rfl⟩
    | ok out =>
      obtain ⟨indices, known, each⟩ := groupRows_eq_ok.mp h
      rcases unknown with ⟨c, listed, unknown⟩ | ⟨some_row, unknown⟩
      · obtain ⟨i, _, found⟩ := exists_of_forall₂ known c listed
        cases unknown.symm.trans found
      · obtain ⟨g, inside⟩ := List.exists_mem_of_ne_nil _ (rowGroups_ne_nil some_row)
        obtain ⟨_, _, vs, answered, _⟩ := exists_of_forall₂ each g inside
        obtain ⟨e, failed⟩ := (aggregates_fail_iff g.2).mpr unknown
        cases failed.symm.trans answered

theorem decided_groupBy (below : TableInput input) (live : scanMeta s input = .ok tm)
    (columns : List String) (aggs : List AggExpr) (decided : Decided s tm input) :
    Decided s tm (.groupBy input columns aggs) := by
  refine decided_after decided (groupRows tm.schema columns aggs) _ (fun stop stopped => ?_)
    (fun rows answered => ?_) (fun rows answered => ?_) Iff.rfl Iff.rfl
  · rw [executePlan]
    exact stopped_above stopped _
  · obtain ⟨t, ran, still⟩ := returned live answered
    rw [executePlan_groupBy ran still, outcome_orReturn]
    cases groupRows tm.schema columns aggs rows <;> rfl
  · have passed := (input_outcome below live).mp answered
    have some_row : SomeRow s tm input ↔ rows ≠ [] := by
      rw [SomeRow, passed]
      simp
    rw [some_row]
    exact groupRows_fails_iff

omit [Float64 F] [ValueDebug F] in
theorem flushedChunks_eq_nil : flushedChunks s tm = [] ↔ Unstored s tm := by
  rw [flushedChunks, SessionState.flushColumnarBuffer_eq, Unstored]
  split
  · rename_i empty
    rw [and_iff_left empty]
  · rename_i waiting
    refine iff_of_false ?_ (fun none => waiting none.2)
    rw [SessionState.chunksOf_storeChunk, if_pos rfl]
    simp

/-- Without chunks what stops the input stops the first aggregate. -/
theorem aggregate_stops (live : scanMeta s input = .ok tm) (unstored : Unstored s tm)
    {aggs : List AggExpr} (some_agg : aggs ≠ []) {stop : Stop}
    (stopped : outcome (executePlan input s) = .error stop) :
    outcome (executePlan (.aggregate input aggs) s) = .error stop := by
  obtain ⟨agg, rest, rfl⟩ := List.exists_cons_of_ne_nil some_agg
  have still : s.flushColumnarBuffer tm.id tm.schema = s := by
    rw [SessionState.flushColumnarBuffer_eq, if_pos unstored.2]
  rw [executePlan_aggregate live, flushedChunks_eq_nil.mpr unstored, still, List.mapM_cons]
  exact outcome_bind_of_error (outcome_bind_of_error (stopped_above stopped _))

/-- Without chunks the aggregates are computed over the rows of the input. -/
theorem aggregate_unstored (below : TableInput input) (live : scanMeta s input = .ok tm)
    (unstored : Unstored s tm) (aggs : List AggExpr) {rows : List (Row F)}
    (answered : outcome (executePlan input s) = .ok (.rows rows)) :
    outcome (executePlan (.aggregate input aggs) s) =
      oneRow (aggregateOverRowSlice rows tm.schema) aggs := by
  have still : s.flushColumnarBuffer tm.id tm.schema = s := by
    rw [SessionState.flushColumnarBuffer_eq, if_pos unstored.2]
  have passed := (input_outcome below live).mp answered
  refine aggregate_of_rows live (flushedChunks_eq_nil.mpr unstored) ?_ aggs
  rw [still]
  exact (input_eq_ok below).mpr ⟨tm, rows, live, passed, rfl, rfl⟩

theorem decided_aggregate (below : TableInput input) (live : scanMeta s input = .ok tm)
    (aggs : List AggExpr) (decided : Decided s tm input) :
    Decided s tm (.aggregate input aggs) := by
  by_cases unstored : Unstored s tm
  · by_cases some_agg : aggs = []
    · -- nothing is computed, so that not even the input is run
      subst some_agg
      refine ⟨?_, fun panics => absurd rfl panics.2.1, fun _ _ => ?_⟩
      · rintro ⟨_, ⟨some_agg, _⟩ | ⟨_, _, listed, _⟩⟩
        · exact absurd rfl some_agg
        · cases listed
      · rw [executePlan_aggregate live]
        exact ⟨_, rfl⟩
    · refine decided_after decided
        (fun rows => (aggs.mapM (aggregateOverRowSlice rows tm.schema)).map fun vs => [.new vs])
        (Unknown tm.schema (aggs.filterMap columnOf))
        (fun _ stopped => aggregate_stops live unstored some_agg stopped)
        (fun rows answered => ?_) (fun rows _ => ?_) ?_ ?_
      · rw [aggregate_unstored below live unstored aggs answered, oneRow]
        cases aggs.mapM (aggregateOverRowSlice rows tm.schema) <;> rfl
      · rw [← aggregates_fail_iff rows]
        cases aggs.mapM (aggregateOverRowSlice rows tm.schema) <;> simp [Except.map]
      · simp only [Rejected, unstored, some_agg, true_and, ne_eq, not_false_eq_true]
      · simp only [Panics, unstored, some_agg, true_and, ne_eq, not_false_eq_true]
  · refine ⟨fun rejected => absurd rejected.1 unstored, fun panics => absurd panics.1 unstored,
      fun _ _ => ?_⟩
    have some_chunk : flushedChunks s tm ≠ [] := fun none =>
      unstored (flushedChunks_eq_nil.mp none)
    obtain ⟨values, answered⟩ := mapM_ok_iff.mpr (fun agg (_ : agg ∈ aggs) =>
      chunks_defined (flushedChunks s tm) tm.schema agg)
    refine ⟨[.new values], ?_⟩
    rw [aggregate_of_chunks live some_chunk, oneRow, answered]
    rfl

theorem decided_scan (table : String) (ns : Option String)
    (live : scanMeta s (.scan table ns) = .ok tm) : Decided s tm (.scan table ns) := by
  refine ⟨False.elim, False.elim, fun _ _ => ?_⟩
  exact ⟨_, congrArg outcome (executePlan_scan (resolveTable_eq_ok.mp live))⟩

theorem decided_input (below : TableInput input) (live : scanMeta s input = .ok tm) :
    Decided s tm input := by
  cases below with
  | scan table ns => exact decided_scan table ns live
  | filter table ns predicate => exact decided_filter (decided_scan table ns live) live predicate

/-- By the shape of the plan. -/
theorem decided_select {plan : PlanNode F} (select : SelectPlan plan)
    (live : scanMeta s plan = .ok tm) : Decided s tm plan := by
  induction select with
  | scan table ns => exact decided_scan table ns live
  | filter _ predicate ih => exact decided_filter (ih live) live predicate
  | project _ columns ih => exact decided_project (ih live) live columns
  | aggregate below aggs => exact decided_aggregate below live aggs (decided_input below live)
  | groupBy below columns aggs =>
    exact decided_groupBy below live columns aggs (decided_input below live)
  | orderBy _ columns ih => exact decided_orderBy (ih live) live columns
  | limit _ limit offset ih => exact decided_limit (ih live) live limit offset

end Operators

section Rejections
variable [Float64 F] [ValueDebug F] {s : SessionState F} {tm : TableMeta} {plan : PlanNode F}

/-- A plan that fails is one of those that are rejected. -/
theorem errs_iff (decided : Decided s tm plan) : Errs s plan ↔ Rejected s tm plan := by
  refine ⟨fun ⟨e, failed⟩ => ?_, decided.errs⟩
  by_contra accepted
  by_cases panics : Panics s tm plan
  · cases failed.symm.trans (decided.panics panics)
  · obtain ⟨rows, answered⟩ := decided.returns accepted panics
    cases failed.symm.trans answered

/-- Over a live table a SELECT plan with an unknown column is an error just if the column is
looked up: in ORDER BY and GROUP BY always, in an aggregate where it meets rows, in a filter
and a projection never. -/
theorem unknown_rejected_iff (select : SelectPlan plan) (live : scanMeta s plan = .ok tm) :
    (Unknown tm.schema (planColumns plan) → Errs s plan) ↔
      (Unknown tm.schema (planColumns plan) → Rejected s tm plan) := by
  rw [errs_iff (decided_select select live)]

end Rejections

section Missing

/-- A table with an id and no row. -/
def unfilled : SessionState Float :=
  runPlans [.createTable "t" none [("id", .bigInt)]] .new

def unfilledMeta : TableMeta := ⟨0, 0, "t", .new [⟨"id", .bigInt, true⟩], "row"⟩

/-- ORDER BY looks its columns up without a row, too. -/
theorem unknown_rejected_sorted :
    Errs unfilled (.orderBy (.scan "t" none) [("missing", true)] : PlanNode Float) := by
  have live : scanMeta unfilled (.orderBy (.scan "t" none) [("missing", true)]) =
      .ok unfilledMeta := rfl
  have unknown : Unknown unfilledMeta.schema ["missing"] := ⟨"missing", List.mem_cons_self, rfl⟩
  exact (unknown_rejected_iff (.orderBy (.scan "t" none) _) live).mpr
    (fun unknown => Or.inr ⟨id, unknown⟩) unknown

/-- A projection leaves the column out. -/
theorem unknown_projected :
    ¬∀ s : SessionState Float, Reachable s → ∀ tm plan, SelectPlan plan →
      scanMeta s plan = .ok tm → Unknown tm.schema (planColumns plan) → Errs s plan := by
  intro rejected
  have unknown : Unknown unfilledMeta.schema
      (planColumns (.project (.scan "t" none) ["missing"] : PlanNode Float)) :=
    ⟨"missing", List.mem_cons_self, rfl⟩
  obtain ⟨e, failed⟩ := rejected unfilled (reachable_runPlans _ RunFrom.new) unfilledMeta
    (.project (.scan "t" none) ["missing"]) (.project (.scan "t" none) _) rfl unknown
  cases failed

end Missing

end UnknownColumns
