import RustafariDB.ClauseCoverage

/-!
# How select lists are read

A select list is read as group columns and aggregates, as aggregates alone or as plain
columns, in this order. The last reading leaves out what it does not recognise, and a call
is read as an aggregate by the first part of its name and its first argument alone. This
module says what the items mean and which lists are read as they are written.
-/

namespace SelectLists

open Catalogs Values Plans Floats SqlSyntax SqlPlanning ClauseCoverage StatefulPrograms

section Lists
variable [SqlText]

def IsWildcard : SelectItem → Prop
  | .qualifiedWildcard _ => True
  | .wildcard => True
  | _ => False

/-- The item is this plain column. -/
def NamesColumn (item : SelectItem) (c : String) : Prop :=
  ∃ id, item = .unnamedExpr (.identifier id) ∧ id.value = c

/-- The aggregates of a column by the names of their functions. -/
inductive AggregateName : String → (String → AggExpr) → Prop where
  | sum : AggregateName "SUM" .sum
  | count : AggregateName "COUNT" .count
  | avg : AggregateName "AVG" .avg
  | min : AggregateName "MIN" .min
  | max : AggregateName "MAX" .max

/-- The item is this aggregate: a call by the plain name, in letters of either case, of one
column or of `*`, without DISTINCT, FILTER and OVER. -/
inductive CallsAggregate : SelectItem → AggExpr → Prop where
  | ofColumn {name id : Ident} {build : String → AggExpr}
      (named : AggregateName (SqlText.toUppercase name.value) build) :
      CallsAggregate (.unnamedExpr (.function
        ⟨[name], [.unnamed (.expr (.identifier id))], false, none, none⟩)) (build id.value)
  | countStar {name : Ident} (named : SqlText.toUppercase name.value = "COUNT") :
      CallsAggregate (.unnamedExpr (.function
        ⟨[name], [.unnamed .wildcard], false, none, none⟩)) .countStar

/-- The planner reads the item as this aggregate. -/
def ReadsAggregate (item : SelectItem) (agg : AggExpr) : Prop := itemAsAgg item = some agg

/-- A list of wildcards, plain columns and aggregates of one column, and without GROUP BY no
aggregate beside anything else. -/
structure Representable (groupBy : GroupByExpr) (projection : List SelectItem) : Prop where
  items : ∀ item ∈ projection,
    IsWildcard item ∨ (∃ c, NamesColumn item c) ∨ ∃ agg, CallsAggregate item agg
  unmixed : groupBy = .expressions [] → (∀ item ∈ projection, ∃ agg, CallsAggregate item agg) ∨
    ∀ item ∈ projection, ¬ ∃ agg, CallsAggregate item agg

/-- The list is all aggregates or all columns of the table; under GROUP BY it starts with
the group columns in their order and goes on with aggregates. -/
def ReadAsWritten (schema : Schema) (columns : List String) (projection : List SelectItem) :
    Prop :=
  if columns = [] then projection ≠ [] ∧
    ((∀ item ∈ projection, ∃ agg, CallsAggregate item agg) ∨
      ∀ item ∈ projection, ∃ c i, NamesColumn item c ∧ schema.columnIndex c = some i)
  else ∃ keys items, projection = keys ++ items ∧ List.Forall₂ NamesColumn keys columns ∧
    ∀ item ∈ items, ∃ agg, CallsAggregate item agg

/-- The list is representable and, unless it has a wildcard, read as it is written. -/
structure FaithfulList (schema : Schema) (groupBy : GroupByExpr) (columns : List String)
    (projection : List SelectItem) : Prop where
  representable : Representable groupBy projection
  asWritten : (∀ item ∈ projection, ¬ IsWildcard item) → ReadAsWritten schema columns projection

end Lists

section Readings
variable [SqlText] {projection : List SelectItem}

omit [SqlText] in
theorem namesColumn_iff {item : SelectItem} {c : String} :
    NamesColumn item c ↔ itemAsColumn item = some c := by
  constructor
  · rintro ⟨id, rfl, rfl⟩
    rfl
  · intro h
    cases item with
    | unnamedExpr e =>
      cases e with
      | identifier id => exact ⟨id, rfl, Option.some.inj h⟩
      | _ => cases h
    | _ => cases h

/-- An aggregate is read as the one it is. -/
theorem reads_of_calls {item : SelectItem} {agg : AggExpr} (calls : CallsAggregate item agg) :
    ReadsAggregate item agg := by
  cases calls with
  | @ofColumn name id build named =>
    have read (f : Function Expr) (h : exprToAgg f = .ok (build id.value)) :
        ReadsAggregate (.unnamedExpr (.function f)) (build id.value) := by
      rw [ReadsAggregate, itemAsAgg, h]
      rfl
    apply read
    generalize upper : SqlText.toUppercase name.value = text at named
    cases named <;>
      simp [exprToAgg, upper, columnAgg, countAgg, columnFromArg, Except.map]
  | @countStar name named =>
    have counted : exprToAgg ⟨[name], [.unnamed .wildcard], false, none, none⟩ =
        .ok .countStar := by
      simp [exprToAgg, named, countAgg]
    rw [ReadsAggregate, itemAsAgg, counted]
    rfl

/-- A plain column is not read as an aggregate. -/
theorem not_reads_of_names {item : SelectItem} {c : String} {agg : AggExpr}
    (names : NamesColumn item c) : ¬ ReadsAggregate item agg := by
  obtain ⟨id, rfl, _⟩ := names
  nofun

theorem not_calls_of_names {item : SelectItem} {c : String} {agg : AggExpr}
    (names : NamesColumn item c) : ¬ CallsAggregate item agg :=
  fun calls => not_reads_of_names names (reads_of_calls calls)

/-- In a representable list only aggregates are read as such. -/
theorem calls_of_reads {groupBy : GroupByExpr} (representable : Representable groupBy projection)
    {item : SelectItem} (inside : item ∈ projection) {agg : AggExpr}
    (reads : ReadsAggregate item agg) : CallsAggregate item agg := by
  rcases representable.items item inside with wild | ⟨c, names⟩ | ⟨agg', calls⟩
  · cases item with
    | unnamedExpr e => exact wild.elim
    | exprWithAlias e name => exact wild.elim
    | qualifiedWildcard name => cases reads
    | wildcard => cases reads
  · exact absurd reads (not_reads_of_names names)
  · rw [Option.some.inj (reads.symm.trans (reads_of_calls calls))]
    exact calls

omit [SqlText] in
/-- Every item of the list has its part in what a reading keeps. -/
theorem forall₂_filterMap {α β : Type} {f : α → Option β} {xs : List α}
    (all : ∀ x ∈ xs, ∃ y, f x = some y) :
    List.Forall₂ (fun x y => f x = some y) xs (xs.filterMap f) := by
  induction xs with
  | nil => exact .nil
  | cons x xs ih =>
    obtain ⟨⟨y, hy⟩, rest⟩ := List.forall_mem_cons.mp all
    rw [List.filterMap_cons_some hy]
    exact .cons hy (ih rest)

theorem calls_filterMap (all : ∀ item ∈ projection, ∃ agg, CallsAggregate item agg) :
    List.Forall₂ CallsAggregate projection (projection.filterMap itemAsAgg) := by
  induction projection with
  | nil => exact .nil
  | cons item rest ih =>
    obtain ⟨⟨agg, calls⟩, others⟩ := List.forall_mem_cons.mp all
    rw [List.filterMap_cons_some (reads_of_calls calls)]
    exact .cons calls (ih others)

omit [SqlText] in
theorem names_filterMap (all : ∀ item ∈ projection, ∃ c, NamesColumn item c) :
    List.Forall₂ NamesColumn projection (projection.filterMap itemAsColumn) := by
  have read : ∀ item ∈ projection, ∃ c, itemAsColumn item = some c :=
    fun item inside => (all item inside).imp (fun _ => namesColumn_iff.mp)
  have kept := forall₂_filterMap read
  exact kept.imp (fun _ _ => namesColumn_iff.mpr)

omit [SqlText] in
/-- A traversal succeeds when every item has a reading. -/
theorem mapM_eq_filterMap {α β : Type} {f : α → Option β} {xs : List α} {ys : List β} :
    xs.mapM f = some ys ↔ (∀ x ∈ xs, ∃ y, f x = some y) ∧ ys = xs.filterMap f := by
  rw [mapM_eq_some]
  constructor
  · intro each
    have all : ∀ x ∈ xs, ∃ y, f x = some y :=
      fun x inside => (exists_of_forall₂ each x inside).imp (fun _ => And.right)
    exact ⟨all, Option.some.inj ((mapM_eq_some.mpr each).symm.trans
      (mapM_eq_some.mpr (forall₂_filterMap all)))⟩
  · rintro ⟨all, rfl⟩
    exact forall₂_filterMap all

/-- The reading as aggregates applies when there are items and all have that reading. -/
theorem projectionAsAggs_eq_some {aggs : List AggExpr} :
    projectionAsAggs projection = some aggs ↔ projection ≠ [] ∧
      (∀ item ∈ projection, ∃ agg, ReadsAggregate item agg) ∧
      aggs = projection.filterMap itemAsAgg := by
  rw [projectionAsAggs]
  cases projection with
  | nil => simp
  | cons item rest =>
    rw [and_iff_right (List.cons_ne_nil item rest)]
    refine Iff.trans ?_ mapM_eq_filterMap
    cases h : (item :: rest).mapM itemAsAgg with
    | none => simp
    | some found =>
      obtain ⟨all, rfl⟩ := mapM_eq_filterMap.mp h
      obtain ⟨agg, hagg⟩ := all item List.mem_cons_self
      rw [List.filterMap_cons_some hagg]

/-- Under GROUP BY the aggregates are kept and the columns are left out. -/
theorem projectionAsAggsWithGroup_eq_ok {columns : List String} {aggs : List AggExpr}
    (h : projectionAsAggsWithGroup columns projection = .ok aggs) :
    aggs = projection.filterMap itemAsAgg := by
  induction projection generalizing aggs with
  | nil =>
    cases h
    rfl
  | cons item rest ih =>
    cases item with
    | unnamedExpr e =>
      cases e with
      | identifier id =>
        rw [projectionAsAggsWithGroup] at h
        by_cases listed : id.value ∈ columns
        · rw [if_pos listed] at h
          exact ih h
        · rw [if_neg listed] at h
          cases h
      | function f =>
        obtain ⟨agg, hagg, h⟩ := bind_eq_ok.mp h
        obtain ⟨others, hothers, same⟩ := bind_eq_ok.mp h
        cases same
        have reads : itemAsAgg (.unnamedExpr (.function f)) = some agg := by
          rw [itemAsAgg, hagg]
          rfl
        rw [List.filterMap_cons_some reads, ih hothers]
      | _ => cases h
    | _ => cases h

/-- Under GROUP BY every item is a group column or is read as an aggregate. -/
theorem grouped_item {columns : List String} {item : SelectItem}
    (h : groupItem columns item = true) :
    (∃ c ∈ columns, NamesColumn item c) ∨ ∃ agg, ReadsAggregate item agg := by
  cases item with
  | unnamedExpr e =>
    cases e with
    | identifier id => exact Or.inl ⟨id.value, of_decide_eq_true h, id, rfl, rfl⟩
    | function f => exact Or.inr (Option.isSome_iff_exists.mp h)
    | _ => cases h
  | _ => cases h

variable {F : Type} {columns : List String} {input root : PlanNode F}

/-- The three readings of a select list, each with the lists it applies to. -/
theorem selectClause_cases (h : selectClause projection columns input = .ok root) :
    (columns ≠ [] ∧ root = .groupBy input columns (projection.filterMap itemAsAgg) ∧
      ∀ item ∈ projection, (∃ c ∈ columns, NamesColumn item c) ∨
        ∃ agg, ReadsAggregate item agg) ∨
    (columns = [] ∧ root = .aggregate input (projection.filterMap itemAsAgg) ∧
      projection ≠ [] ∧ ∀ item ∈ projection, ∃ agg, ReadsAggregate item agg) ∨
    (columns = [] ∧ root = (if projection.filterMap itemAsColumn ≠ []
        then .project input (projection.filterMap itemAsColumn) else input) ∧
      (projection ≠ [] → ∃ item ∈ projection, ¬ ∃ agg, ReadsAggregate item agg)) := by
  unfold selectClause at h
  by_cases grouped : columns ≠ []
  · rw [if_pos grouped] at h
    obtain ⟨aggs, haggs, rfl⟩ := map_eq_ok.mp h
    refine Or.inl ⟨grouped, by rw [projectionAsAggsWithGroup_eq_ok haggs], ?_⟩
    intro item inside
    exact grouped_item ((grouped_ok_iff columns projection).mp ⟨aggs, haggs⟩ item inside)
  · rw [if_neg grouped] at h
    rw [not_ne_iff] at grouped
    cases hread : projectionAsAggs projection with
    | some aggs =>
      rw [hread] at h
      obtain ⟨some_item, all, rfl⟩ := projectionAsAggs_eq_some.mp hread
      exact Or.inr (Or.inl ⟨grouped, (Except.ok.inj h).symm, some_item, all⟩)
    | none =>
      rw [hread] at h
      refine Or.inr (Or.inr ⟨grouped, (Except.ok.inj h).symm, fun some_item => ?_⟩)
      by_contra none
      have all : ∀ item ∈ projection, ∃ agg, ReadsAggregate item agg :=
        fun item inside => by_contra (fun other => none ⟨item, inside, other⟩)
      have read := projectionAsAggs_eq_some.mpr ⟨some_item, all, rfl⟩
      cases hread.symm.trans read

end Readings

end SelectLists
