import RustafariDB.SessionInvariants

/-!
# What DROP TABLE releases

It visits the row store, the columnar store, the indexes and the catalog, and leaves every
other table alone. It does not visit the columnar buffer, so the entry a table got there
with its first row outlives the table.
-/

namespace TableRemoval

open Std Catalogs Values RowStorage ColumnarStorage Plans Floats Sessions Execution
open StatefulPrograms CatalogInvariants PlanEffects SessionInvariants

variable {F : Type}

/-- Two states hold the same under a table id. -/
structure SameTable (t : Nat) (s s' : SessionState F) : Prop where
  entry : s'.catalog.getTableById t = s.catalog.getTableById t
  rows : s'.rowStore.scan t = s.rowStore.scan t
  chunks : s'.columnarStore.chunks[t]? = s.columnarStore.chunks[t]?
  buffer : s'.columnarBuffer[t]? = s.columnarBuffer[t]?
  indexes : ∀ column, s'.getIndex t column = s.getIndex t column

/-- Nothing is kept under a table id. -/
structure Released (t : Nat) (s : SessionState F) : Prop where
  rows : ∀ rowId, s.rowStore.get t rowId = none
  chunks : s.columnarStore.chunks[t]? = none
  buffer : s.columnarBuffer[t]? = none
  indexes : ∀ column, s.getIndex t column = none

/-- The name and the data of the dropped table are gone, and only these. -/
structure RemovesOnly (ns : Option String) (table : String) (tm : TableMeta)
    (s s' : SessionState F) : Prop where
  released : Released tm.id s'
  name : s'.tableMeta ns table = none
  otherNames : ∀ ns' table', (ns'.getD "public", table') ≠ (ns.getD "public", table) →
    s'.tableMeta ns' table' = s.tableMeta ns' table'
  otherTables : ∀ t, t ≠ tm.id → SameTable t s s'

variable {s s' : SessionState F} {ns : Option String} {table : String} {tm : TableMeta}

section Dropping

theorem tableMeta_dropTable (valid : Valid s.catalog) (ns' : Option String) (table' : String) :
    (dropTable s tm ns table).tableMeta ns' table' =
      if ns.getD "public" = ns'.getD "public" ∧ table = table' then none
      else s.tableMeta ns' table' :=
  getTable_dropTable valid.toUniqueIds _ _

theorem chunks_dropTable (s : SessionState F) (t : Nat) :
    (dropTable s tm ns table).columnarStore.chunks[t]? =
      if tm.id = t then none else s.columnarStore.chunks[t]? := by
  simp only [dropTable, ColumnarStore.dropTable, ExtTreeMap.getElem?_erase,
    LawfulEqCmp.compare_eq_iff_eq]

theorem sameTable_dropTable (valid : Valid s.catalog) (resolved : s.tableMeta ns table = some tm)
    {t : Nat} (other : t ≠ tm.id) : SameTable t s (dropTable s tm ns table) := by
  constructor
  · have byId := tablesById_dropTable valid.toUniqueIds resolved t
    rwa [if_neg (Ne.symm other)] at byId
  · exact TableStore.scan_dropTable_other other
  · rw [chunks_dropTable, if_neg (Ne.symm other)]
  · rfl
  · intro column
    rw [getIndex_dropTable, if_neg (Ne.symm other)]

/-- A drop does all of its work exactly when the table has no entry in the columnar buffer. -/
theorem removesOnly_dropTable_iff (valid : Valid s.catalog)
    (resolved : s.tableMeta ns table = some tm) :
    RemovesOnly ns table tm s (dropTable s tm ns table) ↔ s.columnarBuffer[tm.id]? = none := by
  constructor
  · exact fun removed => removed.released.buffer
  · intro unbuffered
    constructor
    · constructor
      · intro rowId
        exact (TableStore.get_dropTable s.rowStore tm.id tm.id rowId).trans (if_pos rfl)
      · rw [chunks_dropTable, if_pos rfl]
      · exact unbuffered
      · intro column
        rw [getIndex_dropTable, if_pos rfl]
    · rw [tableMeta_dropTable valid, if_pos ⟨rfl, rfl⟩]
    · intro ns' table' other
      rw [tableMeta_dropTable valid, if_neg]
      rintro ⟨sameNs, sameTable⟩
      exact other (Prod.ext sameNs.symm sameTable.symm)
    · exact fun t other => sameTable_dropTable valid resolved other

end Dropping

section Statements
variable [Float64 F] [ValueDebug F] {result : ExecutionResult F}

theorem dropTable_ok (run : executePlan (.dropTable table ns) s = .ok result s') :
    ∃ tm, s.tableMeta ns table = some tm ∧ s' = dropTable s tm ns table := by
  rw [executePlan_dropTable] at run
  cases resolved : s.tableMeta ns table with
  | none =>
    rw [resolved] at run
    cases run
  | some tm =>
    rw [resolved] at run
    cases run
    exact ⟨tm, rfl, rfl⟩

/-- A successful DROP TABLE releases everything of its table, and only that, exactly when no
row of the table has ever been pushed to the columnar buffer. -/
theorem drop_releases_iff (h : Reachable s)
    (run : executePlan (.dropTable table ns) s = .ok result s') :
    ∃ tm, s.tableMeta ns table = some tm ∧
      (RemovesOnly ns table tm s s' ↔ s.columnarBuffer[tm.id]? = none) := by
  obtain ⟨tm, resolved, rfl⟩ := dropTable_ok run
  exact ⟨tm, resolved, removesOnly_dropTable_iff (reachable_valid h).catalog resolved⟩

/-- An empty table. -/
def emptyTable : SessionState Float :=
  runPlans [.createTable "t" none [("id", .bigInt)]] .new

theorem drop_releases_empty :
    ∃ tm, emptyTable.tableMeta none "t" = some tm ∧
      RemovesOnly none "t" tm emptyTable
        (final (executePlan (.dropTable "t" none) emptyTable)) := by
  have run : executePlan (.dropTable "t" none) emptyTable =
      .ok (.rowsAffected 0) (final (executePlan (.dropTable "t" none) emptyTable)) := rfl
  obtain ⟨tm, resolved, exact_when⟩ := drop_releases_iff (reachable_runPlans _ RunFrom.new) run
  refine ⟨tm, resolved, exact_when.mpr ?_⟩
  cases resolved
  rfl

/-- The row of a dropped table stays in the columnar buffer. -/
theorem dropped_row_stays_buffered :
    ¬ ∀ (s s' : SessionState Float) (ns : Option String) (table : String)
      (result : ExecutionResult Float), Reachable s →
      executePlan (.dropTable table ns) s = .ok result s' →
        ∃ tm, s.tableMeta ns table = some tm ∧ RemovesOnly ns table tm s s' := by
  intro releases
  have inserted : Reachable (runPlans [.createTable "t" none [("id", .bigInt)],
      .insert "t" none [] [[.int64 1]]] (SessionState.new : SessionState Float)) :=
    reachable_runPlans _ RunFrom.new
  obtain ⟨tm, resolved, removed⟩ := releases _ _ none "t" _ inserted rfl
  cases resolved
  have kept := removed.released.buffer
  cases kept

end Statements

end TableRemoval
