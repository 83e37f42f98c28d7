import RustafariDB.SessionInvariants

/-!
# When a failed INSERT leaves nothing behind

INSERT stores each row before it converts the row's key, so a row whose id cannot
be indexed stays in the row store together with every row before it. The result
says exactly which inserts are atomic on error; it does not repair the others.
-/

namespace InsertAtomicity

open Std Catalogs Values RowStorage ColumnarStorage BTreeIndexing Plans Floats Sessions
open Execution PlanEffects SessionInvariants StatefulPrograms

variable {F : Type}

/-- Catalog, stored rows, indexes and columnar content are what they were. -/
structure SameContents (s s' : SessionState F) : Prop where
  catalog : s'.catalog = s.catalog
  rows : s'.rowStore.data = s.rowStore.data
  indexes : s'.indexStore = s.indexStore
  columnar : ∀ t, s'.columnarStore.chunksOf t = s.columnarStore.chunksOf t ∧
    s'.buffered t = s.buffered t

theorem sameContents_refl (s : SessionState F) : SameContents s s :=
  ⟨rfl, rfl, rfl, fun _ => ⟨rfl, rfl⟩⟩

/-- Some row to insert has a value in the id column that no key can be made of. -/
def HasUnindexableId [Float64 F] (s : SessionState F) (ns : Option String) (table : String)
    (values : List (List (Value F))) : Prop :=
  ∃ tm i, s.tableMeta ns table = some tm ∧ tm.schema.columnIndex "id" = some i ∧
    ∃ vals ∈ values, ∃ v, vals[i]? = some v ∧ ∃ e, IndexKey.fromValue v = .error e

section Conditions

variable [Float64 F] {s : SessionState F} {tm : TableMeta}

/-- In a valid session a row is blocked exactly by an unindexable id. -/
theorem blockedBy_isSome_iff (valid : SessionValid s) (bound : Bound s tm)
    (vals : List (Value F)) :
    (blockedBy s tm (.new vals)).isSome ↔
      ∃ i, tm.schema.columnIndex "id" = some i ∧
        ∃ v, vals[i]? = some v ∧ ∃ e, IndexKey.fromValue v = .error e := by
  rw [blockedBy]
  cases hcol : tm.schema.columnIndex "id" with
  | none => simp
  | some i =>
    obtain ⟨index, hindex⟩ := index_of_idColumn valid bound hcol
    simp only [hindex, Row.get_new, Option.some.injEq, exists_eq_left']
    cases hval : vals[i]? with
    | none => simp
    | some v =>
      cases hkey : IndexKey.fromValue v with
      | error e => simp [hkey]
      | ok key => simp [hkey]

/-- The row that stopped an INSERT is in the row store. -/
theorem stranded_changes_rows (valid : SessionValid s) (before : List (List (Value F)))
    (row : Row F) :
    ¬ SameContents s (withRow (storedAll s tm before) tm.id row) := by
  intro same
  have scanned : scanRows (withRow (storedAll s tm before) tm.id row) tm = scanRows s tm := by
    rw [scanRows, scanRows, TableStore.scan, TableStore.scan, same.rows]
  have lengths := congrArg List.length scanned
  rw [scanRows_withRow (fresh_storedAll valid.freshRows tm before), scanRows,
    scan_storedAll_self valid.freshRows, scanRows] at lengths
  simp only [List.length_append, List.length_cons, List.length_nil] at lengths
  omega

end Conditions

section Statement

variable [Float64 F] [ValueDebug F] {s : SessionState F}

/-- An INSERT that fails leaves the session's contents alone exactly when no row to
insert has an unindexable id. -/
theorem failed_insert_atomic_iff (h : Reachable s) (ns : Option String) (table : String)
    (columns : List String) (values : List (List (Value F))) :
    (∀ e s', executePlan (.insert table ns columns values) s = .error (.error e) s' →
      SameContents s s') ↔ ¬ HasUnindexableId s ns table values := by
  have valid := reachable_valid h
  cases htm : s.tableMeta ns table with
  | none =>
    constructor
    · rintro _ ⟨tm, _, htm', _⟩
      rw [htm] at htm'
      cases htm'
    · intro _ e s' run
      rw [executePlan_insert, htm] at run
      cases run
      exact sameContents_refl s
  | some tm =>
    have bound := bound_of_tableMeta htm
    rcases insertRows_cases tm values 0 s with
      ⟨clear, run⟩ | ⟨before, vals, after, e, rfl, _, blocked, run⟩
    · have succeeded : executePlan (.insert table ns columns values) s =
          .ok (.rowsAffected (0 + values.length)) (storedAll s tm values) := by
        rw [executePlan_insert, htm]
        simp only [run]
      constructor
      · rintro _ ⟨tm', i, htm', hcol, vals, hvals, bad⟩
        obtain rfl : tm = tm' := Option.some.inj (htm.symm.trans htm')
        have stopped := (blockedBy_isSome_iff valid bound vals).mpr ⟨i, hcol, bad⟩
        rw [clear vals hvals] at stopped
        cases stopped
      · intro _ e s' failed
        rw [succeeded] at failed
        cases failed
    · have failed : executePlan (.insert table ns columns (before ++ vals :: after)) s =
          .error (.error e) (withRow (storedAll s tm before) tm.id (.new vals)) := by
        rw [executePlan_insert, htm]
        simp only [run]
      constructor
      · intro atomic
        exact False.elim (stranded_changes_rows valid before (.new vals) (atomic e _ failed))
      · intro none_bad
        obtain ⟨i, hcol, bad⟩ :=
          (blockedBy_isSome_iff valid bound vals).mp (by rw [blocked]; rfl)
        exact False.elim (none_bad ⟨tm, i, htm, hcol, vals, by simp, bad⟩)

end Statement

section Examples

/-- An empty table with an id column. -/
def oneTable : SessionState Float :=
  runPlans [.createTable "t" none [("id", .bigInt), ("amount", .bigInt)]] .new

theorem failed_insert_atomic_iff_nullId :
    ¬ ∀ e s', executePlan (.insert "t" none [] [[.null]]) oneTable = .error (.error e) s' →
      SameContents oneTable s' := by
  intro atomic
  have none_bad := (failed_insert_atomic_iff (reachable_runPlans _ RunFrom.new) none "t" []
    [[.null]]).mp atomic
  exact none_bad ⟨_, 0, rfl, rfl, [.null], by simp, .null, rfl, _, rfl⟩

/-- The second row has a NULL id: the statement fails and both rows are stored. -/
theorem failed_insert_keeps_rows :
    ¬ ∀ (s : SessionState Float), Reachable s →
      ∀ (ns : Option String) (table : String) (columns : List String)
        (values : List (List (Value Float))) (e : RustafariError) (s' : SessionState Float),
        executePlan (.insert table ns columns values) s = .error (.error e) s' →
          SameContents s s' := by
  intro atomic
  have same := atomic oneTable (reachable_runPlans _ RunFrom.new) none "t" []
    [[.int64 1, .int64 10], [.null, .int64 20]] (.index "null not indexable") _ rfl
  have sizes := congrArg ExtTreeMap.size same.rows
  exact absurd sizes (by decide)

end Examples

end InsertAtomicity
