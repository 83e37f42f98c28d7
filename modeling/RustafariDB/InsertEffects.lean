import RustafariDB.StoredRows
import RustafariDB.TableViews

/-!
# What a successful INSERT does

It appends its rows to its table in the order of VALUES. Everything else that a query can
see stays the same.
-/

namespace InsertEffects

open Values Catalogs Plans Floats Sessions Execution StatefulPrograms
open CatalogInvariants PlanEffects SessionInvariants TableViews

variable {F : Type} [Float64 F] [ValueDebug F] {s s' : SessionState F}
variable {ns : Option String} {table : String} {columns : List String}
variable {values : List (List (Value F))} {count : Nat}

/-- An INSERT that returns has stored all of its rows. -/
theorem insert_ok (run : executePlan (.insert table ns columns values) s =
    .ok (.rowsAffected count) s') :
    ∃ tm, s.tableMeta ns table = some tm ∧ count = values.length ∧
      s' = storedAll s tm values := by
  rw [executePlan_insert] at run
  cases htm : s.tableMeta ns table with
  | none =>
    rw [htm] at run
    cases run
  | some tm =>
    rw [htm] at run
    refine ⟨tm, rfl, ?_⟩
    rcases insertRows_cases tm values 0 s with ⟨_, clear⟩ | ⟨_, _, _, _, _, _, _, failed⟩
    · simp only [clear] at run
      cases run
      exact ⟨Nat.zero_add _, rfl⟩
    · simp only [failed] at run
      cases run

/-- A successful INSERT counts its rows, appends them to the scan of its table, and leaves the
catalog, the answers over every other table and its index as they were. -/
theorem insert_appends_exactly (h : Reachable s)
    (run : executePlan (.insert table ns columns values) s = .ok (.rowsAffected count) s') :
    count = values.length ∧ s'.catalog = s.catalog ∧
      (∃ rows, executePlan (.scan table ns) s = .ok (.rows rows) s ∧
        executePlan (.scan table ns) s' = .ok (.rows (rows ++ values.map .new)) s') ∧
      ∀ ns' table' tm', s.tableMeta ns' table' = some tm' →
        (ns'.getD "public", table') ≠ (ns.getD "public", table) →
        SameAnswers ns' table' s s' ∧
          ∀ column, s'.getIndex tm'.id column = s.getIndex tm'.id column := by
  have valid := reachable_valid h
  obtain ⟨tm, htm, counted, rfl⟩ := insert_ok run
  have catalog := catalog_storedAll s tm values
  have kept (ns' : Option String) (table' : String) :
      (storedAll s tm values).tableMeta ns' table' = s.tableMeta ns' table' := by
    rw [SessionState.tableMeta, catalog, SessionState.tableMeta]
  refine ⟨counted, catalog, ⟨scanRows s tm, executePlan_scan htm, ?_⟩, ?_⟩
  · have live : (storedAll s tm values).tableMeta ns table = some tm := (kept ns table).trans htm
    rw [executePlan_scan live, scanRows, scan_storedAll_self valid.freshRows, scanRows]
  · intro ns' table' tm' htm' otherName
    have other : tm.id ≠ tm'.id := by
      intro same
      obtain ⟨sameNs, sameTable⟩ := getTable_inj valid.catalog.toUniqueIds htm htm' same
      exact otherName (Prod.ext sameNs.symm sameTable.symm)
    have content := sameContent_storedAll (s := s) other values
    exact ⟨sameAnswers_of_view ⟨content, htm', (kept ns' table').trans htm'⟩, content.index⟩

/-- Two tables; the second has a buffered row. -/
def twoTables : SessionState Float :=
  runPlans [.createTable "t" none [("id", .bigInt)], .createTable "u" none [("id", .bigInt)],
    .insert "u" none [] [[.int64 7]]] .new

theorem insert_appends_exactly_two :
    outcome (executePlan (.insert "t" none [] [[.int64 2], [.int64 1]]) twoTables) =
        .ok (.rowsAffected 2) ∧
      SameAnswers none "u" twoTables
        (final (executePlan (.insert "t" none [] [[.int64 2], [.int64 1]]) twoTables)) := by
  have run : executePlan (.insert "t" none [] [[.int64 2], [.int64 1]]) twoTables =
      .ok (.rowsAffected 2)
        (final (executePlan (.insert "t" none [] [[.int64 2], [.int64 1]]) twoTables)) := rfl
  have appended := insert_appends_exactly (reachable_runPlans _ RunFrom.new) run
  exact ⟨rfl, (appended.2.2.2 none "u" _ rfl (by decide)).1⟩

end InsertEffects
