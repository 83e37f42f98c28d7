import Mathlib.Data.List.Infix
import RustafariDB.SessionInvariants

/-!
# Which statements keep the rows of a named table

A table's rows are found through the name it is bound to. Every statement keeps
the rows a name leads to as a prefix, except a DROP TABLE of the name and a
CREATE TABLE of it, which binds the name to a new table without any.
-/

namespace NameBinding

open Std Catalogs Values RowStorage Plans Floats Sessions Execution StatefulPrograms
open CatalogInvariants PlanEffects SessionInvariants

variable {F : Type} [Float64 F] [ValueDebug F]

/-- What `Scan` of the name returned before the statement is a prefix of what it returns
afterwards. -/
def RowsKept (s : SessionState F) (p : PlanNode F) (ns : Option String) (table : String) :
    Prop :=
  ∃ before after, outcome (executePlan (.scan table ns) s) = .ok (.rows before) ∧
    outcome (executePlan (.scan table ns) (final (executePlan p s))) = .ok (.rows after) ∧
    before <+: after

/-- The plan executes a DROP TABLE of the name. -/
def Drops (p : PlanNode F) (ns : Option String) (table : String) : Prop :=
  ∃ ns', executedLeaf p = .dropTable table ns' ∧ ns'.getD "public" = ns.getD "public"

/-- The plan executes a CREATE TABLE of the name. -/
def Creates (p : PlanNode F) (ns : Option String) (table : String) : Prop :=
  ∃ ns' columns, executedLeaf p = .createTable table ns' columns ∧
    ns'.getD "public" = ns.getD "public"

section Readings

variable {s : SessionState F} {tm : TableMeta} {ns : Option String} {table : String}
variable {p : PlanNode F}

theorem scan_outcome_iff (s : SessionState F) (ns : Option String) (table : String)
    (rows : List (Row F)) :
    outcome (executePlan (.scan table ns) s) = .ok (.rows rows) ↔
      ∃ tm, s.tableMeta ns table = some tm ∧ rows = scanRows s tm := by
  cases htm : s.tableMeta ns table with
  | none =>
    have unknown : outcome (executePlan (.scan table ns) s) =
        .error (.error (.tableNotFound (ns.getD "public" ++ "." ++ table))) := by
      simp only [executePlan, bind_run, get_run, resolveTable, htm]
      rfl
    rw [unknown]
    simp
  | some tm =>
    rw [executePlan_scan htm, outcome_ok]
    constructor
    · intro h
      cases h
      exact ⟨tm, rfl, rfl⟩
    · rintro ⟨tm', htm', rfl⟩
      obtain rfl := Option.some.inj htm'
      rfl

theorem rowsKept_iff (htm : s.tableMeta ns table = some tm) :
    RowsKept s p ns table ↔ ∃ tm', (final (executePlan p s)).tableMeta ns table = some tm' ∧
      scanRows s tm <+: scanRows (final (executePlan p s)) tm' := by
  simp only [RowsKept, scan_outcome_iff, htm]
  constructor
  · rintro ⟨_, _, ⟨tm1, h1, rfl⟩, ⟨tm', h', rfl⟩, kept⟩
    obtain rfl := Option.some.inj h1
    exact ⟨tm', h', kept⟩
  · rintro ⟨tm', h', kept⟩
    exact ⟨_, _, ⟨tm, rfl, rfl⟩, ⟨tm', h', rfl⟩, kept⟩

/-- Statements that leave the binding and only add rows to the table keep its rows. -/
theorem rowsKept_of_frame (htm : s.tableMeta ns table = some tm)
    (catalog : (final (executePlan p s)).catalog = s.catalog)
    (kept : scanRows s tm <+: scanRows (final (executePlan p s)) tm) :
    RowsKept s p ns table := by
  refine (rowsKept_iff htm).mpr ⟨tm, ?_, kept⟩
  rw [SessionState.tableMeta, catalog]
  exact htm

end Readings

section Statements

variable {s : SessionState F} {tm : TableMeta} {ns : Option String} {table : String}
variable {p : PlanNode F}

omit [ValueDebug F] in
theorem scanRows_extended_storedAll (fresh : s.rowStore.Fresh) (tm' : TableMeta)
    (values : List (List (Value F))) :
    scanRows s tm <+: scanRows (storedAll s tm' values) tm := by
  by_cases same : tm.id = tm'.id
  · rw [scanRows, scanRows, same, scan_storedAll_self fresh]
    exact List.prefix_append _ _
  · rw [scanRows, scanRows, scan_storedAll_other same]

omit [Float64 F] [ValueDebug F] in
theorem scanRows_extended_withRow (fresh : s.rowStore.Fresh) (t : Nat) (row : Row F) :
    scanRows s tm <+: scanRows (withRow s t row) tm := by
  by_cases same : tm.id = t
  · subst same
    rw [scanRows_withRow fresh]
    exact List.prefix_append _ _
  · rw [scanRows, scanRows, withRow, TableStore.scan_insert_other same]

theorem insert_keeps_rows (valid : SessionValid s) (htm : s.tableMeta ns table = some tm)
    {table' : String} {ns' : Option String} {columns : List String}
    {values : List (List (Value F))} (leaf : executedLeaf p = .insert table' ns' columns values) :
    RowsKept s p ns table := by
  have final_eq : final (executePlan p s) =
      final (executePlan (.insert table' ns' columns values) s) := by
    rw [final_executedLeaf, leaf]
  cases htm' : s.tableMeta ns' table' with
  | none =>
    have still : final (executePlan p s) = s := by
      rw [final_eq, executePlan_insert, htm']
      rfl
    exact rowsKept_of_frame htm (by rw [still]) (by rw [still])
  | some tm' =>
    rcases insertRows_cases tm' values 0 s with
      ⟨_, run⟩ | ⟨before, vals, after, e, _, _, _, run⟩
    · have state : final (executePlan p s) = storedAll s tm' values := by
        rw [final_eq, executePlan_insert, htm']
        simp only [run]
        rfl
      refine rowsKept_of_frame htm ?_ ?_
      · rw [state, catalog_storedAll]
      · rw [state]
        exact scanRows_extended_storedAll valid.freshRows tm' values
    · have state : final (executePlan p s) =
          withRow (storedAll s tm' before) tm'.id (.new vals) := by
        rw [final_eq, executePlan_insert, htm']
        simp only [run]
        rfl
      refine rowsKept_of_frame htm ?_ ?_
      · rw [state]
        exact catalog_storedAll s tm' before
      · rw [state]
        have fresh := fresh_storedAll valid.freshRows tm' before
        exact (scanRows_extended_storedAll valid.freshRows tm' before).trans
          (scanRows_extended_withRow fresh tm'.id (.new vals))

/-- CREATE TABLE keeps the rows of every other name, and of its own only if it had none. -/
theorem create_keeps_rows_iff (valid : SessionValid s) (htm : s.tableMeta ns table = some tm)
    {table' : String} {ns' : Option String} {columns : List (String × ColumnType)}
    (leaf : executedLeaf p = .createTable table' ns' columns) :
    RowsKept s p ns table ↔
      ¬ (ns'.getD "public" = ns.getD "public" ∧ table' = table) ∨ scanRows s tm = [] := by
  have state : final (executePlan p s) = createTable s ns' table' columns := by
    rw [final_executedLeaf, leaf, executePlan_createTable]
    rfl
  obtain ⟨hcatalog, hrows, _, _⟩ :=
    createTable_frame s ns' table' columns
  rw [rowsKept_iff htm, state, SessionState.tableMeta, hcatalog,
    getTable_createTable valid.catalog.toUniqueIds]
  by_cases same : ns'.getD "public" = ns.getD "public" ∧ table' = table
  · have fresh := (createdMeta_fields s.catalog (ns'.getD "public") table'
      (createdSchema columns) none).1
    have empty : scanRows (createTable s ns' table' columns)
        (createdMeta s.catalog (ns'.getD "public") table' (createdSchema columns) none) = [] := by
      rw [scanRows, hrows, fresh, valid.noRows _ (Nat.le_refl _), List.map_nil]
    rw [if_pos same]
    constructor
    · rintro ⟨tm', h', kept⟩
      rw [← Option.some.inj h', empty] at kept
      exact Or.inr (List.prefix_nil.mp kept)
    · rintro (other | none)
      · exact False.elim (other same)
      · exact ⟨_, rfl, by rw [none]; exact List.nil_prefix⟩
  · rw [if_neg same]
    refine iff_of_true ⟨tm, htm, ?_⟩ (Or.inl same)
    rw [scanRows, scanRows, hrows]

/-- DROP TABLE keeps the rows of every other name. -/
theorem drop_keeps_rows_iff (valid : SessionValid s) (htm : s.tableMeta ns table = some tm)
    {table' : String} {ns' : Option String} (leaf : executedLeaf p = .dropTable table' ns') :
    RowsKept s p ns table ↔ ¬ (ns'.getD "public" = ns.getD "public" ∧ table' = table) := by
  have final_eq : final (executePlan p s) = final (executePlan (.dropTable table' ns') s) := by
    rw [final_executedLeaf, leaf]
  cases htm' : s.tableMeta ns' table' with
  | none =>
    have still : final (executePlan p s) = s := by
      rw [final_eq, executePlan_dropTable, htm']
      rfl
    refine iff_of_true
      (rowsKept_of_frame htm (by rw [still]) (by rw [still])) ?_
    rintro ⟨hns, rfl⟩
    rw [SessionState.tableMeta, hns] at htm'
    rw [SessionState.tableMeta, htm'] at htm
    cases htm
  | some tm' =>
    have state : final (executePlan p s) = dropTable s tm' ns' table' := by
      rw [final_eq, executePlan_dropTable, htm']
      rfl
    have lookup : (dropTable s tm' ns' table').tableMeta ns table =
        if ns'.getD "public" = ns.getD "public" ∧ table' = table then none
        else s.tableMeta ns table := getTable_dropTable valid.catalog.toUniqueIds _ _
    rw [rowsKept_iff htm, state, lookup, htm]
    by_cases same : ns'.getD "public" = ns.getD "public" ∧ table' = table
    · rw [if_pos same]
      simp [same]
    · rw [if_neg same]
      refine iff_of_true ⟨tm, rfl, ?_⟩ same
      have other : tm.id ≠ tm'.id := by
        intro hid
        have h := getTable_inj valid.catalog.toUniqueIds htm htm' hid
        exact same ⟨h.1.symm, h.2.symm⟩
      have rows : (dropTable s tm' ns' table').rowStore.scan tm.id = s.rowStore.scan tm.id :=
        TableStore.scan_dropTable_other other
      rw [scanRows, scanRows, rows]

section Leaves
omit [Float64 F] [ValueDebug F]
variable {p : PlanNode F} {ns ns' : Option String} {table table' : String}

/-- A leaf that is a DROP TABLE drops its own name. -/
theorem drops_iff (leaf : executedLeaf p = .dropTable table' ns') :
    Drops p ns table ↔ ns'.getD "public" = ns.getD "public" ∧ table' = table := by
  rw [Drops, leaf]
  constructor
  · rintro ⟨_, same, hns⟩
    cases same
    exact ⟨hns, rfl⟩
  · rintro ⟨hns, rfl⟩
    exact ⟨ns', rfl, hns⟩

/-- A leaf that is a CREATE TABLE creates its own name. -/
theorem creates_iff {columns : List (String × ColumnType)}
    (leaf : executedLeaf p = .createTable table' ns' columns) :
    Creates p ns table ↔ ns'.getD "public" = ns.getD "public" ∧ table' = table := by
  rw [Creates, leaf]
  constructor
  · rintro ⟨_, _, same, hns⟩
    cases same
    exact ⟨hns, rfl⟩
  · rintro ⟨hns, rfl⟩
    exact ⟨ns', columns, rfl, hns⟩

theorem not_drops (other : ∀ table ns, executedLeaf p ≠ .dropTable table ns) :
    ¬ Drops p ns table :=
  fun ⟨ns', leaf, _⟩ => other table ns' leaf

theorem not_creates (other : ∀ table ns columns, executedLeaf p ≠ .createTable table ns columns) :
    ¬ Creates p ns table :=
  fun ⟨ns', columns, leaf, _⟩ => other table ns' columns leaf

end Leaves

/-- A statement keeps the rows of a live name exactly when it does not drop the name, and
creates a table under it only if there were no rows. -/
theorem statement_keeps_rows_iff (h : Reachable s) (htm : s.tableMeta ns table = some tm)
    (p : PlanNode F) :
    RowsKept s p ns table ↔
      ¬ Drops p ns table ∧ (¬ Creates p ns table ∨ scanRows s tm = []) := by
  have valid := reachable_valid h
  rcases leaf_cases p with ⟨reader, flushes⟩ | ⟨table', ns', columns, values, leaf⟩ |
    ⟨table', ns', columns, leaf⟩ | ⟨table', ns', leaf⟩
  · obtain ⟨hcatalog, hrows, _⟩ := flushes_frame (flushes s)
    refine iff_of_true (rowsKept_of_frame htm hcatalog ?_) ⟨not_drops ?_, Or.inl (not_creates ?_)⟩
    · rw [scanRows, scanRows, hrows]
    · intro table ns leaf
      rw [leaf] at reader
      cases reader
    · intro table ns columns leaf
      rw [leaf] at reader
      cases reader
  · refine iff_of_true (insert_keeps_rows valid htm leaf)
      ⟨not_drops ?_, Or.inl (not_creates ?_)⟩
    · rw [leaf]
      rintro _ _ ⟨⟩
    · rw [leaf]
      rintro _ _ _ ⟨⟩
  · have keeps : ¬ Drops p ns table := not_drops (by
      rw [leaf]
      rintro _ _ ⟨⟩)
    rw [create_keeps_rows_iff valid htm leaf, creates_iff leaf, and_iff_right keeps]
  · have keeps : ¬ Creates p ns table := not_creates (by
      rw [leaf]
      rintro _ _ _ ⟨⟩)
    rw [drop_keeps_rows_iff valid htm leaf, drops_iff leaf, and_iff_left (Or.inl keeps)]

/-- A table with one row. -/
def oneRow : SessionState Float :=
  runPlans [.createTable "t" none [("id", .bigInt)], .insert "t" none [] [[.int64 1]]] .new

theorem oneRow_reachable : Reachable oneRow := reachable_runPlans _ RunFrom.new

def oneRowMeta : TableMeta := ⟨0, 0, "t", .new [⟨"id", .bigInt, true⟩], "row"⟩

theorem oneRow_live : oneRow.tableMeta none "t" = some oneRowMeta := rfl

theorem creating_another_keeps_rows :
    RowsKept oneRow (.createTable "u" none [("id", .bigInt)]) none "t" := by
  refine (statement_keeps_rows_iff oneRow_reachable oneRow_live _).mpr
    ⟨?_, Or.inl ?_⟩
  · rintro ⟨ns', leaf, _⟩
    cases leaf
  · rintro ⟨ns', columns, leaf, _⟩
    simp [executedLeaf] at leaf

/-- CREATE TABLE of an existing name hides its rows. -/
theorem creating_again_hides_rows :
    ¬ ∀ (s : SessionState Float), Reachable s → ∀ (ns : Option String) (table : String)
      (tm : TableMeta), s.tableMeta ns table = some tm →
      ∀ p : PlanNode Float, ¬ Drops p ns table → RowsKept s p ns table := by
  intro keeps
  have kept := keeps oneRow oneRow_reachable none "t" oneRowMeta oneRow_live
    (.createTable "t" none [("id", .bigInt)]) (by rintro ⟨ns', leaf, _⟩; cases leaf)
  obtain ⟨tm', htm', rows⟩ := (rowsKept_iff oneRow_live).mp kept
  cases htm'
  exact absurd rows.length_le (by decide)

end Statements

end NameBinding
