import RustafariDB.CatalogListings
import RustafariDB.CatalogPersistence
import RustafariDB.ColumnAddresses
import RustafariDB.Servers

/-!
# What servers remember

The server prints what it would print over databases of named tables, where a save keeps
a database and a load brings back its names and columns. The order in which a snapshot
lists the tables never shows, nor do ids, which a load counts on from the largest in use.
This needs that no text creates a table under a name that has one: the catalog then keeps
two tables for the name, and which of them a load brings back depends on the order.
-/

namespace ServerRestarts

open Std OrderedMaps Catalogs Values RowStorage ColumnarStorage Plans Floats Sessions Execution
open StatefulPrograms CatalogInvariants CatalogPersistence ColumnAddresses PlanEffects
open SessionInvariants
open AggregateAgreement FreshTables AnsweringMachines SqlPlanning SqlExecution NamedTables
open NamedTableRefinement CatalogListings Servers

section Databases
variable {F : Type}

/-- A table after a restart: no rows, and no index. -/
def restartedTable (t : Table F) : Table F := .empty t.columns false

/-- A database after a restart. -/
def restarted (d : Database F) : Database F :=
  { d with tables := fun ns table => (d.tables ns table).map restartedTable }

variable [Float64 F] [FloatText F] [SqlText] [SqlParser] [ValueDebug F]

variable (F) in
/-- Databases of named tables as an engine of the server. -/
noncomputable def databases : Engine F (Database F) (Database F) where
  new := .empty
  execute := database
  listDatabases := fun d => listed d.namespaces
  listTables := fun ns d => listed {table | (d.tables (ns.getD "public") table).isSome}
  toSnapshot := fun _ d => d
  loadSnapshot := restarted

/-- The text creates a table under a name that has one. -/
def Recreates (sql : String) (d : Database F) : Prop :=
  ∃ table ns columns, sqlToPlan sql = .ok (.createTable (F := F) table ns columns) ∧
    (d.tables (ns.getD "public") table).isSome

end Databases

section Reloads
variable {F : Type} [Float64 F] {d : Database F} {s : SessionState F}

/-- A state represents a database, and its catalog keeps one table for each name. -/
structure Remembers (s : SessionState F) (d : Database F) : Prop where
  represents : Represents d s
  consistent : Consistent s.catalog

theorem consistent_new : Consistent Catalog.new := by
  intro i tm h
  simp [Catalog.new] at h

theorem remembers_new : Remembers .new (.empty : Database F) :=
  ⟨represents_new, consistent_new⟩

/-- What a load brings back represents the database after a restart. -/
theorem remembers_reload (remembers : Remembers s d) {snap : CatalogSnapshot}
    (saved : s.catalog.ToSnapshot snap) :
    Remembers { SessionState.new with
      catalog := Catalog.new.loadSnapshot snap.throughJson } (restarted d) := by
  obtain ⟨represents, consistent⟩ := remembers
  have valid := represents.catalog
  have spaces := loaded_namespaces .new saved
  have byName := loaded_tablesByName_of_consistent .new valid consistent saved
  have byId := loaded_tablesById .new valid saved
  have bound (ns table : String) :
      (Catalog.new.loadSnapshot snap.throughJson).getTable ns table =
        s.catalog.getTable ns table := by
    rw [Catalog.getTable, Catalog.namespaceId, spaces, byName]
    rfl
  refine ⟨⟨valid_reload .new valid saved, ?_, fun i _ => unused_of_catalog i, ?_, ?_⟩, ?_⟩
  · exact (sessionValid_new (F := F)).freshRows
  · intro ns
    rw [Catalog.namespaceId, spaces]
    exact represents.namespaces ns
  · intro ns table
    simp only [bound, restarted]
    have entry := represents.tables ns table
    revert entry
    rcases s.catalog.getTable ns table with _ | tm <;> rcases d.tables ns table with _ | t
    · exact fun _ => .none
    · intro entry
      cases entry
    · intro entry
      cases entry
    · intro entry
      obtain ⟨holds⟩ := entry
      have nothing := unused_of_catalog (F := F)
        (c := Catalog.new.loadSnapshot snap.throughJson) tm.id
      refine .some ⟨holds.schema, ?_, ?_, ?_, ?_, nothing.buffer⟩
      · rw [scanRows, nothing.rows]
        rfl
      · rw [nothing.indexes]
        rfl
      · intro index indexed
        rw [nothing.indexes] at indexed
        cases indexed
      · rw [nothing.chunks]
        exact .nil
  · intro i tm known
    simp only [byName, byId] at known ⊢
    exact consistent i tm known

end Reloads

section Engines
variable {F : Type} [Float64 F] [FloatText F] [SqlText] [SqlParser] [ValueDebug F]
variable {d : Database F} {s : SessionState F}

omit [Float64 F] [FloatText F] [SqlText] [SqlParser] [ValueDebug F] in
/-- A planned statement that creates a table is a CREATE TABLE. -/
theorem createTable_of_leaf {p : PlanNode F} (planned : Planned p) {table : String}
    {ns : Option String} {columns : List (String × ColumnType)}
    (leaf : executedLeaf p = .createTable table ns columns) :
    p = .createTable table ns columns := by
  cases planned with
  | query select =>
    have reads := isQuery_of_selectPlan select
    clear select
    induction p with
    | project input _ ih =>
      obtain rfl := ih leaf reads
      cases reads
    | limit input _ _ ih =>
      obtain rfl := ih leaf reads
      cases reads
    | groupBy input _ _ ih =>
      obtain rfl := ih leaf reads
      cases reads
    | orderBy input _ ih =>
      obtain rfl := ih leaf reads
      cases reads
    | _ => exact leaf
  | _ => exact leaf

/-- The catalog keeps one table for each name when none is created twice. -/
theorem consistent_execute {sql : String} (remembers : Remembers s d)
    (permitted : ¬ Recreates sql d) :
    Consistent (final (execute sql s) : SessionState F).catalog := by
  obtain ⟨represents, consistent⟩ := remembers
  rw [execute_run]
  cases planned : (sqlToPlan sql : Except RustafariError (PlanNode F)) with
  | error e => exact consistent
  | ok p =>
    rcases catalog_cases p s with same | ⟨table, ns, columns, leaf, created⟩ | ⟨ns, table, dropped⟩
    · rwa [same]
    · obtain rfl := createTable_of_leaf (planned_of_sql planned) leaf
      rw [created]
      refine consistent_createTable represents.catalog consistent ?_ _ none
      rcases entry_cases represents ns table with ⟨unbound, _⟩ | ⟨_, t, _, found, _⟩
      · exact unbound
      · exact absurd ⟨table, ns, columns, planned, by rw [found]; rfl⟩ permitted
    · rw [dropped]
      exact consistent_dropTable represents.catalog consistent ns table

theorem sessions_correspond :
    Corresponds (fun sql d => ¬ Recreates sql d) Remembers (sessions (F := F)) (databases F) where
  new := remembers_new
  execute := by
    intro sql s d permitted remembers
    obtain ⟨answer, next⟩ := session_refines sql s d remembers.represents
    exact ⟨answer, next, consistent_execute remembers permitted⟩
  listDatabases := fun s d remembers => (listDatabases_eq remembers.represents).symm
  listTables := fun ns s d remembers => (listTables_eq_listed remembers.represents ns).symm
  reload := fun order s d remembers => remembers_reload remembers (order.lists s.catalog)

/-- Servers on one catalog file, started, killed and asked in any order, with any failures
to read or write the file, print what they would over databases of named tables that lose
their rows in a restart, if no text creates a table that is there. -/
theorem prints_of_named_tables (events : List Event)
    (permitted : Permitted (fun event h => ∀ sql d, (databases F).asked event h = some (sql, d) →
      ¬ Recreates sql d) (databases F).main events .empty) :
    answers (sessions (F := F)).main events .empty = answers (databases F).main events .empty :=
  (refinesWhere_run (main_refines sessions_correspond) events permitted sameHost_empty).1.symm

end Engines

section Restart

/-- A catalog is listed in the order of its keys. -/
def byKey : MapOrder where
  snapshot := fun c => ⟨c.namespaces.toList, c.tablesById.toList.map Prod.snd⟩
  lists := fun _ => ⟨List.Perm.refl _, List.Perm.refl _⟩

/-- A table is created, the shell killed and another started. -/
def restart : List Event :=
  [.shell 0 true, .line 0 " create table t (id bigint)" (.complete byKey), .kill 0, .shell 1 true,
    .line 1 "SHOW TABLES;" .unchanged]

theorem restart_prints :
    answers (sessions (F := Float)).main restart .empty =
      answers (databases Float).main restart .empty := by
  refine prints_of_named_tables restart ?_
  refine ⟨nofun, ?_, nofun, nofun, ?_, trivial⟩
  · -- the shell has just started, so no name has a table
    intro sql d asked
    have line : readInput " create table t (id bigint)" = .sql "create table t (id bigint)" := by
      decide
    simp only [Engine.asked, Engine.main, Host.set, if_pos, Option.bind_some, line] at asked
    obtain ⟨_, rfl⟩ := Prod.mk.inj (Option.some.inj asked)
    rintro ⟨table, ns, columns, _, found⟩
    cases found
  · intro sql d asked
    have line : readInput "SHOW TABLES;" = .showTables := by decide
    simp [Engine.asked, Engine.main, Host.set, line] at asked

end Restart

end ServerRestarts
