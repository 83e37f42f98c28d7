import Mathlib.Data.Finset.Sort
import Mathlib.Data.Set.Finite.Basic
import Mathlib.Data.String.Basic
import RustafariDB.CatalogMaps
import RustafariDB.TableIsolation

/-!
# What SHOW TABLES, SHOW DATABASES and DESCRIBE say

The lists are in ascending order and without repetitions. A name is listed when the last
CREATE TABLE or DROP TABLE that was about it is a CREATE TABLE, and then it has the columns
given there; a namespace is listed once anything was created in it.
-/

namespace CatalogListings

open Std OrderedMaps Catalogs Values Plans Floats Sessions Execution StatefulPrograms
open CatalogInvariants CatalogMaps SessionInvariants AnsweringMachines SqlPlanning SqlExecution
open NamedTables NamedTableRefinement TableIsolation

section Catalogs
variable {c : Catalog}

theorem mem_listNamespaces {ns : String} :
    ns ∈ c.listNamespaces ↔ (c.namespaceId ns).isSome := by
  rw [Catalog.listNamespaces, ExtTreeMap.mem_keys, Catalog.namespaceId,
    ← ExtTreeMap.contains_eq_isSome_getElem?, ExtTreeMap.contains_iff_mem]

theorem listNamespaces_sorted (c : Catalog) : c.listNamespaces.Pairwise (· < ·) :=
  (ExtTreeMap.ordered_keys (t := c.namespaces)).imp (fun less => compareOfLessAndEq_eq_lt.mp less)

/-- The bindings of one namespace, by name. -/
theorem listTables_names (valid : Valid c) (ns : String) :
    (c.listTables ns).map TableMeta.name = match c.namespaces[ns]? with
      | some i => (entriesWhere (fun key => key.1 == i) c.tablesByName).map (fun e => e.1.2)
      | none => [] := by
  rw [listTables_eq]
  cases c.namespaces[ns]? with
  | none => rfl
  | some i =>
    simp only [List.map_map]
    refine List.map_congr_left (fun e inside => ?_)
    obtain ⟨key, _⟩ := valid.byName e.1 e.2 (mem_entriesWhere.mp inside).1
    exact congrArg Prod.snd key

theorem mem_listTables (valid : Valid c) {ns table : String} :
    table ∈ (c.listTables ns).map TableMeta.name ↔ (c.getTable ns table).isSome := by
  rw [listTables_names valid, Catalog.getTable, Catalog.namespaceId]
  cases c.namespaces[ns]? with
  | none => simp
  | some i =>
    simp only [List.mem_map, Option.isSome_iff_exists]
    constructor
    · rintro ⟨⟨⟨j, name⟩, tm⟩, inside, rfl⟩
      obtain ⟨bound, own⟩ := mem_entriesWhere.mp inside
      obtain rfl : j = i := beq_iff_eq.mp own
      exact ⟨tm, bound⟩
    · rintro ⟨tm, bound⟩
      exact ⟨((i, table), tm), mem_entriesWhere.mpr ⟨bound, beq_self_eq_true i⟩, rfl⟩

theorem nodup_listTables (valid : Valid c) (ns : String) :
    ((c.listTables ns).map TableMeta.name).Nodup := by
  rw [listTables_names valid]
  cases c.namespaces[ns]? with
  | none => exact List.nodup_nil
  | some i =>
    refine List.pairwise_map.mpr ?_
    refine (entriesWhere_sorted (fun key => key.1 == i) c.tablesByName).imp_of_mem ?_
    rintro ⟨⟨j, name⟩, tm⟩ ⟨⟨j', name'⟩, tm'⟩ first second less rfl
    obtain rfl : j = i := beq_iff_eq.mp (mem_entriesWhere.mp first).2
    obtain rfl : j' = j := beq_iff_eq.mp (mem_entriesWhere.mp second).2
    exact OrientedCmp.not_lt_of_lt less less

end Catalogs

section Sessions
variable {F : Type} {s : SessionState F}

theorem listTables_sorted (valid : Valid s.catalog) (ns : Option String) :
    (s.listTables ns).Pairwise (· < ·) := by
  have sorted : (s.listTables ns).Pairwise (· ≤ ·) := List.pairwise_insertionSort _ _
  have distinct : (s.listTables ns).Nodup :=
    (List.perm_insertionSort _ _).nodup_iff.mpr (nodup_listTables valid _)
  refine (List.Pairwise.and sorted distinct).imp (fun both => ?_)
  exact Std.lt_of_le_of_ne both.1 both.2

theorem mem_session_listTables (valid : Valid s.catalog) {ns : Option String} {table : String} :
    table ∈ s.listTables ns ↔ (s.tableMeta ns table).isSome :=
  (List.perm_insertionSort _ _).mem_iff.trans (mem_listTables valid)

end Sessions

section Representation

/-- The names of a finite set, in order. -/
noncomputable def listed (names : Set String) : List String :=
  open Classical in if finite : names.Finite then finite.toFinset.sort (· ≤ ·) else []

theorem listed_eq {names : Set String} {l : List String} (sorted : l.Pairwise (· < ·))
    (same : ∀ name, name ∈ l ↔ name ∈ names) : listed names = l := by
  have finite : names.Finite := by
    refine (Finset.finite_toSet l.toFinset).subset (fun name inside => ?_)
    exact List.mem_toFinset.mpr ((same name).mpr inside)
  rw [listed, dif_pos finite]
  have increasing : l.Pairwise (· ≤ ·) := sorted.imp (fun less => Std.le_of_lt less)
  refine List.Perm.eq_of_pairwise ?_ (Finset.pairwise_sort _ _) increasing ?_
  · exact fun a b _ _ => Std.le_antisymm
  · refine (List.perm_ext_iff_of_nodup (Finset.sort_nodup _ _) ?_).mpr (fun name => ?_)
    · exact sorted.imp (fun less => Std.ne_of_lt less)
    · rw [Finset.mem_sort, Set.Finite.mem_toFinset, same]

variable {F : Type} [Float64 F] {s : SessionState F} {d : Database F}

theorem listDatabases_eq (represents : Represents d s) :
    s.listDatabases = listed d.namespaces := by
  refine (listed_eq (listNamespaces_sorted _) (fun ns => ?_)).symm
  exact mem_listNamespaces.trans (represents.namespaces ns).symm

theorem listTables_eq_listed (represents : Represents d s) (ns : Option String) :
    s.listTables ns = listed {table | (d.tables (ns.getD "public") table).isSome} := by
  have valid := represents.catalog
  refine (listed_eq (listTables_sorted valid ns) (fun table => ?_)).symm
  refine (mem_session_listTables valid).trans ?_
  change _ ↔ (d.tables (ns.getD "public") table).isSome = true
  rcases entry_cases represents ns table with ⟨unbound, none⟩ | ⟨tm, t, live, found, _⟩
  · rw [unbound, none]
    exact iff_of_false nofun nofun
  · rw [live, found]
    exact iff_of_true rfl rfl

end Representation

section Declarations
variable {F : Type}

/-- What is declared under a name after a statement: the columns of its CREATE TABLE, or
nothing after its DROP TABLE. -/
def declares (p : PlanNode F) (ns table : String)
    (known : Option (List (String × ColumnType))) : Option (List (String × ColumnType)) :=
  match p with
  | .createTable _ _ columns => if place p = (ns, table) then some columns else known
  | .dropTable _ _ => if place p = (ns, table) then none else known
  | _ => known

/-- The statement creates a table in a namespace. -/
def opens (p : PlanNode F) (ns : String) : Bool := creates p && decide ((place p).1 = ns)

variable [Float64 F] [FloatText F] [SqlText] [SqlParser]

variable (F) in
/-- What is declared under a name after some texts. -/
def declared (texts : List String) (ns table : String) : Option (List (String × ColumnType)) :=
  texts.foldl (fun known sql =>
    match (sqlToPlan sql : Except RustafariError (PlanNode F)) with
    | .ok p => declares p ns table known
    | .error _ => known) none

variable (F) in
/-- Some text creates a table in a namespace. -/
def opened (texts : List String) (ns : String) : Bool :=
  texts.any (fun sql =>
    match (sqlToPlan sql : Except RustafariError (PlanNode F)) with
    | .ok p => opens p ns
    | .error _ => false)

variable [ValueDebug F]

omit [FloatText F] [SqlText] [SqlParser] [ValueDebug F] in
theorem columns_insert (values : List (List (Value F))) (t : Table F) :
    (t.insert values).2.columns = t.columns := by
  induction values generalizing t with
  | nil => rfl
  | cons vals values ih =>
    rw [Table.insert]
    cases t.refuses (.new vals) with
    | some e => rfl
    | none =>
      have pushed : (t.push (.new vals)).columns = t.columns := by
        rw [Table.push]
        split <;> rfl
      exact (ih _).trans pushed

/-- The columns of a declaration; all may be Null. -/
def declaredColumns (columns : List (String × ColumnType)) : List Column :=
  columns.map (fun c => ⟨c.1, c.2, true⟩)

omit [FloatText F] [SqlText] [SqlParser] in
theorem columns_execute {p : PlanNode F} (planned : Planned p) {d : Database F}
    {ns table : String} {known : Option (List (String × ColumnType))}
    (before : (d.tables ns table).map Table.columns = known.map declaredColumns) :
    ((Database.execute p d).2.tables ns table).map Table.columns =
      (declares p ns table known).map declaredColumns := by
  rw [tables_execute]
  by_cases own : place p = (ns, table)
  · rw [if_pos own]
    cases planned with
    | query select =>
      obtain ⟨source, name, reads⟩ := reads_of_select select
      have kept : declares p ns table known = known := by
        cases p with
        | createTable | dropTable => exact False.elim reads
        | _ => rfl
      rw [kept, ← before, act_query reads]
      cases d.tables ns table with
      | none => rfl
      | some t =>
        have flushed : t.flush.columns = t.columns := by
          rw [Table.flush]
          split <;> rfl
        simp only [Option.map_some, apply_ite Table.columns, flushed, ite_self]
    | insert name source columns values =>
      refine Eq.trans ?_ before
      cases d.tables ns table with
      | none => rfl
      | some t => exact congrArg some (columns_insert values t)
    | createTable name source columns =>
      rw [declares, if_pos own]
      rfl
    | dropTable name source =>
      rw [declares, if_pos own]
      cases d.tables ns table <;> rfl
    | describeTable name source =>
      refine Eq.trans ?_ before
      cases d.tables ns table <;> rfl
  · have kept : declares p ns table known = known := by
      cases p with
      | createTable | dropTable => exact if_neg own
      | _ => rfl
    rw [if_neg own, kept, before]

/-- The names and columns of the database are those its texts declare. -/
theorem database_declared (texts : List String) :
    (∀ ns table, ((after (database (F := F)) texts .empty).tables ns table).map Table.columns =
        (declared F texts ns table).map declaredColumns) ∧
      ∀ ns, ns ∈ (after (database (F := F)) texts .empty).namespaces ↔
        opened F texts ns = true := by
  induction texts using List.reverseRecOn with
  | nil => exact ⟨fun _ _ => rfl, fun _ => iff_of_false id (by simp [opened])⟩
  | append_singleton texts sql ih =>
    obtain ⟨tables, namespaces⟩ := ih
    simp only [after_append, after_cons, declared, opened, List.foldl_append, List.foldl_cons,
      List.foldl_nil, List.any_append, List.any_cons, List.any_nil, Bool.or_false, Bool.or_eq_true]
    cases planned : (sqlToPlan sql : Except RustafariError (PlanNode F)) with
    | error e =>
      rw [database_of_error planned]
      exact ⟨tables, fun ns => (namespaces ns).trans (or_iff_left nofun).symm⟩
    | ok p =>
      rw [database_of_ok planned]
      refine ⟨fun ns table => columns_execute (planned_of_sql planned) (tables ns table), ?_⟩
      intro ns
      have added : (Database.execute p (after database texts .empty)).2.namespaces =
          if creates p then insert (place p).1 (after database texts .empty).namespaces
          else (after database texts .empty).namespaces := rfl
      change ns ∈ (Database.execute p (after database texts .empty)).2.namespaces ↔
        opened F texts ns = true ∨ opens p ns = true
      rw [added, opens, ← namespaces ns]
      cases creates p with
      | false => simp
      | true => simp [or_comm, eq_comm]

/-- After any texts, SHOW TABLES and SHOW DATABASES list in ascending order exactly the names
that are declared and the namespaces that were created in, and DESCRIBE shows the declared
columns. -/
theorem listings_are_declared (texts : List String) :
    (∀ ns, ((after (session (F := F)) texts .new).listTables ns).Pairwise (· < ·) ∧
        ∀ table, table ∈ (after (session (F := F)) texts .new).listTables ns ↔
          (declared F texts (ns.getD "public") table).isSome = true) ∧
      ((after (session (F := F)) texts .new).listDatabases.Pairwise (· < ·) ∧
        ∀ ns, ns ∈ (after (session (F := F)) texts .new).listDatabases ↔
          opened F texts ns = true) ∧
      ∀ ns table,
        outcome (executePlan (.describeTable table ns) (after (session (F := F)) texts .new)) =
          match declared F texts (ns.getD "public") table with
          | some columns => .ok (.rows (columns.map (fun c =>
              .new [.string c.1, .string (columnTypeName c.2), .string "YES"])))
          | none => .error (unknown (ns, table)) := by
  obtain ⟨tables, namespaces⟩ := database_declared (F := F) texts
  have represents := (refines_run (session_refines (F := F)) texts represents_new).2
  refine ⟨fun ns => ⟨listTables_sorted represents.catalog ns, fun table => ?_⟩,
    ⟨listNamespaces_sorted _, fun ns => ?_⟩, fun ns table => ?_⟩
  · rw [mem_session_listTables represents.catalog]
    have entry := tables (ns.getD "public") table
    rcases entry_cases represents ns table with ⟨unbound, none⟩ | ⟨tm, t, live, found, holds⟩
    · rw [none] at entry
      rw [unbound, Option.map_eq_none_iff.mp entry.symm]
      exact iff_of_false nofun nofun
    · rw [found] at entry
      obtain ⟨columns, known, _⟩ := Option.map_eq_some_iff.mp entry.symm
      rw [live, known]
      exact iff_of_true rfl rfl
  · exact mem_listNamespaces.trans ((represents.namespaces ns).symm.trans (namespaces ns))
  · rw [← (execute_refines (.describeTable table ns) represents).1, answer_execute]
    have entry := tables (ns.getD "public") table
    change (act _
      ((after (database (F := F)) texts .empty).tables (ns.getD "public") table)).1 = _
    cases found : (after (database (F := F)) texts .empty).tables (ns.getD "public") table with
    | none =>
      rw [found] at entry
      rw [Option.map_eq_none_iff.mp entry.symm]
      rfl
    | some t =>
      rw [found] at entry
      obtain ⟨columns, known, same⟩ := Option.map_eq_some_iff.mp entry.symm
      rw [known]
      change Except.ok (ExecutionResult.rows t.describe) = _
      rw [Table.describe, ← same, declaredColumns, List.map_map]
      rfl

end Declarations

end CatalogListings
