import RustafariDB.DocumentColumns
import RustafariDB.FreshTables
import RustafariDB.QueryEffects

/-!
# Columns and their names

A schema finds a column by the last position of its name, and a chunk by the first. CREATE
TABLE takes any list of names. Where one is given twice, the earlier column of the name is
not found by it, and every chunk stores the later column's values in its place.
-/

namespace ColumnAddresses

open Std OrderedMaps Catalogs Values ColumnarStorage Plans Floats Sessions Execution
open StatefulPrograms CatalogInvariants CatalogPersistence PlanEffects SessionInvariants
open QueryEffects FreshTables DocumentColumns

variable {F : Type}

section Schemas
variable {schema : Schema}

/-- Every column is found at its position by its name, in the schema and in its chunks. -/
structure Addressable (F : Type) (schema : Schema) : Prop where
  index : ∀ j col, schema.columns[j]? = some col → schema.columnIndex col.name = some j
  stored : ∀ (rows : List (Row F)) (j : Nat), j < schema.columns.length →
    (columnChunks schema rows)[j]?.map ColumnChunk.values =
      some (rows.map fun row => (row.get j).getD .null)
  agree : ∀ (chunkId : Nat) (rows : List (Row F)) (name : String),
    (ColumnarChunk.new chunkId (columnChunks schema rows)).column name =
      (schema.columnIndex name).bind fun j =>
        (columnChunks schema rows)[j]?.map ColumnChunk.values

/-- A name that is found wherever it stands stands at one position. -/
theorem nodup_of_addressable (addressable : Addressable F schema) :
    (names schema.columns).Nodup := by
  refine List.nodup_iff_getElem?_ne_getElem?.mpr fun j k less bound same => ?_
  rw [names, List.length_map] at bound
  have later := addressable.index k _ (List.getElem?_eq_getElem bound)
  have earlier := addressable.index j _ (List.getElem?_eq_getElem (less.trans bound))
  rw [names, List.getElem?_map, List.getElem?_map, List.getElem?_eq_getElem bound,
    List.getElem?_eq_getElem (less.trans bound)] at same
  rw [Option.some.inj same, later] at earlier
  exact less.ne (Option.some.inj earlier).symm

theorem addressable_of_nodup (built : schema = .new schema.columns)
    (distinct : (names schema.columns).Nodup) : Addressable F schema := by
  have position {name : String} {j : Nat} : schema.columnIndex name = some j ↔
      (names schema.columns)[j]? = some name := by
    rw [← columnIndex_eq_some distinct, ← built]
  have index (j : Nat) (col : Column) (listed : schema.columns[j]? = some col) :
      schema.columnIndex col.name = some j := by
    rw [position, names, List.getElem?_map, listed, Option.map_some]
  refine ⟨index, ?_, ?_⟩
  · intro rows j bound
    have listed : schema.columns[j]? = some schema.columns[j] := List.getElem?_eq_getElem bound
    rw [columnChunks, List.getElem?_map, listed]
    refine congrArg some (List.map_congr_left fun row _ => ?_)
    rw [cell, index j _ listed, Option.getD_some]
  · intro chunkId rows name
    have first : (ColumnarChunk.new chunkId (columnChunks schema rows)).column name =
        (schema.columns.find? fun col => col.name == name).map fun col =>
          rows.map (cell schema col) := by
      rw [ColumnarChunk.column, ColumnarChunk.new, columnChunks, List.find?_map, Option.map_map]
      rfl
    rw [first]
    cases search : schema.columns.find? fun col => col.name == name with
    | none =>
      have absent : schema.columnIndex name = none := by
        by_contra found
        obtain ⟨j, found⟩ := Option.ne_none_iff_exists'.mp found
        obtain ⟨col, inside, rfl⟩ := List.mem_map.mp (List.mem_of_getElem? (position.mp found))
        exact List.find?_eq_none.mp search col inside (beq_self_eq_true _)
      rw [absent]
      rfl
    | some col =>
      obtain rfl : col.name = name := by simpa using List.find?_some search
      obtain ⟨j, listed⟩ := List.getElem?_of_mem (List.mem_of_find?_eq_some search)
      rw [index j col listed, Option.bind_some, columnChunks, List.getElem?_map, listed]
      rfl

end Schemas

/-- Every table of the catalog has its columns under their names. -/
def AllAddressable (s : SessionState F) : Prop :=
  ∀ (i : Nat) (tm : TableMeta), s.catalog.tablesById[i]? = some tm → Addressable F tm.schema

section Runs
variable [Float64 F] [ValueDebug F]

/-- What happens to a server: a statement, or a restart from the saved catalog. -/
inductive ServerStep (F : Type) where
  | execute (p : PlanNode F)
  | restart

/-- The sessions that steps can lead to; the order of a saved catalog is open. -/
inductive Reached : List (ServerStep F) → SessionState F → Prop where
  | new : Reached [] .new
  | execute {steps : List (ServerStep F)} {s : SessionState F} (run : Reached steps s)
    (p : PlanNode F) : Reached (steps ++ [.execute p]) (final (executePlan p s))
  | restart {steps : List (ServerStep F)} {s : SessionState F} (run : Reached steps s)
    {snap : CatalogSnapshot} (saved : s.catalog.ToSnapshot snap) :
    Reached (steps ++ [.restart]) (startup (some snap.throughJson))

/-- The CREATE TABLE that a plan executes, if any, names its columns apart. -/
def NamesApart (p : PlanNode F) : Prop :=
  ∀ table ns columns, executedLeaf p = .createTable table ns columns →
    (columns.map Prod.fst).Nodup

/-- What a statement does to the catalog. -/
theorem catalog_cases (p : PlanNode F) (s : SessionState F) :
    (final (executePlan p s)).catalog = s.catalog ∨
      (∃ table ns columns, executedLeaf p = .createTable table ns columns ∧
        (final (executePlan p s)).catalog =
          (s.catalog.createTable (ns.getD "public") table (createdSchema columns) none).2) ∨
      ∃ ns table, (final (executePlan p s)).catalog = (s.catalog.dropTable ns table).2 := by
  rcases leaf_cases p with ⟨-, flushes⟩ | ⟨table, ns, columns, values, leaf⟩ |
    ⟨table, ns, columns, leaf⟩ | ⟨table, ns, leaf⟩
  · exact Or.inl (flushes_frame (flushes s)).1
  · rw [final_executedLeaf, leaf, executePlan_insert]
    cases s.tableMeta ns table with
    | none => exact Or.inl rfl
    | some tm =>
      rcases insertRows_cases tm values 0 s with ⟨-, run⟩ | ⟨before, vals, _, _, _, _, _, run⟩
      · simp only [run]
        exact Or.inl (catalog_storedAll s tm values)
      · simp only [run]
        exact Or.inl (catalog_storedAll s tm before)
  · rw [final_executedLeaf, leaf, executePlan_createTable]
    exact Or.inr (Or.inl ⟨table, ns, columns, rfl, (createTable_frame s ns table columns).1⟩)
  · rw [final_executedLeaf, leaf, executePlan_dropTable]
    cases s.tableMeta ns table with
    | none => exact Or.inl rfl
    | some tm => exact Or.inr (Or.inr ⟨_, table, rfl⟩)

/-- The tables of the catalog name their columns apart. -/
structure NamedApart (s : SessionState F) : Prop where
  catalog : Valid s.catalog
  tables : ∀ (i : Nat) (tm : TableMeta), s.catalog.tablesById[i]? = some tm →
    (names tm.schema.columns).Nodup

theorem names_createdSchema (columns : List (String × ColumnType)) :
    names (createdSchema columns).columns = columns.map Prod.fst := by
  rw [names, createdSchema, Schema.new, List.map_map]
  rfl

theorem namedApart_execute {s : SessionState F} {p : PlanNode F} (apart : NamedApart s)
    (statement : NamesApart p) : NamedApart (final (executePlan p s)) := by
  rcases catalog_cases p s with same | ⟨table, ns, columns, leaf, created⟩ | ⟨ns, table, dropped⟩
  · exact ⟨by rw [same]; exact apart.catalog, by rw [same]; exact apart.tables⟩
  · constructor
    · rw [created]
      exact valid_createTable apart.catalog
    · intro i tm listed
      rw [created, tablesById_createTable] at listed
      by_cases new : s.catalog.nextTableId = i
      · rw [if_pos new] at listed
        obtain rfl := Option.some.inj listed
        rw [(createdMeta_fields _ _ _ _ _).2.2.2, names_createdSchema]
        exact statement table ns columns leaf
      · rw [if_neg new] at listed
        exact apart.tables i tm listed
  · constructor
    · rw [dropped]
      exact valid_dropTable apart.catalog
    · intro i tm listed
      rw [dropped] at listed
      cases bound : s.catalog.getTable ns table with
      | none =>
        rw [dropTable_of_unbound bound] at listed
        exact apart.tables i tm listed
      | some tm' =>
        rw [tablesById_dropTable apart.catalog.toUniqueIds bound] at listed
        by_cases gone : tm'.id = i
        · rw [if_pos gone] at listed
          cases listed
        · rw [if_neg gone] at listed
          exact apart.tables i tm listed

omit [Float64 F] [ValueDebug F] in
theorem namedApart_restart {s : SessionState F} (apart : NamedApart s) {snap : CatalogSnapshot}
    (saved : s.catalog.ToSnapshot snap) :
    NamedApart (startup (some snap.throughJson) : SessionState F) := by
  have loaded : (startup (some snap.throughJson) : SessionState F).catalog =
      Catalog.new.loadSnapshot snap.throughJson := rfl
  constructor
  · rw [loaded]
    exact valid_reload _ apart.catalog saved
  · rw [loaded, loaded_tablesById _ apart.catalog saved]
    exact apart.tables

theorem namedApart_reached {steps : List (ServerStep F)} {s : SessionState F}
    (run : Reached steps s) (statements : ∀ p, ServerStep.execute p ∈ steps → NamesApart p) :
    NamedApart s := by
  induction run with
  | new => exact ⟨valid_new, fun i tm listed => by simp [SessionState.new, Catalog.new] at listed⟩
  | execute _ p ih =>
    have last := statements p (List.mem_append_right _ (List.mem_singleton_self _))
    exact namedApart_execute (ih fun q inside => statements q (List.mem_append_left _ inside)) last
  | restart _ saved ih =>
    exact namedApart_restart (ih fun q inside => statements q (List.mem_append_left _ inside)) saved

theorem exists_reached (steps : List (ServerStep F)) : ∃ s, Reached steps s := by
  induction steps using List.reverseRecOn with
  | nil => exact ⟨_, .new⟩
  | append_singleton steps step ih =>
    obtain ⟨s, run⟩ := ih
    cases step with
    | execute p => exact ⟨_, .execute run p⟩
    | restart =>
      have saved : s.catalog.ToSnapshot
          ⟨s.catalog.namespaces.toList, s.catalog.tablesById.toList.map Prod.snd⟩ :=
        ⟨.refl _, .refl _⟩
      exact ⟨_, .restart run saved⟩

theorem addressable_throughout_iff (steps : List (ServerStep F)) :
    (∀ before later s, before ++ later = steps → Reached before s → AllAddressable s) ↔
      ∀ p, ServerStep.execute p ∈ steps → NamesApart p := by
  constructor
  · intro throughout p inside table ns columns leaf
    obtain ⟨before, later, rfl⟩ := List.append_of_mem inside
    obtain ⟨s, run⟩ := exists_reached before
    have created : (final (executePlan p s)).catalog =
        (s.catalog.createTable (ns.getD "public") table (createdSchema columns) none).2 := by
      rw [final_executedLeaf, leaf, executePlan_createTable]
      exact (createTable_frame s ns table columns).1
    have listed : (final (executePlan p s)).catalog.tablesById[s.catalog.nextTableId]? =
        some (createdMeta s.catalog (ns.getD "public") table (createdSchema columns) none) := by
      rw [created, tablesById_createTable, if_pos rfl]
    have addressable := throughout (before ++ [.execute p]) later _ (List.append_assoc ..)
      (.execute run p) _ _ listed
    rw [(createdMeta_fields _ _ _ _ _).2.2.2] at addressable
    rw [← names_createdSchema]
    exact nodup_of_addressable addressable
  · rintro statements before later s rfl run i tm listed
    have apart := namedApart_reached run
      fun p inside => statements p (List.mem_append_left _ inside)
    exact addressable_of_nodup (apart.catalog.schemaBuilt i tm listed) (apart.tables i tm listed)

end Runs

/-- A table of two columns of one name. -/
def twiceNamed : PlanNode Float := .createTable "t" none [("a", .bigInt), ("a", .text)]

/-- The name of the first column is found at the second. -/
theorem repeated_name_shadows :
    Reached [.execute twiceNamed] (final (executePlan twiceNamed .new)) ∧
      ¬AllAddressable (final (executePlan twiceNamed .new)) := by
  refine ⟨.execute .new twiceNamed, fun all => ?_⟩
  have first := (all 0 (.new 0 0 "t" (.new [⟨"a", .bigInt, true⟩, ⟨"a", .text, true⟩])) rfl).index
    0 ⟨"a", .bigInt, true⟩ rfl
  exact absurd first (by decide)

end ColumnAddresses
