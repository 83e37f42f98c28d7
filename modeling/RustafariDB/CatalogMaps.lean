import RustafariDB.CatalogPersistence

/-!
# The catalog is a map with unique ids

Through every sequence of creations, drops and loads of a catalog's own snapshot, ids are
not shared and no operation on one name is seen under another. Schemas are arbitrary here,
also those whose name index was not built from their columns.
-/

namespace CatalogMaps

open Std OrderedMaps Catalogs CatalogInvariants CatalogPersistence

/-- Any history, with any schemas. -/
abbrev AnyCatalog : Catalog → Prop := CatalogHistory (fun _ _ _ _ => True)

section Listing
variable {c : Catalog} {ns name : String}

theorem listTables_eq (c : Catalog) (ns : String) :
    c.listTables ns = match c.namespaces[ns]? with
      | some i => (entriesWhere (fun key => key.1 == i) c.tablesByName).map Prod.snd
      | none => [] := rfl

/-- A namespace id other than the one created under. -/
theorem other_namespace_id (unique : UniqueIds c) {ns' : String} (other : ns' ≠ ns) {i : Nat}
    (known : c.namespaces[ns']? = some i) : (c.createNamespace ns).1 ≠ i := by
  rintro rfl
  rcases createNamespace_id c ns with ⟨found, _⟩ | ⟨_, id, _⟩
  · exact other (unique.namespaceInj _ _ _ known found)
  · have below := unique.namespaceFresh _ _ known
    omega

/-- A new table is listed in its own namespace only. -/
theorem listTables_createTable (unique : UniqueIds c) (schema : Schema) (format : Option String)
    {ns' : String} (other : ns' ≠ ns) :
    (c.createTable ns name schema format).2.listTables ns' = c.listTables ns' := by
  have spaces : (c.createTable ns name schema format).2.namespaces[ns']? = c.namespaces[ns']? := by
    have lookup := namespaces_createNamespace c ns ns'
    rwa [if_neg (Ne.symm other)] at lookup
  rw [listTables_eq, listTables_eq, spaces]
  cases known : c.namespaces[ns']? with
  | none => rfl
  | some i =>
    have elsewhere := other_namespace_id unique other known
    refine congrArg (List.map Prod.snd) (entriesWhere_congr (fun key inside => ?_))
    rw [tablesByName_createTable, if_neg]
    rintro rfl
    exact elsewhere (beq_iff_eq.mp inside)

/-- A dropped table leaves the list of its own namespace only. -/
theorem listTables_dropTable (unique : UniqueIds c) {ns' : String} (other : ns' ≠ ns) :
    (c.dropTable ns name).2.listTables ns' = c.listTables ns' := by
  cases found : c.getTable ns name with
  | none => rw [dropTable_of_unbound found]
  | some tm =>
    have own := (getTable_spec unique found).1
    have spaces : (c.dropTable ns name).2.namespaces = c.namespaces := by
      rw [dropTable_of_bound unique found]
    rw [listTables_eq, listTables_eq, spaces]
    cases known : c.namespaces[ns']? with
    | none => rfl
    | some i =>
      refine congrArg (List.map Prod.snd) (entriesWhere_congr (fun key inside => ?_))
      rw [tablesByName_dropTable unique found, if_neg]
      rintro rfl
      obtain rfl : tm.namespaceId = i := beq_iff_eq.mp inside
      exact other (unique.namespaceInj _ _ _ known own)

end Listing

section Maps
variable {c : Catalog}

/-- No table present has the id of the table created next. -/
theorem createTable_id_fresh (unique : UniqueIds c) (ns name : String) (schema : Schema)
    (format : Option String) {i : Nat} {tm : TableMeta} (known : c.tablesById[i]? = some tm) :
    tm.id ≠ (c.createTable ns name schema format).1.id := by
  have created : (c.createTable ns name schema format).1.id = c.nextTableId :=
    (createdMeta_fields c ns name schema format).1
  obtain ⟨rfl, below⟩ := unique.byId i tm known
  omega

/-- In every history namespace names and tables have their own ids, a new table gets an id no
table present has, and creating or dropping a table is seen under no other name and in no
other namespace. -/
theorem catalog_is_map (history : AnyCatalog c) :
    (∀ a b i, c.namespaceId a = some i → c.namespaceId b = some i → a = b) ∧
      (∀ i tm, c.getTableById i = some tm → tm.id < c.nextTableId) ∧
      (∀ i j tm tm', c.getTableById i = some tm → c.getTableById j = some tm' →
        tm.id = tm'.id → i = j) ∧
      (∀ ns name schema format,
        (∀ i tm, c.getTableById i = some tm → tm.id ≠ (c.createTable ns name schema format).1.id) ∧
        (∀ ns' name' tm, c.getTable ns' name' = some tm →
          tm.id ≠ (c.createTable ns name schema format).1.id) ∧
        (∀ ns' name', (ns', name') ≠ (ns, name) →
          (c.createTable ns name schema format).2.getTable ns' name' = c.getTable ns' name') ∧
        ∀ ns', ns' ≠ ns →
          (c.createTable ns name schema format).2.listTables ns' = c.listTables ns') ∧
      ∀ ns name,
        (∀ ns' name', (ns', name') ≠ (ns, name) →
          (c.dropTable ns name).2.getTable ns' name' = c.getTable ns' name') ∧
        ∀ ns', ns' ≠ ns → (c.dropTable ns name).2.listTables ns' = c.listTables ns' := by
  have unique := history_uniqueIds history
  refine ⟨unique.namespaceInj, ?_, ?_, fun ns name schema format => ⟨?_, ?_, ?_, ?_⟩,
    fun ns name => ⟨?_, ?_⟩⟩
  · intro i tm known
    obtain ⟨rfl, below⟩ := unique.byId i tm known
    exact below
  · intro i j tm tm' known known' same
    rw [← (unique.byId i tm known).1, ← (unique.byId j tm' known').1, same]
  · exact fun i tm known => createTable_id_fresh unique ns name schema format known
  · intro ns' name' tm found
    apply createTable_id_fresh unique ns name schema format
    exact (getTable_spec unique found).2.2
  · intro ns' name' other
    rw [getTable_createTable unique, if_neg]
    rintro ⟨rfl, rfl⟩
    exact other rfl
  · exact fun ns' other => listTables_createTable unique schema format other
  · intro ns' name' other
    rw [getTable_dropTable unique, if_neg]
    rintro ⟨rfl, rfl⟩
    exact other rfl
  · exact fun ns' other => listTables_dropTable unique other

/-- A table created twice, saved and loaded again. -/
def reloadedTwice : Catalog :=
  Catalog.new.loadSnapshot
    ⟨createdTwice.namespaces.toList, createdTwice.tablesById.toList.map Prod.snd⟩

theorem reloadedTwice_history : AnyCatalog reloadedTwice :=
  .load (.createTable (.createTable .new "public" "t" _ none trivial) "public" "t" _ none trivial)
    .new ⟨List.Perm.refl _, List.Perm.refl _⟩

theorem catalog_is_map_reloadedTwice :
    (reloadedTwice.createTable "other" "t" (.new []) none).1.id = 2 ∧
      (reloadedTwice.createTable "other" "t" (.new []) none).2.getTable "public" "t" =
        reloadedTwice.getTable "public" "t" := by
  obtain ⟨_, _, _, created, _⟩ := catalog_is_map reloadedTwice_history
  exact ⟨rfl, (created "other" "t" (.new []) none).2.2.1 "public" "t" (by decide)⟩

end Maps

end CatalogMaps
