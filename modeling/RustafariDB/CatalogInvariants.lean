import RustafariDB.Catalogs

/-!
# Catalog histories

What ties the two table maps together whatever sequence of operations built
them. An entry by name is always an entry by id; the converse fails once a name
is created twice, since the overwritten table keeps its entry by id.
-/

namespace CatalogInvariants

open Std OrderedMaps Catalogs

/-- Namespaces and tables have fresh, distinct ids, and what a name resolves to is
filed under its own id, whatever schemas the tables have. -/
structure UniqueIds (c : Catalog) : Prop where
  namespaceFresh : ∀ (name : String) (i : Nat),
    c.namespaces[name]? = some i → i < c.nextNamespaceId
  namespaceInj : ∀ (a b : String) (i : Nat),
    c.namespaces[a]? = some i → c.namespaces[b]? = some i → a = b
  byId : ∀ (i : Nat) (tm : TableMeta), c.tablesById[i]? = some tm → tm.id = i ∧ i < c.nextTableId
  byName : ∀ (k : Nat × String) (tm : TableMeta), c.tablesByName[k]? = some tm →
    (tm.namespaceId, tm.name) = k ∧ c.tablesById[tm.id]? = some tm
  namespaceKnown : ∀ (i : Nat) (tm : TableMeta), c.tablesById[i]? = some tm →
    ∃ ns : String, c.namespaces[ns]? = some tm.namespaceId

/-- And the name index of every schema is the one its columns give. -/
structure Valid (c : Catalog) : Prop extends UniqueIds c where
  schemaBuilt : ∀ (i : Nat) (tm : TableMeta), c.tablesById[i]? = some tm →
    tm.schema = .new tm.schema.columns

variable {c : Catalog}

theorem uniqueIds_new : UniqueIds Catalog.new := by
  constructor <;> simp [Catalog.new]

theorem valid_new : Valid Catalog.new :=
  ⟨uniqueIds_new, by simp [Catalog.new]⟩

section Lookups

theorem getTable_eq_some {ns name : String} {tm : TableMeta} :
    c.getTable ns name = some tm ↔
      ∃ i, c.namespaces[ns]? = some i ∧ c.tablesByName[(i, name)]? = some tm := by
  rw [Catalog.getTable, Catalog.namespaceId]
  cases c.namespaces[ns]? with
  | none => simp
  | some i => simp

/-- A bound table carries the name it is bound to and is filed by its id. -/
theorem getTable_spec (unique : UniqueIds c) {ns name : String} {tm : TableMeta}
    (h : c.getTable ns name = some tm) :
    c.namespaces[ns]? = some tm.namespaceId ∧ tm.name = name ∧
      c.tablesById[tm.id]? = some tm := by
  obtain ⟨i, hi, htm⟩ := getTable_eq_some.mp h
  obtain ⟨hkey, hid⟩ := unique.byName _ _ htm
  obtain ⟨rfl, rfl⟩ := Prod.mk.inj hkey
  exact ⟨hi, rfl, hid⟩

/-- Distinct names are bound to distinct ids. -/
theorem getTable_inj (unique : UniqueIds c) {ns ns' name name' : String} {tm tm' : TableMeta}
    (h : c.getTable ns name = some tm) (h' : c.getTable ns' name' = some tm')
    (same : tm.id = tm'.id) : ns = ns' ∧ name = name' := by
  obtain ⟨hns, rfl, hid⟩ := getTable_spec unique h
  obtain ⟨hns', rfl, hid'⟩ := getTable_spec unique h'
  rw [same, hid'] at hid
  obtain rfl := Option.some.inj hid
  exact ⟨unique.namespaceInj _ _ _ hns hns', rfl⟩

end Lookups

section Namespaces

/-- `create_namespace` keeps every binding and resolves its own name. -/
theorem namespaces_createNamespace (c : Catalog) (name ns : String) :
    (c.createNamespace name).2.namespaces[ns]? =
      if name = ns then some (c.createNamespace name).1 else c.namespaces[ns]? := by
  rw [Catalog.createNamespace]
  cases hname : c.namespaces[name]? with
  | some i =>
    simp only
    split
    · rename_i heq
      rw [← heq, hname]
    · rfl
  | none => simp only [ExtTreeMap.getElem?_insert, LawfulEqCmp.compare_eq_iff_eq]

theorem createNamespace_tables (c : Catalog) (name : String) :
    (c.createNamespace name).2.tablesByName = c.tablesByName ∧
      (c.createNamespace name).2.tablesById = c.tablesById ∧
      (c.createNamespace name).2.nextTableId = c.nextTableId := by
  rw [Catalog.createNamespace]
  cases c.namespaces[name]? <;> exact ⟨rfl, rfl, rfl⟩

/-- The id is the one the name had, or the next one. -/
theorem createNamespace_id (c : Catalog) (name : String) :
    c.namespaces[name]? = some (c.createNamespace name).1 ∧
        (c.createNamespace name).2.nextNamespaceId = c.nextNamespaceId ∨
      c.namespaces[name]? = none ∧ (c.createNamespace name).1 = c.nextNamespaceId ∧
        (c.createNamespace name).2.nextNamespaceId = c.nextNamespaceId + 1 := by
  rw [Catalog.createNamespace]
  cases hname : c.namespaces[name]? with
  | some i => exact Or.inl ⟨rfl, rfl⟩
  | none => exact Or.inr ⟨rfl, rfl, rfl⟩

/-- The id of a created namespace collides with no other namespace. -/
theorem createNamespace_id_apart (unique : UniqueIds c) {name ns : String} (other : name ≠ ns) :
    c.namespaces[ns]? ≠ some (c.createNamespace name).1 := by
  intro same
  rcases createNamespace_id c name with ⟨known, _⟩ | ⟨_, id, _⟩
  · exact other (unique.namespaceInj _ _ _ known same)
  · have fresh := unique.namespaceFresh _ _ same
    omega

theorem uniqueIds_createNamespace (unique : UniqueIds c) (name : String) :
    UniqueIds (c.createNamespace name).2 := by
  have lookup := namespaces_createNamespace c name
  obtain ⟨byName, byId, nextTable⟩ := createNamespace_tables c name
  have idCases := createNamespace_id c name
  constructor
  · intro ns i h
    rw [lookup] at h
    split at h
    · obtain rfl := Option.some.inj h
      rcases idCases with ⟨known, next⟩ | ⟨_, id, next⟩
      · rw [next]
        exact unique.namespaceFresh _ _ known
      · omega
    · have := unique.namespaceFresh _ _ h
      rcases idCases with ⟨_, next⟩ | ⟨_, _, next⟩ <;> omega
  · intro a b i ha hb
    rw [lookup] at ha hb
    split at ha <;> split at hb
    · rename_i h h'
      rw [← h, ← h']
    · rename_i _ h
      rw [← Option.some.inj ha] at hb
      exact False.elim (createNamespace_id_apart unique h hb)
    · rename_i h _
      rw [← Option.some.inj hb] at ha
      exact False.elim (createNamespace_id_apart unique h ha)
    · exact unique.namespaceInj a b i ha hb
  · rw [byId, nextTable]
    exact unique.byId
  · rw [byName, byId]
    exact unique.byName
  · rw [byId]
    intro i tm h
    obtain ⟨ns, hns⟩ := unique.namespaceKnown i tm h
    refine ⟨ns, ?_⟩
    rw [lookup]
    split
    · rename_i heq
      rcases idCases with ⟨known, _⟩ | ⟨unknown, _⟩
      · rw [← known, heq, hns]
      · rw [heq, hns] at unknown
        cases unknown
    · exact hns

theorem valid_createNamespace (valid : Valid c) (name : String) :
    Valid (c.createNamespace name).2 := by
  refine ⟨uniqueIds_createNamespace valid.toUniqueIds name, ?_⟩
  rw [(createNamespace_tables c name).2.1]
  exact valid.schemaBuilt

end Namespaces

section Tables

/-- The metadata `create_table` makes. -/
def createdMeta (c : Catalog) (ns name : String) (schema : Schema)
    (storageFormat : Option String) : TableMeta :=
  (c.createTable ns name schema storageFormat).1

variable {ns name : String} {columns : List Column} {format : Option String}

theorem createdMeta_fields (c : Catalog) (ns name : String) (schema : Schema)
    (format : Option String) :
    (createdMeta c ns name schema format).id = c.nextTableId ∧
      (createdMeta c ns name schema format).namespaceId = (c.createNamespace ns).1 ∧
      (createdMeta c ns name schema format).name = name ∧
      (createdMeta c ns name schema format).schema = schema := by
  have next := (createNamespace_tables c ns).2.2
  simp only [createdMeta, Catalog.createTable]
  cases format with
  | none => exact ⟨next, rfl, rfl, rfl⟩
  | some s => exact ⟨next, rfl, rfl, rfl⟩

theorem tablesById_createTable (c : Catalog) (schema : Schema) (i : Nat) :
    (c.createTable ns name schema format).2.tablesById[i]? =
      if c.nextTableId = i then some (createdMeta c ns name schema format)
      else c.tablesById[i]? := by
  have fields := createdMeta_fields c ns name schema format
  have run : (c.createTable ns name schema format).2.tablesById =
      (c.createNamespace ns).2.tablesById.insert
        (createdMeta c ns name schema format).id (createdMeta c ns name schema format) := rfl
  rw [run, fields.1, (createNamespace_tables c ns).2.1, ExtTreeMap.getElem?_insert]
  simp only [LawfulEqCmp.compare_eq_iff_eq]

theorem tablesByName_createTable (c : Catalog) (schema : Schema) (k : Nat × String) :
    (c.createTable ns name schema format).2.tablesByName[k]? =
      if ((c.createNamespace ns).1, name) = k then some (createdMeta c ns name schema format)
      else c.tablesByName[k]? := by
  have run : (c.createTable ns name schema format).2.tablesByName =
      (c.createNamespace ns).2.tablesByName.insert
        ((c.createNamespace ns).1, name) (createdMeta c ns name schema format) := rfl
  rw [run, (createNamespace_tables c ns).1, ExtTreeMap.getElem?_insert]
  simp only [LawfulEqCmp.compare_eq_iff_eq]

theorem nextTableId_createTable (c : Catalog) (schema : Schema) :
    (c.createTable ns name schema format).2.nextTableId = c.nextTableId + 1 := by
  have next := (createNamespace_tables c ns).2.2
  have run : (c.createTable ns name schema format).2.nextTableId =
      (c.createNamespace ns).2.nextTableId + 1 := rfl
  rw [run, next]

theorem uniqueIds_createTable (unique : UniqueIds c) (schema : Schema) :
    UniqueIds (c.createTable ns name schema format).2 := by
  have base := uniqueIds_createNamespace unique ns
  have tables := createNamespace_tables c ns
  have fields := createdMeta_fields c ns name schema format
  constructor
  · exact base.namespaceFresh
  · exact base.namespaceInj
  · intro i tm h
    rw [tablesById_createTable] at h
    rw [nextTableId_createTable]
    split at h
    · rename_i heq
      obtain rfl := Option.some.inj h
      exact ⟨fields.1.trans heq, by omega⟩
    · obtain ⟨hid, hlt⟩ := unique.byId i tm h
      exact ⟨hid, by omega⟩
  · intro k tm h
    rw [tablesByName_createTable] at h
    rw [tablesById_createTable]
    split at h
    · rename_i heq
      obtain rfl := Option.some.inj h
      refine ⟨by rw [fields.2.1, fields.2.2.1, heq], ?_⟩
      rw [if_pos fields.1.symm]
    · obtain ⟨hkey, hid⟩ := unique.byName k tm h
      refine ⟨hkey, ?_⟩
      have hlt := (unique.byId _ _ hid).2
      rw [if_neg (by omega)]
      exact hid
  · intro i tm h
    rw [tablesById_createTable] at h
    split at h
    · obtain rfl := Option.some.inj h
      refine ⟨ns, ?_⟩
      rw [fields.2.1]
      have own := namespaces_createNamespace c ns ns
      rwa [if_pos rfl] at own
    · exact base.namespaceKnown i tm (by rwa [tables.2.1])

theorem valid_createTable (valid : Valid c) :
    Valid (c.createTable ns name (.new columns) format).2 := by
  refine ⟨uniqueIds_createTable valid.toUniqueIds _, fun i tm h => ?_⟩
  rw [tablesById_createTable] at h
  split at h
  · obtain rfl := Option.some.inj h
    rw [(createdMeta_fields c ns name (.new columns) format).2.2.2]
    rfl
  · exact valid.schemaBuilt i tm h

/-- `create_table` rebinds its own name and no other. -/
theorem getTable_createTable (unique : UniqueIds c) (schema : Schema) (ns' name' : String) :
    (c.createTable ns name schema format).2.getTable ns' name' =
      if ns = ns' ∧ name = name' then some (createdMeta c ns name schema format)
      else c.getTable ns' name' := by
  have lookup := namespaces_createNamespace c ns ns'
  have spaces : (c.createTable ns name schema format).2.namespaces =
      (c.createNamespace ns).2.namespaces := rfl
  rw [Catalog.getTable, Catalog.namespaceId, spaces, lookup]
  by_cases hns : ns = ns'
  · subst hns
    simp only [if_true, true_and, tablesByName_createTable, Prod.mk.injEq]
    split
    · rfl
    · rw [Catalog.getTable, Catalog.namespaceId]
      rcases createNamespace_id c ns with ⟨known, _⟩ | ⟨unknown, id, _⟩
      · rw [known]
      · -- a namespace that is new has no tables
        rw [unknown]
        cases hold : c.tablesByName[((c.createNamespace ns).1, name')]? with
        | none => rfl
        | some tm =>
          obtain ⟨hkey, hid⟩ := unique.byName _ _ hold
          obtain ⟨space, hspace⟩ := unique.namespaceKnown _ _ hid
          have hlt := unique.namespaceFresh _ _ hspace
          have hnsid : tm.namespaceId = (c.createNamespace ns).1 := (Prod.mk.inj hkey).1
          omega
  · rw [if_neg hns, if_neg (fun h => hns h.1), Catalog.getTable, Catalog.namespaceId]
    cases hspace : c.namespaces[ns']? with
    | none => rfl
    | some i =>
      have differ : ((c.createNamespace ns).1, name) ≠ (i, name') := by
        intro heq
        have hi : (c.createNamespace ns).1 = i := (Prod.mk.inj heq).1
        rcases createNamespace_id c ns with ⟨known, _⟩ | ⟨_, id, _⟩
        · rw [hi] at known
          exact hns (unique.namespaceInj _ _ _ known hspace)
        · have := unique.namespaceFresh _ _ hspace
          omega
      simp only [tablesByName_createTable, if_neg differ]

end Tables

section Drops

variable {ns name : String} {tm : TableMeta}

theorem dropTable_of_bound (unique : UniqueIds c) (h : c.getTable ns name = some tm) :
    c.dropTable ns name = (some tm, { c with
      tablesByName := c.tablesByName.erase (tm.namespaceId, name)
      tablesById := c.tablesById.erase tm.id }) := by
  obtain ⟨i, hi, htm⟩ := getTable_eq_some.mp h
  obtain ⟨hkey, _⟩ := unique.byName _ _ htm
  obtain ⟨rfl, rfl⟩ := Prod.mk.inj hkey
  simp only [Catalog.dropTable, Catalog.namespaceId, hi, htm]

theorem dropTable_of_unbound (h : c.getTable ns name = none) :
    c.dropTable ns name = (none, c) := by
  rw [Catalog.getTable] at h
  rw [Catalog.dropTable]
  cases hns : c.namespaceId ns with
  | none => rfl
  | some i =>
    simp only [hns] at h
    simp only [h]

theorem tablesById_dropTable (unique : UniqueIds c) (h : c.getTable ns name = some tm) (i : Nat) :
    (c.dropTable ns name).2.tablesById[i]? =
      if tm.id = i then none else c.tablesById[i]? := by
  rw [dropTable_of_bound unique h]
  simp only [ExtTreeMap.getElem?_erase, LawfulEqCmp.compare_eq_iff_eq]

theorem tablesByName_dropTable (unique : UniqueIds c) (h : c.getTable ns name = some tm)
    (k : Nat × String) :
    (c.dropTable ns name).2.tablesByName[k]? =
      if (tm.namespaceId, name) = k then none else c.tablesByName[k]? := by
  rw [dropTable_of_bound unique h]
  simp only [ExtTreeMap.getElem?_erase, LawfulEqCmp.compare_eq_iff_eq]

theorem uniqueIds_dropTable (unique : UniqueIds c) : UniqueIds (c.dropTable ns name).2 := by
  cases h : c.getTable ns name with
  | none => rwa [dropTable_of_unbound h]
  | some tm =>
    obtain ⟨_, rfl, hself⟩ := getTable_spec unique h
    have counters := dropTable_of_bound unique h
    constructor
    · rw [counters]
      exact unique.namespaceFresh
    · rw [counters]
      exact unique.namespaceInj
    · intro i tm' h'
      rw [tablesById_dropTable unique h] at h'
      rw [counters]
      split at h'
      · cases h'
      · exact unique.byId i tm' h'
    · intro k tm' h'
      rw [tablesByName_dropTable unique h] at h'
      rw [tablesById_dropTable unique h]
      split at h'
      · cases h'
      · rename_i hne
        obtain ⟨hkey, hid⟩ := unique.byName k tm' h'
        refine ⟨hkey, ?_⟩
        rw [if_neg ?_]
        · exact hid
        · intro heq
          rw [← heq, hself] at hid
          obtain rfl := Option.some.inj hid
          exact hne hkey
    · intro i tm' h'
      rw [tablesById_dropTable unique h] at h'
      rw [counters]
      split at h'
      · cases h'
      · exact unique.namespaceKnown i tm' h'

theorem valid_dropTable (valid : Valid c) : Valid (c.dropTable ns name).2 := by
  refine ⟨uniqueIds_dropTable valid.toUniqueIds, ?_⟩
  cases h : c.getTable ns name with
  | none =>
    rw [dropTable_of_unbound h]
    exact valid.schemaBuilt
  | some tm =>
    intro i tm' h'
    rw [tablesById_dropTable valid.toUniqueIds h] at h'
    split at h'
    · cases h'
    · exact valid.schemaBuilt i tm' h'

/-- `drop_table` unbinds its own name and no other. -/
theorem getTable_dropTable (unique : UniqueIds c) (ns' name' : String) :
    (c.dropTable ns name).2.getTable ns' name' =
      if ns = ns' ∧ name = name' then none else c.getTable ns' name' := by
  cases h : c.getTable ns name with
  | none =>
    rw [dropTable_of_unbound h]
    split
    · rename_i heq
      rw [← heq.1, ← heq.2, h]
    · rfl
  | some tm =>
    have hns := (getTable_spec unique h).1
    have spaces : (c.dropTable ns name).2.namespaces = c.namespaces := by
      rw [dropTable_of_bound unique h]
    rw [Catalog.getTable, Catalog.namespaceId, spaces, Catalog.getTable, Catalog.namespaceId]
    cases hns' : c.namespaces[ns']? with
    | none => simp
    | some i =>
      simp only [tablesByName_dropTable unique h, Prod.mk.injEq]
      have same : tm.namespaceId = i ↔ ns = ns' := by
        constructor
        · intro hi
          rw [hi] at hns
          exact unique.namespaceInj _ _ _ hns hns'
        · rintro rfl
          rw [hns] at hns'
          exact Option.some.inj hns'
      simp only [same]

end Drops

end CatalogInvariants
