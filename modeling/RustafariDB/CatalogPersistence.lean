import RustafariDB.CatalogInvariants

/-!
# Saving and loading the catalog

A snapshot lists the tables by id, in any order, and loading binds each name to
the last listed table of that name. The round trip is exact when every table
kept by id is still the one its name is bound to. Histories that create a name
while it is bound break this, and nothing is claimed about them beyond that.
-/

namespace CatalogPersistence

open Std OrderedMaps Catalogs CatalogInvariants

/-- Two lookups agree on existence, id, columns, column positions and storage format. -/
structure SameDefinition (a b : Option TableMeta) : Prop where
  id : a.map TableMeta.id = b.map TableMeta.id
  columns : a.map (fun tm => tm.schema.columns) = b.map (fun tm => tm.schema.columns)
  columnIndex : ∀ name, a.map (fun tm => tm.schema.columnIndex name) =
    b.map (fun tm => tm.schema.columnIndex name)
  storageFormat : a.map TableMeta.storageFormat = b.map TableMeta.storageFormat

/-- The loaded catalog answers every lookup and listing as the saved one did. -/
structure Restores (c loaded : Catalog) : Prop where
  tables : ∀ ns name, SameDefinition (loaded.getTable ns name) (c.getTable ns name)
  listed : ∀ ns, (loaded.listTables ns).Perm (c.listTables ns)
  namespaces : loaded.listNamespaces = c.listNamespaces

/-- Every snapshot the catalog can write, whatever the iteration order of its maps, restores
it in any catalog it is loaded into. -/
def RoundTrips (c : Catalog) : Prop :=
  ∀ snap, c.ToSnapshot snap → ∀ target : Catalog,
    Restores c (target.loadSnapshot snap.throughJson)

/-- Every table kept by id is the one its name is bound to. -/
def Consistent (c : Catalog) : Prop :=
  ∀ (i : Nat) (tm : TableMeta), c.tablesById[i]? = some tm →
    c.tablesByName[(tm.namespaceId, tm.name)]? = some tm

/-- Histories of a catalog in which every CREATE TABLE meets a condition. A snapshot is loaded
directly or after it went through JSON. -/
inductive CatalogHistory (allowed : Catalog → String → String → Schema → Prop) : Catalog → Prop
  | new : CatalogHistory allowed .new
  | createNamespace {c : Catalog} (run : CatalogHistory allowed c) (name : String) :
      CatalogHistory allowed (c.createNamespace name).2
  | createTable {c : Catalog} (run : CatalogHistory allowed c) (ns name : String)
      (schema : Schema) (format : Option String) (meets : allowed c ns name schema) :
      CatalogHistory allowed (c.createTable ns name schema format).2
  | dropTable {c : Catalog} (run : CatalogHistory allowed c) (ns name : String) :
      CatalogHistory allowed (c.dropTable ns name).2
  | load {c : Catalog} (run : CatalogHistory allowed c) (target : Catalog)
      {snap : CatalogSnapshot} (saved : c.ToSnapshot snap) :
      CatalogHistory allowed (target.loadSnapshot snap)
  | reload {c : Catalog} (run : CatalogHistory allowed c) (target : Catalog)
      {snap : CatalogSnapshot} (saved : c.ToSnapshot snap) :
      CatalogHistory allowed (target.loadSnapshot snap.throughJson)

/-- Any history of schemas that `Schema::new` makes. -/
abbrev ReachableCatalog : Catalog → Prop :=
  CatalogHistory (fun _ _ _ schema => schema = .new schema.columns)

/-- Those that never create a table under a name that is bound. -/
abbrev UnshadowedCatalog : Catalog → Prop :=
  CatalogHistory (fun c ns name schema =>
    schema = .new schema.columns ∧ c.getTable ns name = none)

section Loading

variable {c : Catalog} {snap : CatalogSnapshot}

/-- The tables a load makes of a snapshot that went through JSON. -/
theorem rebuilt_throughJson (valid : Valid c) {i : Nat} {tm : TableMeta}
    (h : c.tablesById[i]? = some tm) : tm.throughJson.rebuilt = tm := by
  have built := valid.schemaBuilt i tm h
  cases tm with
  | mk id namespaceId name schema format =>
    simp only [TableMeta.throughJson, TableMeta.rebuilt, Schema.rebuildNameToIndex_eq]
    exact congrArg (fun s => TableMeta.mk id namespaceId name s format) built.symm

theorem mem_tables_iff (unique : UniqueIds c) (saved : c.ToSnapshot snap) {tm : TableMeta} :
    tm ∈ snap.tables ↔ c.tablesById[tm.id]? = some tm := by
  rw [saved.2.mem_iff, List.mem_map]
  constructor
  · rintro ⟨⟨i, tm'⟩, he, rfl⟩
    have hi := ExtTreeMap.mem_toList_iff_getElem?_eq_some.mp he
    rw [(unique.byId i tm' hi).1]
    exact hi
  · intro h
    exact ⟨(tm.id, tm), ExtTreeMap.mem_toList_iff_getElem?_eq_some.mpr h, rfl⟩

theorem mem_namespaces_iff (saved : c.ToSnapshot snap) {name : String} {i : Nat} :
    (name, i) ∈ snap.namespaces ↔ c.namespaces[name]? = some i := by
  rw [saved.1.mem_iff]
  exact ExtTreeMap.mem_toList_iff_getElem?_eq_some

variable (target : Catalog)

theorem loaded_namespaces (saved : c.ToSnapshot snap) :
    (target.loadSnapshot snap.throughJson).namespaces = c.namespaces := by
  refine ExtTreeMap.ext_getElem? (fun name => Option.ext (fun i => ?_))
  have run : (target.loadSnapshot snap.throughJson).namespaces =
      collect Prod.fst Prod.snd snap.namespaces := rfl
  rw [run, getElem?_collect_iff, ← mem_namespaces_iff saved]
  · constructor
    · rintro ⟨⟨n, j⟩, he, rfl, rfl⟩
      exact he
    · exact fun he => ⟨_, he, rfl, rfl⟩
  · rintro ⟨n, j⟩ he ⟨n', j'⟩ he' rfl
    have h := (mem_namespaces_iff saved).mp he
    have h' := (mem_namespaces_iff saved).mp he'
    rw [h] at h'
    rw [Option.some.inj h']

/-- The tables a snapshot lists, as a load inserts them. -/
theorem loaded_tables_run : (target.loadSnapshot snap.throughJson).tablesById =
      collect (fun tm => tm.id) (fun tm => tm.throughJson.rebuilt) snap.tables ∧
    (target.loadSnapshot snap.throughJson).tablesByName =
      collect (fun tm => (tm.namespaceId, tm.name)) (fun tm => tm.throughJson.rebuilt)
        snap.tables := by
  simp only [Catalog.loadSnapshot, CatalogSnapshot.throughJson, List.foldl_map]
  exact ⟨rfl, rfl⟩

theorem loaded_tablesById (valid : Valid c) (saved : c.ToSnapshot snap) :
    (target.loadSnapshot snap.throughJson).tablesById = c.tablesById := by
  refine ExtTreeMap.ext_getElem? (fun i => Option.ext (fun tm => ?_))
  rw [(loaded_tables_run target).1, getElem?_collect_iff]
  · constructor
    · rintro ⟨tm', he, rfl, rfl⟩
      have h := (mem_tables_iff valid.toUniqueIds saved).mp he
      rw [rebuilt_throughJson valid h]
      exact h
    · intro h
      obtain ⟨rfl, _⟩ := valid.byId i tm h
      exact ⟨tm, (mem_tables_iff valid.toUniqueIds saved).mpr h, rfl, rebuilt_throughJson valid h⟩
  · intro tm he tm' he' same
    have h := (mem_tables_iff valid.toUniqueIds saved).mp he
    have h' := (mem_tables_iff valid.toUniqueIds saved).mp he'
    rw [same, h'] at h
    exact (Option.some.inj h).symm

/-- A loaded name is bound to some table that was kept by id under that name. -/
theorem loaded_tablesByName (valid : Valid c) (saved : c.ToSnapshot snap)
    {k : Nat × String} {tm : TableMeta}
    (h : (target.loadSnapshot snap.throughJson).tablesByName[k]? = some tm) :
    (tm.namespaceId, tm.name) = k ∧ c.tablesById[tm.id]? = some tm := by
  rw [(loaded_tables_run target).2] at h
  obtain ⟨tm', he, hkey, rfl⟩ := exists_of_getElem?_collect h
  have hid := (mem_tables_iff valid.toUniqueIds saved).mp he
  rw [rebuilt_throughJson valid hid]
  exact ⟨hkey, hid⟩

theorem le_foldl_max {α : Type} (f : α → Nat) (xs : List α) (m : Nat) :
    m ≤ xs.foldl (fun m x => max m (f x)) m ∧
      ∀ x ∈ xs, f x ≤ xs.foldl (fun m x => max m (f x)) m := by
  induction xs generalizing m with
  | nil => simp
  | cons x xs ih =>
    obtain ⟨base, rest⟩ := ih (max m (f x))
    rw [List.foldl_cons]
    refine ⟨by omega, ?_⟩
    rintro y (_ | ⟨_, hy⟩)
    · omega
    · exact rest y hy

/-- A load rebuilds what JSON leaves out. -/
theorem loadSnapshot_throughJson (target : Catalog) (snap : CatalogSnapshot) :
    target.loadSnapshot snap.throughJson = target.loadSnapshot snap := by
  simp only [Catalog.loadSnapshot, CatalogSnapshot.throughJson, List.foldl_map]
  rfl

theorem uniqueIds_load (unique : UniqueIds c) (saved : c.ToSnapshot snap) :
    UniqueIds (target.loadSnapshot snap) := by
  have spaces : (target.loadSnapshot snap).namespaces = c.namespaces := by
    rw [← loadSnapshot_throughJson, loaded_namespaces target saved]
  have byId : (target.loadSnapshot snap).tablesById =
      collect TableMeta.id TableMeta.rebuilt snap.tables := rfl
  have byName : (target.loadSnapshot snap).tablesByName =
      collect (fun tm => (tm.namespaceId, tm.name)) TableMeta.rebuilt snap.tables := rfl
  constructor
  · rw [spaces]
    intro name i known
    have bound := (le_foldl_max Prod.snd snap.namespaces 0).2 (name, i)
      ((mem_namespaces_iff saved).mpr known)
    exact Nat.lt_succ_of_le bound
  · rw [spaces]
    exact unique.namespaceInj
  · intro i tm known
    rw [byId] at known
    obtain ⟨tm', listed, rfl, rfl⟩ := exists_of_getElem?_collect known
    have bound := (le_foldl_max TableMeta.id snap.tables 0).2 tm' listed
    exact ⟨rfl, Nat.lt_succ_of_le bound⟩
  · intro k tm named
    rw [byName] at named
    obtain ⟨tm', listed, rfl, rfl⟩ := exists_of_getElem?_collect named
    refine ⟨rfl, ?_⟩
    rw [byId]
    refine (getElem?_collect_iff ?_).mpr ⟨tm', listed, rfl, rfl⟩
    intro a ha b hb same
    have ha := (mem_tables_iff unique saved).mp ha
    have hb := (mem_tables_iff unique saved).mp hb
    rw [same, hb] at ha
    exact (Option.some.inj ha).symm
  · rw [spaces]
    intro i tm known
    rw [byId] at known
    obtain ⟨tm', listed, rfl, rfl⟩ := exists_of_getElem?_collect known
    exact unique.namespaceKnown _ tm' ((mem_tables_iff unique saved).mp listed)

theorem valid_reload (valid : Valid c) (saved : c.ToSnapshot snap) :
    Valid (target.loadSnapshot snap.throughJson) := by
  refine ⟨?_, ?_⟩
  · rw [loadSnapshot_throughJson]
    exact uniqueIds_load target valid.toUniqueIds saved
  · rw [loaded_tablesById target valid saved]
    exact valid.schemaBuilt

/-- A consistent catalog is loaded as it was. -/
theorem loaded_tablesByName_of_consistent (valid : Valid c) (consistent : Consistent c)
    (saved : c.ToSnapshot snap) :
    (target.loadSnapshot snap.throughJson).tablesByName = c.tablesByName := by
  refine ExtTreeMap.ext_getElem? (fun k => Option.ext (fun tm => ?_))
  constructor
  · intro h
    obtain ⟨rfl, hid⟩ := loaded_tablesByName target valid saved h
    exact consistent tm.id tm hid
  · intro h
    obtain ⟨rfl, hid⟩ := valid.byName k tm h
    have listed := (mem_tables_iff valid.toUniqueIds saved).mpr hid
    obtain ⟨tm', h'⟩ := isSome_getElem?_collect (fun tm => (tm.namespaceId, tm.name))
      (fun tm => tm.throughJson.rebuilt) listed
    rw [← (loaded_tables_run target).2] at h'
    obtain ⟨hkey, hid'⟩ := loaded_tablesByName target valid saved h'
    have bound := consistent tm'.id tm' hid'
    rw [hkey, h] at bound
    rw [h', Option.some.inj bound]

end Loading

section RoundTrip

variable {c : Catalog}

theorem roundTrips_of_consistent (valid : Valid c) (consistent : Consistent c) :
    RoundTrips c := by
  intro snap saved target
  have spaces := loaded_namespaces target saved
  have byName := loaded_tablesByName_of_consistent target valid consistent saved
  have same (ns name : String) :
      (target.loadSnapshot snap.throughJson).getTable ns name = c.getTable ns name := by
    rw [Catalog.getTable, Catalog.namespaceId, spaces, byName]
    rfl
  constructor
  · intro ns name
    rw [same]
    exact ⟨rfl, rfl, fun _ => rfl, rfl⟩
  · intro ns
    rw [Catalog.listTables, Catalog.namespaceId, spaces, byName]
    exact List.Perm.refl _
  · rw [Catalog.listNamespaces, spaces]
    rfl

/-- Any one table can be the last of a snapshot. -/
theorem exists_snapshot_ending_in {i : Nat} {tm : TableMeta}
    (h : c.tablesById[i]? = some tm) :
    ∃ namespaces front, c.ToSnapshot ⟨namespaces, front ++ [tm]⟩ := by
  have listed : tm ∈ c.tablesById.toList.map Prod.snd :=
    List.mem_map.mpr ⟨(i, tm), ExtTreeMap.mem_toList_iff_getElem?_eq_some.mpr h, rfl⟩
  obtain ⟨before, after, split⟩ := List.append_of_mem listed
  refine ⟨c.namespaces.toList, before ++ after, List.Perm.refl _, ?_⟩
  have moved : (before ++ after ++ [tm]).Perm (before ++ tm :: after) := by
    rw [List.append_assoc]
    exact (List.perm_append_singleton tm after).append_left before
  change (before ++ after ++ [tm]).Perm (c.tablesById.toList.map Prod.snd)
  rw [split]
  exact moved

theorem consistent_of_roundTrips (valid : Valid c) (roundTrips : RoundTrips c) :
    Consistent c := by
  intro i tm h
  obtain ⟨ns, hns⟩ := valid.namespaceKnown i tm h
  obtain ⟨namespaces, front, saved⟩ := exists_snapshot_ending_in h
  have rebuilt := rebuilt_throughJson valid h
  -- the table comes last, so the load binds its name to it
  have bound : (Catalog.new.loadSnapshot
      (CatalogSnapshot.throughJson ⟨namespaces, front ++ [tm]⟩)).getTable ns tm.name =
        some tm := by
    refine getTable_eq_some.mpr ⟨tm.namespaceId, ?_, ?_⟩
    · rw [loaded_namespaces _ saved]
      exact hns
    · rw [(loaded_tables_run _).2, getElem?_collect_last, rebuilt]
  have same := (roundTrips _ saved .new).tables ns tm.name
  have sameId := same.id
  rw [bound] at sameId
  cases before : c.getTable ns tm.name with
  | none =>
    rw [before] at sameId
    cases sameId
  | some tm' =>
    rw [before] at sameId
    have hid : tm.id = tm'.id := Option.some.inj sameId
    obtain ⟨hns', _, hby⟩ := getTable_spec valid.toUniqueIds before
    rw [← hid, (valid.byId i tm h).1, h] at hby
    obtain rfl := Option.some.inj hby
    obtain ⟨j, hj, hname⟩ := getTable_eq_some.mp before
    rw [hns] at hj
    rw [Option.some.inj hj]
    exact hname

end RoundTrip

section Runs

variable {allowed : Catalog → String → String → Schema → Prop} {c : Catalog}

theorem history_uniqueIds (history : CatalogHistory allowed c) : UniqueIds c := by
  induction history with
  | new => exact uniqueIds_new
  | createNamespace _ name ih => exact uniqueIds_createNamespace ih name
  | createTable _ ns name schema format _ ih => exact uniqueIds_createTable ih schema
  | dropTable _ ns name ih => exact uniqueIds_dropTable ih
  | load _ target saved ih => exact uniqueIds_load target ih saved
  | reload _ target saved ih =>
    rw [loadSnapshot_throughJson]
    exact uniqueIds_load target ih saved

/-- Where only schemas of `Schema::new` are created, none is ever another. -/
theorem history_valid (built : ∀ c ns name schema, allowed c ns name schema →
    schema = .new schema.columns) (history : CatalogHistory allowed c) : Valid c := by
  induction history with
  | new => exact valid_new
  | createNamespace _ name ih => exact valid_createNamespace ih name
  | createTable _ ns name schema format meets ih =>
    rw [built _ _ _ _ meets]
    exact valid_createTable ih
  | dropTable _ ns name ih => exact valid_dropTable ih
  | load _ target saved ih =>
    rw [← loadSnapshot_throughJson]
    exact valid_reload target ih saved
  | reload _ target saved ih => exact valid_reload target ih saved

theorem unshadowed_valid (history : UnshadowedCatalog c) : Valid c :=
  history_valid (fun _ _ _ _ meets => meets.1) history

theorem consistent_createTable (valid : Valid c) (consistent : Consistent c)
    {ns name : String} (unbound : c.getTable ns name = none) (columns : List Column)
    (format : Option String) :
    Consistent (c.createTable ns name (.new columns) format).2 := by
  obtain ⟨hid, hspace, hname, _⟩ := createdMeta_fields c ns name (.new columns) format
  intro i tm h
  rw [tablesById_createTable] at h
  rw [tablesByName_createTable]
  split at h
  · obtain rfl := Option.some.inj h
    rw [hspace, hname, if_pos rfl]
  · have bound := consistent i tm h
    rw [if_neg ?_]
    · exact bound
    · -- a table of that name would have been bound to it
      intro same
      rw [← same] at bound
      rcases createNamespace_id c ns with ⟨known, _⟩ | ⟨_, id, _⟩
      · have live := getTable_eq_some.mpr ⟨_, known, bound⟩
        rw [unbound] at live
        cases live
      · obtain ⟨space, known⟩ := valid.namespaceKnown i tm h
        have hlt := valid.namespaceFresh _ _ known
        have hns : (c.createNamespace ns).1 = tm.namespaceId := (Prod.mk.inj same).1
        omega

theorem consistent_dropTable (valid : Valid c) (consistent : Consistent c)
    (ns name : String) : Consistent (c.dropTable ns name).2 := by
  cases h : c.getTable ns name with
  | none => rwa [dropTable_of_unbound h]
  | some tm =>
    obtain ⟨i, hi, hbound⟩ := getTable_eq_some.mp h
    have hkey := (valid.byName _ _ hbound).1
    intro j tm' h'
    rw [tablesById_dropTable valid.toUniqueIds h] at h'
    rw [tablesByName_dropTable valid.toUniqueIds h]
    split at h'
    · cases h'
    · rename_i hne
      have bound := consistent j tm' h'
      rw [if_neg ?_]
      · exact bound
      · intro same
        rw [← same, (Prod.mk.inj hkey).1, hbound] at bound
        obtain rfl := Option.some.inj bound
        exact hne (valid.byId j tm h').1

theorem consistent_reload (valid : Valid c) (consistent : Consistent c) (target : Catalog)
    {snap : CatalogSnapshot} (saved : c.ToSnapshot snap) :
    Consistent (target.loadSnapshot snap.throughJson) := by
  intro i tm h
  rw [loaded_tablesById target valid saved] at h
  rw [loaded_tablesByName_of_consistent target valid consistent saved]
  exact consistent i tm h

theorem unshadowed_consistent (history : UnshadowedCatalog c) : Consistent c := by
  induction history with
  | new =>
    intro i tm h
    simp [Catalog.new] at h
  | createNamespace _ name ih =>
    intro i tm h
    obtain ⟨byName, byId, _⟩ := createNamespace_tables _ name
    rw [byId] at h
    rw [byName]
    exact ih i tm h
  | createTable run ns name schema format meets ih =>
    obtain ⟨built, unbound⟩ := meets
    rw [built]
    exact consistent_createTable (unshadowed_valid run) ih unbound schema.columns format
  | dropTable run ns name ih => exact consistent_dropTable (unshadowed_valid run) ih ns name
  | load run target saved ih =>
    rw [← loadSnapshot_throughJson]
    exact consistent_reload (unshadowed_valid run) ih target saved
  | reload run target saved ih =>
    exact consistent_reload (unshadowed_valid run) ih target saved

/-- In any history the round trip is exact when and only when every table kept by id is
the one its name is bound to; histories that never create a bound name keep it so. -/
theorem snapshot_round_trip_iff (c : Catalog) :
    (ReachableCatalog c → (RoundTrips c ↔ Consistent c)) ∧
      (UnshadowedCatalog c → RoundTrips c) := by
  constructor
  · intro history
    have valid := history_valid (fun _ _ _ _ built => built) history
    exact ⟨consistent_of_roundTrips valid, roundTrips_of_consistent valid⟩
  · intro history
    exact roundTrips_of_consistent (unshadowed_valid history) (unshadowed_consistent history)

/-- One table, created once. -/
def createdOnce : Catalog :=
  (Catalog.new.createTable "public" "t" (.new [⟨"id", .bigInt, true⟩]) none).2

theorem createdOnce_round_trips : RoundTrips createdOnce :=
  (snapshot_round_trip_iff createdOnce).2 (.createTable .new "public" "t" _ none ⟨rfl, rfl⟩)

/-- The same name created again with another column. -/
def createdTwice : Catalog :=
  (createdOnce.createTable "public" "t" (.new [⟨"k", .text, true⟩]) none).2

theorem createdTwice_reachable : ReachableCatalog createdTwice :=
  .createTable (.createTable .new "public" "t" _ none rfl) "public" "t" _ none rfl

/-- A snapshot that lists the newer table first brings the older one back. -/
theorem recreated_table_reverts :
    ¬ ∀ c : Catalog, ReachableCatalog c → RoundTrips c := by
  intro roundTrips
  have saved : createdTwice.ToSnapshot ⟨createdTwice.namespaces.toList,
      [⟨1, 0, "t", .new [⟨"k", .text, true⟩], "row"⟩,
        ⟨0, 0, "t", .new [⟨"id", .bigInt, true⟩], "row"⟩]⟩ :=
    ⟨List.Perm.refl _, List.Perm.swap _ _ []⟩
  have same := ((roundTrips createdTwice createdTwice_reachable _ saved .new).tables
    "public" "t").id
  exact absurd same (by decide)

end Runs

end CatalogPersistence
