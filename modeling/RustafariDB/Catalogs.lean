import Mathlib.Data.List.Induction
import RustafariDB.OrderedMaps

/-!
# Schemas and the catalog

`schema.rs` and `catalog.rs` of the core crate. The catalog keeps each table
twice: by name, for lookups, and by id, for persistence. `Catalog.Valid` is what
ties the two maps together in every history; it does not say that every entry
by id is still bound to its name. The id newtypes over `u64` are natural
numbers, drawn from counters that only grow.
-/

namespace Catalogs

open Std OrderedMaps

inductive ColumnType where
  | bigInt
  | double
  | varchar (limit : Option Nat)
  | text
  | boolean
  | timestamp
  | date
  | blob
  | document
  | array (inner : ColumnType)
  | vector (dim : Nat)
  deriving DecidableEq

structure Column where
  name : String
  dataType : ColumnType
  nullable : Bool
  deriving DecidableEq

abbrev NameIndex := ExtTreeMap String Nat

/-- Collect `(name, position)` pairs into a map; the last position of a name stays. -/
def nameIndex (columns : List Column) : NameIndex :=
  columns.zipIdx.foldl (fun m e => m.insert e.1.name e.2) ∅

structure Schema where
  columns : List Column
  nameToIndex : NameIndex

namespace Schema

def new (columns : List Column) : Schema := ⟨columns, nameIndex columns⟩

def columnIndex (schema : Schema) (name : String) : Option Nat :=
  schema.nameToIndex[name]?

def rebuildNameToIndex (schema : Schema) : Schema :=
  { schema with nameToIndex := nameIndex schema.columns }

theorem rebuildNameToIndex_eq (schema : Schema) :
    schema.rebuildNameToIndex = new schema.columns := rfl

end Schema

theorem nameIndex_append (columns : List Column) (c : Column) :
    nameIndex (columns ++ [c]) = (nameIndex columns).insert c.name columns.length := by
  simp [nameIndex, List.zipIdx_append]

/-- A resolved name is the name of the column at that position. -/
theorem column_of_nameIndex {columns : List Column} {name : String} {i : Nat}
    (h : (nameIndex columns)[name]? = some i) :
    ∃ c, columns[i]? = some c ∧ c.name = name := by
  induction columns using List.reverseRecOn with
  | nil => simp [nameIndex] at h
  | append_singleton columns c ih =>
    rw [nameIndex_append, ExtTreeMap.getElem?_insert] at h
    by_cases hc : c.name = name
    · rw [if_pos (by simpa using hc)] at h
      obtain rfl : columns.length = i := Option.some.inj h
      exact ⟨c, by simp, hc⟩
    · rw [if_neg (by simpa using hc)] at h
      obtain ⟨d, hd, hname⟩ := ih h
      refine ⟨d, ?_, hname⟩
      have hlt : i < columns.length := (List.getElem?_eq_some_iff.mp hd).1
      rw [List.getElem?_append_left hlt]
      exact hd

theorem nameIndex_isSome {columns : List Column} {c : Column} (h : c ∈ columns) :
    ∃ i, (nameIndex columns)[c.name]? = some i := by
  induction columns using List.reverseRecOn with
  | nil => cases h
  | append_singleton columns d ih =>
    rw [nameIndex_append, ExtTreeMap.getElem?_insert]
    by_cases hd : d.name = c.name
    · exact ⟨columns.length, by simp [hd]⟩
    · rw [if_neg (by simpa using hd)]
      rcases List.mem_append.mp h with h | h
      · exact ih h
      · rw [List.mem_singleton.mp h] at hd
        exact False.elim (hd rfl)

structure TableMeta where
  id : Nat
  namespaceId : Nat
  name : String
  schema : Schema
  storageFormat : String

def TableMeta.new (id : Nat) (namespaceId : Nat) (name : String)
    (schema : Schema) : TableMeta :=
  ⟨id, namespaceId, name, schema, "row"⟩

/-- The hash maps are finite maps; an iteration order is a permutation of their entries. -/
structure Catalog where
  nextNamespaceId : Nat
  nextTableId : Nat
  namespaces : ExtTreeMap String Nat
  tablesByName : ExtTreeMap (Nat × String) TableMeta
  tablesById : ExtTreeMap Nat TableMeta

/-- What is written to disk. The name index of a schema is skipped by the serializer. -/
structure CatalogSnapshot where
  namespaces : List (String × Nat)
  tables : List TableMeta

namespace Catalog

def new : Catalog := ⟨0, 0, ∅, ∅, ∅⟩

def createNamespace (c : Catalog) (name : String) : Nat × Catalog :=
  match c.namespaces[name]? with
  | some id => (id, c)
  | none => (c.nextNamespaceId,
      { c with
        nextNamespaceId := c.nextNamespaceId + 1
        namespaces := c.namespaces.insert name c.nextNamespaceId })

def namespaceId (c : Catalog) (name : String) : Option Nat :=
  c.namespaces[name]?

def listNamespaces (c : Catalog) : List String := c.namespaces.keys

/-- The namespace is resolved or allocated as in `createNamespace`. An existing
binding of the name is overwritten; the old entry by id is left in place. -/
def createTable (c : Catalog) (ns name : String) (schema : Schema)
    (storageFormat : Option String) : TableMeta × Catalog :=
  let (namespaceId, c) := c.createNamespace ns
  let created := TableMeta.new c.nextTableId namespaceId name schema
  let tm := match storageFormat with
    | some s => { created with storageFormat := s }
    | none => created
  (tm, { c with
    nextTableId := c.nextTableId + 1
    tablesByName := c.tablesByName.insert (namespaceId, name) tm
    tablesById := c.tablesById.insert tm.id tm })

def getTable (c : Catalog) (ns name : String) : Option TableMeta :=
  match c.namespaceId ns with
  | some namespaceId => c.tablesByName[(namespaceId, name)]?
  | none => none

def getTableById (c : Catalog) (id : Nat) : Option TableMeta := c.tablesById[id]?

def listTables (c : Catalog) (ns : String) : List TableMeta :=
  match c.namespaceId ns with
  | some namespaceId =>
    (c.tablesByName.toList.filter (fun e => e.1.1 == namespaceId)).map Prod.snd
  | none => []

def dropTable (c : Catalog) (ns name : String) : Option TableMeta × Catalog :=
  match c.namespaceId ns with
  | none => (none, c)
  | some namespaceId =>
    match c.tablesByName[(namespaceId, name)]? with
    | none => (none, c)
    | some tm => (some tm, { c with
        tablesByName := c.tablesByName.erase (namespaceId, name)
        tablesById := c.tablesById.erase tm.id })

/-- The snapshots `to_snapshot` may return, one for each iteration order of the maps. -/
def ToSnapshot (c : Catalog) (snap : CatalogSnapshot) : Prop :=
  snap.namespaces.Perm c.namespaces.toList ∧
    snap.tables.Perm (c.tablesById.toList.map Prod.snd)

end Catalog

/-- Writing and reading back JSON keeps every field except the skipped name index. -/
def TableMeta.throughJson (tm : TableMeta) : TableMeta :=
  { tm with schema := { tm.schema with nameToIndex := ∅ } }

def CatalogSnapshot.throughJson (snap : CatalogSnapshot) : CatalogSnapshot :=
  { snap with tables := snap.tables.map TableMeta.throughJson }

/-- The body of the loading loop for one table. -/
def TableMeta.rebuilt (tm : TableMeta) : TableMeta :=
  { tm with schema := tm.schema.rebuildNameToIndex }

def Catalog.loadSnapshot (c : Catalog) (snap : CatalogSnapshot) : Catalog :=
  let maxNs := snap.namespaces.foldl (fun m e => max m e.2) 0
  let maxTable := snap.tables.foldl (fun m tm => max m tm.id) 0
  { c with
    nextNamespaceId := maxNs + 1
    nextTableId := maxTable + 1
    namespaces := snap.namespaces.foldl (fun m e => m.insert e.1 e.2) ∅
    tablesByName := snap.tables.foldl
      (fun m tm => m.insert (tm.namespaceId, tm.name) tm.rebuilt) ∅
    tablesById := snap.tables.foldl (fun m tm => m.insert tm.id tm.rebuilt) ∅ }

end Catalogs
