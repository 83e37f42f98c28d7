import RustafariDB.FreshTables

/-!
# Ids as machine words

Here the ids are `u64`. A load adds one to the largest ids of its file, and a scan or a drop
adds one to a table id for the end of its key range: these additions overflow at the last
id. The counters wrap. What a file leaves free decides how many tables can be created before
an addition overflows.
-/

namespace CatalogIds

open Std OrderedMaps Catalogs Values RowStorage CatalogInvariants CatalogPersistence

section Words
variable {F : Type}

/-- `id + 1` on `u64`; an overflow panics. -/
def succ64 (id : Nat) : Option Nat := if id + 1 < 2 ^ 64 then some (id + 1) else none

theorem succ64_isSome {id : Nat} : (succ64 id).isSome ↔ id + 1 < 2 ^ 64 := by
  rw [succ64]
  by_cases small : id + 1 < 2 ^ 64
  · rw [if_pos small]
    exact iff_of_true rfl small
  · rw [if_neg small]
    exact iff_of_false (by rintro ⟨⟩) small

def maxNamespaceId (snap : CatalogSnapshot) : Nat :=
  snap.namespaces.foldl (fun m e => max m e.2) 0

def maxTableId (snap : CatalogSnapshot) : Nat :=
  snap.tables.foldl (fun m tm => max m tm.id) 0

def loadSnapshot (c : Catalog) (snap : CatalogSnapshot) : Option Catalog := do
  let nextNamespaceId ← succ64 (maxNamespaceId snap)
  let nextTableId ← succ64 (maxTableId snap)
  return { c.loadSnapshot snap with nextNamespaceId, nextTableId }

/-- `fetch_add` wraps. -/
def createTable (c : Catalog) (ns name : String) (schema : Schema)
    (storageFormat : Option String) : TableMeta × Catalog :=
  let (tm, c) := c.createTable ns name schema storageFormat
  (tm, { c with
    nextNamespaceId := c.nextNamespaceId % 2 ^ 64
    nextTableId := c.nextTableId % 2 ^ 64 })

/-- The end of the range is made before any row is looked at. -/
def scan (store : TableStore F) (tableId : Nat) : Option (List (Nat × Row F)) :=
  (succ64 tableId).map fun _ => store.scan tableId

def dropTable (store : TableStore F) (tableId : Nat) : Option (TableStore F) :=
  (succ64 tableId).map fun _ => store.dropTable tableId

/-- A load that does not overflow is the load of unbounded ids. -/
theorem loadSnapshot_eq_some {c c' : Catalog} {snap : CatalogSnapshot} :
    loadSnapshot c snap = some c' ↔ maxNamespaceId snap + 1 < 2 ^ 64 ∧
      maxTableId snap + 1 < 2 ^ 64 ∧ c' = c.loadSnapshot snap := by
  rw [loadSnapshot, succ64, succ64]
  by_cases spaces : maxNamespaceId snap + 1 < 2 ^ 64
  · by_cases tables : maxTableId snap + 1 < 2 ^ 64
    · rw [if_pos spaces, if_pos tables]
      exact ⟨fun h => ⟨spaces, tables, (Option.some.inj h).symm⟩, fun h => by rw [h.2.2]; rfl⟩
    · rw [if_pos spaces, if_neg tables]
      exact iff_of_false (by rintro ⟨⟩) (fun h => tables h.2.1)
  · rw [if_neg spaces]
    exact iff_of_false (by rintro ⟨⟩) (fun h => spaces h.1)

theorem scan_isSome {store : TableStore F} {t : Nat} :
    (scan store t).isSome ↔ t + 1 < 2 ^ 64 := by
  rw [scan, Option.isSome_map, succ64_isSome]

end Words

section Runs
variable {F : Type}

/-- The catalog and the rows, and the ids that `create_table` has returned since the load. -/
structure WordSession (F : Type) where
  catalog : Catalog
  store : TableStore F
  created : List Nat

namespace WordSession

def load (snap : CatalogSnapshot) : Option (WordSession F) :=
  (loadSnapshot .new snap).map fun catalog => ⟨catalog, .new, []⟩

def create (s : WordSession F) (ns name : String) (schema : Schema)
    (storageFormat : Option String) : WordSession F :=
  let (tm, catalog) := createTable s.catalog ns name schema storageFormat
  { s with catalog, created := tm.id :: s.created }

def insert (s : WordSession F) (tableId : Nat) (row : Row F) : WordSession F :=
  { s with store := (s.store.insert tableId row).2 }

/-- A name that is not bound is an error and changes nothing. -/
def drop (s : WordSession F) (ns name : String) : Option (WordSession F) :=
  match s.catalog.getTable ns name with
  | none => some s
  | some tm => (dropTable s.store tm.id).map fun store =>
    { s with catalog := (s.catalog.dropTable ns name).2, store }

end WordSession

/-- What follows the load of a file, with a number of created tables. -/
inductive Run (snap : CatalogSnapshot) : Nat → WordSession F → Prop where
  | load {s : WordSession F} (loaded : WordSession.load snap = some s) : Run snap 0 s
  | create {n : Nat} {s : WordSession F} (run : Run snap n s) (ns name : String)
    (schema : Schema) (storageFormat : Option String) :
    Run snap (n + 1) (s.create ns name schema storageFormat)
  | insert {n : Nat} {s : WordSession F} (run : Run snap n s) (tableId : Nat) (row : Row F) :
    Run snap n (s.insert tableId row)
  | drop {n : Nat} {s s' : WordSession F} (run : Run snap n s) {ns name : String}
    (dropped : s.drop ns name = some s') : Run snap n s'

/-- Every table of the file or created since can be scanned, every bound table dropped, and
no id was given twice. -/
structure Safe (snap : CatalogSnapshot) (s : WordSession F) : Prop where
  scans : ∀ t, t ∈ snap.tables.map TableMeta.id ∨ t ∈ s.created → (scan s.store t).isSome
  drops : ∀ ns name, (s.drop ns name).isSome
  apart : ∀ t ∈ s.created, t ∉ snap.tables.map TableMeta.id

/-- The ids after `n` tables, which have not reached the end. -/
structure Counted (snap : CatalogSnapshot) (n : Nat) (s : WordSession F) : Prop where
  next : s.catalog.nextTableId = maxTableId snap + n + 1
  created : ∀ t ∈ s.created, maxTableId snap < t ∧ t ≤ maxTableId snap + n
  bound : ∀ (k : Nat × String) (tm : TableMeta),
    s.catalog.tablesByName[k]? = some tm → tm.id ≤ maxTableId snap + n

variable {snap : CatalogSnapshot} {n : Nat} {s s' : WordSession F}

theorem le_maxTableId {t : Nat} (listed : t ∈ snap.tables.map TableMeta.id) :
    t ≤ maxTableId snap := by
  obtain ⟨tm, inside, rfl⟩ := List.mem_map.mp listed
  exact (le_foldl_max TableMeta.id snap.tables 0).2 tm inside

theorem load_eq_some : WordSession.load snap = some s ↔
    maxNamespaceId snap + 1 < 2 ^ 64 ∧ maxTableId snap + 1 < 2 ^ 64 ∧
      s = ⟨Catalog.new.loadSnapshot snap, .new, []⟩ := by
  rw [WordSession.load, Option.map_eq_some_iff]
  constructor
  · rintro ⟨c, loaded, rfl⟩
    obtain ⟨spaces, tables, rfl⟩ := loadSnapshot_eq_some.mp loaded
    exact ⟨spaces, tables, rfl⟩
  · rintro ⟨spaces, tables, rfl⟩
    exact ⟨_, loadSnapshot_eq_some.mpr ⟨spaces, tables, rfl⟩, rfl⟩

theorem counted_load (loaded : WordSession.load snap = some s) : Counted snap 0 s := by
  obtain ⟨-, -, rfl⟩ := load_eq_some.mp loaded
  constructor
  · rfl
  · exact fun t none => absurd none List.not_mem_nil
  · intro k tm named
    have collected : (collect (fun tm => (tm.namespaceId, tm.name)) TableMeta.rebuilt
        snap.tables)[k]? = some tm := named
    obtain ⟨listed, inside, -, rfl⟩ := exists_of_getElem?_collect collected
    exact (le_foldl_max TableMeta.id snap.tables 0).2 listed inside

/-- A created table takes the counter's id, and the counter moves on unless it wraps. -/
theorem create_fields (s : WordSession F) (ns name : String) (schema : Schema)
    (storageFormat : Option String) :
    (s.create ns name schema storageFormat).created =
        s.catalog.nextTableId :: s.created ∧
      (s.create ns name schema storageFormat).catalog.nextTableId =
        (s.catalog.nextTableId + 1) % 2 ^ 64 ∧
      (s.create ns name schema storageFormat).catalog.tablesByName =
        (s.catalog.createTable ns name schema storageFormat).2.tablesByName := by
  have id := (createdMeta_fields s.catalog ns name schema storageFormat).1
  have next : (s.catalog.createTable ns name schema storageFormat).2.nextTableId =
      s.catalog.nextTableId + 1 := nextTableId_createTable s.catalog schema
  refine ⟨?_, ?_, rfl⟩
  · rw [← id]
    rfl
  · rw [← next]
    rfl

theorem counted_create (counted : Counted snap n s) (room : maxTableId snap + n + 2 < 2 ^ 64)
    (ns name : String) (schema : Schema) (storageFormat : Option String) :
    Counted snap (n + 1) (s.create ns name schema storageFormat) := by
  obtain ⟨created, next, tables⟩ := create_fields s ns name schema storageFormat
  have id := (createdMeta_fields s.catalog ns name schema storageFormat).1
  rw [counted.next] at created next id
  constructor
  · rw [next, Nat.mod_eq_of_lt (by omega)]
    omega
  · intro t given
    rw [created] at given
    rcases List.mem_cons.mp given with rfl | earlier
    · omega
    · have before := counted.created t earlier
      omega
  · intro k tm named
    rw [tables, tablesByName_createTable] at named
    by_cases here : ((s.catalog.createNamespace ns).1, name) = k
    · rw [if_pos here] at named
      obtain rfl := Option.some.inj named
      omega
    · rw [if_neg here] at named
      have before := counted.bound k tm named
      omega

theorem counted_drop (counted : Counted snap n s) {ns name : String}
    (dropped : s.drop ns name = some s') : Counted snap n s' := by
  rw [WordSession.drop] at dropped
  cases bound : s.catalog.getTable ns name with
  | none =>
    rw [bound] at dropped
    obtain rfl := Option.some.inj dropped
    exact counted
  | some tm =>
    rw [bound] at dropped
    obtain ⟨store, -, rfl⟩ := Option.map_eq_some_iff.mp dropped
    constructor
    · exact (FreshTables.nextTableId_dropTable s.catalog ns name).trans counted.next
    · exact counted.created
    · intro k tm' named
      exact counted.bound k tm' (FreshTables.tablesByName_dropTable_of_some named)

theorem run_counted (run : Run snap n s) (room : maxTableId snap + n + 1 < 2 ^ 64) :
    Counted snap n s := by
  induction run with
  | load loaded => exact counted_load loaded
  | create _ ns name schema storageFormat ih =>
    exact counted_create (ih (by omega)) room ns name schema storageFormat
  | insert _ tableId row ih => exact ⟨(ih room).next, (ih room).created, (ih room).bound⟩
  | drop _ dropped ih => exact counted_drop (ih room) dropped

theorem safe_of_counted (counted : Counted snap n s)
    (room : maxTableId snap + n + 1 < 2 ^ 64) : Safe snap s := by
  constructor
  · intro t known
    rw [scan_isSome]
    rcases known with listed | given
    · have below := le_maxTableId listed
      omega
    · have below := (counted.created t given).2
      omega
  · intro ns name
    rw [WordSession.drop]
    cases bound : s.catalog.getTable ns name with
    | none => rfl
    | some tm =>
      obtain ⟨_, -, named⟩ := getTable_eq_some.mp bound
      have below := counted.bound _ tm named
      simp only [dropTable, Option.isSome_map, succ64_isSome]
      omega
  · intro t given listed
    have above := (counted.created t given).1
    have below := le_maxTableId listed
    omega

/-- With the same table created again and again the counter meets every id. -/
theorem exists_run (loaded : WordSession.load snap = some s) (n : Nat)
    (room : maxTableId snap + n + 1 ≤ 2 ^ 64) :
    ∃ s' : WordSession F, Run snap n s' ∧
      s'.catalog.nextTableId = (maxTableId snap + n + 1) % 2 ^ 64 ∧
      (0 < n → maxTableId snap + n ∈ s'.created) := by
  induction n with
  | zero =>
    have small := (load_eq_some.mp loaded).2.1
    refine ⟨s, .load loaded, ?_, fun none => absurd none (Nat.lt_irrefl 0)⟩
    rw [(counted_load loaded).next, Nat.mod_eq_of_lt (by omega)]
  | succ n ih =>
    obtain ⟨s', run, next, -⟩ := ih (by omega)
    rw [Nat.mod_eq_of_lt (by omega)] at next
    obtain ⟨created, moved, -⟩ := create_fields s' "public" "t" (.new []) none
    refine ⟨_, .create run "public" "t" (.new []) none, ?_, fun _ => ?_⟩
    · rw [moved, next, Nat.add_assoc _ n 1]
    · rw [created, next, Nat.add_assoc]
      exact List.mem_cons_self

theorem file_ids_safe_iff (F : Type) (snap : CatalogSnapshot) (n : Nat) :
    ((WordSession.load snap : Option (WordSession F)).isSome ∧
        ∀ m ≤ n, ∀ s : WordSession F, Run snap m s → Safe snap s) ↔
      maxNamespaceId snap + 1 < 2 ^ 64 ∧ maxTableId snap + n + 1 < 2 ^ 64 := by
  constructor
  · rintro ⟨opened, safe⟩
    obtain ⟨s, loaded⟩ := Option.isSome_iff_exists.mp opened
    obtain ⟨spaces, tables, -⟩ := load_eq_some.mp loaded
    refine ⟨spaces, ?_⟩
    by_contra full
    -- the create that takes the last id is one of the `n`
    obtain ⟨s', run, -, given⟩ := exists_run loaded (2 ^ 64 - 1 - maxTableId snap) (by omega)
    have scans := (safe _ (by omega) s' run).scans _ (Or.inr (given (by omega)))
    rw [scan_isSome] at scans
    omega
  · rintro ⟨spaces, tables⟩
    refine ⟨?_, ?_⟩
    · rw [load_eq_some.mpr ⟨spaces, by omega, rfl⟩]
      rfl
    · intro m le s run
      exact safe_of_counted (run_counted run (by omega)) (by omega)

end Runs

/-- A file with a table of the last id. -/
def lastIdFile : CatalogSnapshot :=
  ⟨[("public", 1)], [TableMeta.new 18446744073709551615 1 "t" (.new [])]⟩

theorem last_id_overflows : (WordSession.load lastIdFile : Option (WordSession Nat)) = none := by
  decide

end CatalogIds
