import Mathlib.Algebra.Group.Prod
import Mathlib.Algebra.Order.Group.Multiset
import RustafariDB.SessionInvariants
import RustafariDB.StatementShares

/-!
# Tables created, filled and dropped at once

An INSERT finds its table first and touches the row store and the index later, and CREATE and
DROP visit the catalog, the stores and the indexes one by one. Three windows lose data. A row
stored after a drop has cleared the rows of its table stays for ever. So do the rows of a new
table of the same name that a drop takes out of the catalog in place of the one it cleared. And
a row whose index is looked up before the creation has filed it stays out of the index. Outside
of these windows every stored row is in the index of its table or in the hands of its INSERT.
-/

namespace ConcurrentTables

open Std Catalogs Values RowStorage ColumnarStorage BTreeIndexing Plans Floats Sessions
open StatefulPrograms Interleavings LockSections StatementShares
open Execution (Stop ExecutionResult executePlan)
open CatalogInvariants PlanEffects SessionInvariants

variable {F : Type}

section Conditions

def dropsRows (t : Nat) : LockSection F → Bool
  | .dropRows u => u == t
  | _ => false

/-- Some statement has removed the rows of the table. -/
def cleared (t : Nat) (history : List (Nat × LockSection F)) : Bool :=
  history.any (fun e => dropsRows t e.2)

/-- Rows are of tables in the catalog. -/
def Owned (s : SessionState F) : Prop :=
  ∀ t, s.catalog.tablesById[t]? = none → ∀ rowId, s.rowStore.get t rowId = none

/-- A table has no rows when a DROP TABLE that removed its rows or its name has returned. -/
def NoOrphans (p : StatementPool F) : Prop :=
  (∀ j t result, (j, .dropRows t) ∈ p.history → p.threads[j]? = some (.done (.ok result)) →
    ∀ rowId, p.state.rowStore.get t rowId = none) ∧ Owned p.state

theorem cleared_append (t i : Nat) (history : List (Nat × LockSection F)) (op : LockSection F) :
    cleared t (history ++ [(i, op)]) = (cleared t history || dropsRows t op) := by
  rw [cleared, List.any_append, List.any_cons, List.any_nil, Bool.or_false, cleared]

theorem cleared_of_mem {t j : Nat} {history : List (Nat × LockSection F)}
    (h : (j, .dropRows t) ∈ history) : cleared t history = true :=
  List.any_eq_true.mpr ⟨_, h, beq_self_eq_true t⟩

variable [Float64 F]

/-- The key under which a row belongs in the id index of its table. -/
def rowKey (schema : Schema) (row : Row F) : Option IndexKey :=
  (schema.columnIndex "id").bind (fun i => idKey i row)

/-- Every row of a table in the catalog is in the id index of the table under its key. -/
def IndexesComplete (s : SessionState F) : Prop :=
  ∀ (t : Nat) (tm : TableMeta) (index : BTreeIndex) (rowId : Nat) (row : Row F) (key : IndexKey),
    s.catalog.tablesById[t]? = some tm → s.getIndex t "id" = some index →
      s.rowStore.get t rowId = some row → rowKey tm.schema row = some key →
        rowId ∈ index.get key

/-- The table holds no row that an id index would list. -/
def unkeyed (s : SessionState F) (t : Nat) : Bool :=
  match s.catalog.tablesById[t]? with
  | some tm => (s.rowStore.scan t).all (fun e => (rowKey tm.schema e.2).isNone)
  | none => true

/-- A row is stored before its table is cleared, a name is removed after, and an INSERT finds
the index of its table unless the table is cleared or holds nothing to be indexed. -/
def timely (history : List (Nat × LockSection F)) (s : SessionState F) : LockSection F → Bool
  | .insertRow t _ => !cleared t history
  | .getIndex t => (s.getIndex t "id").isSome || cleared t history || unkeyed s t
  | .dropName ns table => (s.tableMeta ns table).all (fun tm => cleared tm.id history)
  | _ => true

def Timely (_ : Nat) (history : List (Nat × LockSection F)) (s : SessionState F)
    (op : LockSection F) (_ : List (Task F (ExecutionResult F))) : Prop :=
  timely history s op = true

instance (i : Nat) (history : List (Nat × LockSection F)) (s : SessionState F)
    (op : LockSection F) (others : List (Task F (ExecutionResult F))) :
    Decidable (Timely i history s op others) := inferInstanceAs (Decidable (_ = true))

end Conditions

section Shares

/-- What a statement knows: the entry of a table id, that its index was filed, that its rows
were removed. -/
inductive Fact where
  | known (tm : TableMeta)
  | indexed (t : Nat)
  | dropped (t : Nat)

/-- Rows stored and not yet filed, tables created and not yet given an index, and knowledge. -/
abbrev Share (F : Type) := Multiset (Nat × Nat × Row F) × Multiset Nat × Multiset Fact

def Holds (history : List (Nat × LockSection F)) (s : SessionState F) : Fact → Prop
  | .known tm => s.catalog.tablesById[tm.id]? = some tm ∨ cleared tm.id history = true
  | .indexed t => (s.getIndex t "id").isSome = true ∨ cleared t history = true
  | .dropped t => cleared t history = true

variable [Float64 F]

structure Tidy (history : List (Nat × LockSection F)) (s : SessionState F)
    (pending : Multiset (Nat × Nat × Row F)) (creating : Multiset Nat)
    (facts : Multiset Fact) : Prop where
  catalog : UniqueIds s.catalog
  unused : ∀ t, s.catalog.nextTableId ≤ t → s.getIndex t "id" = none
  owned : Owned s
  listed : ∀ (t : Nat) (tm : TableMeta) (key : IndexKey) (rowId : Nat) (row : Row F),
    s.catalog.tablesById[t]? = some tm → s.rowStore.get t rowId = some row →
      rowKey tm.schema row = some key →
        rowId ∈ (heldIndex s t).get key ∨ (t, rowId, row) ∈ pending
  once : creating.Nodup
  uncreated : ∀ t ∈ creating, s.getIndex t "id" = none ∧ t < s.catalog.nextTableId
  empty : ∀ t, cleared t history = true → ∀ rowId, s.rowStore.get t rowId = none
  facts : ∀ fact ∈ facts, Holds history s fact

/-- Outside of the windows. -/
def tidiness : Protocol (LockSection F) (SessionState F) (Share F) where
  inv history s g := Tidy history s g.1 g.2.1 g.2.2
  allows _ history s op _ := timely history s op = true
  shows _ _ := True

variable {history : List (Nat × LockSection F)} {s : SessionState F} {i : Nat}
variable {pending : Multiset (Nat × Nat × Row F)} {creating : Multiset Nat}
variable {facts : Multiset Fact}

theorem tidy_learn (tidy : Tidy history s pending creating facts) {fact : Fact}
    (true_now : Holds history s fact) : Tidy history s pending creating ({fact} + facts) := by
  refine { tidy with facts := fun fact' inside => ?_ }
  rcases Multiset.mem_add.mp inside with newly | before
  · rw [Multiset.mem_singleton.mp newly]
    exact true_now
  · exact tidy.facts fact' before

theorem tidy_forget {fact : Fact} (tidy : Tidy history s pending creating ({fact} + facts)) :
    Tidy history s pending creating facts :=
  { tidy with
    facts := fun fact' inside => tidy.facts fact' (Multiset.mem_add.mpr (Or.inr inside)) }

/-- A row leaves its INSERT when it is in the index, or belongs in none. -/
theorem tidy_settle {t rowId : Nat} {row : Row F}
    (tidy : Tidy history s ({(t, rowId, row)} + pending) creating facts)
    (settled : ∀ (tm : TableMeta) (key : IndexKey), s.catalog.tablesById[t]? = some tm →
      s.rowStore.get t rowId = some row → rowKey tm.schema row = some key →
        rowId ∈ (heldIndex s t).get key) : Tidy history s pending creating facts := by
  refine { tidy with listed := fun t' tm key rowId' row' known stored keyed => ?_ }
  rcases tidy.listed t' tm key rowId' row' known stored keyed with filed | held
  · exact Or.inl filed
  · rcases Multiset.mem_add.mp held with own | others
    · cases Multiset.mem_singleton.mp own
      exact Or.inl (settled tm key known stored keyed)
    · exact Or.inr others

/-- Sections that neither move rows nor touch the catalog or an index. -/
def aside : LockSection F → Bool
  | .tableMeta _ _ => true
  | .getIndex _ => true
  | .pushRow _ _ => true
  | .nextChunkId => true
  | .insertChunk _ _ => true
  | .dropChunks _ => true
  | _ => false

omit [Float64 F] in
theorem act_aside {op : LockSection F} (h : aside op = true) (s : SessionState F) :
    (∃ chunks buffer, (act op s).2 =
      { s with columnarStore := chunks, columnarBuffer := buffer }) ∧
      ∀ t, dropsRows t op = false := by
  cases op with
  | pushRow t row =>
    refine ⟨?_, fun _ => rfl⟩
    by_cases room : (s.buffered t ++ [row]).length < columnarChunkSize
    · rw [act_pushRow_room room]
      exact ⟨_, _, rfl⟩
    · rw [act_pushRow_full room]
      exact ⟨_, _, rfl⟩
  | tableMeta ns table => exact ⟨⟨s.columnarStore, s.columnarBuffer, rfl⟩, fun _ => rfl⟩
  | getIndex t => exact ⟨⟨s.columnarStore, s.columnarBuffer, rfl⟩, fun _ => rfl⟩
  | nextChunkId => exact ⟨⟨_, s.columnarBuffer, rfl⟩, fun _ => rfl⟩
  | insertChunk t chunk => exact ⟨⟨_, s.columnarBuffer, rfl⟩, fun _ => rfl⟩
  | dropChunks t => exact ⟨⟨_, s.columnarBuffer, rfl⟩, fun _ => rfl⟩
  | _ => cases h

end Shares

section Sections
variable {history history' : List (Nat × LockSection F)} {s s' : SessionState F} {i : Nat}
variable {pending : Multiset (Nat × Nat × Row F)} {creating : Multiset Nat}
variable {facts : Multiset Fact}

theorem holds_mono {fact : Fact} (h : Holds history s fact)
    (entry : ∀ tm : TableMeta, s.catalog.tablesById[tm.id]? = some tm →
      s'.catalog.tablesById[tm.id]? = some tm ∨ cleared tm.id history' = true)
    (index : ∀ t, (s.getIndex t "id").isSome = true →
      (s'.getIndex t "id").isSome = true ∨ cleared t history' = true)
    (clear : ∀ t, cleared t history = true → cleared t history' = true) :
    Holds history' s' fact := by
  cases fact with
  | known tm =>
    rcases h with there | gone
    · exact entry tm there
    · exact Or.inr (clear tm.id gone)
  | indexed t =>
    rcases h with filed | gone
    · exact index t filed
    · exact Or.inr (clear t gone)
  | dropped t => exact clear t h

theorem cleared_of_append {t : Nat} {op : LockSection F} (h : cleared t history = true) :
    cleared t (history ++ [(i, op)]) = true := by
  rw [cleared_append, h, Bool.true_or]

theorem owned_withRow (owned : Owned s) {t : Nat} (live : s.catalog.tablesById[t]? ≠ none)
    (row : Row F) : Owned (withRow s t row) := by
  intro u absent rowId
  refine Eq.trans (TableStore.get_insert t u rowId row) ?_
  rw [if_neg]
  · exact owned u absent rowId
  · intro same
    cases same
    exact live absent

theorem owned_dropRows (owned : Owned s) (t : Nat) : Owned (act (.dropRows t) s).2 := by
  intro u absent rowId
  refine (TableStore.get_dropTable s.rowStore t u rowId).trans ?_
  rw [owned u absent, ite_self]

theorem owned_createTable {ns : Option String} {table : String} {schema : Schema}
    (owned : Owned s) : Owned (act (.createTable ns table schema) s).2 := by
  intro t absent
  let catalog' := (s.catalog.createTable (ns.getD "public") table schema none).2
  have entries : catalog'.tablesById[t]? = _ := tablesById_createTable s.catalog schema t
  have absent' : _ = none := entries.symm.trans absent
  split at absent'
  · cases absent'
  · exact owned t absent'

variable [Float64 F]

/-- Only a drop clears. -/
theorem empty_append (tidy : Tidy history s pending creating facts) {op : LockSection F}
    (not_drop : ∀ t, dropsRows t op = false) (t : Nat)
    (clear : cleared t (history ++ [(i, op)]) = true) (rowId : Nat) :
    s.rowStore.get t rowId = none := by
  rw [cleared_append, not_drop, Bool.or_false] at clear
  exact tidy.empty t clear rowId

/-- A fact outlives a section that keeps entries and indexes, unless the rows were dropped. -/
theorem facts_append (tidy : Tidy history s pending creating facts) {op : LockSection F}
    {s' : SessionState F}
    (entry : ∀ tm : TableMeta, s.catalog.tablesById[tm.id]? = some tm →
      s'.catalog.tablesById[tm.id]? = some tm ∨ cleared tm.id (history ++ [(i, op)]) = true)
    (index : ∀ t, (s.getIndex t "id").isSome = true →
      (s'.getIndex t "id").isSome = true ∨ cleared t (history ++ [(i, op)]) = true) :
    ∀ fact ∈ facts, Holds (history ++ [(i, op)]) s' fact :=
  fun fact inside => holds_mono (tidy.facts fact inside) entry index (fun _ => cleared_of_append)

theorem tidy_aside (tidy : Tidy history s pending creating facts) {op : LockSection F}
    (h : aside op = true) :
    Tidy (history ++ [(i, op)]) (act op s).2 pending creating facts := by
  obtain ⟨⟨chunks, buffer, same⟩, not_drop⟩ := act_aside h s
  rw [same]
  exact ⟨tidy.catalog, tidy.unused, tidy.owned, tidy.listed, tidy.once, tidy.uncreated,
    empty_append tidy not_drop, facts_append tidy (fun _ => Or.inl) (fun _ => Or.inl)⟩

/-- A stored row is in the hands of its INSERT. -/
theorem tidy_insertRow (tidy : Tidy history s pending creating facts) {t : Nat}
    (live : s.catalog.tablesById[t]? ≠ none) (uncleared : cleared t history = false) (row : Row F) :
    Tidy (history ++ [(i, .insertRow t row)]) (act (.insertRow t row) s).2
      ({(t, s.rowStore.nextRowId, row)} + pending) creating facts := by
  have rows (u rowId : Nat) : (act (.insertRow t row) s).2.rowStore.get u rowId =
      if (t, s.rowStore.nextRowId) = (u, rowId) then some row else s.rowStore.get u rowId :=
    TableStore.get_insert t u rowId row
  refine ⟨tidy.catalog, tidy.unused, owned_withRow tidy.owned live row, ?_, tidy.once,
    tidy.uncreated, ?_, ?_⟩
  · intro u tm key rowId row' known stored keyed
    rw [rows] at stored
    split at stored
    · rename_i same
      cases same
      cases stored
      exact Or.inr (Multiset.mem_add.mpr (Or.inl (Multiset.mem_singleton_self _)))
    · rcases tidy.listed u tm key rowId row' known stored keyed with filed | held
      · exact Or.inl filed
      · exact Or.inr (Multiset.mem_add.mpr (Or.inr held))
  · intro u clear rowId
    have before := empty_append tidy (fun _ => rfl) u clear rowId
    rw [rows, if_neg]
    · exact before
    · intro same
      cases same
      rw [cleared_append, uncleared] at clear
      cases clear
  · exact facts_append tidy (fun _ => Or.inl) (fun _ => Or.inl)

omit [Float64 F] in
theorem getIndex_withIndexed (s : SessionState F) (t : Nat) (key : IndexKey) (rowId u : Nat) :
    (withIndexed s t key rowId).getIndex u "id" =
      if t = u then (s.getIndex u "id").map (fun index => index.insert key rowId)
      else s.getIndex u "id" := by
  rw [withIndexed]
  cases held : s.getIndex t "id" with
  | none =>
    change s.getIndex u "id" = _
    split
    · rename_i same
      rw [← same, held]
      rfl
    · rfl
  | some index =>
    simp only [SessionState.getIndex_insert, Prod.mk.injEq, and_true]
    split
    · rename_i same
      rw [← same, held]
      rfl
    · rfl

omit [Float64 F] in
theorem get_withIndexed (s : SessionState F) (t : Nat) (key : IndexKey) (rowId u : Nat)
    (k : IndexKey) {id : Nat} (h : id ∈ (heldIndex s u).get k) :
    id ∈ (heldIndex (withIndexed s t key rowId) u).get k := by
  rw [heldIndex, getIndex_withIndexed]
  split
  · rw [heldIndex] at h
    cases held : s.getIndex u "id" with
    | none =>
      rw [held] at h
      exact h
    | some index =>
      rw [held] at h
      rw [Option.map_some, Option.getD_some, get_insert]
      split
      · exact List.mem_append_left _ h
      · exact h
  · exact h

/-- Filing keeps everything that was filed. -/
theorem tidy_indexInsert (tidy : Tidy history s pending creating facts) (t : Nat)
    (key : IndexKey) (rowId : Nat) :
    Tidy (history ++ [(i, .indexInsert t key rowId)]) (withIndexed s t key rowId)
      pending creating facts := by
  have frame : (withIndexed s t key rowId).catalog = s.catalog ∧
      (withIndexed s t key rowId).rowStore = s.rowStore := by
    rw [withIndexed]
    split <;> exact ⟨rfl, rfl⟩
  have exists_iff (u : Nat) : ((withIndexed s t key rowId).getIndex u "id").isSome =
      (s.getIndex u "id").isSome := by
    rw [getIndex_withIndexed]
    split
    · exact Option.isSome_map
    · rfl
  have missing {u : Nat} (absent : s.getIndex u "id" = none) :
      (withIndexed s t key rowId).getIndex u "id" = none := by
    apply Option.not_isSome_iff_eq_none.mp
    rw [exists_iff, absent]
    exact Bool.false_ne_true
  refine ⟨?_, ?_, ?_, ?_, tidy.once, ?_, ?_, ?_⟩
  · rw [frame.1]
    exact tidy.catalog
  · rw [frame.1]
    exact fun u unused => missing (tidy.unused u unused)
  · rw [Owned, frame.1, frame.2]
    exact tidy.owned
  · rw [frame.1, frame.2]
    intro u tm k id row known stored keyed
    rcases tidy.listed u tm k id row known stored keyed with filed | held
    · exact Or.inl (get_withIndexed s t key rowId u k filed)
    · exact Or.inr held
  · rw [frame.1]
    exact fun u inside => ⟨missing (tidy.uncreated u inside).1, (tidy.uncreated u inside).2⟩
  · rw [frame.2]
    exact empty_append tidy (fun _ => rfl)
  · refine facts_append tidy ?_ ?_
    · rw [frame.1]
      exact fun _ => Or.inl
    · exact fun u some => Or.inl (by rw [exists_iff, some])

variable {ns : Option String} {table : String} {schema : Schema}

theorem tidy_createTable (tidy : Tidy history s pending creating facts) :
    Tidy (history ++ [(i, .createTable ns table schema)]) (act (.createTable ns table schema) s).2
      pending ({s.catalog.nextTableId} + creating) facts := by
  let catalog' := (s.catalog.createTable (ns.getD "public") table schema none).2
  have counter : catalog'.nextTableId = s.catalog.nextTableId + 1 :=
    nextTableId_createTable s.catalog schema
  have next : (act (.createTable ns table schema) s).2.catalog.nextTableId =
      s.catalog.nextTableId + 1 := counter
  have entries (t : Nat) : catalog'.tablesById[t]? = if s.catalog.nextTableId = t then
      some (createdMeta s.catalog (ns.getD "public") table schema none)
      else s.catalog.tablesById[t]? := tablesById_createTable s.catalog schema t
  have unique : UniqueIds catalog' := uniqueIds_createTable tidy.catalog schema
  have grown (tm : TableMeta) (there : s.catalog.tablesById[tm.id]? = some tm) :
      catalog'.tablesById[tm.id]? = some tm := by
    have below := (tidy.catalog.byId tm.id tm there).2
    rwa [entries, if_neg (by omega)]
  refine ⟨unique, ?_, owned_createTable tidy.owned, ?_, ?_, ?_, ?_, ?_⟩
  · rw [next]
    exact fun t unused => tidy.unused t (by omega)
  · intro t tm key rowId row known stored keyed
    change catalog'.tablesById[t]? = some tm at known
    rw [entries] at known
    split at known
    · rename_i new
      have free : s.catalog.tablesById[t]? = none := by
        cases there : s.catalog.tablesById[t]? with
        | none => rfl
        | some tm' =>
          have below := (tidy.catalog.byId t tm' there).2
          omega
      have absent := tidy.owned t free rowId
      change s.rowStore.get t rowId = some row at stored
      rw [absent] at stored
      cases stored
    · exact tidy.listed t tm key rowId row known stored keyed
  · rw [Multiset.singleton_add, Multiset.nodup_cons]
    refine ⟨fun inside => ?_, tidy.once⟩
    have below := (tidy.uncreated _ inside).2
    omega
  · intro t inside
    rw [next]
    rcases Multiset.mem_add.mp inside with new | older
    · rw [Multiset.mem_singleton.mp new]
      exact ⟨tidy.unused _ (Nat.le_refl _), Nat.lt_succ_self _⟩
    · exact ⟨(tidy.uncreated t older).1, Nat.lt_succ_of_lt (tidy.uncreated t older).2⟩
  · exact empty_append tidy (fun _ => rfl)
  · exact facts_append tidy (fun tm there => Or.inl (grown tm there)) (fun _ => Or.inl)

/-- The first index of a table lists what no index did. -/
theorem tidy_createIndex {t : Nat} (tidy : Tidy history s pending ({t} + creating) facts) :
    Tidy (history ++ [(i, .createIndex t)]) (act (.createIndex t) s).2 pending creating facts := by
  have here := tidy.uncreated t (Multiset.mem_add.mpr (Or.inl (Multiset.mem_singleton_self t)))
  have once := tidy.once
  rw [Multiset.singleton_add, Multiset.nodup_cons] at once
  have index (u : Nat) : (act (.createIndex t) s).2.getIndex u "id" =
      if t = u then some .new else s.getIndex u "id" := by
    simp only [act, SessionState.getIndex_insert, Prod.mk.injEq, and_true]
  have held (u : Nat) : heldIndex (act (.createIndex t) s).2 u = heldIndex s u := by
    rw [heldIndex, heldIndex, index]
    split
    · rename_i same
      rw [← same, here.1]
      rfl
    · rfl
  refine ⟨tidy.catalog, fun u unused => ?_, tidy.owned, ?_, once.2, fun u inside => ?_, ?_, ?_⟩
  · change s.catalog.nextTableId ≤ u at unused
    rw [index, if_neg (by omega)]
    exact tidy.unused u unused
  · intro u tm key rowId row known stored keyed
    rw [held]
    exact tidy.listed u tm key rowId row known stored keyed
  · have other : t ≠ u := by
      rintro rfl
      exact once.1 inside
    rw [index, if_neg other]
    exact tidy.uncreated u (Multiset.mem_add.mpr (Or.inr inside))
  · exact empty_append tidy (fun _ => rfl)
  · refine facts_append tidy (fun _ => Or.inl) (fun u some => ?_)
    rw [index]
    split
    · exact Or.inl rfl
    · exact Or.inl some

theorem tidy_dropRows (tidy : Tidy history s pending creating facts) (t : Nat) :
    Tidy (history ++ [(i, .dropRows t)]) (act (.dropRows t) s).2 pending creating facts := by
  have rows (u rowId : Nat) : (act (.dropRows t) s).2.rowStore.get u rowId =
      if u = t then none else s.rowStore.get u rowId :=
    TableStore.get_dropTable s.rowStore t u rowId
  refine ⟨tidy.catalog, tidy.unused, owned_dropRows tidy.owned t, ?_, tidy.once,
    tidy.uncreated, ?_, ?_⟩
  · intro u tm key rowId row known stored keyed
    rw [rows] at stored
    split at stored
    · cases stored
    · exact tidy.listed u tm key rowId row known stored keyed
  · intro u clear rowId
    rw [rows]
    split
    · rfl
    · rename_i other
      rw [cleared_append, Bool.or_eq_true] at clear
      rcases clear with before | now
      · exact tidy.empty u before rowId
      · exact False.elim (other (beq_iff_eq.mp now).symm)
  · exact facts_append tidy (fun _ => Or.inl) (fun _ => Or.inl)

/-- The indexes of a table go when its rows are gone. -/
theorem tidy_dropIndexes {t : Nat} (tidy : Tidy history s pending creating facts)
    (clear : cleared t history = true) :
    Tidy (history ++ [(i, .dropIndexes t)]) (act (.dropIndexes t) s).2 pending creating
      facts := by
  have index (u : Nat) : (act (.dropIndexes t) s).2.getIndex u "id" =
      if t = u then none else s.getIndex u "id" := SessionState.getIndex_retain s t u "id"
  refine ⟨tidy.catalog, fun u unused => ?_, tidy.owned, ?_, tidy.once,
    fun u inside => ⟨?_, (tidy.uncreated u inside).2⟩, ?_, ?_⟩
  · rw [index, tidy.unused u unused, ite_self]
  · intro u tm key rowId row known stored keyed
    by_cases same : t = u
    · subst same
      have gone : s.rowStore.get t rowId = none := tidy.empty t clear rowId
      change s.rowStore.get t rowId = some row at stored
      rw [gone] at stored
      cases stored
    · rw [heldIndex, index, if_neg same]
      exact tidy.listed u tm key rowId row known stored keyed
  · rw [index, (tidy.uncreated u inside).1, ite_self]
  · exact empty_append tidy (fun _ => rfl)
  · refine facts_append tidy (fun _ => Or.inl) (fun u some => ?_)
    rw [index]
    split
    · rename_i same
      exact Or.inr (cleared_of_append (same ▸ clear))
    · exact Or.inl some

omit [Float64 F] in
/-- Removing a name takes at most the entry it leads to. -/
theorem dropName_frame (unique : UniqueIds s.catalog) :
    (act (.dropName ns table) s).2.catalog.nextTableId = s.catalog.nextTableId ∧
      (∀ (t : Nat) (tm : TableMeta),
        (act (.dropName ns table) s).2.catalog.tablesById[t]? = some tm →
          s.catalog.tablesById[t]? = some tm) ∧
      ∀ tm : TableMeta, s.catalog.tablesById[tm.id]? = some tm →
        (act (.dropName ns table) s).2.catalog.tablesById[tm.id]? = some tm ∨
          s.tableMeta ns table = some tm := by
  let catalog' := (s.catalog.dropTable (ns.getD "public") table).2
  have same : (act (.dropName ns table) s).2.catalog = catalog' := rfl
  rw [same]
  cases bound : s.catalog.getTable (ns.getD "public") table with
  | none =>
    have unchanged : catalog' = s.catalog := congrArg Prod.snd (dropTable_of_unbound bound)
    rw [unchanged]
    exact ⟨rfl, fun _ _ => id, fun _ => Or.inl⟩
  | some tm =>
    have entries (t : Nat) : catalog'.tablesById[t]? =
        if tm.id = t then none else s.catalog.tablesById[t]? := tablesById_dropTable unique bound t
    refine ⟨congrArg (fun r => r.2.nextTableId) (dropTable_of_bound unique bound), ?_, ?_⟩
    · intro t tm' there
      rw [entries] at there
      split at there
      · cases there
      · exact there
    · intro tm' there
      rw [entries]
      split
      · rename_i removed
        have entry := (getTable_spec unique bound).2.2
        rw [removed, there] at entry
        cases entry
        exact Or.inr bound
      · exact Or.inl there

/-- A name goes when the rows of its table are gone. -/
theorem tidy_dropName (tidy : Tidy history s pending creating facts)
    (clear : ∀ tm, s.tableMeta ns table = some tm → cleared tm.id history = true) :
    Tidy (history ++ [(i, .dropName ns table)]) (act (.dropName ns table) s).2 pending creating
      facts := by
  obtain ⟨next, fewer, kept⟩ := dropName_frame tidy.catalog
  have unique : UniqueIds (s.catalog.dropTable (ns.getD "public") table).2 :=
    uniqueIds_dropTable tidy.catalog
  refine ⟨unique, ?_, ?_, ?_, tidy.once, ?_, ?_, ?_⟩
  · rw [next]
    exact tidy.unused
  · intro t absent
    cases there : s.catalog.tablesById[t]? with
    | none => exact tidy.owned t there
    | some tm =>
      obtain rfl := (tidy.catalog.byId t tm there).1
      rcases kept tm there with still | removed
      · rw [absent] at still
        cases still
      · exact tidy.empty tm.id (clear tm removed)
  · intro t tm key rowId row known stored keyed
    exact tidy.listed t tm key rowId row (fewer t tm known) stored keyed
  · rw [next]
    exact tidy.uncreated
  · exact empty_append tidy (fun _ => rfl)
  · refine facts_append tidy (fun tm there => ?_) (fun _ => Or.inl)
    rcases kept tm there with still | removed
    · exact Or.inl still
    · exact Or.inr (cleared_of_append (clear tm removed))

end Sections

section Filing
variable {history : List (Nat × LockSection F)} {s : SessionState F} {i : Nat}
variable {pending : Multiset (Nat × Nat × Row F)} {creating : Multiset Nat}
variable {facts : Multiset Fact} {tm : TableMeta} {rowId : Nat} {row : Row F} [Float64 F]

/-- The entry of a table with rows is the one that a statement knows. -/
theorem entry_of_known (tidy : Tidy history s pending creating facts)
    (known : .known tm ∈ facts) {tm' : TableMeta} (entry : s.catalog.tablesById[tm.id]? = some tm')
    (stored : s.rowStore.get tm.id rowId = some row) :
    tm' = tm ∧ cleared tm.id history = false := by
  have uncleared : cleared tm.id history = false := by
    apply Bool.eq_false_iff.mpr
    intro clear
    rw [tidy.empty tm.id clear rowId] at stored
    cases stored
  refine ⟨?_, uncleared⟩
  rcases tidy.facts _ known with there | clear
  · rw [entry] at there
    exact Option.some.inj there
  · rw [uncleared] at clear
    cases clear

/-- A row without a key is in no index, and a lookup in time fails only where there is no
row to be filed. -/
theorem tidy_unfiled
    (tidy : Tidy history s ({(tm.id, rowId, row)} + pending) creating facts)
    (known : .known tm ∈ facts) (in_time : timely history s (.getIndex tm.id) = true)
    (unfiled : rowKey tm.schema row = none ∨ s.getIndex tm.id "id" = none) :
    Tidy history s pending creating facts := by
  refine tidy_settle tidy (fun tm' key entry stored keyed => False.elim ?_)
  obtain ⟨rfl, uncleared⟩ := entry_of_known tidy known entry stored
  rcases unfiled with no_key | unindexed
  · rw [no_key] at keyed
    cases keyed
  · have nothing : unkeyed s tm'.id = true := by simpa [timely, unindexed, uncleared] using in_time
    rw [unkeyed, entry] at nothing
    have no_key := List.all_eq_true.mp nothing (rowId, row) (TableStore.mem_scan.mpr stored)
    rw [keyed] at no_key
    cases no_key

/-- Filing settles a row whose index was found. -/
theorem tidy_filed {key : IndexKey}
    (tidy : Tidy history s ({(tm.id, rowId, row)} + pending) creating facts)
    (known : .known tm ∈ facts) (indexed : .indexed tm.id ∈ facts)
    (keyed : rowKey tm.schema row = some key) :
    Tidy (history ++ [(i, .indexInsert tm.id key rowId)]) (withIndexed s tm.id key rowId)
      pending creating facts := by
  have after := tidy_indexInsert (i := i) tidy tm.id key rowId
  refine tidy_settle after (fun tm' key' entry stored keyed' => ?_)
  obtain ⟨rfl, uncleared⟩ := entry_of_known after known entry stored
  rw [keyed] at keyed'
  cases keyed'
  have filed : ((withIndexed s tm'.id key rowId).getIndex tm'.id "id").isSome := by
    rcases after.facts _ indexed with found | clear
    · exact found
    · rw [uncleared] at clear
      cases clear
  rw [getIndex_withIndexed, if_pos rfl, Option.isSome_map] at filed
  obtain ⟨index, found⟩ := Option.isSome_iff_exists.mp filed
  rw [heldIndex, getIndex_withIndexed, if_pos rfl, found, Option.map_some, Option.getD_some,
    get_insert, if_pos rfl]
  exact List.mem_append_right _ (List.mem_singleton_self rowId)

end Filing

section Statements
variable {α : Type} {i : Nat} {tm : TableMeta} [Float64 F]

/-- Whatever the result, no row is left unfiled. -/
def Filed : Except Stop α → Share F → Prop := fun _ g => g.1 = 0

/-- The share of a statement that has resolved its table. -/
abbrev knowing (tm : TableMeta) : Share F := (0, 0, {.known tm})

theorem keeps_aside {post : Except Stop α → Share F → Prop} {g : Share F} {op : LockSection F}
    (h : aside op = true) {f : Answer op → Task F α}
    (rest : ∀ answer, Keeps act tidiness i post (f answer) g) :
    Keeps act tidiness i post (locked op >>= f) g :=
  keeps_perform_bind trivial (fun _ s _ tidy _ => ⟨g, tidy_aside tidy h, rest (act op s).1⟩)

theorem keeps_resolveTable {ns : Option String} {table : String}
    {post : Except Stop α → Share F → Prop} {k : TableMeta → Task F α}
    (rest : ∀ tm, Keeps act tidiness i post (k tm) (knowing tm))
    (failed : ∀ e, post (.error e) 0) :
    Keeps act tidiness i post (resolveTable ns table >>= k) 0 := by
  rw [resolveTable, bind_assoc]
  refine keeps_perform_bind trivial (fun history s others tidy _ => ?_)
  have answer : (act (.tableMeta ns table) s).1 =
      s.catalog.getTable (ns.getD "public") table := rfl
  rw [answer]
  cases found : s.catalog.getTable (ns.getD "public") table with
  | none => exact ⟨0, tidy_aside tidy rfl, keeps_done (failed _)⟩
  | some tm =>
    refine ⟨knowing tm, ?_, rest tm⟩
    have after : Tidy (history ++ [(i, .tableMeta ns table)]) s _ _ _ := tidy_aside tidy rfl
    have entry : Holds (history ++ [(i, .tableMeta ns table)]) s (.known tm) :=
      Or.inl (getTable_spec tidy.catalog found).2.2
    have known := tidy_learn after entry
    change Tidy _ _ (0 + others.1) (0 + others.2.1) ({.known tm} + (0 + others.2.2)) at known
    rwa [zero_add others.2.2] at known

/-- A row in the hands of an INSERT that has found its index. -/
theorem keeps_indexInsert {row : Row F} {rowId : Nat} {key : IndexKey}
    (keyed : rowKey tm.schema row = some key) :
    Keeps act tidiness i (Same (knowing tm)) (locked (.indexInsert tm.id key rowId))
      ({(tm.id, rowId, row)}, 0, {.indexed tm.id} + {.known tm}) := by
  refine ⟨trivial, fun history s others tidy _ => ⟨knowing tm, ?_, rfl⟩⟩
  have filed := tidy_filed (i := i) tidy (by simp) (by simp) keyed
  change Tidy _ _ _ _ ({.indexed tm.id} + {.known tm} + others.2.2) at filed
  rw [add_assoc] at filed
  have forgot := tidy_forget filed
  rwa [← zero_add others.1] at forgot

/-- A row is filed, stopped by its id, or belongs in no index. -/
theorem keeps_indexRow (row : Row F) (rowId : Nat) :
    Keeps act tidiness i (Same (knowing tm))
      (indexRow tm (tm.schema.columnIndex "id") row rowId)
      ({(tm.id, rowId, row)}, 0, {.known tm}) := by
  refine keeps_perform_bind trivial (fun history s others tidy in_time => ?_)
  have after {owed : Multiset (Nat × Nat × Row F)}
      (now : Tidy history s owed (0 + others.2.1) ({.known tm} + others.2.2)) :
      Tidy (history ++ [(i, .getIndex tm.id)]) s owed (0 + others.2.1)
        ({.known tm} + others.2.2) := tidy_aside now rfl
  have settled (unfiled : rowKey tm.schema row = none ∨ s.getIndex tm.id "id" = none) :
      Tidy (history ++ [(i, .getIndex tm.id)]) s (0 + others.1) (0 + others.2.1)
        ({.known tm} + others.2.2) := by
    rw [zero_add others.1]
    exact after (tidy_unfiled tidy (by simp) in_time unfiled)
  have answer : (act (.getIndex tm.id) s).1 = (s.getIndex tm.id "id").isSome := rfl
  rw [answer]
  cases column : tm.schema.columnIndex "id" with
  | none =>
    have no_key : rowKey tm.schema row = none := by rw [rowKey, column, Option.bind_none]
    exact ⟨knowing tm, settled (Or.inl no_key), keeps_pure rfl⟩
  | some idIdx =>
    have key_of : rowKey tm.schema row = idKey idIdx row := by
      rw [rowKey, column, Option.bind_some]
    cases indexed : s.getIndex tm.id "id" with
    | none => exact ⟨knowing tm, settled (Or.inr indexed), keeps_pure rfl⟩
    | some index =>
      simp only [Option.isSome_some]
      cases cell : row.get idIdx with
      | none =>
        have no_key : rowKey tm.schema row = none := by
          rw [key_of, idKey, cell, Option.bind_none]
        exact ⟨knowing tm, settled (Or.inl no_key), keeps_pure rfl⟩
      | some idVal =>
        cases converted : IndexKey.fromValue idVal with
        | error e =>
          have no_key : rowKey tm.schema row = none := by
            rw [key_of, idKey, cell, Option.bind_some, converted]
            rfl
          refine ⟨knowing tm, settled (Or.inl no_key), ?_⟩
          simp only [converted]
          exact keeps_done rfl
        | ok key =>
          have keyed : rowKey tm.schema row = some key := by
            rw [key_of, idKey, cell, Option.bind_some, converted]
            rfl
          refine ⟨({(tm.id, rowId, row)}, 0, {.indexed tm.id} + {.known tm}), ?_, ?_⟩
          · have found : Holds (history ++ [(i, .getIndex tm.id)]) s (.indexed tm.id) := by
              refine Or.inl ?_
              rw [indexed, Option.isSome_some]
            have learned := tidy_learn (after tidy) found
            rwa [← add_assoc] at learned
          · simp only [converted]
            exact keeps_indexInsert keyed

theorem keeps_pushColumnarRow {g : Share F} (row : Row F) :
    Keeps act tidiness i (Same g) (pushColumnarRow tm row) g := by
  refine keeps_aside rfl (fun taken => ?_)
  cases taken with
  | none => exact keeps_pure rfl
  | some rows =>
    refine keeps_aside rfl (fun chunkId => ?_)
    rw [← bind_pure (locked _)]
    exact keeps_aside rfl (fun _ => keeps_pure rfl)

/-- A row that is stored is owed to the index. -/
theorem keeps_insertRow (rowVals : List (Value F)) :
    Keeps act tidiness i (Same (knowing tm))
      (insertRow tm (tm.schema.columnIndex "id") rowVals) (knowing tm) := by
  refine keeps_perform_bind trivial (fun history s others tidy in_time => ?_)
  have uncleared : cleared tm.id history = false := by
    simpa [tidiness, timely] using in_time
  have live : s.catalog.tablesById[tm.id]? ≠ none := by
    intro absent
    have known := tidy.facts (.known tm)
      (Multiset.mem_add.mpr (Or.inl (Multiset.mem_singleton_self _)))
    rcases known with there | clear
    · rw [absent] at there
      cases there
    · rw [uncleared] at clear
      cases clear
  refine ⟨({(tm.id, s.rowStore.nextRowId, .new rowVals)}, 0, {.known tm}), ?_, ?_⟩
  · have stored := tidy_insertRow (i := i) tidy live uncleared (.new rowVals)
    change Tidy _ _ (_ + (0 + others.1)) _ _ at stored
    rwa [zero_add others.1] at stored
  · refine keeps_bind (keeps_indexRow _ _) (fun u g same => ?_) (fun e g same => same)
    rw [same]
    exact keeps_pushColumnarRow _

theorem keeps_createTable {ns : Option String} {table : String}
    {columns : List (String × ColumnType)} :
    Keeps act (tidiness (F := F)) i Filed (createTable ns table columns) 0 := by
  refine keeps_perform_bind trivial (fun history s others tidy _ => ?_)
  let schema := Schema.new (columns.map (fun c => ⟨c.1, c.2, true⟩))
  let created := createdMeta s.catalog (ns.getD "public") table schema none
  have number : created.id = s.catalog.nextTableId := (createdMeta_fields ..).1
  refine ⟨(0, {created.id}, 0), ?_, ?_⟩
  · rw [number]
    have after : Tidy (history ++ [(i, .createTable ns table schema)]) _ _ _ _ :=
      tidy_createTable tidy
    change Tidy _ _ _ ({s.catalog.nextTableId} + (0 + others.2.1)) _ at after
    rwa [zero_add others.2.1] at after
  · have answer : (act (.createTable ns table schema) s).1 = created := rfl
    rw [answer]
    cases created.schema.columnIndex "id" with
    | none => exact keeps_pure rfl
    | some idIdx =>
      refine ⟨trivial, fun history' s' others' creating _ => ⟨0, ?_, rfl⟩⟩
      have indexed := tidy_createIndex (i := i) creating
      rwa [← zero_add others'.2.1] at indexed

/-- What the drop has removed is gone when it goes on. -/
theorem keeps_dropTable {ns : Option String} {table : String} {facts : Multiset Fact} :
    Keeps act tidiness i Filed (dropTable tm ns table) ((0, 0, facts) : Share F) := by
  refine keeps_perform_bind trivial (fun history s others tidy _ => ?_)
  refine ⟨(0, 0, {.dropped tm.id} + facts), ?_, ?_⟩
  · have gone : Holds (history ++ [(i, .dropRows tm.id)]) (act (.dropRows tm.id) s).2
        (.dropped tm.id) := cleared_of_mem (List.mem_append_right _ (List.mem_singleton_self _))
    have learned := tidy_learn (tidy_dropRows (i := i) tidy tm.id) gone
    change Tidy _ _ _ _ ({.dropped tm.id} + facts + others.2.2)
    rwa [add_assoc]
  · refine keeps_aside rfl (fun _ => ?_)
    refine keeps_perform_bind trivial (fun history s others tidy _ => ?_)
    have clear := tidy.facts (.dropped tm.id) (by simp)
    refine ⟨_, tidy_dropIndexes tidy clear, trivial, fun history s others tidy in_time => ?_⟩
    refine ⟨_, tidy_dropName tidy (fun tm' bound => ?_), rfl⟩
    simpa [tidiness, timely, bound] using in_time

/-- CREATE TABLE, DROP TABLE and INSERT. -/
def changesTables : PlanNode F → Bool
  | .createTable _ _ _ => true
  | .dropTable _ _ => true
  | .insert _ _ _ _ => true
  | _ => false

def TableChange [ValueDebug F] (m : Task F (ExecutionResult F)) : Prop :=
  ∃ plan, changesTables plan = true ∧ m = statement plan

theorem keeps_tableChange [ValueDebug F] {m : Task F (ExecutionResult F)} (h : TableChange m) :
    Keeps act tidiness i Filed m 0 := by
  obtain ⟨plan, changes, rfl⟩ := h
  cases plan with
  | insert table ns columns values =>
    refine keeps_resolveTable (fun tm => ?_) (fun e => rfl)
    have round (rowVals : List (Value F)) : Keeps act tidiness i
        (fun result g => g.1 = 0 ∧ ∀ u, result = .ok u → g = knowing tm)
        (insertRow tm (tm.schema.columnIndex "id") rowVals) (knowing tm) := by
      refine keeps_mono ?_ (keeps_insertRow rowVals)
      rintro result g rfl
      exact ⟨rfl, fun _ _ => rfl⟩
    refine keeps_bind (keeps_insertRows (fun _ => knowing tm) _ values 0
      (fun rowVals _ => round rowVals) (fun _ => rfl)) ?_ ?_
    · exact fun count g h => keeps_pure h.1
    · exact fun e g h => h.1
  | createTable table ns columns =>
    exact keeps_bind keeps_createTable (fun u g filed => keeps_pure filed) (fun e g filed => filed)
  | dropTable table ns =>
    refine keeps_resolveTable (fun tm => ?_) (fun e => rfl)
    exact keeps_bind keeps_dropTable (fun u g filed => keeps_pure filed) (fun e g filed => filed)
  | _ => cases changes

end Statements

section Runs
variable [Float64 F] [ValueDebug F] {s : SessionState F}

omit [ValueDebug F] in
theorem owned_step {strands : Prop} {s' : SessionState F} (step : PlanEffects.Step strands s s')
    (valid : SessionValid s) (owned : Owned s) : Owned s' := by
  have entered {tm : TableMeta} (bound : Bound s tm) : s.catalog.tablesById[tm.id]? ≠ none := by
    rw [bound_known valid.catalog bound]
    exact Option.some_ne_none tm
  cases step with
  | flush bound =>
    rw [Owned, SessionState.catalog_flush, SessionState.rowStore_flush]
    exact owned
  | storeRow bound row =>
    rw [Owned, catalog_stored, rowStore_stored]
    exact owned_withRow owned (entered bound) row
  | strandRow allowed bound row e blocked => exact owned_withRow owned (entered bound) row
  | createTable ns table columns =>
    obtain ⟨catalog, rows, -⟩ := createTable_frame s ns table columns
    rw [Owned, catalog, rows]
    exact owned_createTable owned
  | @dropTable tm ns table resolved =>
    intro t absent rowId
    refine (TableStore.get_dropTable s.rowStore tm.id t rowId).trans ?_
    have absent' : (s.catalog.dropTable (ns.getD "public") table).2.tablesById[t]? = none := absent
    rw [tablesById_dropTable valid.catalog.toUniqueIds resolved] at absent'
    split
    · rfl
    · rename_i other
      rw [if_neg (Ne.symm other)] at absent'
      exact owned t absent' rowId

/-- Statements that are not interrupted leave no rows behind. -/
theorem reachable_owned (h : Reachable s) : Owned s := by
  have both : SessionValid s ∧ Owned s := by
    refine steps_invariant (P := fun s => SessionValid s ∧ Owned s) (fun s s' step before => ?_)
      (reachable_steps h) ⟨sessionValid_new, fun t _ rowId => ?_⟩
    · exact ⟨sessionValid_step step before.1, owned_step step before.1 before.2⟩
    · simp [SessionState.new, TableStore.new, TableStore.get]
  exact both.2

theorem tidy_start (h : Reachable s) : Tidy [] s 0 0 0 := by
  have valid := reachable_valid h
  have unique := valid.catalog.toUniqueIds
  refine ⟨unique, fun t unused => ?_, reachable_owned h, ?_, Multiset.nodup_zero, ?_, ?_, ?_⟩
  · cases held : s.getIndex t "id" with
    | none => rfl
    | some index =>
      obtain ⟨-, tm, i, entry, -, -⟩ := valid.contents t "id" index held
      have below := (unique.byId t tm entry).2
      omega
  · intro t tm key rowId row entry stored keyed
    obtain ⟨i, column, filed⟩ := Option.bind_eq_some_iff.mp keyed
    have exists_index := valid.indexed t tm entry (by rw [column, Option.isSome_some])
    obtain ⟨index, held⟩ := Option.isSome_iff_exists.mp exists_index
    obtain ⟨-, tm', i', entry', column', contents⟩ := valid.contents t "id" index held
    rw [entry] at entry'
    cases entry'
    rw [column] at column'
    cases column'
    refine Or.inl ?_
    rw [heldIndex, held, Option.getD_some, mem_get_iff contents]
    exact ⟨row, TableStore.mem_scan.mpr stored, filed⟩
  · exact fun t inside => False.elim (Multiset.notMem_zero t inside)
  · exact fun t clear => by cases clear
  · exact fun fact inside => False.elim (Multiset.notMem_zero fact inside)

omit [ValueDebug F] in
theorem covers_timely : Covers Timely (tidiness (F := F)) :=
  fun _ _ _ _ _ _ in_time _ => in_time

/-- When CREATE TABLEs, DROP TABLEs and INSERTs have all returned, and every step was timely,
the indexes list every row they should and no dropped table has a row. -/
theorem timely_tables_complete (h : Reachable s) {p : StatementPool F}
    (run : Run act TableChange Timely ⟨s, [], []⟩ p) (quiet : p.Quiet) :
    IndexesComplete p.state ∧ NoOrphans p := by
  obtain ⟨certs, k, cert, posts⟩ := certified_of_run covers_timely
    (fun i m changes => keeps_mono (fun result g filed => ⟨trivial, filed⟩)
      (keeps_tableChange changes)) (tidy_start h) run
  have nothing : (certs.map Prod.snd).sum.1 = 0 := by
    refine sum_eq_zero (AddMonoidHom.fst _ _) cert posts (fun m running => ?_)
    obtain ⟨result, rfl⟩ := quiet m running
    exact ⟨result, rfl, fun g filed => filed⟩
  have tidy : Tidy _ _ _ _ _ := cert.inv
  rw [nothing] at tidy
  refine ⟨fun t tm index rowId row key entry held stored keyed => ?_, ?_, tidy.owned⟩
  · rcases tidy.listed t tm key rowId row entry stored keyed with filed | owed
    · rwa [heldIndex, held, Option.getD_some] at filed
    · exact False.elim (Multiset.notMem_zero _ owed)
  · exact fun j t result dropped _ => tidy.empty t (cleared_of_mem dropped)

section Instances

def creates (table : String) : Task Float (ExecutionResult Float) :=
  statement (.createTable table none [("id", .bigInt)])

def inserts (table : String) (id : Int64) : Task Float (ExecutionResult Float) :=
  statement (.insert table none [] [[.int64 id]])

def drops (table : String) : Task Float (ExecutionResult Float) :=
  statement (.dropTable table none)

theorem tableChange_creates (table : String) : TableChange (creates table) :=
  ⟨.createTable table none _, rfl, rfl⟩

theorem tableChange_inserts (table : String) (id : Int64) : TableChange (inserts table id) :=
  ⟨.insert table none _ _, rfl, rfl⟩

theorem tableChange_drops (table : String) : TableChange (drops table) :=
  ⟨.dropTable table none, rfl, rfl⟩

def fiveStatements : List (Task Float (ExecutionResult Float)) :=
  [creates "t", inserts "t" 1, inserts "t" 2, creates "u", drops "u"]

/-- Two INSERTs at once while another table comes and goes. -/
def fiveTurns : List Nat := [0, 3, 0, 1, 2, 3, 1, 2, 4, 2, 4, 1, 1, 4, 2, 4, 1, 2, 4]

theorem timely_tables_complete_five :
    ∃ p, turns act Timely fiveTurns ⟨.new, fiveStatements, []⟩ = some p ∧
      IndexesComplete p.state ∧ NoOrphans p := by
  obtain ⟨p, scheduled, quiet⟩ : ∃ p : StatementPool Float,
      turns act Timely fiveTurns ⟨.new, fiveStatements, []⟩ = some p ∧ p.Quiet :=
    ⟨_, rfl, quiet_of_nextOp rfl⟩
  refine ⟨p, scheduled, timely_tables_complete RunFrom.new
    (run_of_schedule ?_ fiveTurns scheduled) quiet⟩
  refine List.forall_mem_cons.mpr ⟨tableChange_creates "t", ?_⟩
  refine List.forall_mem_cons.mpr ⟨tableChange_inserts "t" 1, ?_⟩
  refine List.forall_mem_cons.mpr ⟨tableChange_inserts "t" 2, ?_⟩
  exact List.forall_mem_cons.mpr ⟨tableChange_creates "u",
    List.forall_mem_singleton.mpr (tableChange_drops "u")⟩

/-- An INSERT that looks the index up before it is filed, one that stores its row in a dropped
table, and a DROP that removes the name of a newer table: each loses a row. -/
theorem concurrent_tables_lose_rows :
    (¬ ∀ (s : SessionState Float) (p : StatementPool Float), Reachable s →
      Run act TableChange always ⟨s, [], []⟩ p → p.Quiet → IndexesComplete p.state) ∧
    (¬ ∀ (s : SessionState Float) (p : StatementPool Float), Reachable s →
      Run act TableChange always ⟨s, [], []⟩ p → p.Quiet → NoOrphans p) ∧
    ¬ ∀ (s : SessionState Float) (p : StatementPool Float), Reachable s →
      Run act TableChange always ⟨s, [], []⟩ p → p.Quiet → Owned p.state := by
  refine ⟨fun complete => ?_, fun clean => ?_, fun owned => ?_⟩
  · have each : ∀ m ∈ [creates "t", inserts "t" 1], TableChange m :=
      List.forall_mem_cons.mpr ⟨tableChange_creates "t",
        List.forall_mem_singleton.mpr (tableChange_inserts "t" 1)⟩
    obtain ⟨p, tm, index, row, key, scheduled, quiet, entry, held, stored, keyed, unlisted⟩ :
        ∃ (p : StatementPool Float) (tm : TableMeta) (index : BTreeIndex) (row : Row Float)
          (key : IndexKey), turns act always [0, 1, 1, 1, 1, 0]
            ⟨.new, [creates "t", inserts "t" 1], []⟩ = some p ∧ p.Quiet ∧
          p.state.catalog.tablesById[0]? = some tm ∧ p.state.getIndex 0 "id" = some index ∧
          p.state.rowStore.get 0 0 = some row ∧ rowKey tm.schema row = some key ∧
          index.get key = [] :=
      ⟨_, _, _, _, _, rfl, quiet_of_nextOp rfl, rfl, rfl, rfl, rfl, rfl⟩
    have listed := complete .new p RunFrom.new (run_of_schedule each _ scheduled) quiet
      0 tm index 0 row key entry held stored keyed
    rw [unlisted] at listed
    exact List.not_mem_nil listed
  · have each : ∀ m ∈ [inserts "t" 1, drops "t"], TableChange m :=
      List.forall_mem_cons.mpr ⟨tableChange_inserts "t" 1,
        List.forall_mem_singleton.mpr (tableChange_drops "t")⟩
    obtain ⟨p, result, row, scheduled, quiet, dropped, returned, stored⟩ :
        ∃ (p : StatementPool Float) (result : ExecutionResult Float) (row : Row Float),
          turns act always [0, 1, 1, 0, 0, 0, 0, 1, 1, 1]
            ⟨newTable, [inserts "t" 1, drops "t"], []⟩ = some p ∧ p.Quiet ∧
          p.history[2]? = some (1, .dropRows 0) ∧
          p.threads[1]? = some (.done (.ok result)) ∧ p.state.rowStore.get 0 0 = some row :=
      ⟨_, _, _, rfl, quiet_of_nextOp rfl, rfl, rfl,
        (TableStore.get_insert 0 0 0 (.new [.int64 1])).trans (if_pos rfl)⟩
    have gone := (clean newTable p reachable_newTable (run_of_schedule each _ scheduled) quiet).1
      1 0 result (List.mem_of_getElem? dropped) returned 0
    rw [stored] at gone
    cases gone
  · have each : ∀ m ∈ [drops "t", creates "t", inserts "t" 1], TableChange m := by
      refine List.forall_mem_cons.mpr ⟨tableChange_drops "t", ?_⟩
      exact List.forall_mem_cons.mpr ⟨tableChange_creates "t",
        List.forall_mem_singleton.mpr (tableChange_inserts "t" 1)⟩
    obtain ⟨p, row, scheduled, quiet, removed, stored⟩ :
        ∃ (p : StatementPool Float) (row : Row Float),
          turns act always [0, 1, 1, 2, 2, 2, 2, 2, 0, 0, 0, 0]
            ⟨newTable, [drops "t", creates "t", inserts "t" 1], []⟩ = some p ∧
          p.Quiet ∧ p.state.catalog.tablesById[1]? = none ∧
          p.state.rowStore.get 1 0 = some row :=
      ⟨_, _, rfl, quiet_of_nextOp rfl, rfl,
        (TableStore.get_dropTable _ 0 1 0).trans (if_neg (by decide))⟩
    have gone := owned newTable p reachable_newTable (run_of_schedule each _ scheduled) quiet
      1 removed 0
    rw [stored] at gone
    cases gone

end Instances

end Runs

end ConcurrentTables
