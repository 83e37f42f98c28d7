import Mathlib.Algebra.Order.Group.Multiset
import RustafariDB.LockSections
import RustafariDB.NamedTableRefinement

/-!
# Statements on a table of their own

A statement whose table no other statement touches finds the table at every section as its
last section left it. What it owns is a picture of the state at that time, and the rest of
the state may be anything. A statement that only looks answers as it would at once.
-/

namespace OwnedTables

open Std Catalogs Values RowStorage ColumnarStorage BTreeIndexing Plans Floats Sessions
open Predicates StatefulPrograms Interleavings LockSections
open Execution (Stop ExecutionResult executePlan)
open TableViews

variable {F : Type}

/-- The states hold the same under one table id. -/
structure Agree (t : Nat) (s s' : SessionState F) : Prop where
  rows : s'.rowStore.scan t = s.rowStore.scan t
  index : ∀ column, s'.getIndex t column = s.getIndex t column
  buffer : s'.buffered t = s.buffered t
  chunks : s'.columnarStore.chunksOf t = s.columnarStore.chunksOf t

theorem agree_refl (t : Nat) (s : SessionState F) : Agree t s s := ⟨rfl, fun _ => rfl, rfl, rfl⟩

theorem agree_trans {t : Nat} {s s' s'' : SessionState F} (first : Agree t s s')
    (second : Agree t s' s'') : Agree t s s'' :=
  ⟨second.rows.trans first.rows, fun column => (second.index column).trans (first.index column),
    second.buffer.trans first.buffer, second.chunks.trans first.chunks⟩

theorem sameContent_of_agree {t : Nat} {s s' : SessionState F} (agree : Agree t s s') :
    SameContent t s s' := by
  refine ⟨agree.rows, agree.index, agree.buffer, ?_⟩
  rw [agree.chunks]
  exact (sameContent_refl t s).chunks

theorem get_of_agree {t : Nat} {s s' : SessionState F} (agree : Agree t s s') (rowId : Nat) :
    s'.rowStore.get t rowId = s.rowStore.get t rowId := by
  let tm : TableMeta := ⟨t, 0, "", .new [], ""⟩
  have rows : s'.rowStore.scan tm.id = s.rowStore.scan tm.id := agree.rows
  exact get_of_scan rows rowId

section Sections

/-- The table a section works on. -/
def touched : LockSection F → Option Nat
  | .insertRow t _ => some t
  | .getRow t _ => some t
  | .scanRows t => some t
  | .dropRows t => some t
  | .getIndex t => some t
  | .indexInsert t _ _ => some t
  | .indexGet t _ => some t
  | .indexRange t _ _ => some t
  | .createIndex t => some t
  | .dropIndexes t => some t
  | .pushRow t _ => some t
  | .takeBuffer t => some t
  | .insertChunk t _ => some t
  | .chunks t => some t
  | .dropChunks t => some t
  | _ => none

/-- The sections of INSERTs and queries. -/
def onData : LockSection F → Bool
  | .dropRows _ => false
  | .createIndex _ => false
  | .dropIndexes _ => false
  | .dropChunks _ => false
  | .createTable _ _ _ => false
  | .dropName _ _ => false
  | _ => true

theorem catalog_withIndexed (s : SessionState F) (t : Nat) (key : IndexKey) (rowId : Nat) :
    (withIndexed s t key rowId).catalog = s.catalog ∧
      (withIndexed s t key rowId).rowStore = s.rowStore := by
  rw [withIndexed]
  split <;> exact ⟨rfl, rfl⟩

theorem act_onData {op : LockSection F} (data : onData op = true) (s : SessionState F) :
    (act op s).2.catalog = s.catalog ∧
      (s.rowStore.Fresh → (act op s).2.rowStore.Fresh) := by
  cases op with
  | insertRow t row => exact ⟨rfl, fun fresh => TableStore.fresh_insert fresh t row⟩
  | indexInsert t key rowId =>
    obtain ⟨catalog, rows⟩ := catalog_withIndexed s t key rowId
    exact ⟨catalog, fun fresh => rows.symm ▸ fresh⟩
  | pushRow t row =>
    simp only [act]
    split <;> exact ⟨rfl, id⟩
  | takeBuffer t =>
    simp only [act]
    split <;> exact ⟨rfl, id⟩
  | dropRows | createIndex | dropIndexes | dropChunks | createTable | dropName => cases data
  | _ => exact ⟨rfl, id⟩

theorem agree_withBuffer {t u : Nat} (other : t ≠ u) (s : SessionState F) (rows : List (Row F)) :
    Agree u s (withBuffer s t rows) := by
  refine ⟨rfl, fun _ => rfl, ?_, rfl⟩
  simp only [SessionState.buffered, withBuffer, ExtTreeMap.getElem?_insert]
  rw [if_neg (by simp [other])]

theorem agree_withIndexed {t u : Nat} (other : t ≠ u) (s : SessionState F) (key : IndexKey)
    (rowId : Nat) : Agree u s (withIndexed s t key rowId) := by
  rw [withIndexed]
  split
  · refine ⟨rfl, fun column => ?_, rfl, rfl⟩
    rw [SessionState.getIndex_insert, if_neg]
    exact fun same => other (Prod.mk.inj same).1
  · exact agree_refl u s

/-- A section on one table leaves the others. -/
theorem agree_act {op : LockSection F} (data : onData op = true) {u : Nat}
    (other : touched op ≠ some u) (s : SessionState F) : Agree u s (act op s).2 := by
  have apart {t : Nat} (this : some t ≠ some u) : t ≠ u := fun same => this (congrArg some same)
  cases op with
  | insertRow t row =>
    refine ⟨?_, fun _ => rfl, rfl, rfl⟩
    exact TableStore.scan_insert_other (apart other).symm row
  | indexInsert t key rowId => exact agree_withIndexed (apart other) s key rowId
  | pushRow t row =>
    simp only [act]
    split <;> exact agree_withBuffer (apart other) s _
  | takeBuffer t =>
    simp only [act]
    split
    · exact agree_withBuffer (apart other) s _
    · exact agree_refl u s
  | insertChunk t chunk =>
    refine ⟨rfl, fun _ => rfl, rfl, ?_⟩
    exact (ColumnarStore.chunksOf_insertChunk t u chunk).trans (if_neg (apart other))
  | dropRows | createIndex | dropIndexes | dropChunks | createTable | dropName => cases data
  | _ => exact ⟨rfl, fun _ => rfl, rfl, rfl⟩

end Sections

section Ownership

/-- The tables that statements own, each as the last section of its owner left the state. -/
abbrev Owned (F : Type) := Multiset (Nat × SessionState F)

/-- Owned tables are as their owners left them, and the others as they were at the start. -/
structure Keeping (start s : SessionState F) (g : Owned F) : Prop where
  catalog : s.catalog = start.catalog
  fresh : s.rowStore.Fresh
  distinct : (g.map Prod.fst).Nodup
  owned : ∀ e ∈ g, Agree e.1 e.2 s
  untouched : ∀ t, t ∉ g.map Prod.fst → Agree t start s

def ownership (start : SessionState F) : Protocol (LockSection F) (SessionState F) (Owned F) where
  inv _ s g := Keeping start s g
  allows _ _ _ _ _ := True
  shows _ _ := True

variable {start s σ : SessionState F} {t i : Nat} {α : Type}

theorem keeping_act {op : LockSection F} (data : onData op = true)
    (own : ∀ u, touched op = some u → u = t) {rest : Owned F}
    (keeping : Keeping start s ({(t, σ)} + rest)) :
    Keeping start (act op s).2 ({(t, (act op s).2)} + rest) := by
  have names (σ : SessionState F) : Multiset.map Prod.fst ({(t, σ)} + rest) =
      {t} + rest.map Prod.fst := by simp
  have distinct := keeping.distinct
  rw [names] at distinct
  have others {u : Nat} (other : u ≠ t) : Agree u s (act op s).2 :=
    agree_act data (fun same => other (own u same)) s
  constructor
  · rw [(act_onData data s).1, keeping.catalog]
  · exact (act_onData data s).2 keeping.fresh
  · rw [names]
    exact distinct
  · intro e inside
    rcases Multiset.mem_add.mp inside with mine | elsewhere
    · rw [Multiset.mem_singleton.mp mine]
      exact agree_refl _ _
    · have other : e.1 ≠ t := by
        rintro rfl
        rw [Multiset.singleton_add, Multiset.nodup_cons] at distinct
        exact distinct.1 (Multiset.mem_map_of_mem _ elsewhere)
      exact agree_trans (keeping.owned e (Multiset.mem_add.mpr (Or.inr elsewhere))) (others other)
  · intro u free
    rw [names] at free
    have other : u ≠ t := fun same => free (by simp [same])
    refine agree_trans (keeping.untouched u ?_) (others other)
    rwa [names]

/-- The owner of a table performs a section on a state that agrees with its picture. -/
theorem keeps_own {op : LockSection F} {next : Answer op → Task F α}
    {post : Except Stop α → Owned F → Prop} (data : onData op = true)
    (own : ∀ u, touched op = some u → u = t)
    (rest : ∀ s, s.catalog = start.catalog → s.rowStore.Fresh → Agree t σ s →
      Keeps act (ownership start) i post (next (act op s).1) {(t, (act op s).2)}) :
    Keeps act (ownership start) i post (.call op next) {(t, σ)} := by
  refine ⟨trivial, fun history s others keeping _ => ?_⟩
  have mine : (t, σ) ∈ ({(t, σ)} + others : Owned F) := by simp
  exact ⟨{(t, (act op s).2)}, keeping_act data own keeping,
    rest s keeping.catalog keeping.fresh (keeping.owned _ mine)⟩

theorem keeps_own_bind {op : LockSection F} {f : Answer op → Task F α}
    {post : Except Stop α → Owned F → Prop} (data : onData op = true)
    (own : ∀ u, touched op = some u → u = t)
    (rest : ∀ s, s.catalog = start.catalog → s.rowStore.Fresh → Agree t σ s →
      Keeps act (ownership start) i post (f (act op s).1) {(t, (act op s).2)}) :
    Keeps act (ownership start) i post (locked op >>= f) {(t, σ)} := keeps_own data own rest

end Ownership

section Looking
variable {s s' σ start : SessionState F} {t i : Nat} {α β : Type}

/-- The section changes nothing and answers by the catalog and one table. -/
def observes (t : Nat) (s : SessionState F) : LockSection F → Prop
  | .tableMeta _ _ => True
  | .getRow u _ => u = t
  | .scanRows u => u = t
  | .getIndex u => u = t
  | .indexGet u _ => u = t
  | .indexRange u _ _ => u = t
  | .chunks u => u = t
  | .takeBuffer u => u = t ∧ s.buffered t = []
  | _ => False

/-- Without interruption the program changes nothing, and looks at the catalog and one table. -/
def Looks (t : Nat) (s : SessionState F) : Task F α → Prop
  | .done _ => True
  | .call op next => observes t s op ∧ Looks t s (next (act op s).1)

theorem act_observes {op : LockSection F} (sees : observes t s op) :
    (act op s).2 = s ∧ onData op = true ∧ ∀ u, touched op = some u → u = t := by
  have same {u : Nat} (this : u = t) (v : Nat) (h : some u = some v) : v = t :=
    (Option.some.inj h).symm.trans this
  cases op with
  | tableMeta ns table => exact ⟨rfl, rfl, nofun⟩
  | getRow u rowId => exact ⟨rfl, rfl, same sees⟩
  | scanRows u => exact ⟨rfl, rfl, same sees⟩
  | getIndex u => exact ⟨rfl, rfl, same sees⟩
  | indexGet u key => exact ⟨rfl, rfl, same sees⟩
  | indexRange u first last => exact ⟨rfl, rfl, same sees⟩
  | chunks u => exact ⟨rfl, rfl, same sees⟩
  | takeBuffer u =>
    obtain ⟨rfl, empty⟩ := sees
    rw [act_takeBuffer_empty empty]
    exact ⟨rfl, rfl, same rfl⟩
  | _ => exact False.elim sees

/-- States that agree answer alike. -/
theorem answer_of_agree {op : LockSection F} (catalog : s'.catalog = s.catalog)
    (agree : Agree t s s') (sees : observes t s op) :
    (act op s').1 = (act op s).1 ∧ observes t s' op := by
  cases op with
  | tableMeta ns table =>
    refine ⟨?_, trivial⟩
    change s'.catalog.getTable _ _ = s.catalog.getTable _ _
    rw [catalog]
  | getRow u rowId =>
    obtain rfl : u = t := sees
    exact ⟨get_of_agree agree rowId, rfl⟩
  | scanRows u =>
    obtain rfl : u = t := sees
    exact ⟨agree.rows, rfl⟩
  | getIndex u =>
    obtain rfl : u = t := sees
    exact ⟨congrArg Option.isSome (agree.index "id"), rfl⟩
  | indexGet u key =>
    obtain rfl : u = t := sees
    exact ⟨congrArg (fun index => (index.getD BTreeIndex.new).get key) (agree.index "id"), rfl⟩
  | indexRange u first last =>
    obtain rfl : u = t := sees
    exact ⟨congrArg (fun index => (index.getD BTreeIndex.new).range first (some last))
      (agree.index "id"), rfl⟩
  | chunks u =>
    obtain rfl : u = t := sees
    exact ⟨agree.chunks, rfl⟩
  | takeBuffer u =>
    obtain ⟨rfl, empty⟩ := sees
    have still : s'.buffered u = [] := agree.buffer.trans empty
    rw [act_takeBuffer_empty empty, act_takeBuffer_empty still]
    exact ⟨rfl, rfl, still⟩
  | _ => exact False.elim sees

theorem alone_observes {op : LockSection F} (next : Answer op → Task F α)
    (sees : observes t s op) : Program.alone act (.call op next : Task F α) s =
      Program.alone act (next (act op s).1) s := by
  change Program.alone act (next (act op s).1) (act op s).2 = _
  rw [(act_observes sees).1]

/-- A picture of a table as a state shows it, with the catalog of the start. -/
structure Pictures (start s : SessionState F) (t : Nat) (σ : SessionState F) : Prop where
  agree : Agree t s σ
  catalog : σ.catalog = start.catalog
  fresh : σ.rowStore.Fresh

/-- The owner of a table may look at it section by section. -/
theorem keeps_looks {q : Task F α} (looks : Looks t s q) (catalog : s.catalog = start.catalog)
    (pictures : Pictures start s t σ) :
    Keeps act (ownership start) i (fun result g => Program.alone act q s = runExcept result s ∧
      ∃ σ', g = {(t, σ')} ∧ Pictures start s t σ') q {(t, σ)} := by
  induction q generalizing σ with
  | done result => exact ⟨rfl, σ, rfl, pictures⟩
  | call op next ih =>
    obtain ⟨sees, onward⟩ := looks
    obtain ⟨_, data, own⟩ := act_observes sees
    refine keeps_own data own (fun s' catalog' fresh agree => ?_)
    have agree' := agree_trans pictures.agree agree
    obtain ⟨answer, sees'⟩ := answer_of_agree (catalog'.trans catalog.symm) agree' sees
    rw [(act_observes sees').1, answer]
    exact keeps_mono (fun result g after => ⟨(alone_observes next sees).trans after.1, after.2⟩)
      (ih (act op s).1 onward ⟨agree', catalog', fresh⟩)

theorem looks_bind {m : Task F α} {f : α → Task F β} (first : Looks t s m)
    (rest : ∀ a, Program.alone act m s = .ok a s → Looks t s (f a)) : Looks t s (m >>= f) := by
  induction m with
  | done result =>
    cases result with
    | ok a => exact rest a rfl
    | error e => exact trivial
  | call op next ih =>
    obtain ⟨sees, onward⟩ := first
    exact ⟨sees, ih _ onward (fun a run => rest a ((alone_observes next sees).trans run))⟩

theorem looks_mapM {f : α → Task F β} (xs : List α) (each : ∀ x ∈ xs, Looks t s (f x)) :
    Looks t s (xs.mapM f) := by
  induction xs with
  | nil => exact trivial
  | cons x xs ih =>
    obtain ⟨head, tail⟩ := List.forall_mem_cons.mp each
    rw [List.mapM_cons]
    refine looks_bind head (fun y _ => ?_)
    exact looks_bind (ih tail) (fun ys _ => trivial)

end Looking

section Queries
variable {s : SessionState F} {t : Nat} {ns : Option String} {table : String} {tm : TableMeta}

theorem looks_resolveTable (t : Nat) (s : SessionState F) (ns : Option String) (table : String) :
    Looks t s (resolveTable ns table) := by
  refine ⟨trivial, ?_⟩
  cases (act (.tableMeta ns table) s).1 <;> exact trivial

theorem looks_scanMeta (t : Nat) (s : SessionState F) (p : PlanNode F) :
    Looks t s (scanMeta p) := by
  induction p with
  | scan table ns => exact looks_resolveTable t s ns table
  | filter input predicate ih => exact ih
  | project input columns ih => exact ih
  | limit input limit offset ih => exact ih
  | aggregate input aggs ih => exact ih
  | groupBy input groupBy aggs ih => exact ih
  | orderBy input columns ih => exact ih
  | _ => exact trivial

/-- The entry that `scanMeta` finds for a query. -/
theorem scanMeta_alone {p : PlanNode F} (reads : ReadsFrom ns table p)
    (live : s.tableMeta ns table = some tm) {tm' : TableMeta}
    (run : Program.alone act (scanMeta p) s = .ok tm' s) : tm' = tm := by
  rw [alone_scanMeta, scanMeta_of_readsFrom reads live] at run
  cases run
  rfl

theorem looks_expectRows {message : String} {sub : Task F (ExecutionResult F)}
    (inner : Looks t s sub) : Looks t s (expectRows message sub) := by
  refine looks_bind inner (fun result _ => ?_)
  cases result <;> exact trivial

variable [Float64 F]

theorem looks_lookupIds (s : SessionState F) (t : Nat) (lookup : IdLookup F) :
    Looks t s (lookupIds t lookup) := by
  cases lookup with
  | point v =>
    refine looks_bind (m := orReturn _) trivial (fun key _ => ?_)
    exact ⟨rfl, trivial⟩
  | rangeInclusive v1 v2 =>
    refine looks_bind (m := orReturn _) trivial (fun first _ => ?_)
    refine looks_bind (m := orReturn _) trivial (fun last _ => ?_)
    refine ⟨rfl, ?_⟩
    change Looks t s (rangeAnswer (act (.indexRange t first last) s).1)
    cases (act (.indexRange t first last) s).1 <;> exact trivial

theorem looks_lookupRows (s : SessionState F) (t : Nat) (lookup : IdLookup F) :
    Looks t s (lookupRows t lookup) := by
  refine looks_bind (looks_lookupIds s t lookup) (fun rowIds _ => ?_)
  refine looks_bind (looks_mapM rowIds (fun rowId _ => ⟨rfl, trivial⟩)) (fun _ _ => trivial)

theorem looks_selectRows (tm : TableMeta) (input : PlanNode F) (predicate : FilterExpr F)
    {sub : Task F (ExecutionResult F)} (inner : Looks tm.id s sub) :
    Looks tm.id s (selectRows tm input predicate sub) := by
  have scanned : Looks tm.id s (filterRows tm predicate sub) :=
    looks_bind (looks_expectRows inner) (fun _ _ => trivial)
  rw [selectRows]
  cases indexLookup input predicate with
  | none => exact scanned
  | some lookup =>
    refine ⟨rfl, ?_⟩
    change Looks tm.id s (if (act (.getIndex tm.id) s).1 = true then _ else _)
    split
    · exact looks_lookupRows s tm.id lookup
    · exact scanned

/-- What an aggregate does once the buffer is flushed. -/
def afterFlush [ValueDebug F] (tm : TableMeta) (input : PlanNode F) (aggs : List AggExpr) :
    Task F (ExecutionResult F) := do
  let chunks ← locked (.chunks tm.id)
  let values ← aggs.mapM (fun agg =>
    if chunks.isEmpty then aggregateOverRows tm (statement input) agg
    else orReturn (Aggregates.aggregateOverChunks chunks tm.schema agg))
  return .rows [.new values]

theorem looks_afterFlush [ValueDebug F] {input : PlanNode F} (aggs : List AggExpr)
    (inner : Looks tm.id s (statement input)) : Looks tm.id s (afterFlush tm input aggs) := by
  refine looks_bind (m := locked (.chunks tm.id)) ⟨rfl, trivial⟩ (fun chunks _ => ?_)
  refine looks_bind (looks_mapM aggs (fun agg _ => ?_)) (fun _ _ => trivial)
  split
  · exact looks_bind (looks_expectRows inner) (fun _ _ => trivial)
  · exact trivial

/-- A query only looks, unless it has a buffer to flush. -/
theorem looks_query [ValueDebug F] {p : PlanNode F} (reads : ReadsFrom ns table p)
    (live : s.tableMeta ns table = some tm)
    (still : NamedTables.aggregates p = false ∨ s.buffered tm.id = []) :
    Looks tm.id s (statement p) := by
  induction p with
  | scan table' ns' =>
    obtain ⟨rfl, rfl⟩ := reads
    refine looks_bind (looks_resolveTable _ s ns' table') (fun tm' run => ?_)
    obtain rfl := scanMeta_alone (p := .scan table' ns') ⟨rfl, rfl⟩ live run
    exact ⟨rfl, trivial⟩
  | filter input predicate ih =>
    refine looks_bind (looks_scanMeta _ s input) (fun tm' run => ?_)
    obtain rfl := scanMeta_alone (p := input) reads live run
    exact looks_bind (looks_selectRows tm' input predicate (ih reads still)) (fun _ _ => trivial)
  | project input columns ih =>
    refine looks_bind (looks_expectRows (ih reads still)) (fun rows _ => ?_)
    exact looks_bind (looks_scanMeta _ s input) (fun _ _ => trivial)
  | limit input limit offset ih =>
    exact looks_bind (looks_expectRows (ih reads still)) (fun _ _ => trivial)
  | aggregate input aggs ih =>
    have empty := still.resolve_left nofun
    refine looks_bind (looks_scanMeta _ s input) (fun tm' run => ?_)
    obtain rfl := scanMeta_alone (p := input) reads live run
    refine looks_bind ⟨⟨rfl, empty⟩, ?_⟩
      (fun _ _ => looks_afterFlush aggs (ih reads (Or.inr empty)))
    rw [act_takeBuffer_empty empty]
    exact trivial
  | groupBy input groupBy aggs ih =>
    refine looks_bind (looks_expectRows (ih reads still)) (fun rows _ => ?_)
    refine looks_bind (looks_scanMeta _ s input) (fun _ _ => ?_)
    exact looks_bind (m := orReturn _) trivial (fun _ _ => trivial)
  | orderBy input columns ih =>
    refine looks_bind (looks_expectRows (ih reads still)) (fun rows _ => ?_)
    refine looks_bind (looks_scanMeta _ s input) (fun _ _ => ?_)
    exact looks_bind (m := orReturn _) trivial (fun _ _ => trivial)
  | _ => exact False.elim reads

end Queries

end OwnedTables
