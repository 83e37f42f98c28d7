import RustafariDB.AtomicReads
import RustafariDB.ConcurrentTables
import RustafariDB.NamedTables

/-!
# Queries among INSERTs

A query takes several lock sections, and INSERTs may come in between. While no table is created
or dropped, a query without aggregates answers all the same what it would answer in one piece:
names resolve as before, a row that is stored stays, and an index has only rows that are
stored. So its first look at the rows or at the index settles the answer.
-/

namespace ConcurrentReads

open Catalogs Values RowStorage ColumnarStorage BTreeIndexing Plans Floats Sessions
open Predicates StatefulPrograms Interleavings LockSections AtomicReads
open Execution (Stop ExecutionResult executePlan)
open PlanEffects SessionInvariants
open NamedTables (aggregates)
open ConcurrentTables (getIndex_withIndexed)

variable {F : Type} {s s' : SessionState F} {t : Nat}

section Contracts

/-- Tables are as they were, and rows stay. -/
structure Grows (s s' : SessionState F) : Prop where
  catalog : s'.catalog = s.catalog
  rows : ∀ t rowId row, s.rowStore.get t rowId = some row → s'.rowStore.get t rowId = some row
  indexes : ∀ t, (s'.getIndex t "id").isSome = (s.getIndex t "id").isSome

/-- What an index lists is stored. -/
structure Filed (s : SessionState F) : Prop where
  fresh : s.rowStore.Fresh
  stored : ∀ t key, ∀ rowId ∈ (heldIndex s t).get key, (s.rowStore.get t rowId).isSome

def manipulation : Contract (SessionState F) where
  inv := Filed
  grows := Grows
  refl _ := ⟨rfl, fun _ _ _ => id, fun _ => rfl⟩
  trans first second := ⟨second.catalog.trans first.catalog,
    fun t rowId row here => second.rows t rowId row (first.rows t rowId row here),
    fun t => (second.indexes t).trans (first.indexes t)⟩

theorem isSome_of_grows (grows : Grows s s') {rowId : Nat}
    (stored : (s.rowStore.get t rowId).isSome) : (s'.rowStore.get t rowId).isSome := by
  obtain ⟨row, here⟩ := Option.isSome_iff_exists.mp stored
  rw [grows.rows t rowId row here]
  rfl

/-- Sections that leave the catalog, the rows and the indexes alone. -/
def spares : LockSection F → Bool
  | .insertRow _ _ => false
  | .dropRows _ => false
  | .indexInsert _ _ _ => false
  | .createIndex _ => false
  | .dropIndexes _ => false
  | .createTable _ _ _ => false
  | .dropName _ _ => false
  | _ => true

theorem act_spares {op : LockSection F} (h : spares op = true) (s : SessionState F) :
    (act op s).2.catalog = s.catalog ∧ (act op s).2.rowStore = s.rowStore ∧
      (act op s).2.indexStore = s.indexStore := by
  cases op with
  | pushRow t row =>
    simp only [act]
    split <;> exact ⟨rfl, rfl, rfl⟩
  | takeBuffer t =>
    simp only [act]
    split <;> exact ⟨rfl, rfl, rfl⟩
  | insertRow | dropRows | indexInsert | createIndex | dropIndexes | createTable | dropName =>
    cases h
  | _ => exact ⟨rfl, rfl, rfl⟩

theorem later_spares {op : LockSection F} (h : spares op = true) (filed : Filed s) :
    manipulation.Later s (act op s).2 := by
  obtain ⟨catalog, rows, indexes⟩ := act_spares h s
  have held (t : Nat) : (act op s).2.getIndex t "id" = s.getIndex t "id" := by
    rw [SessionState.getIndex, indexes]
    rfl
  refine ⟨⟨rows.symm ▸ filed.fresh, fun t key => ?_⟩, ⟨catalog, fun t rowId row => ?_, fun t => ?_⟩⟩
  · rw [heldIndex, held, rows]
    exact filed.stored t key
  · rw [rows]
    exact id
  · rw [held]

theorem later_insertRow (filed : Filed s) (t : Nat) (row : Row F) :
    manipulation.Later s (act (.insertRow t row) s).2 := by
  have grows : Grows s (act (.insertRow t row) s).2 := by
    refine ⟨rfl, fun u rowId row' here => ?_, fun _ => rfl⟩
    change (s.rowStore.insert t row).2.get u rowId = some row'
    have before := filed.fresh u rowId row' here
    rw [TableStore.get_insert, if_neg, here]
    rintro ⟨⟩
    exact Nat.lt_irrefl _ before
  refine ⟨⟨TableStore.fresh_insert filed.fresh t row, fun u key rowId listed => ?_⟩, grows⟩
  exact isSome_of_grows grows (filed.stored u key rowId listed)

theorem mem_withIndexed {key k : IndexKey} {rowId u other : Nat}
    (listed : other ∈ (heldIndex (withIndexed s t key rowId) u).get k) :
    other ∈ (heldIndex s u).get k ∨ (u = t ∧ other = rowId) := by
  rw [heldIndex, getIndex_withIndexed] at listed
  split at listed
  · rename_i same
    rw [heldIndex]
    cases held : s.getIndex u "id" with
    | none =>
      rw [held] at listed
      exact Or.inl listed
    | some index =>
      rw [held, Option.map_some, Option.getD_some, get_insert] at listed
      split at listed
      · refine (List.mem_append.mp listed).imp id (fun last => ⟨same.symm, ?_⟩)
        exact List.mem_singleton.mp last
      · exact Or.inl listed
  · exact Or.inl listed

theorem later_indexInsert (filed : Filed s) {rowId : Nat}
    (stored : (s.rowStore.get t rowId).isSome) (key : IndexKey) :
    manipulation.Later s (act (.indexInsert t key rowId) s).2 := by
  obtain ⟨catalog, rows⟩ : (withIndexed s t key rowId).catalog = s.catalog ∧
      (withIndexed s t key rowId).rowStore = s.rowStore := by
    rw [withIndexed]
    split <;> exact ⟨rfl, rfl⟩
  refine ⟨⟨rows.symm ▸ filed.fresh, fun u k other listed => ?_⟩,
    ⟨catalog, fun u other row => ?_, ?_⟩⟩
  · change ((withIndexed s t key rowId).rowStore.get u other).isSome
    rw [rows]
    rcases mem_withIndexed listed with before | ⟨rfl, rfl⟩
    · exact filed.stored u k other before
    · exact stored
  · change _ → (withIndexed s t key rowId).rowStore.get u other = some row
    rw [rows]
    exact id
  · intro u
    change ((withIndexed s t key rowId).getIndex u "id").isSome = _
    rw [getIndex_withIndexed]
    split
    · rw [Option.isSome_map]
    · rfl

theorem filed_of_valid [Float64 F] (valid : SessionValid s) : Filed s := by
  refine ⟨valid.freshRows, fun t key rowId listed => ?_⟩
  rw [heldIndex] at listed
  cases held : s.getIndex t "id" with
  | none =>
    rw [held, Option.getD_none, get_new] at listed
    cases listed
  | some index =>
    obtain ⟨_, tm, i, _, _, contents⟩ := valid.contents t "id" index held
    rw [held, Option.getD_some, mem_get_iff contents] at listed
    obtain ⟨row, inside, _⟩ := listed
    rw [TableStore.mem_scan] at inside
    exact Option.isSome_iff_exists.mpr ⟨row, inside⟩

end Contracts

section Writers
variable {tm : TableMeta} {ns : Option String} {table : String}

/-- All sections of the program leave the catalog, the rows and the indexes alone. -/
abbrev Spares {α : Type} (m : Task F α) : Prop := Only (fun op => spares op = true) m

theorem minds_of_spares {α : Type} {m : Task F α} (only : Spares m) (s : SessionState F) :
    Minds manipulation act m s := by
  have kept (op : LockSection F) (ok : spares op = true) (s : SessionState F)
      (filed : Filed s) : manipulation.Later s (act op s).2 := later_spares ok filed
  exact minds_of_only kept only s

theorem spares_resolveTable (ns : Option String) (table : String) :
    Spares (resolveTable ns table : Task F TableMeta) := by
  refine ⟨rfl, fun found => ?_⟩
  cases found <;> exact trivial

theorem spares_scanMeta (p : PlanNode F) : Spares (scanMeta p) := by
  induction p with
  | scan table ns => exact spares_resolveTable ns table
  | filter input predicate ih => exact ih
  | project input columns ih => exact ih
  | limit input limit offset ih => exact ih
  | aggregate input aggs ih => exact ih
  | groupBy input groupBy aggs ih => exact ih
  | orderBy input columns ih => exact ih
  | _ => exact trivial

theorem spares_expectRows {message : String} {sub : Task F (ExecutionResult F)}
    (inner : Spares sub) : Spares (expectRows message sub) := by
  refine only_bind inner (fun result => ?_)
  cases result <;> exact trivial

theorem spares_publishTaken (tm : TableMeta) (taken : Option (List (Row F))) :
    Spares (publishTaken tm taken) := by
  cases taken with
  | none => exact trivial
  | some rows => exact ⟨rfl, fun _ => ⟨rfl, fun _ => trivial⟩⟩

theorem spares_pushColumnarRow (tm : TableMeta) (row : Row F) :
    Spares (pushColumnarRow tm row) := ⟨rfl, spares_publishTaken tm⟩

variable [Float64 F]

theorem spares_lookupRows (t : Nat) (lookup : IdLookup F) : Spares (lookupRows t lookup) := by
  have ids : Spares (lookupIds t lookup) := by
    cases lookup with
    | point v => exact only_bind (m := orReturn _) trivial (fun key => ⟨rfl, fun _ => trivial⟩)
    | rangeInclusive v1 v2 =>
      refine only_bind (m := orReturn _) trivial (fun start => ?_)
      refine only_bind (m := orReturn _) trivial (fun stop => ⟨rfl, fun found => ?_⟩)
      cases found <;> exact trivial
  refine only_bind ids (fun rowIds => ?_)
  exact only_bind (only_mapM rowIds (fun rowId _ => ⟨rfl, fun _ => trivial⟩)) (fun _ => trivial)

theorem spares_selectRows (tm : TableMeta) (input : PlanNode F) (predicate : FilterExpr F)
    {sub : Task F (ExecutionResult F)} (inner : Spares sub) :
    Spares (selectRows tm input predicate sub) := by
  have scanned : Spares (filterRows tm predicate sub) :=
    only_bind (spares_expectRows inner) (fun _ => trivial)
  rw [selectRows]
  cases indexLookup input predicate with
  | none => exact scanned
  | some lookup =>
    refine ⟨rfl, fun found => ?_⟩
    cases found with
    | true => exact spares_lookupRows tm.id lookup
    | false => exact scanned

variable [ValueDebug F]

theorem spares_query {p : PlanNode F} (query : IsQuery p) : Spares (statement p) := by
  induction p with
  | scan table ns =>
    exact only_bind (spares_resolveTable ns table) (fun _ => ⟨rfl, fun _ => trivial⟩)
  | filter input predicate ih =>
    refine only_bind (spares_scanMeta input) (fun tm => ?_)
    exact only_bind (spares_selectRows tm input predicate (ih query)) (fun _ => trivial)
  | project input columns ih =>
    refine only_bind (spares_expectRows (ih query)) (fun _ => ?_)
    exact only_bind (spares_scanMeta input) (fun _ => trivial)
  | limit input limit offset ih =>
    exact only_bind (spares_expectRows (ih query)) (fun _ => trivial)
  | aggregate input aggs ih =>
    refine only_bind (spares_scanMeta input) (fun tm => ?_)
    refine only_bind (m := flushColumnarBuffer tm) ⟨rfl, spares_publishTaken tm⟩ (fun _ => ?_)
    refine only_perform_bind rfl (fun chunks => ?_)
    refine only_bind (only_mapM aggs (fun agg _ => ?_)) (fun _ => trivial)
    split
    · exact only_bind (spares_expectRows (ih query)) (fun _ => trivial)
    · exact trivial
  | groupBy input groupBy aggs ih =>
    refine only_bind (spares_expectRows (ih query)) (fun _ => ?_)
    refine only_bind (spares_scanMeta input) (fun _ => ?_)
    exact only_bind (m := orReturn _) trivial (fun _ => trivial)
  | orderBy input columns ih =>
    refine only_bind (spares_expectRows (ih query)) (fun _ => ?_)
    refine only_bind (spares_scanMeta input) (fun _ => ?_)
    exact only_bind (m := orReturn _) trivial (fun _ => trivial)
  | _ => exact False.elim query

omit [ValueDebug F] in
/-- Besides sections of other kinds, filing a row is one. -/
theorem only_indexRow {ok : LockSection F → Prop} (spared : ∀ op, spares op = true → ok op)
    {rowId : Nat} (files : ∀ key, ok (.indexInsert tm.id key rowId)) (idCol : Option Nat)
    (row : Row F) : Only ok (indexRow tm idCol row rowId) := by
  refine only_perform_bind (spared _ rfl) (fun found => ?_)
  split
  · split
    · rename_i idVal _
      cases IndexKey.fromValue idVal with
      | error e => exact trivial
      | ok key => exact ⟨files key, fun _ => trivial⟩
    · exact trivial
  · exact trivial

omit [ValueDebug F] in
theorem only_insertRows {ok : LockSection F → Prop} (spared : ∀ op, spares op = true → ok op)
    (stores : ∀ row, ok (.insertRow tm.id row))
    (files : ∀ key rowId, ok (.indexInsert tm.id key rowId)) (idCol : Option Nat)
    (values : List (List (Value F))) (count : Nat) :
    Only ok (insertRows tm idCol values count) := by
  induction values generalizing count with
  | nil => exact trivial
  | cons rowVals values ih =>
    refine only_bind (m := insertRow tm idCol rowVals) ?_ (fun _ => ih (count + 1))
    refine only_perform_bind (stores _) (fun rowId => ?_)
    exact only_bind (only_indexRow spared (fun key => files key rowId) idCol (.new rowVals))
      (fun _ => only_mono spared (spares_pushColumnarRow tm (.new rowVals)))

omit [ValueDebug F] in
/-- A row is stored before it is filed. -/
theorem minds_indexRow {rowId : Nat}
    (stored : (s.rowStore.get tm.id rowId).isSome) (idCol : Option Nat) (row : Row F) :
    Minds manipulation act (indexRow tm idCol row rowId) s := by
  refine minds_perform_bind (fun s' later => ⟨later_spares rfl later.inv, ?_⟩)
  split
  · split
    · rename_i idVal _
      cases IndexKey.fromValue idVal with
      | error e => exact trivial
      | ok key =>
        intro s'' onward
        have there := isSome_of_grows (later_trans later onward).grows stored
        exact ⟨later_indexInsert onward.inv there key, trivial⟩
    · exact trivial
  · exact trivial

omit [ValueDebug F] in
theorem minds_insertRow (tm : TableMeta) (idCol : Option Nat) (rowVals : List (Value F))
    (s : SessionState F) : Minds manipulation act (insertRow tm idCol rowVals) s := by
  refine minds_perform_bind (fun s' later => ?_)
  have kept := later_insertRow later.inv tm.id (.new rowVals)
  refine ⟨kept, ?_⟩
  have stored : ((act (.insertRow tm.id (.new rowVals)) s').2.rowStore.get tm.id
      (act (.insertRow tm.id (.new rowVals)) s').1).isSome := by
    change ((s'.rowStore.insert tm.id _).2.get tm.id s'.rowStore.nextRowId).isSome
    rw [TableStore.get_insert, if_pos rfl]
    rfl
  refine minds_bind kept.inv (minds_indexRow stored idCol (.new rowVals)) ?_
  exact fun _ s'' _ => minds_of_spares (spares_pushColumnarRow tm (.new rowVals)) s''

omit [ValueDebug F] in
theorem minds_insertRows (idCol : Option Nat) (values : List (List (Value F))) (count : Nat)
    (filed : Filed s) : Minds manipulation act (insertRows tm idCol values count) s := by
  induction values generalizing s count with
  | nil => exact trivial
  | cons rowVals values ih =>
    refine minds_bind filed (minds_insertRow tm idCol rowVals s) (fun _ s' later => ?_)
    exact ih (count + 1) later.inv

omit [Float64 F] [ValueDebug F] in
/-- Statements that define no tables: INSERTs, queries and DESCRIBEs. -/
def Manipulates : PlanNode F → Prop
  | .insert _ _ _ _ => True
  | .describeTable _ _ => True
  | p => IsQuery p

theorem minds_statement {p : PlanNode F} (manipulates : Manipulates p) (filed : Filed s) :
    Minds manipulation act (statement p) s := by
  cases p with
  | insert table ns columns values =>
    refine minds_bind filed (minds_of_spares (spares_resolveTable ns table) s) ?_
    intro tm s' later
    exact minds_bind later.inv (minds_insertRows _ values 0 later.inv) (fun _ _ _ => trivial)
  | describeTable table ns =>
    refine minds_of_spares ?_ s
    exact only_bind (spares_resolveTable ns table) (fun _ => trivial)
  | createTable | dropTable => exact False.elim manipulates
  | _ => exact minds_of_spares (spares_query manipulates) s

end Writers

section Readers
variable {tm : TableMeta}

/-- The program only reads, and its result is settled. -/
abbrev Done {α : Type} (m : Task F α) (s : SessionState F) : Prop := Settled manipulation act m s

/-- The program answers what it answers in one piece at one moment from now on. -/
abbrev AtOnce {α : Type} (m : Task F α) (s : SessionState F) : Prop :=
  Atomic manipulation act m s

theorem done_resolveTable (filed : Filed s) (ns : Option String) (table : String) :
    Done (resolveTable ns table) s := by
  have still (s' : SessionState F) (later : manipulation.Later s s') :
      act (.tableMeta ns table) s' = (s.tableMeta ns table, s') := by
    change (s'.catalog.getTable _ _, s') = _
    rw [later.grows.catalog]
    rfl
  refine settled_bind filed (settled_perform still) (fun found _ => ?_)
  cases found <;> exact settled_done _

theorem done_scanMeta (filed : Filed s) (p : PlanNode F) : Done (scanMeta p) s := by
  induction p with
  | scan table ns => exact done_resolveTable filed ns table
  | filter input predicate ih => exact ih
  | project input columns ih => exact ih
  | limit input limit offset ih => exact ih
  | aggregate input aggs ih => exact ih
  | groupBy input groupBy aggs ih => exact ih
  | orderBy input columns ih => exact ih
  | _ => exact settled_done _

theorem done_getRow {rowId : Nat} (stored : (s.rowStore.get t rowId).isSome) :
    Done (locked (.getRow t rowId) : Task F (Option (Row F))) s := by
  obtain ⟨row, here⟩ := Option.isSome_iff_exists.mp stored
  have still (s' : SessionState F) (later : manipulation.Later s s') :
      act (.getRow t rowId) s' = (some row, s') := by
    change (s'.rowStore.get t rowId, s') = _
    rw [later.grows.rows t rowId row here]
  exact settled_perform still

theorem atOnce_expectRows {message : String} {sub : Task F (ExecutionResult F)}
    (inner : AtOnce sub s) : AtOnce (expectRows message sub) s := by
  refine atomic_bind inner (fun s' _ result _ => ?_)
  cases result <;> exact settled_done _

variable [Float64 F]

theorem atOnce_lookupIds (filed : Filed s) (t : Nat) (lookup : IdLookup F) :
    AtOnce (lookupIds t lookup) s := by
  cases lookup with
  | point v =>
    refine atomic_after filed (settled_done _) (fun key _ => ?_)
    exact atomic_perform (fun _ _ => rfl)
  | rangeInclusive v1 v2 =>
    refine atomic_after filed (settled_done _) (fun start _ => ?_)
    refine atomic_after filed (settled_done _) (fun stop _ => ?_)
    refine atomic_bind (atomic_perform (fun _ _ => rfl)) (fun s' _ found _ => ?_)
    cases found <;> exact settled_done _

/-- A lookup finds ids that the index lists. -/
theorem listed_of_lookupIds {index : BTreeIndex} {lookup : IdLookup F} {rowIds : List Nat}
    (found : Execution.lookupIds index lookup = .ok rowIds) :
    ∀ rowId ∈ rowIds, ∃ key, rowId ∈ index.get key := by
  intro rowId listed
  cases lookup with
  | point v =>
    obtain ⟨key, _, same⟩ := bind_eq_ok.mp found
    cases same
    exact ⟨key, listed⟩
  | rangeInclusive v1 v2 =>
    obtain ⟨start, _, rest⟩ := bind_eq_ok.mp found
    obtain ⟨stop, _, visited⟩ := bind_eq_ok.mp rest
    rw [range_eq] at visited
    by_cases backwards : compare start ((some stop).getD lastKey) = .gt
    · rw [if_pos backwards] at visited
      cases visited
    · rw [if_neg backwards] at visited
      cases visited
      obtain ⟨key, _, inside⟩ := List.mem_flatMap.mp listed
      exact ⟨key, inside⟩

theorem stored_of_found (filed : Filed s) (held : (s.getIndex tm.id "id").isSome)
    {lookup : IdLookup F} {rowIds : List Nat}
    (found : answerOf act (lookupIds tm.id lookup) s = .ok rowIds) :
    ∀ rowId ∈ rowIds, (s.rowStore.get tm.id rowId).isSome := by
  intro rowId listed
  obtain ⟨index, here⟩ := Option.isSome_iff_exists.mp held
  rw [answerOf, alone_lookupIds here, outcome_runExcept] at found
  obtain ⟨key, inside⟩ := listed_of_lookupIds found rowId listed
  refine filed.stored tm.id key rowId ?_
  rwa [heldIndex, here]

/-- The rows that an index lists at one moment can be fetched at leisure. -/
theorem atOnce_lookupRows (filed : Filed s) (held : (s.getIndex tm.id "id").isSome)
    (lookup : IdLookup F) : AtOnce (lookupRows tm.id lookup) s := by
  refine atomic_bind (atOnce_lookupIds filed tm.id lookup) (fun s' later rowIds found => ?_)
  have held' : (s'.getIndex tm.id "id").isSome := by rwa [later.grows.indexes]
  refine settled_bind later.inv (settled_mapM later.inv rowIds (fun rowId listed => ?_))
    (fun _ _ => settled_done _)
  exact done_getRow (stored_of_found later.inv held' found rowId listed)

theorem atOnce_selectRows (filed : Filed s) (tm : TableMeta) (input : PlanNode F)
    (predicate : FilterExpr F) {sub : Task F (ExecutionResult F)} (inner : AtOnce sub s) :
    AtOnce (selectRows tm input predicate sub) s := by
  have scanned : AtOnce (filterRows tm predicate sub) s :=
    atomic_bind (atOnce_expectRows inner) (fun _ _ _ _ => settled_done _)
  rw [selectRows]
  cases indexLookup input predicate with
  | none => exact scanned
  | some lookup =>
    have still (s' : SessionState F) (later : manipulation.Later s s') :
        act (.getIndex tm.id) s' = ((s.getIndex tm.id "id").isSome, s') := by
      change ((s'.getIndex tm.id "id").isSome, s') = _
      rw [later.grows.indexes]
    refine atomic_after filed (settled_perform still) (fun found here => ?_)
    cases here
    split
    · rename_i held
      exact atOnce_lookupRows filed held lookup
    · exact scanned

variable [ValueDebug F]

/-- A query without aggregates has one moment of reading. -/
theorem atOnce_query {p : PlanNode F} (query : IsQuery p) (plain : aggregates p = false)
    (filed : Filed s) : AtOnce (statement p) s := by
  induction p with
  | scan table ns =>
    refine atomic_after filed (done_resolveTable filed ns table) (fun tm _ => ?_)
    exact atomic_bind (atomic_perform (fun _ _ => rfl)) (fun _ _ _ _ => settled_done _)
  | filter input predicate ih =>
    refine atomic_after filed (done_scanMeta filed input) (fun tm _ => ?_)
    exact atomic_bind (atOnce_selectRows filed tm input predicate (ih query plain))
      (fun _ _ _ _ => settled_done _)
  | project input columns ih =>
    refine atomic_bind (atOnce_expectRows (ih query plain)) (fun s' later rows _ => ?_)
    exact settled_bind later.inv (done_scanMeta later.inv input) (fun _ _ => settled_done _)
  | limit input limit offset ih =>
    exact atomic_bind (atOnce_expectRows (ih query plain)) (fun _ _ _ _ => settled_done _)
  | aggregate input aggs ih => cases plain
  | groupBy input groupBy aggs ih =>
    refine atomic_bind (atOnce_expectRows (ih query plain)) (fun s' later rows _ => ?_)
    refine settled_bind later.inv (done_scanMeta later.inv input) (fun tm _ => ?_)
    exact settled_bind later.inv (settled_done _) (fun _ _ => settled_done _)
  | orderBy input columns ih =>
    refine atomic_bind (atOnce_expectRows (ih query plain)) (fun s' later rows _ => ?_)
    refine settled_bind later.inv (done_scanMeta later.inv input) (fun tm _ => ?_)
    exact settled_bind later.inv (settled_done _) (fun _ _ => settled_done _)
  | _ => exact False.elim query

end Readers

section Runs
variable [Float64 F] [ValueDebug F]

/-- A statement that defines no table. -/
def Manipulation (m : Task F (ExecutionResult F)) : Prop :=
  ∃ p, Manipulates p ∧ m = statement p

theorem minds_manipulation (m : Task F (ExecutionResult F)) (starts : Manipulation m)
    (s : SessionState F) (filed : Filed s) : Minds manipulation act m s := by
  obtain ⟨p, manipulates, rfl⟩ := starts
  exact minds_statement manipulates filed

/-- In any interleaving of INSERTs, queries and DESCRIBEs, a query without aggregates answers
what it answers in one piece in a state that the pool was in while the query was at work. -/
theorem query_answers_at_a_moment {start : SessionState F} (reached : Reachable start)
    {p₀ p : StatementPool F} (before : Run act Manipulation always ⟨start, [], []⟩ p₀)
    {plan : PlanNode F} (query : IsQuery plan) (plain : aggregates plan = false) {i : Nat}
    (asked : p₀.threads[i]? = some (statement plan))
    (during : Run act Manipulation always p₀ p) {result : Except Stop (ExecutionResult F)}
    (answered : p.threads[i]? = some (.done result)) :
    ∃ q, Run act Manipulation always p₀ q ∧ Run act Manipulation always q p ∧
      executePlan plan q.state = runExcept result q.state := by
  have filed : Mindful manipulation act (⟨start, [], []⟩ : StatementPool F) :=
    ⟨filed_of_valid (reachable_valid reached), nofun⟩
  have mindful := (mindful_run minds_manipulation filed before).1
  have atOnce := atOnce_query query plain mindful.inv
  obtain ⟨q, onward, rest, answer⟩ :=
    answer_of_moment minds_manipulation mindful asked atOnce during answered
  refine ⟨q, onward, rest, ?_⟩
  have later := (mindful_run minds_manipulation mindful onward).2
  have alone := alone_of_reads later.inv (atOnce q.state later)
  rw [← answer, alone_statement] at alone
  exact alone

end Runs

section Concrete
open StatementShares (newTable reachable_newTable)

def insertsTwo : PlanNode Float := .insert "t" none [] [[.int64 1], [.int64 2]]

def scans : PlanNode Float := .scan "t" none

/-- A scan that resolves its table before the rows of an INSERT and reads between them. -/
def betweenRows : List Nat := [1, 0, 0, 0, 0, 0, 1, 0, 0, 0, 0]

theorem scan_between_rows : ∃ (p q : StatementPool Float) (result : _),
    turns act always betweenRows ⟨newTable, [statement insertsTwo, statement scans], []⟩ = some p ∧
      p.threads[1]? = some (.done result) ∧ Run act Manipulation always q p ∧
      executePlan scans q.state = runExcept result q.state := by
  obtain ⟨p, result, scheduled, answered⟩ :
      ∃ (p : StatementPool Float) (result : Except Stop (ExecutionResult Float)),
        turns act always betweenRows
          ⟨newTable, [statement insertsTwo, statement scans], []⟩ = some p ∧
        p.threads[1]? = some (.done result) := ⟨_, _, rfl, rfl⟩
  have each : ∀ m ∈ [statement insertsTwo, statement scans], Manipulation m :=
    List.forall_mem_cons.mpr ⟨⟨insertsTwo, trivial, rfl⟩,
      List.forall_mem_singleton.mpr ⟨scans, trivial, rfl⟩⟩
  have query : IsQuery scans := trivial
  obtain ⟨q, _, rest, answer⟩ := query_answers_at_a_moment reachable_newTable
    (run_starts each ⟨newTable, [], []⟩) query rfl rfl (run_of_turns betweenRows scheduled)
    answered
  exact ⟨p, q, result, scheduled, answered, rest, answer⟩

end Concrete

end ConcurrentReads
