import RustafariDB.LockSections
import RustafariDB.PlanEffects

/-!
# Statements keep a protocol

Rules for statements over one table whose catalog entry stays as it is. Sections that only
read, or only file a row id, keep any invariant about rows, chunks and buffers, so a query
keeps the protocol as soon as its flush does.
-/

namespace StatementShares

open Catalogs Values RowStorage ColumnarStorage BTreeIndexing Plans Floats Sessions
open Predicates Aggregates StatefulPrograms Interleavings LockSections
open Execution (Stop ExecutionResult executePlan)

variable {F : Type}

/-- Sections that change nothing but the content of an index. -/
def quiet : LockSection F → Bool
  | .tableMeta _ _ => true
  | .getRow _ _ => true
  | .scanRows _ => true
  | .getIndex _ => true
  | .indexInsert _ _ _ => true
  | .indexGet _ _ => true
  | .indexRange _ _ _ => true
  | .chunks _ => true
  | _ => false

theorem act_quiet {op : LockSection F} (h : quiet op = true) (s : SessionState F) :
    ∃ indexes, (act op s).2 = { s with indexStore := indexes } := by
  cases op with
  | indexInsert t key rowId =>
    simp only [act, withIndexed]
    split
    · exact ⟨_, rfl⟩
    · exact ⟨s.indexStore, rfl⟩
  | tableMeta ns table => exact ⟨s.indexStore, rfl⟩
  | getRow t rowId => exact ⟨s.indexStore, rfl⟩
  | scanRows t => exact ⟨s.indexStore, rfl⟩
  | getIndex t => exact ⟨s.indexStore, rfl⟩
  | indexGet t key => exact ⟨s.indexStore, rfl⟩
  | indexRange t start stop => exact ⟨s.indexStore, rfl⟩
  | chunks t => exact ⟨s.indexStore, rfl⟩
  | _ => cases h

variable {G : Type} [AddCommMonoid G]

/-- The protocol pins the catalog, does not look at indexes, and asks nothing of those
without a share. -/
structure Calm (P : Protocol (LockSection F) (SessionState F) G) (catalog : Catalog) : Prop where
  catalog : ∀ history s g, P.inv history s g → s.catalog = catalog
  idle : ∀ op, P.shows op 0
  kept : ∀ op, quiet op = true → ∀ i history s g, P.inv history s g →
    P.inv (history ++ [(i, op)]) (act op s).2 g

variable {P : Protocol (LockSection F) (SessionState F) G} {catalog : Catalog}
variable {α β : Type} {g : G} {i : Nat}

theorem calm_of_allows (calm : Calm P catalog)
    (allows : Nat → List (Nat × LockSection F) → SessionState F → LockSection F → G → Prop) :
    Calm { P with allows := allows } catalog := ⟨calm.catalog, calm.idle, calm.kept⟩

/-- After a quiet section the answer is the one of a state that satisfies the invariant. -/
theorem keeps_quiet {post : Except Stop α → G → Prop} (calm : Calm P catalog)
    {op : LockSection F} (h : quiet op = true) (shown : P.shows (some op) g)
    {f : Answer op → Task F α}
    (rest : ∀ history s others, P.inv history s (g + others) → P.allows i history s op others →
      Keeps act P i post (f (act op s).1) g) :
    Keeps act P i post (locked op >>= f) g :=
  keeps_perform_bind shown (fun history s others inv allowed =>
    ⟨g, calm.kept op h i history s (g + others) inv, rest history s others inv allowed⟩)

theorem keeps_orReturn {post : Except Stop α → G → Prop} {x : Except RustafariError α}
    (h : post (x.mapError Stop.error) g) : Keeps act P i post (orReturn x) g := keeps_done h

/-- A share that shows nothing of what comes next lets a statement do anything quiet. -/
def Free (P : Protocol (LockSection F) (SessionState F) G) (g : G) : Prop := ∀ op, P.shows op g

section Lookups
variable {ns : Option String} {table : String} {tm : TableMeta}

/-- The name resolves to what the pinned catalog says. -/
theorem keeps_resolveTable {post : Except Stop α → G → Prop} (calm : Calm P catalog)
    (free : Free P g) (found : catalog.getTable (ns.getD "public") table = some tm)
    {k : TableMeta → Task F α} (rest : Keeps act P i post (k tm) g) :
    Keeps act P i post (resolveTable ns table >>= k) g := by
  rw [resolveTable, bind_assoc]
  refine keeps_quiet calm rfl (free _) (fun history s others inv _ => ?_)
  have pinned := calm.catalog history s _ inv
  have answer : (act (.tableMeta ns table) s).1 = some tm := by
    rw [← found, ← pinned]
    rfl
  rw [answer]
  exact rest

/-- The entry a plan finds in a catalog. -/
def ScansIn (catalog : Catalog) (tm : TableMeta) : PlanNode F → Prop
  | .scan table ns => catalog.getTable (ns.getD "public") table = some tm
  | .filter input _ => ScansIn catalog tm input
  | .project input _ => ScansIn catalog tm input
  | .limit input _ _ => ScansIn catalog tm input
  | .aggregate input _ => ScansIn catalog tm input
  | .groupBy input _ _ => ScansIn catalog tm input
  | .orderBy input _ => ScansIn catalog tm input
  | _ => False

theorem scansIn_iff {s : SessionState F} {p : PlanNode F} :
    ScansIn s.catalog tm p ↔ Execution.scanMeta s p = .ok tm := by
  induction p with
  | scan table ns =>
    rw [ScansIn, Execution.scanMeta, Execution.resolveTable, SessionState.tableMeta]
    cases s.catalog.getTable (ns.getD "public") table <;> simp
  | filter input predicate ih => exact ih
  | project input columns ih => exact ih
  | limit input limit offset ih => exact ih
  | aggregate input aggs ih => exact ih
  | groupBy input groupBy aggs ih => exact ih
  | orderBy input columns ih => exact ih
  | _ => simp [ScansIn, Execution.scanMeta]

theorem keeps_scanMeta {post : Except Stop α → G → Prop} (calm : Calm P catalog)
    (free : Free P g) {p : PlanNode F} (scans : ScansIn catalog tm p)
    {k : TableMeta → Task F α} (rest : Keeps act P i post (k tm) g) :
    Keeps act P i post (scanMeta p >>= k) g := by
  induction p with
  | scan table ns => exact keeps_resolveTable calm free scans rest
  | filter input predicate ih => exact ih scans
  | project input columns ih => exact ih scans
  | limit input limit offset ih => exact ih scans
  | aggregate input aggs ih => exact ih scans
  | groupBy input groupBy aggs ih => exact ih scans
  | orderBy input columns ih => exact ih scans
  | _ => exact False.elim scans

end Lookups

section Queries
variable {tm : TableMeta}

/-- Whatever the result, the share is the one it was. -/
def Same (g : G) : Except Stop α → G → Prop := fun _ g' => g' = g

theorem keeps_then {post : Except Stop β → G → Prop} {m : Task F α} {f : α → Task F β}
    (first : Keeps act P i (Same g) m g) (rest : ∀ a, Keeps act P i post (f a) g)
    (failed : ∀ e, post (.error e) g) : Keeps act P i post (m >>= f) g := by
  refine keeps_bind first (fun a g' same => ?_) (fun e g' same => ?_)
  · rw [same]
    exact rest a
  · rw [same]
    exact failed e

theorem keeps_same_bind {m : Task F α} {f : α → Task F β} (first : Keeps act P i (Same g) m g)
    (rest : ∀ a, Keeps act P i (Same g) (f a) g) : Keeps act P i (Same g) (m >>= f) g :=
  keeps_then first rest (fun _ => rfl)

theorem keeps_same_quiet (calm : Calm P catalog) (free : Free P g) {op : LockSection F}
    (h : quiet op = true) {f : Answer op → Task F α}
    (rest : ∀ answer, Keeps act P i (Same g) (f answer) g) :
    Keeps act P i (Same g) (locked op >>= f) g :=
  keeps_quiet calm h (free _) (fun _ s _ _ _ => rest (act op s).1)

theorem keeps_same_mapM {f : α → Task F β} (xs : List α)
    (each : ∀ x ∈ xs, Keeps act P i (Same g) (f x) g) : Keeps act P i (Same g) (xs.mapM f) g := by
  refine keeps_mono (fun result g' h => h.1.symm) (keeps_mapM Eq (Q := fun _ _ _ => True)
    (fun _ _ _ _ _ _ => trivial) (rfl : g = g) xs (fun x inside g' same => ?_))
  subst same
  exact keeps_mono (fun result g' same => ⟨same.symm, fun _ _ => trivial⟩) (each x inside)

theorem keeps_expectRows {message : String} {sub : Task F (ExecutionResult F)}
    (inner : Keeps act P i (Same g) sub g) :
    Keeps act P i (Same g) (expectRows message sub) g := by
  refine keeps_same_bind inner (fun result => ?_)
  cases result with
  | rows rows => exact keeps_pure rfl
  | rowsAffected count => exact keeps_orReturn rfl

variable [Float64 F]

theorem keeps_lookupIds (calm : Calm P catalog) (free : Free P g) (t : Nat)
    (lookup : IdLookup F) : Keeps act P i (Same g) (lookupIds t lookup) g := by
  cases lookup with
  | point v =>
    refine keeps_same_bind (keeps_orReturn rfl) (fun key => ?_)
    rw [← bind_pure (locked _)]
    exact keeps_same_quiet calm free rfl (fun ids => keeps_pure rfl)
  | rangeInclusive v1 v2 =>
    refine keeps_same_bind (keeps_orReturn rfl) (fun start => ?_)
    refine keeps_same_bind (keeps_orReturn rfl) (fun stop => ?_)
    refine keeps_same_quiet calm free rfl (fun found => ?_)
    cases found with
    | none => exact keeps_done rfl
    | some ids => exact keeps_pure rfl

theorem keeps_lookupRows (calm : Calm P catalog) (free : Free P g) (t : Nat)
    (lookup : IdLookup F) : Keeps act P i (Same g) (lookupRows t lookup) g := by
  refine keeps_same_bind (keeps_lookupIds calm free t lookup) (fun rowIds => ?_)
  refine keeps_same_bind (keeps_same_mapM rowIds (fun rowId _ => ?_)) (fun _ => keeps_pure rfl)
  rw [← bind_pure (locked _)]
  exact keeps_same_quiet calm free rfl (fun row => keeps_pure rfl)

theorem keeps_selectRows (calm : Calm P catalog) (free : Free P g) (input : PlanNode F)
    (predicate : FilterExpr F) {sub : Task F (ExecutionResult F)}
    (inner : Keeps act P i (Same g) sub g) :
    Keeps act P i (Same g) (selectRows tm input predicate sub) g := by
  have scanned : Keeps act P i (Same g) (filterRows tm predicate sub) g :=
    keeps_same_bind (keeps_expectRows inner) (fun rows => keeps_pure rfl)
  rw [selectRows]
  cases indexLookup input predicate with
  | none => exact scanned
  | some lookup =>
    refine keeps_same_quiet calm free rfl (fun found => ?_)
    cases found with
    | true => exact keeps_lookupRows calm free tm.id lookup
    | false => exact scanned

/-- An aggregate over a query that keeps its share answers one row or fails. -/
theorem keeps_aggregate [ValueDebug F] {post : Except Stop (ExecutionResult F) → G → Prop}
    (calm : Calm P catalog) (free : Free P g)
    (flushes : Keeps act P i (Same g) (flushColumnarBuffer tm) g) {input : PlanNode F}
    (scans : ScansIn catalog tm input) (inner : Keeps act P i (Same g) (statement input) g)
    (aggs : List AggExpr) (answered : ∀ values, post (.ok (.rows [.new values])) g)
    (failed : ∀ e, post (.error e) g) :
    Keeps act P i post (statement (.aggregate input aggs)) g := by
  refine keeps_scanMeta calm free scans ?_
  refine keeps_then flushes (fun _ => ?_) failed
  refine keeps_quiet calm rfl (free _) (fun history s others _ _ => ?_)
  refine keeps_then (keeps_same_mapM aggs (fun agg _ => ?_))
    (fun values => keeps_pure (answered values)) failed
  split
  · exact keeps_same_bind (keeps_expectRows inner) (fun rows => keeps_orReturn rfl)
  · exact keeps_orReturn rfl

/-- The only sections of a query that a protocol has to look at are those of the flush. -/
theorem keeps_query [ValueDebug F] (calm : Calm P catalog) (free : Free P g)
    (flushes : Keeps act P i (Same g) (flushColumnarBuffer tm) g) {p : PlanNode F}
    (scans : ScansIn catalog tm p) : Keeps act P i (Same g) (statement p) g := by
  induction p with
  | scan table ns =>
    refine keeps_resolveTable calm free scans ?_
    exact keeps_same_quiet calm free rfl (fun rows => keeps_pure rfl)
  | filter input predicate ih =>
    refine keeps_scanMeta calm free scans ?_
    exact keeps_same_bind (keeps_selectRows calm free input predicate (ih scans))
      (fun rows => keeps_pure rfl)
  | project input columns ih =>
    refine keeps_same_bind (keeps_expectRows (ih scans)) (fun rows => ?_)
    exact keeps_scanMeta calm free scans (keeps_pure rfl)
  | limit input limit offset ih =>
    exact keeps_same_bind (keeps_expectRows (ih scans)) (fun rows => keeps_pure rfl)
  | aggregate input aggs ih =>
    have below : ScansIn catalog tm input := scans
    exact keeps_aggregate calm free flushes below (ih below) aggs (fun _ => rfl) (fun _ => rfl)
  | groupBy input groupBy aggs ih =>
    refine keeps_same_bind (keeps_expectRows (ih scans)) (fun rows => ?_)
    refine keeps_scanMeta calm free scans ?_
    exact keeps_same_bind (keeps_orReturn rfl) (fun grouped => keeps_pure rfl)
  | orderBy input columns ih =>
    refine keeps_same_bind (keeps_expectRows (ih scans)) (fun rows => ?_)
    refine keeps_scanMeta calm free scans ?_
    exact keeps_same_bind (keeps_orReturn rfl) (fun sorted => keeps_pure rfl)
  | _ => exact False.elim scans

end Queries

section Inserts
variable {tm : TableMeta} [Float64 F]

theorem keeps_indexRow (calm : Calm P catalog) (free : Free P g) (idCol : Option Nat)
    (row : Row F) (rowId : Nat) : Keeps act P i (Same g) (indexRow tm idCol row rowId) g := by
  refine keeps_same_quiet calm free rfl (fun found => ?_)
  split
  · split
    · refine keeps_same_bind (keeps_orReturn rfl) (fun key => ?_)
      rw [← bind_pure (locked _)]
      exact keeps_same_quiet calm free rfl (fun _ => keeps_pure rfl)
    · exact keeps_pure rfl
  · exact keeps_pure rfl

/-- A loop whose rounds move the share from one count to the next. -/
theorem keeps_insertRows {kept : G → Prop} (share : Nat → G) (idCol : Option Nat)
    (values : List (List (Value F))) (count : Nat)
    (round : ∀ rowVals count, Keeps act P i
      (fun result g => kept g ∧ ∀ u, result = .ok u → g = share (count + 1))
      (insertRow tm idCol rowVals) (share count)) (free : ∀ count, kept (share count)) :
    Keeps act P i (fun result g => kept g ∧ ∀ n, result = .ok n → g = share n)
      (insertRows tm idCol values count) (share count) := by
  induction values generalizing count with
  | nil =>
    refine keeps_pure ⟨free count, fun n h => ?_⟩
    cases h
    rfl
  | cons rowVals values ih =>
    refine keeps_bind (round rowVals count) ?_
      (fun e g' h => ⟨h.1, fun n failed => by cases failed⟩)
    rintro u g' ⟨_, reached⟩
    rw [reached u rfl]
    exact ih (count + 1)

end Inserts

section Traffic
variable [Float64 F]

/-- INSERTs into a table and aggregates over it, by any names that resolve to it. -/
def OnTable (s : SessionState F) (tm : TableMeta) : PlanNode F → Prop
  | .insert table ns _ _ => s.tableMeta ns table = some tm
  | .aggregate input _ => Execution.scanMeta s input = .ok tm
  | _ => False

def Traffic [ValueDebug F] (s : SessionState F) (tm : TableMeta)
    (m : Task F (ExecutionResult F)) : Prop :=
  ∃ plan, OnTable s tm plan ∧ m = statement plan

/-- A new table. -/
def newTable : SessionState Float :=
  PlanEffects.runPlans [.createTable "t" none [("id", .bigInt)]] .new

theorem reachable_newTable : PlanEffects.Reachable newTable :=
  PlanEffects.reachable_runPlans _ .new

end Traffic

end StatementShares
