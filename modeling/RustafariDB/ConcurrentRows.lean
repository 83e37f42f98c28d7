import RustafariDB.ConcurrentReads
import RustafariDB.EmittedEvents

/-!
# What queries see of INSERTs at work

The rows of an INSERT reach the row store one at a time and in order. At any moment a table has
the rows it had, and merged behind them the first rows of each INSERT. A query sees such a cut,
with all rows of the INSERTs that had returned when it started.
-/

namespace ConcurrentRows

open Catalogs Values RowStorage BTreeIndexing Plans Floats Sessions StatefulPrograms
open Interleavings LockSections AtomicReads EmittedEvents ConcurrentReads
open Execution (Stop ExecutionResult executePlan)
open PlanEffects SessionInvariants
open NamedTables (aggregates)

variable {F : Type} {s : SessionState F} {t : Nat} {start : SessionState F}

section Sections

/-- The row that a section stores in a table. -/
def storesIn (t : Nat) : LockSection F → Option (Row F)
  | .insertRow u row => if u = t then some row else none
  | _ => none

def keepsRows : LockSection F → Bool
  | .dropRows _ => false
  | _ => true

/-- What a section may answer while tables stay: names resolve as at the start. -/
def asAtStart (start : SessionState F) : (op : LockSection F) → Answer op → Prop
  | .tableMeta ns table, answer => answer = start.tableMeta ns table
  | _, _ => True

theorem scan_act {op : LockSection F} (keeps : keepsRows op = true) (fresh : s.rowStore.Fresh) :
    ((act op s).2.rowStore.scan t).map Prod.snd =
      (s.rowStore.scan t).map Prod.snd ++ (storesIn t op).toList := by
  have idle (same : (act op s).2.rowStore = s.rowStore) (none : storesIn t op = none) :
      ((act op s).2.rowStore.scan t).map Prod.snd =
        (s.rowStore.scan t).map Prod.snd ++ (storesIn t op).toList := by
    rw [same, none, Option.toList_none, List.append_nil]
  cases op with
  | insertRow u row =>
    change ((s.rowStore.insert u row).2.scan t).map Prod.snd = _
    rw [storesIn]
    by_cases same : u = t
    · subst same
      rw [TableStore.scan_insert_self fresh, if_pos rfl, List.map_append]
      rfl
    · rw [TableStore.scan_insert_other (Ne.symm same), if_neg same, Option.toList_none,
        List.append_nil]
  | dropRows u => cases keeps
  | indexInsert u key rowId =>
    refine idle ?_ rfl
    simp only [act, withIndexed]
    split <;> rfl
  | pushRow u row =>
    refine idle ?_ rfl
    simp only [act]
    split <;> rfl
  | takeBuffer u =>
    refine idle ?_ rfl
    simp only [act]
    split <;> rfl
  | _ => exact idle rfl rfl

theorem asAtStart_of_grows (grows : Grows start s) (op : LockSection F) :
    asAtStart start op (act op s).1 := by
  cases op with
  | tableMeta ns table =>
    change s.catalog.getTable _ _ = start.catalog.getTable _ _
    rw [grows.catalog]
  | _ => exact trivial

end Sections

section Statements
variable [Float64 F] {tm : TableMeta}

/-- The rows that a statement is to store in a table. -/
def rowsInto (start : SessionState F) (t : Nat) : PlanNode F → List (Row F)
  | .insert table ns _ values =>
    if (start.tableMeta ns table).map TableMeta.id = some t then values.map .new else []
  | _ => []

omit [Float64 F] in
theorem stores_none_of_spares {op : LockSection F} (h : spares op = true) (t : Nat) :
    storesIn t op = none := by
  cases op with
  | insertRow => cases h
  | _ => rfl

/-- Sections that store nothing in the table. -/
abbrev StoresNone {α : Type} (t : Nat) (m : Task F α) : Prop :=
  Only (fun op => storesIn t op = none) m

omit [Float64 F] in
theorem storesNone_of_spares {α : Type} {m : Task F α} (only : Spares m) (t : Nat) :
    StoresNone t m := only_mono (fun _ h => stores_none_of_spares h t) only

theorem storesNone_afterInsert (t : Nat) (tm : TableMeta) (idCol : Option Nat) (row : Row F)
    (rowId : Nat) :
    StoresNone t (indexRow tm idCol row rowId >>= fun _ => pushColumnarRow tm row) :=
  only_bind (only_indexRow (fun _ h => stores_none_of_spares h t) (fun _ => rfl) idCol row)
    (fun _ => storesNone_of_spares (spares_pushColumnarRow tm row) t)

theorem emits_insertRows (start : SessionState F) (idCol : Option Nat)
    (values : List (List (Value F))) (count : Nat) :
    Emits (storesIn tm.id) (asAtStart start) (values.map .new)
      (insertRows tm idCol values count) := by
  induction values generalizing count with
  | nil => exact fun _ => rfl
  | cons rowVals values ih =>
    have stored : storesIn tm.id (.insertRow tm.id (.new rowVals)) = some (.new rowVals) :=
      if_pos rfl
    have first : Emits (storesIn tm.id) (asAtStart start) [.new rowVals]
        (insertRow tm idCol rowVals) := by
      refine emits_perform_bind stored (fun rowId _ => ?_)
      exact emits_nothing (storesNone_afterInsert tm.id tm idCol (.new rowVals) rowId)
    exact emits_bind first (fun _ => ih (count + 1))

variable [ValueDebug F]

theorem emits_statement {plan : PlanNode F} (manipulates : Manipulates plan) (t : Nat) :
    Emits (storesIn t) (asAtStart start) (rowsInto start t plan) (statement plan) := by
  have idle (only : Spares (statement plan)) (none : rowsInto start t plan = []) :
      Emits (storesIn t) (asAtStart start) (rowsInto start t plan) (statement plan) := by
    rw [none]
    exact emits_nothing (storesNone_of_spares only t)
  cases plan with
  | insert table ns columns values =>
    -- the name resolves to what it was at the start
    intro found resolved
    obtain rfl : found = start.tableMeta ns table := resolved
    rw [rowsInto]
    cases known : start.tableMeta ns table with
    | none => exact fun ⟨_, failed⟩ => by cases failed
    | some tm =>
      change Emits _ _ _ (insertRows tm _ values 0 >>= fun count =>
        pure (.rowsAffected count) : Task F (ExecutionResult F))
      by_cases same : tm.id = t
      · subst same
        rw [Option.map_some, if_pos rfl, ← List.append_nil (values.map _)]
        exact emits_bind (emits_insertRows start _ values 0)
          (fun count => emits_nothing (m := pure (ExecutionResult.rowsAffected count)) trivial)
      · rw [Option.map_some, if_neg (fun h => same (Option.some.inj h))]
        refine emits_nothing (only_bind ?_ (fun _ => trivial))
        exact only_insertRows (fun _ h => stores_none_of_spares h t) (fun _ => if_neg same)
          (fun _ _ => rfl) _ values 0
  | describeTable table ns =>
    exact idle (only_bind (spares_resolveTable ns table) (fun _ => trivial)) rfl
  | createTable | dropTable => exact False.elim manipulates
  | _ => exact idle (spares_query manipulates) rfl

end Statements

section Runs
variable [Float64 F] [ValueDebug F] {tm : TableMeta} {ns : Option String} {table : String}
variable {plans : List (PlanNode F)} {p₀ p : StatementPool F}

theorem keepsRows_statement {plan : PlanNode F} (manipulates : Manipulates plan) :
    Only (fun op => keepsRows op = true) (statement plan) := by
  have weaker (op : LockSection F) (h : spares op = true) : keepsRows op = true := by
    cases op with
    | dropRows => cases h
    | _ => rfl
  have spared {α : Type} {m : Task F α} (only : Spares m) :
      Only (fun op => keepsRows op = true) m := only_mono weaker only
  cases plan with
  | insert table ns columns values =>
    refine only_bind (spared (spares_resolveTable ns table)) (fun tm => ?_)
    exact only_bind (only_insertRows weaker (fun _ => rfl) (fun _ _ => rfl) _ values 0)
      (fun _ => trivial)
  | describeTable table ns =>
    exact spared (only_bind (spares_resolveTable ns table) (fun _ => trivial))
  | createTable | dropTable => exact False.elim manipulates
  | _ => exact spared (spares_query manipulates)

/-- Statements that are all about to start. -/
abbrev begun (start : SessionState F) (plans : List (PlanNode F)) : StatementPool F :=
  ⟨start, plans.map statement, []⟩

theorem mindful_begun (reached : Reachable start)
    (manipulate : ∀ plan ∈ plans, Manipulates plan) :
    Mindful manipulation act (begun start plans) := by
  have filed := filed_of_valid (reachable_valid reached)
  refine ⟨filed, fun m inside => ?_⟩
  obtain ⟨plan, listed, rfl⟩ := List.mem_map.mp inside
  exact minds_statement (manipulate plan listed) filed

theorem later_begun (reached : Reachable start) (manipulate : ∀ plan ∈ plans, Manipulates plan)
    (run : Run act (fun _ => False) always (begun start plans) p) :
    Mindful manipulation act p ∧ manipulation.Later start p.state :=
  mindful_run (fun _ h => False.elim h) (mindful_begun reached manipulate) run

/-- A table has the rows it had and those stored since, in the order in which they were. -/
theorem scan_of_history (reached : Reachable start)
    (manipulate : ∀ plan ∈ plans, Manipulates plan)
    (run : Run act (fun _ => False) always (begun start plans) p) (t : Nat) :
    (p.state.rowStore.scan t).map Prod.snd = (start.rowStore.scan t).map Prod.snd ++
      (events (storesIn t) p.history).map Prod.snd := by
  have invariant : (∀ m ∈ p.threads, Only (fun op => keepsRows op = true) m) ∧
      (p.state.rowStore.scan t).map Prod.snd = (start.rowStore.scan t).map Prod.snd ++
        (events (storesIn t) p.history).map Prod.snd := by
    induction run with
    | refl =>
      refine ⟨fun m inside => ?_, (List.append_nil _).symm⟩
      obtain ⟨plan, listed, rfl⟩ := List.mem_map.mp inside
      exact keepsRows_statement (manipulate plan listed)
    | tail run step ih =>
      obtain ⟨only, rows⟩ := ih
      obtain ⟨only', moved⟩ := only_step (fun _ h => False.elim h) only step
      refine ⟨only', ?_⟩
      rcases moved with ⟨state, history⟩ | ⟨i, op, keeps, state, history⟩
      · rw [state, history, rows]
      · have fresh := (later_begun reached manipulate run).1.inv.fresh
        rw [state, history, scan_act keeps fresh, rows, events_append, List.map_append,
          List.append_assoc]
        cases storesIn t op <;> rfl
  exact invariant.2

/-- The rows stored in a table are the first rows of each INSERT into it, in their order, and
all rows of an INSERT that has returned its count. -/
structure Cut (start : SessionState F) (t : Nat) (plans : List (PlanNode F))
    (returned : Nat → Prop) (log : List (Nat × Row F)) : Prop where
  within : ∀ e ∈ log, e.1 < plans.length
  first : ∀ i plan, plans[i]? = some plan → own i log <+: rowsInto start t plan
  all : ∀ i plan, plans[i]? = some plan → returned i → own i log = rowsInto start t plan

/-- The statement has returned, and not with an error. -/
def Succeeded (p : StatementPool F) (i : Nat) : Prop :=
  ∃ result, p.threads[i]? = some (.done (.ok result))

theorem cut_of_run (reached : Reachable start) (manipulate : ∀ plan ∈ plans, Manipulates plan)
    (run : Run act (fun _ => False) always (begun start plans) p) (t : Nat) :
    Cut start t plans (Succeeded p) (events (storesIn t) p.history) := by
  have emitted (i : Nat) (plan : PlanNode F) (listed : plans[i]? = some plan) :=
    own_events_of_run (i := i) (m := statement plan) (by rw [List.getElem?_map, listed]; rfl)
      (emits_statement (manipulate plan (List.mem_of_getElem? listed)) t)
      (fun q run => asAtStart_of_grows (later_begun reached manipulate run).2.grows) run
  refine ⟨fun e inside => ?_, fun i plan listed => (emitted i plan listed).1, ?_⟩
  · have within := (position_of_event run).2 e inside
    rwa [List.length_map] at within
  · rintro i plan listed ⟨result, returned⟩
    exact (emitted i plan listed).2 result returned

/-- A query without aggregates answers what it answers in one piece in some state, in which each
table has the rows it had and behind them, merged, the first rows of each INSERT into it: all of
them for an INSERT that had returned its count when the query started. -/
theorem query_sees_a_cut (reached : Reachable start)
    (manipulate : ∀ plan ∈ plans, Manipulates plan)
    (before : Run act (fun _ => False) always (begun start plans) p₀) {i : Nat}
    {plan : PlanNode F} (query : IsQuery plan) (plain : aggregates plan = false)
    (asked : p₀.threads[i]? = some (statement plan))
    (during : Run act (fun _ => False) always p₀ p) {result : Except Stop (ExecutionResult F)}
    (answered : p.threads[i]? = some (.done result)) :
    ∃ s : SessionState F, executePlan plan s = runExcept result s ∧
      s.catalog = start.catalog ∧ ∀ tm : TableMeta, ∃ log,
        scanRows s tm = scanRows start tm ++ log.map Prod.snd ∧
        Cut start tm.id plans (Succeeded p₀) log := by
  have mindful := (later_begun reached manipulate before).1
  have atOnce := atOnce_query query plain mindful.inv
  obtain ⟨q, onward, _, answer⟩ :=
    answer_of_moment (fun _ h => False.elim h) mindful asked atOnce during answered
  have reading := before.trans onward
  have later := (mindful_run (fun _ h => False.elim h) mindful onward).2
  have alone := alone_of_reads later.inv (atOnce q.state later)
  rw [← answer, alone_statement] at alone
  refine ⟨q.state, alone, (later_begun reached manipulate reading).2.grows.catalog, fun tm => ?_⟩
  obtain ⟨within, first, all⟩ := cut_of_run reached manipulate reading tm.id
  refine ⟨_, scan_of_history reached manipulate reading tm.id, within, first, ?_⟩
  rintro j plan' listed ⟨count, returned⟩
  exact all j plan' listed ⟨count, done_stays returned onward⟩

end Runs

section Concrete
open StatementShares (newTable reachable_newTable)

def readsBetween : List (PlanNode Float) := [insertsTwo, scans]

theorem scan_sees_first_rows : ∃ (p : StatementPool Float) (result : _) (s : SessionState Float),
    turns act always betweenRows (begun newTable readsBetween) = some p ∧
      p.threads[1]? = some (.done result) ∧ executePlan scans s = runExcept result s ∧
      ∀ tm : TableMeta, ∃ log, scanRows s tm = scanRows newTable tm ++ log.map Prod.snd ∧
        Cut newTable tm.id readsBetween (Succeeded (begun newTable readsBetween)) log := by
  obtain ⟨p, result, scheduled, answered⟩ :
      ∃ (p : StatementPool Float) (result : Except Stop (ExecutionResult Float)),
        turns act always betweenRows (begun newTable readsBetween) = some p ∧
        p.threads[1]? = some (.done result) := ⟨_, _, rfl, rfl⟩
  have manipulate : ∀ plan ∈ readsBetween, Manipulates plan :=
    List.forall_mem_cons.mpr ⟨trivial, List.forall_mem_singleton.mpr trivial⟩
  have query : IsQuery scans := trivial
  obtain ⟨s, answer, _, cut⟩ := query_sees_a_cut reachable_newTable manipulate .refl query rfl
    rfl (run_of_turns betweenRows scheduled) answered
  exact ⟨p, result, s, scheduled, answered, answer, cut⟩

end Concrete

end ConcurrentRows
