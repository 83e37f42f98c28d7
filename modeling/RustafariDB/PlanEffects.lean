import RustafariDB.Execution

/-!
# What a statement can do to the state

Every run of a plan is a sequence of five kinds of steps: a flush, a row stored
everywhere, a row stranded in the row store by a failed key conversion, a table
creation and a table drop. Invariants are proved step by step from here on and
never by looking into the executor again.
-/

namespace PlanEffects

open Std Catalogs Values RowStorage ColumnarStorage BTreeIndexing Plans Floats Sessions
open Predicates Execution StatefulPrograms

variable {F : Type}

section Queries

theorem readOnly_orReturn {α : Type} (x : Except RustafariError α) :
    ReadOnly (orReturn x : Exec F α) := readOnly_runExcept _

theorem final_expectRows (message : String) (sub : Exec F (ExecutionResult F))
    (s : SessionState F) : final (expectRows message sub s) = final (sub s) := by
  refine final_bind_readOnly (fun r => ?_) s
  cases r with
  | rows rows => exact readOnly_pure rows
  | rowsAffected n => exact readOnly_throw _

/-- Reading the schema of the input and returning moves nothing. -/
theorem readOnly_afterRows {α : Type} (input : PlanNode F) (k : TableMeta → Exec F α)
    (still : ∀ tm, ReadOnly (k tm)) :
    ReadOnly (do let tm ← orReturn (scanMeta (← get) input); k tm : Exec F α) :=
  readOnly_bind readOnly_get (fun _ => readOnly_bind (readOnly_orReturn _) still)

variable [Float64 F] [ValueDebug F]

/-- The statement whose effects a plan has: operators that run their input before
anything else pass it on. -/
def executedLeaf : PlanNode F → PlanNode F
  | .project input _ => executedLeaf input
  | .limit input _ _ => executedLeaf input
  | .groupBy input _ _ => executedLeaf input
  | .orderBy input _ => executedLeaf input
  | p => p

theorem final_project (input : PlanNode F) (columns : List String) (s : SessionState F) :
    final (executePlan (.project input columns) s) = final (executePlan input s) := by
  rw [executePlan, final_bind_readOnly, final_expectRows]
  exact fun rows => readOnly_afterRows input _ (fun tm => readOnly_pure _)

theorem final_limit (input : PlanNode F) (limit offset : Nat) (s : SessionState F) :
    final (executePlan (.limit input limit offset) s) = final (executePlan input s) := by
  rw [executePlan, final_bind_readOnly, final_expectRows]
  exact fun rows => readOnly_pure _

theorem final_groupBy (input : PlanNode F) (groupBy : List String) (aggs : List AggExpr)
    (s : SessionState F) :
    final (executePlan (.groupBy input groupBy aggs) s) = final (executePlan input s) := by
  rw [executePlan, final_bind_readOnly, final_expectRows]
  exact fun rows => readOnly_afterRows input _ (fun tm =>
    readOnly_bind (readOnly_orReturn _) (fun grouped => readOnly_pure _))

theorem final_orderBy (input : PlanNode F) (columns : List (String × Bool))
    (s : SessionState F) :
    final (executePlan (.orderBy input columns) s) = final (executePlan input s) := by
  rw [executePlan, final_bind_readOnly, final_expectRows]
  exact fun rows => readOnly_afterRows input _ (fun tm =>
    readOnly_bind (readOnly_orReturn _) (fun sorted => readOnly_pure _))

theorem final_executedLeaf (p : PlanNode F) (s : SessionState F) :
    final (executePlan p s) = final (executePlan (executedLeaf p) s) := by
  induction p with
  | project input columns ih => rw [final_project, ih, executedLeaf]
  | limit input limit offset ih => rw [final_limit, ih, executedLeaf]
  | groupBy input groupBy aggs ih => rw [final_groupBy, ih, executedLeaf]
  | orderBy input columns ih => rw [final_orderBy, ih, executedLeaf]
  | _ => rfl

end Queries

section Steps
variable [Float64 F]

/-- The table is what some name resolves to. -/
def Bound (s : SessionState F) (tm : TableMeta) : Prop :=
  ∃ ns name, s.catalog.getTable ns name = some tm

/-- The key under which a row is filed, when its cell in the id column has one. -/
def idKey (idCol : Nat) (row : Row F) : Option IndexKey :=
  (row.get idCol).bind (fun v => (IndexKey.fromValue v).toOption)

/-- The state once the row store has taken the row. -/
def withRow (s : SessionState F) (tableId : Nat) (row : Row F) : SessionState F :=
  { s with rowStore := (s.rowStore.insert tableId row).2 }

def fileRow (s : SessionState F) (tm : TableMeta) (row : Row F) (rowId : Nat) :
    SessionState F :=
  match (tm.schema.columnIndex "id").bind (fun i => idKey i row), s.getIndex tm.id "id" with
  | some key, some index =>
    { s with indexStore := s.indexStore.insert (tm.id, "id") (index.insert key rowId) }
  | _, _ => s

/-- The state once all three stores have taken the row. -/
def stored (s : SessionState F) (tm : TableMeta) (row : Row F) : SessionState F :=
  (fileRow (withRow s tm.id row) tm row s.rowStore.nextRowId).pushColumnarRow
    tm.id row tm.schema

/-- The error that stops a row between the row store and the index. -/
def blockedBy (s : SessionState F) (tm : TableMeta) (row : Row F) : Option RustafariError :=
  match tm.schema.columnIndex "id", s.getIndex tm.id "id" with
  | some i, some _ =>
    match (row.get i).map IndexKey.fromValue with
    | some (.error e) => some e
    | _ => none
  | _, _ => none

/-- One change of the state. Rows are stranded only where that is allowed. -/
inductive Step (strands : Prop) : SessionState F → SessionState F → Prop
  | flush {s : SessionState F} {tm : TableMeta} (bound : Bound s tm) :
      Step strands s (s.flushColumnarBuffer tm.id tm.schema)
  | storeRow {s : SessionState F} {tm : TableMeta} (bound : Bound s tm) (row : Row F) :
      Step strands s (stored s tm row)
  | strandRow {s : SessionState F} {tm : TableMeta} (allowed : strands) (bound : Bound s tm)
      (row : Row F) (e : RustafariError) (blocked : blockedBy s tm row = some e) :
      Step strands s (withRow s tm.id row)
  | createTable {s : SessionState F} (ns : Option String) (table : String)
      (columns : List (String × ColumnType)) :
      Step strands s (createTable s ns table columns)
  | dropTable {s : SessionState F} {tm : TableMeta} (ns : Option String) (table : String)
      (resolved : s.tableMeta ns table = some tm) :
      Step strands s (dropTable s tm ns table)

abbrev Steps (strands : Prop) : SessionState F → SessionState F → Prop :=
  Relation.ReflTransGen (Step strands)

end Steps

section Inserts

variable [Float64 F]

/-- Filing a row either stops at the key or files it. -/
theorem indexRow_run (tm : TableMeta) (row : Row F) (rowId : Nat) (s : SessionState F) :
    indexRow tm (tm.schema.columnIndex "id") row rowId s =
      match blockedBy s tm row with
      | some e => .error (.error e) s
      | none => .ok () (fileRow s tm row rowId) := by
  simp only [indexRow, bind_run, get_run, blockedBy, fileRow]
  cases hcol : tm.schema.columnIndex "id" with
  | none => rfl
  | some i =>
    cases hindex : s.getIndex tm.id "id" with
    | none =>
      cases hkey : idKey i row <;> simp [hkey]
    | some index =>
      cases hval : row.get i with
      | none => simp [hval, idKey]
      | some v =>
        cases hkey : IndexKey.fromValue v with
        | error e => simp [hval, hkey, orReturn, bind_run, Except.mapError]
        | ok key =>
          simp [hval, hkey, idKey, orReturn, bind_run, Except.mapError, Except.toOption]

/-- The loop body either strands the row with the key error or stores it everywhere. -/
theorem insertRow_run (tm : TableMeta) (vals : List (Value F)) (s : SessionState F) :
    insertRow tm (tm.schema.columnIndex "id") vals s =
      match blockedBy s tm (.new vals) with
      | some e => .error (.error e) (withRow s tm.id (.new vals))
      | none => .ok () (stored s tm (.new vals)) := by
  have body : insertRow tm (tm.schema.columnIndex "id") vals s =
      (indexRow tm (tm.schema.columnIndex "id") (.new vals) s.rowStore.nextRowId >>= fun _ =>
        modify (fun s => s.pushColumnarRow tm.id (.new vals) tm.schema))
        (withRow s tm.id (.new vals)) := rfl
  have blocked : blockedBy (withRow s tm.id (.new vals)) tm (.new vals) =
      blockedBy s tm (.new vals) := rfl
  rw [body, bind_run, indexRow_run, blocked]
  cases blockedBy s tm (.new vals) with
  | none => rfl
  | some e => rfl

/-- Filing a row touches the id index of its own table only. -/
theorem getIndex_fileRow (s : SessionState F) (tm : TableMeta) (row : Row F) (rowId u : Nat)
    (c : String) :
    (fileRow s tm row rowId).getIndex u c =
      match (tm.schema.columnIndex "id").bind (fun i => idKey i row) with
      | some key => if (tm.id, "id") = (u, c) then
          (s.getIndex u c).map (fun index => index.insert key rowId) else s.getIndex u c
      | none => s.getIndex u c := by
  rw [fileRow]
  cases (tm.schema.columnIndex "id").bind (fun i => idKey i row) with
  | none => rfl
  | some key =>
    cases hindex : s.getIndex tm.id "id" with
    | none =>
      simp only
      split
      · rename_i heq
        obtain ⟨rfl, rfl⟩ := Prod.mk.inj heq
        rw [hindex]
        rfl
      · rfl
    | some index =>
      simp only [SessionState.getIndex_insert]
      split
      · rename_i heq
        obtain ⟨rfl, rfl⟩ := Prod.mk.inj heq
        rw [hindex]
        rfl
      · rfl

theorem getIndex_stored (s : SessionState F) (tm : TableMeta) (row : Row F) (u : Nat)
    (c : String) :
    (stored s tm row).getIndex u c =
      (fileRow s tm row s.rowStore.nextRowId).getIndex u c := by
  have frame : (stored s tm row).getIndex u c =
      (fileRow (withRow s tm.id row) tm row s.rowStore.nextRowId).getIndex u c := by
    rw [stored, SessionState.getIndex, SessionState.indexStore_push]
    rfl
  rw [frame, getIndex_fileRow, getIndex_fileRow]
  rfl

theorem catalog_fileRow (s : SessionState F) (tm : TableMeta) (row : Row F) (rowId : Nat) :
    (fileRow s tm row rowId).catalog = s.catalog := by
  rw [fileRow]
  split <;> rfl

theorem rowStore_fileRow (s : SessionState F) (tm : TableMeta) (row : Row F) (rowId : Nat) :
    (fileRow s tm row rowId).rowStore = s.rowStore := by
  rw [fileRow]
  split <;> rfl

theorem catalog_stored (s : SessionState F) (tm : TableMeta) (row : Row F) :
    (stored s tm row).catalog = s.catalog := by
  rw [stored, SessionState.catalog_push, catalog_fileRow]
  rfl

theorem rowStore_stored (s : SessionState F) (tm : TableMeta) (row : Row F) :
    (stored s tm row).rowStore = (s.rowStore.insert tm.id row).2 := by
  rw [stored, SessionState.rowStore_push, rowStore_fileRow]
  rfl

theorem columnar_fileRow (s : SessionState F) (tm : TableMeta) (row : Row F) (rowId : Nat) :
    (fileRow s tm row rowId).columnarStore = s.columnarStore ∧
      (fileRow s tm row rowId).columnarBuffer = s.columnarBuffer := by
  rw [fileRow]
  split <;> exact ⟨rfl, rfl⟩

/-- Storing a row neither creates nor removes an index. -/
theorem isSome_getIndex_stored (s : SessionState F) (tm : TableMeta) (row : Row F) (u : Nat)
    (c : String) : ((stored s tm row).getIndex u c).isSome = (s.getIndex u c).isSome := by
  rw [getIndex_stored, getIndex_fileRow]
  split
  · split
    · rw [Option.isSome_map]
    · rfl
  · rfl

theorem blockedBy_stored (s : SessionState F) (tm : TableMeta) (row row' : Row F) :
    blockedBy (stored s tm row) tm row' = blockedBy s tm row' := by
  have exists_iff := isSome_getIndex_stored s tm row tm.id "id"
  rw [blockedBy, blockedBy]
  cases tm.schema.columnIndex "id" with
  | none => rfl
  | some i =>
    cases h : (stored s tm row).getIndex tm.id "id" <;>
      cases h' : s.getIndex tm.id "id" <;> simp_all

def storedAll (s : SessionState F) (tm : TableMeta) (values : List (List (Value F))) :
    SessionState F :=
  values.foldl (fun s vals => stored s tm (.new vals)) s

theorem storedAll_cons (s : SessionState F) (tm : TableMeta) (vals : List (Value F))
    (values : List (List (Value F))) :
    storedAll s tm (vals :: values) = storedAll (stored s tm (.new vals)) tm values := rfl

theorem catalog_storedAll (s : SessionState F) (tm : TableMeta)
    (values : List (List (Value F))) : (storedAll s tm values).catalog = s.catalog := by
  induction values generalizing s with
  | nil => rfl
  | cons vals values ih => rw [storedAll_cons, ih, catalog_stored]

theorem blockedBy_storedAll (s : SessionState F) (tm : TableMeta)
    (values : List (List (Value F))) (row : Row F) :
    blockedBy (storedAll s tm values) tm row = blockedBy s tm row := by
  induction values generalizing s with
  | nil => rfl
  | cons vals values ih => rw [storedAll_cons, ih, blockedBy_stored]

/-- INSERT stores every row, or stores the rows before the first blocked one and
strands that one. -/
theorem insertRows_cases (tm : TableMeta) (values : List (List (Value F))) (count : Nat)
    (s : SessionState F) :
    ((∀ vals ∈ values, blockedBy s tm (.new vals) = none) ∧
      insertRows tm (tm.schema.columnIndex "id") values count s =
        .ok (count + values.length) (storedAll s tm values)) ∨
    (∃ before vals after e, values = before ++ vals :: after ∧
      (∀ w ∈ before, blockedBy s tm (.new w) = none) ∧
      blockedBy s tm (.new vals) = some e ∧
      insertRows tm (tm.schema.columnIndex "id") values count s =
        .error (.error e) (withRow (storedAll s tm before) tm.id (.new vals))) := by
  induction values generalizing count s with
  | nil => exact Or.inl ⟨by simp, rfl⟩
  | cons vals values ih =>
    cases hblock : blockedBy s tm (.new vals) with
    | some e =>
      refine Or.inr ⟨[], vals, values, e, rfl, by simp, hblock, ?_⟩
      rw [insertRows, bind_run, insertRow_run, hblock]
      rfl
    | none =>
      have loop : insertRows tm (tm.schema.columnIndex "id") (vals :: values) count s =
          insertRows tm (tm.schema.columnIndex "id") values (count + 1)
            (stored s tm (.new vals)) := by
        rw [insertRows, bind_run, insertRow_run, hblock]
      rw [loop]
      have rest := ih (count + 1) (stored s tm (.new vals))
      simp only [blockedBy_stored] at rest
      rcases rest with ⟨clear, run⟩ | ⟨before, w, after, e, rfl, clear, hw, run⟩
      · refine Or.inl ⟨?_, ?_⟩
        · rintro w (_ | ⟨_, hw⟩)
          · exact hblock
          · exact clear w hw
        · rw [run, List.length_cons, Nat.add_assoc, Nat.add_comm 1]
          rfl
      · refine Or.inr ⟨vals :: before, w, after, e, rfl, ?_, hw, run⟩
        rintro w' (_ | ⟨_, hw'⟩)
        · exact hblock
        · exact clear w' hw'

end Inserts

section Flushes

/-- Some bound table's buffer is flushed. -/
def Flush (s s' : SessionState F) : Prop :=
  ∃ tm, Bound s tm ∧ s' = s.flushColumnarBuffer tm.id tm.schema

abbrev Flushes : SessionState F → SessionState F → Prop := Relation.ReflTransGen Flush

/-- Flushes touch the columnar side only. -/
theorem flushes_frame {s s' : SessionState F} (h : Flushes s s') :
    s'.catalog = s.catalog ∧ s'.rowStore = s.rowStore ∧ s'.indexStore = s.indexStore := by
  induction h with
  | refl => exact ⟨rfl, rfl, rfl⟩
  | tail _ flush ih =>
    obtain ⟨tm, _, rfl⟩ := flush
    simpa using ih

/-- Plans that read: an operator tree over a scan. -/
def IsQuery : PlanNode F → Prop
  | .scan _ _ => True
  | .filter input _ => IsQuery input
  | .project input _ => IsQuery input
  | .limit input _ _ => IsQuery input
  | .aggregate input _ => IsQuery input
  | .groupBy input _ _ => IsQuery input
  | .orderBy input _ => IsQuery input
  | _ => False

theorem isQuery_of_scanMeta {s : SessionState F} {p : PlanNode F} {tm : TableMeta}
    (h : scanMeta s p = .ok tm) : IsQuery p := by
  induction p with
  | scan table ns => trivial
  | filter input predicate ih => exact ih h
  | project input columns ih => exact ih h
  | limit input limit offset ih => exact ih h
  | aggregate input aggs ih => exact ih h
  | groupBy input groupBy aggs ih => exact ih h
  | orderBy input columns ih => exact ih h
  | _ => cases h

theorem resolveTable_eq_ok {s : SessionState F} {ns : Option String} {table : String}
    {tm : TableMeta} :
    resolveTable s ns table = .ok tm ↔ s.tableMeta ns table = some tm := by
  rw [resolveTable]
  cases s.tableMeta ns table with
  | none => simp
  | some tm' => simp

theorem bound_of_tableMeta {s : SessionState F} {ns : Option String} {table : String}
    {tm : TableMeta} (h : s.tableMeta ns table = some tm) : Bound s tm := ⟨_, _, h⟩

theorem bound_of_scanMeta {s : SessionState F} {p : PlanNode F} {tm : TableMeta}
    (h : scanMeta s p = .ok tm) : Bound s tm := by
  induction p with
  | scan table ns => exact bound_of_tableMeta (resolveTable_eq_ok.mp h)
  | filter input predicate ih => exact ih h
  | project input columns ih => exact ih h
  | limit input limit offset ih => exact ih h
  | aggregate input aggs ih => exact ih h
  | groupBy input groupBy aggs ih => exact ih h
  | orderBy input columns ih => exact ih h
  | _ => cases h

variable [Float64 F] [ValueDebug F]

/-- A query only flushes, whatever it returns. -/
theorem query_flushes {p : PlanNode F} (query : IsQuery p) (s : SessionState F) :
    Flushes s (final (executePlan p s)) := by
  induction p generalizing s with
  | scan table ns =>
    have still : final (executePlan (.scan table ns) s) = s := by
      rw [executePlan]
      exact readOnly_bind readOnly_get (fun _ =>
        readOnly_bind (readOnly_orReturn _) (fun _ => readOnly_pure _)) s
    rw [still]
  | filter input predicate ih =>
    rw [executePlan, final_bind_of_ok (get_run s)]
    refine bind_moves (R := Flushes) ?_ (fun tm s' _ => ?_)
    · rw [readOnly_orReturn]
    · cases indexPath s tm.id input predicate with
      | some found =>
        rw [readOnly_bind (readOnly_runExcept _) (fun _ => readOnly_pure _) s']
      | none =>
        simp only
        rw [final_bind_readOnly (fun _ => readOnly_pure _), final_expectRows]
        exact ih query s'
  | project input columns ih =>
    rw [final_project]
    exact ih query s
  | limit input limit offset ih =>
    rw [final_limit]
    exact ih query s
  | groupBy input groupBy aggs ih =>
    rw [final_groupBy]
    exact ih query s
  | orderBy input columns ih =>
    rw [final_orderBy]
    exact ih query s
  | aggregate input aggs ih =>
    rw [executePlan, final_bind_of_ok (get_run s)]
    cases htm : scanMeta s input with
    | error e => exact Relation.ReflTransGen.refl
    | ok tm =>
      have flushed : Flush s (s.flushColumnarBuffer tm.id tm.schema) :=
        ⟨tm, bound_of_scanMeta htm, rfl⟩
      refine Relation.ReflTransGen.head flushed ?_
      refine bind_moves (R := Flushes) ?_ (fun values s' _ => Relation.ReflTransGen.refl)
      refine mapM_moves aggs (fun agg _ s' => ?_) _
      split
      · rw [aggregateOverRows, final_bind_readOnly (fun _ => readOnly_orReturn _),
          final_expectRows]
        exact ih query s'
      · rw [readOnly_orReturn]
  | _ => exact False.elim query

omit [Float64 F] [ValueDebug F] in
theorem scanMeta_congr {s s' : SessionState F} (same : s'.catalog = s.catalog) (p : PlanNode F) :
    scanMeta s' p = scanMeta s p := by
  induction p with
  | scan table ns => rw [scanMeta, scanMeta, resolveTable, resolveTable, SessionState.tableMeta,
      SessionState.tableMeta, same]
  | filter input predicate ih => exact ih
  | project input columns ih => exact ih
  | limit input limit offset ih => exact ih
  | aggregate input aggs ih => exact ih
  | groupBy input groupBy aggs ih => exact ih
  | orderBy input columns ih => exact ih
  | _ => rfl

/-- A query resolves its table to the same entry before and after it has run. -/
theorem scanMeta_final {s : SessionState F} {p : PlanNode F} {tm : TableMeta}
    (h : scanMeta s p = .ok tm) (p' : PlanNode F) :
    scanMeta (final (executePlan p s)) p' = scanMeta s p' :=
  scanMeta_congr (flushes_frame (query_flushes (isQuery_of_scanMeta h) s)).1 p'

/-- A filter or an aggregate over anything else stops at once. -/
theorem guarded_flushes {p input : PlanNode F}
    (guarded : (∃ predicate, p = .filter input predicate) ∨ ∃ aggs, p = .aggregate input aggs)
    (s : SessionState F) : Flushes s (final (executePlan p s)) := by
  cases htm : scanMeta s input with
  | ok tm =>
    have query := isQuery_of_scanMeta htm
    rcases guarded with ⟨predicate, rfl⟩ | ⟨aggs, rfl⟩
    · exact query_flushes (p := .filter input predicate) query s
    · exact query_flushes (p := .aggregate input aggs) query s
  | error e =>
    have still : final (executePlan p s) = s := by
      rcases guarded with ⟨predicate, rfl⟩ | ⟨aggs, rfl⟩
      · rw [executePlan, final_bind_of_ok (get_run s), htm]
        rfl
      · rw [executePlan, final_bind_of_ok (get_run s), htm]
        rfl
    rw [still]

end Flushes

section Statements
variable [Float64 F] [ValueDebug F]

theorem executePlan_createTable (ns : Option String) (table : String)
    (columns : List (String × ColumnType)) (s : SessionState F) :
    executePlan (.createTable table ns columns) s =
      .ok (.rowsAffected 0) (createTable s ns table columns) := rfl

theorem executePlan_dropTable (ns : Option String) (table : String) (s : SessionState F) :
    executePlan (.dropTable table ns) s =
      match s.tableMeta ns table with
      | some tm => .ok (.rowsAffected 0) (dropTable s tm ns table)
      | none => .error (.error (.tableNotFound (ns.getD "public" ++ "." ++ table))) s := by
  simp only [executePlan, bind_run, get_run, resolveTable]
  cases s.tableMeta ns table <;> rfl

theorem executePlan_insert (ns : Option String) (table : String) (columns : List String)
    (values : List (List (Value F))) (s : SessionState F) :
    executePlan (.insert table ns columns values) s =
      match s.tableMeta ns table with
      | some tm =>
        match insertRows tm (tm.schema.columnIndex "id") values 0 s with
        | .ok count s' => .ok (.rowsAffected count) s'
        | .error e s' => .error e s'
      | none => .error (.error (.tableNotFound (ns.getD "public" ++ "." ++ table))) s := by
  simp only [executePlan, bind_run, get_run, resolveTable]
  cases s.tableMeta ns table with
  | none => rfl
  | some tm =>
    simp only [orReturn, Except.mapError, runExcept_ok_run]
    cases insertRows tm (tm.schema.columnIndex "id") values 0 s <;> rfl

/-- The rows of a table as `Scan` returns them. -/
def scanRows (s : SessionState F) (tm : TableMeta) : List (Row F) :=
  (s.rowStore.scan tm.id).map Prod.snd

theorem executePlan_scan {s : SessionState F} {tm : TableMeta} {ns : Option String}
    {table : String} (htm : s.tableMeta ns table = some tm) :
    executePlan (.scan table ns) s = .ok (.rows (scanRows s tm)) s := by
  simp only [executePlan, bind_run, get_run, resolveTable, htm]
  rfl

theorem executePlan_filter {s : SessionState F} {tm : TableMeta} {input : PlanNode F}
    (htm : scanMeta s input = .ok tm)
    (predicate : FilterExpr F) :
    executePlan (.filter input predicate) s =
      match indexPath s tm.id input predicate with
      | some (index, lookup) =>
        match lookupIds index lookup with
        | .ok ids => .ok (.rows (ids.filterMap (s.rowStore.get tm.id))) s
        | .error e => .error e s
      | none =>
        match executePlan input s with
        | .ok (.rows rows) s' =>
          .ok (.rows (rows.filter (fun row => evalPredicate row predicate tm.schema))) s'
        | .ok (.rowsAffected _) s' =>
          .error (.error (.execution "filter expects rows")) s'
        | .error e s' => .error e s' := by
  rw [executePlan, bind_run, get_run]
  simp only [htm, orReturn, Except.mapError, bind_run, runExcept_ok_run]
  cases indexPath s tm.id input predicate with
  | some found =>
    obtain ⟨index, lookup⟩ := found
    simp only [bind_run]
    cases lookupIds index lookup <;> rfl
  | none =>
    simp only [expectRows, bind_run]
    cases executePlan input s with
    | ok result s' => cases result <;> rfl
    | error e s' => rfl

def isReader : PlanNode F → Bool
  | .insert _ _ _ _ => false
  | .createTable _ _ _ => false
  | .dropTable _ _ => false
  | _ => true

/-- A plan only flushes unless its leaf inserts, creates or drops. -/
theorem leaf_cases (p : PlanNode F) :
    (isReader (executedLeaf p) = true ∧ ∀ s, Flushes s (final (executePlan p s))) ∨
    (∃ table ns columns values, executedLeaf p = .insert table ns columns values) ∨
    (∃ table ns columns, executedLeaf p = .createTable table ns columns) ∨
    (∃ table ns, executedLeaf p = .dropTable table ns) := by
  have query {q : PlanNode F} (h : IsQuery q) : ∀ s, Flushes s (final (executePlan q s)) :=
    query_flushes h
  induction p with
  | scan table ns => exact Or.inl ⟨rfl, query trivial⟩
  | filter input predicate ih =>
    exact Or.inl ⟨rfl, guarded_flushes (Or.inl ⟨predicate, rfl⟩)⟩
  | aggregate input aggs ih => exact Or.inl ⟨rfl, guarded_flushes (Or.inr ⟨aggs, rfl⟩)⟩
  | project input columns ih => simpa only [final_project, executedLeaf] using ih
  | limit input limit offset ih => simpa only [final_limit, executedLeaf] using ih
  | groupBy input groupBy aggs ih => simpa only [final_groupBy, executedLeaf] using ih
  | orderBy input columns ih => simpa only [final_orderBy, executedLeaf] using ih
  | insert table ns columns values =>
    exact Or.inr (Or.inl ⟨table, ns, columns, values, rfl⟩)
  | createTable table ns columns => exact Or.inr (Or.inr (Or.inl ⟨table, ns, columns, rfl⟩))
  | dropTable table ns => exact Or.inr (Or.inr (Or.inr ⟨table, ns, rfl⟩))
  | describeTable table ns =>
    refine Or.inl ⟨rfl, fun s => ?_⟩
    have still : final (executePlan (.describeTable table ns) s) = s := by
      rw [executePlan]
      exact readOnly_bind readOnly_get (fun _ =>
        readOnly_bind (readOnly_orReturn _) (fun _ => readOnly_pure _)) s
    rw [still]

def isInsert : PlanNode F → Bool
  | .insert _ _ _ _ => true
  | _ => false

/-- The INSERT that a plan executes, if any, returns `Ok`. -/
def InsertOk (p : PlanNode F) (s : SessionState F) : Prop :=
  isInsert (executedLeaf p) = true → succeeds (executePlan (executedLeaf p) s) = true

end Statements

section Runs
variable [Float64 F] [ValueDebug F]

omit [ValueDebug F] in
theorem flushes_steps {strands : Prop} {s s' : SessionState F} (h : Flushes s s') :
    Steps strands s s' := by
  induction h with
  | refl => exact Relation.ReflTransGen.refl
  | tail _ flush ih =>
    obtain ⟨tm, bound, rfl⟩ := flush
    exact ih.tail (Step.flush bound)

omit [ValueDebug F] in
theorem storedAll_steps {strands : Prop} {tm : TableMeta} (values : List (List (Value F)))
    {s : SessionState F} (bound : Bound s tm) : Steps strands s (storedAll s tm values) := by
  induction values generalizing s with
  | nil => exact Relation.ReflTransGen.refl
  | cons vals values ih =>
    have kept : Bound (stored s tm (.new vals)) tm := by
      rw [Bound, catalog_stored]
      exact bound
    exact Relation.ReflTransGen.head (Step.storeRow bound (.new vals)) (ih kept)

/-- Every run is a sequence of steps, without stranded rows when its INSERT is `Ok`. -/
theorem executePlan_steps (strands : Prop) (p : PlanNode F) (s : SessionState F)
    (clean : strands ∨ InsertOk p s) : Steps strands s (final (executePlan p s)) := by
  rcases leaf_cases p with ⟨_, flushes⟩ | ⟨table, ns, columns, values, leaf⟩ |
    ⟨table, ns, columns, leaf⟩ | ⟨table, ns, leaf⟩
  · exact flushes_steps (flushes s)
  · rw [final_executedLeaf, leaf, executePlan_insert]
    cases htm : s.tableMeta ns table with
    | none => exact Relation.ReflTransGen.refl
    | some tm =>
      have bound := bound_of_tableMeta htm
      rcases insertRows_cases tm values 0 s with
        ⟨_, run⟩ | ⟨before, vals, after, e, _, _, blocked, run⟩
      · simp only [run]
        exact storedAll_steps values bound
      · simp only [run]
        have kept : Bound (storedAll s tm before) tm := by
          rw [Bound, catalog_storedAll]
          exact bound
        have allowed : strands := by
          rcases clean with allowed | ok
          · exact allowed
          · have succeeded := ok (by rw [leaf]; rfl)
            rw [leaf, executePlan_insert, htm] at succeeded
            simp only [run] at succeeded
            cases succeeded
        rw [← blockedBy_storedAll s tm before] at blocked
        exact (storedAll_steps before bound).tail (Step.strandRow allowed kept _ e blocked)
  · rw [final_executedLeaf, leaf]
    exact Relation.ReflTransGen.single (Step.createTable ns table columns)
  · rw [final_executedLeaf, leaf, executePlan_dropTable]
    cases htm : s.tableMeta ns table with
    | none => exact Relation.ReflTransGen.refl
    | some tm => exact Relation.ReflTransGen.single (Step.dropTable ns table htm)

/-- States of runs from a new session in which every statement meets a condition. A
statement that fails or panics leaves its state behind as one that succeeds does. -/
inductive RunFrom (allowed : PlanNode F → SessionState F → Prop) : SessionState F → Prop
  | new : RunFrom allowed .new
  | execute {s : SessionState F} (run : RunFrom allowed s) (p : PlanNode F)
      (meets : allowed p s) : RunFrom allowed (final (executePlan p s))

/-- Reachable by `execute_plan`. -/
abbrev Reachable : SessionState F → Prop := RunFrom (fun _ _ => True)

/-- Reachable with every INSERT returning `Ok`. -/
abbrev ReachableInsertsOk : SessionState F → Prop := RunFrom InsertOk

theorem reachable_of_insertsOk {s : SessionState F} (h : ReachableInsertsOk s) :
    Reachable s := by
  induction h with
  | new => exact RunFrom.new
  | execute _ p _ ih => exact RunFrom.execute ih p trivial

/-- Execute plans one after another. -/
def runPlans (plans : List (PlanNode F)) (s : SessionState F) : SessionState F :=
  plans.foldl (fun s p => final (executePlan p s)) s

theorem reachable_runPlans (plans : List (PlanNode F)) {s : SessionState F}
    (h : Reachable s) : Reachable (runPlans plans s) := by
  induction plans generalizing s with
  | nil => exact h
  | cons p plans ih => exact ih (RunFrom.execute h p trivial)

/-- Every INSERT of the sequence returns `Ok`. -/
def InsertsOk : List (PlanNode F) → SessionState F → Prop
  | [], _ => True
  | p :: plans, s => InsertOk p s ∧ InsertsOk plans (final (executePlan p s))

theorem insertsOk_runPlans (plans : List (PlanNode F)) {s : SessionState F}
    (h : ReachableInsertsOk s) (ok : InsertsOk plans s) :
    ReachableInsertsOk (runPlans plans s) := by
  induction plans generalizing s with
  | nil => exact h
  | cons p plans ih => exact ih (RunFrom.execute h p ok.1) ok.2

theorem reachable_steps {s : SessionState F} (h : Reachable s) : Steps True .new s := by
  induction h with
  | new => exact Relation.ReflTransGen.refl
  | execute _ p _ ih => exact ih.trans (executePlan_steps True p _ (Or.inl trivial))

theorem insertsOk_steps {s : SessionState F} (h : ReachableInsertsOk s) :
    Steps False .new s := by
  induction h with
  | new => exact Relation.ReflTransGen.refl
  | execute _ p ok ih => exact ih.trans (executePlan_steps False p _ (Or.inr ok))

omit [ValueDebug F] in
/-- An invariant of the steps holds in every state of a run. -/
theorem steps_invariant {strands : Prop} {P : SessionState F → Prop}
    (preserved : ∀ s s', Step strands s s' → P s → P s') {s s' : SessionState F}
    (steps : Steps strands s s') (start : P s) : P s' := by
  induction steps with
  | refl => exact start
  | tail _ step ih => exact preserved _ _ step ih

end Runs

end PlanEffects
