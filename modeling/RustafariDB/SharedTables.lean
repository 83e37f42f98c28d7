import Mathlib.Data.List.Perm.Subperm
import RustafariDB.Collections
import RustafariDB.CountAgreement
import RustafariDB.IndexLookups
import RustafariDB.StoredRows

/-!
# Statements and collections on the same tables

Statements and document collections write one row store, but only INSERT also writes the
index and the columnar buffer. Counts and id lookups agree with the stored rows until a
collection changes a table; a row without a findable id ends the agreement as well.
-/

namespace SharedTables

open SaturatingSums Values Catalogs RowStorage BTreeIndexing Plans Floats Sessions Execution
open Aggregates StatefulPrograms DocumentFilters Collections PlanEffects SessionInvariants
open StoredRows StoreAgreement AggregateAgreement CountAgreement IndexLookups

variable {F : Type}

section Actions

/-- A statement of the session, or an operation of a collection over its row store. -/
inductive Action (F : Type) where
  | execute (p : PlanNode F)
  | insertOne (c : DocumentCollection) (row : Row F)
  | deleteMany (c : DocumentCollection) (filter : Option (DocFilter F))

variable [Float64 F] [ValueDebug F]

def act : Action F → SessionState F → SessionState F
  | .execute p, s => final (executePlan p s)
  | .insertOne c row, s => { s with rowStore := (c.insertOne row s.rowStore).2 }
  | .deleteMany c filter, s => { s with rowStore := (c.deleteMany filter s.rowStore).2 }

/-- States that statements and collections reach from a new session, each in its turn. -/
inductive MixedRun (allowed : Action F → SessionState F → Prop) : SessionState F → Prop
  | new : MixedRun allowed .new
  | act {s : SessionState F} (run : MixedRun allowed s) (a : Action F) (meets : allowed a s) :
      MixedRun allowed (act a s)

omit [Float64 F] [ValueDebug F] in
/-- The collection has the id and the schema of a table that statements know by a name. -/
def CollectionOver (c : DocumentCollection) (s : SessionState F) (tm : TableMeta) : Prop :=
  c = ⟨tm.id, tm.schema⟩ ∧ ∃ ns table, s.tableMeta ns table = some tm

/-- Any statement; any operation of a collection over a known table, with rows that have a
value for each column and an id with a key. -/
def Admissible : Action F → SessionState F → Prop
  | .execute _, _ => True
  | .insertOne c row, s => ∃ tm i w k, CollectionOver c s tm ∧
      row.values.length = tm.schema.columns.length ∧
      tm.schema.columnIndex "id" = some i ∧ row.get i = some w ∧ IndexKey.fromValue w = .ok k
  | .deleteMany c _, s => ∃ tm, CollectionOver c s tm

end Actions

section Agreement
variable [Float64 F]

/-- The stored rows whose id equals a value. -/
def rowsWithId (s : SessionState F) (tm : TableMeta) (i : Nat) (v : Value F) : List (Row F) :=
  (scanRows s tm).filter (fun row => (row.get i).any (fun w => Value.eq w v))

theorem mem_rowsWithId {s : SessionState F} {tm : TableMeta} {i : Nat} {v : Value F}
    {row : Row F} : row ∈ rowsWithId s tm i v ↔
      row ∈ scanRows s tm ∧ ∃ w, row.get i = some w ∧ Value.eq w v = true := by
  rw [rowsWithId, List.mem_filter, Option.any_eq_true]

variable [ValueDebug F]

/-- COUNT(*) is the number of stored rows. -/
def CountAgrees (s : SessionState F) (tm : TableMeta) (ns : Option String)
    (table : String) : Prop :=
  outcome (executePlan (.aggregate (.scan table ns) [.countStar]) s) =
    .ok (.rows [.new [.int64 (Int64.ofNat (scanRows s tm).length)]])

/-- A filter for an id that is stored returns every row with that id. -/
def LookupAgrees (s : SessionState F) (tm : TableMeta) (ns : Option String) (table : String)
    (i : Nat) : Prop :=
  ∀ v, rowsWithId s tm i v ≠ [] → ∃ rows s',
    executePlan (.filter (.scan table ns) (.cmp "id" .eq v)) s = .ok (.rows rows) s' ∧
      (rowsWithId s tm i v).Subperm rows

/-- Counts agree for every known table, and lookups if it has an id column. -/
def Agrees (s : SessionState F) : Prop :=
  ∀ ns table tm, s.tableMeta ns table = some tm → CountAgrees s tm ns table ∧
    ∀ i, tm.schema.columnIndex "id" = some i → LookupAgrees s tm ns table i

omit [ValueDebug F] in
/-- The id has the key of every value that it equals. -/
def Findable (w : Value F) : Prop :=
  ∀ v, Value.eq w v = true → ∃ k, IndexKey.fromValue w = .ok k ∧ IndexKey.fromValue v = .ok k

/-- The table has a column, and the id of the row, if it has one, can be indexed and found. -/
def Listed (schema : Schema) (row : Row F) : Prop :=
  schema.columns ≠ [] ∧ ∀ i w, schema.columnIndex "id" = some i → row.get i = some w →
    (∃ k, IndexKey.fromValue w = .ok k) ∧ Findable w

/-- Nothing is stored but by INSERT, which stores listed rows, and nothing is deleted. -/
def Maintained : Action F → SessionState F → Prop
  | .execute p, s => StoresOnly Listed p s
  | .insertOne _ _, _ => False
  | .deleteMany c filter, s => c.find filter s.rowStore = []

end Agreement

section Lookups
variable [Float64 F] [ValueDebug F] {s : SessionState F} {tm : TableMeta}
variable {ns : Option String} {table : String} {i : Nat}

/-- Lookups by id agree exactly when every stored id can be found. -/
theorem lookupAgrees_iff (h : Reachable s) (htm : s.tableMeta ns table = some tm)
    (hcol : tm.schema.columnIndex "id" = some i) :
    LookupAgrees s tm ns table i ↔
      ∀ row ∈ scanRows s tm, ∀ w, row.get i = some w → Findable w := by
  obtain ⟨index, indexed⟩ := index_of_idColumn (reachable_valid h) (bound_of_tableMeta htm) hcol
  constructor
  · intro agrees row inside w hw v equal
    have met : row ∈ rowsWithId s tm i v := mem_rowsWithId.mpr ⟨inside, w, hw, equal⟩
    obtain ⟨rows, s', run, all⟩ := agrees v (List.ne_nil_of_mem met)
    cases hkey : IndexKey.fromValue v with
    | error e =>
      rw [point_fails htm indexed hkey] at run
      cases run
    | ok k =>
      rw [point_run h htm indexed hcol hkey] at run
      cases run
      have filed := (List.mem_filter.mp (all.subset met)).2
      obtain ⟨w', hw', hk⟩ := idKey_eq_some.mp (of_decide_eq_true filed)
      obtain rfl := Option.some.inj (hw.symm.trans hw')
      exact ⟨k, hk, rfl⟩
  · intro findable v some_row
    obtain ⟨first, met⟩ := List.exists_mem_of_ne_nil _ some_row
    obtain ⟨inside, w, hw, equal⟩ := mem_rowsWithId.mp met
    obtain ⟨k, _, hkey⟩ := findable first inside w hw v equal
    refine ⟨_, s, point_run h htm indexed hcol hkey, ?_⟩
    have narrowed : rowsWithId s tm i v =
        ((scanRows s tm).filter (fun row => idKey i row = some k)).filter
          (fun row => (row.get i).any (fun w => Value.eq w v)) := by
      rw [rowsWithId, List.filter_filter]
      refine List.filter_congr (fun row inside => Bool.eq_iff_iff.mpr ?_)
      rw [Bool.and_eq_true, decide_eq_true_iff, iff_self_and, Option.any_eq_true]
      rintro ⟨w, hw, equal⟩
      obtain ⟨k', hk', hkey'⟩ := findable row inside w hw v equal
      obtain rfl := Except.ok.inj (hkey.symm.trans hkey')
      exact idKey_eq_some.mpr ⟨w, hw, hk'⟩
    rw [narrowed]
    exact List.filter_sublist.subperm

/-- After INSERTs that all succeeded the counts of tables with columns agree. -/
theorem countAgrees_of_insertsOk (h : ReachableInsertsOk s)
    (htm : s.tableMeta ns table = some tm)
    (shaped : tm.schema.columns = [] → scanRows s tm = []) : CountAgrees s tm ns table := by
  have valid := reachable_valid (reachable_of_insertsOk h)
  have cut := insertsOk_cut h (bound_known valid.catalog (bound_of_tableMeta htm))
  have small := valid.smallBuffers tm.id
  have agrees : ScanAgrees s tm ns table .countStar := by
    by_cases some_column : tm.schema.columns = []
    · exact (scanAgrees_iff htm cut small .countStar).mpr (Or.inl (shaped some_column))
    · exact countStar_agrees htm cut small some_column
  rw [CountAgrees, agrees]
  rfl

end Lookups

section Maintaining
variable [Float64 F] [ValueDebug F] {s : SessionState F}

/-- What agreement rests on: no INSERT has failed, and every stored row is listed. -/
structure Kept (s : SessionState F) : Prop where
  insertsOk : ReachableInsertsOk s
  listed : AllRows Listed s

theorem Kept.reachable (kept : Kept s) : Reachable s := reachable_of_insertsOk kept.insertsOk

theorem agrees_of_kept (kept : Kept s) : Agrees s := by
  intro ns table tm htm
  have known := bound_known (reachable_valid kept.reachable).catalog (bound_of_tableMeta htm)
  have listed := kept.listed tm known
  constructor
  · refine countAgrees_of_insertsOk kept.insertsOk htm (fun no_column => ?_)
    refine List.eq_nil_iff_forall_not_mem.mpr (fun row inside => ?_)
    exact (listed row inside).1 no_column
  · intro i hcol
    apply (lookupAgrees_iff kept.reachable htm hcol).mpr
    exact fun row inside w hw => ((listed row inside).2 i w hcol hw).2

omit [ValueDebug F] in
/-- A listed row is not blocked. -/
theorem clear_of_listed {tm : TableMeta} {row : Row F} (listed : Listed tm.schema row) :
    blockedBy s tm row = none := by
  cases blocked : blockedBy s tm row with
  | none => rfl
  | some e =>
    cases hcol : tm.schema.columnIndex "id" with
    | none => simp [blockedBy, hcol] at blocked
    | some i =>
      cases hw : row.get i with
      | none =>
        simp only [blockedBy, hcol] at blocked
        split at blocked <;> simp_all
      | some w =>
        obtain ⟨⟨k, hk⟩, _⟩ := listed.2 i w hcol hw
        have unkeyed := idKey_of_blocked hcol blocked
        rw [idKey_eq_some.mpr ⟨w, hw, hk⟩] at unkeyed
        cases unkeyed

/-- A statement that stores listed rows succeeds in storing them, or stores none. -/
theorem insertOk_of_storesOnly {p : PlanNode F} (stores : StoresOnly Listed p s) :
    InsertOk p s ∨ final (executePlan p s) = s := by
  by_cases inserts : isInsert (executedLeaf p) = true
  · cases leaf : executedLeaf p with
    | insert table ns columns values =>
      cases htm : s.tableMeta ns table with
      | none =>
        right
        rw [final_executedLeaf, leaf, executePlan_insert, htm]
        rfl
      | some tm =>
        have listed := stores table ns columns values tm leaf htm
        rcases insertRows_cases tm values 0 s with
          ⟨clear, run⟩ | ⟨before, vals, after, e, rfl, clear, blocked, run⟩
        · left
          intro _
          rw [leaf, executePlan_insert, htm]
          simp only [run]
          rfl
        · rw [reaching_of_blocked clear blocked] at listed
          have last := listed vals (List.mem_append_right _ List.mem_cons_self)
          cases (clear_of_listed last).symm.trans blocked
    | _ => rw [leaf] at inserts; cases inserts
  · exact Or.inl (fun insert => False.elim (inserts insert))

/-- A maintained step keeps what agreement rests on. -/
theorem kept_act (kept : Kept s) {a : Action F} (maintained : Maintained a s) :
    Kept (act a s) := by
  cases a with
  | execute p =>
    have listed := (allRows_step (reachable_valid kept.reachable) kept.listed p).mpr maintained
    rcases insertOk_of_storesOnly maintained with ok | same
    · exact ⟨RunFrom.execute kept.insertsOk p ok, listed⟩
    · rw [act, same]
      exact kept
  | insertOne c row => exact False.elim maintained
  | deleteMany c filter =>
    rw [act, DocumentCollection.deleteMany_of_none maintained]
    exact kept

theorem kept_run (run : MixedRun Maintained s) : Kept s := by
  induction run with
  | new => exact ⟨RunFrom.new, allRows_new Listed⟩
  | act _ a maintained ih => exact kept_act ih maintained

end Maintaining

section Breaking
variable [Float64 F] [ValueDebug F] {s : SessionState F} {tm : TableMeta}
variable {ns : Option String} {table : String}

/-- The table has a column, and the id of the row, if it has one, equals itself. -/
def Reflexive (schema : Schema) (row : Row F) : Prop :=
  schema.columns ≠ [] ∧ ∀ i w, schema.columnIndex "id" = some i → row.get i = some w →
    Value.eq w w = true

/-- Steps whose effect shows at once: the ids they store equal themselves, and they delete
fewer rows than an integer of 64 bits can tell from none. -/
def Telling : Action F → SessionState F → Prop
  | .execute p, s => StoresOnly Reflexive p s
  | .insertOne c row, s => ∃ tm i w, CollectionOver c s tm ∧
      tm.schema.columnIndex "id" = some i ∧ row.get i = some w ∧ Value.eq w w = true
  | .deleteMany c filter, s => (∃ tm, CollectionOver c s tm) ∧
      (c.find filter s.rowStore).length < 2 ^ 64

/-- An INSERT after which lookups agree has stored listed rows. -/
theorem listed_of_agrees (h : Reachable s) {p : PlanNode F} (telling : StoresOnly Reflexive p s)
    (agrees : Agrees (final (executePlan p s))) : StoresOnly Listed p s := by
  intro table ns columns values tm leaf htm vals inside
  obtain ⟨some_column, reflexive⟩ := telling table ns columns values tm leaf htm vals inside
  refine ⟨some_column, fun i w hcol hw => ?_⟩
  obtain ⟨catalog, appended, _⟩ := insert_appends (reachable_valid h).freshRows htm columns
    values rfl
  rw [← leaf, ← final_executedLeaf] at catalog appended
  have resolved : (final (executePlan p s)).tableMeta ns table = some tm := by
    rw [SessionState.tableMeta, catalog]
    exact htm
  have stored : Row.new vals ∈ scanRows (final (executePlan p s)) tm := by
    rw [appended]
    exact List.mem_append_right _ (List.mem_map_of_mem inside)
  have findable : Findable w :=
    (lookupAgrees_iff (RunFrom.execute h p trivial) resolved hcol).mp
      ((agrees ns table tm resolved).2 i hcol) _ stored w hw
  obtain ⟨k, hk, _⟩ := findable w (reflexive i w hcol hw)
  exact ⟨⟨k, hk⟩, findable⟩

omit [ValueDebug F] in
/-- The ids on file are all older than a row that is stored past the index. -/
theorem filed_withRow (fresh : s.rowStore.Fresh) {index : BTreeIndex} {i : Nat}
    (listed : Indexes index (idKey i) (s.rowStore.scan tm.id)) (row : Row F) (k : IndexKey) :
    (index.get k).filterMap ((withRow s tm.id row).rowStore.get tm.id) =
      (scanRows s tm).filter (fun row => idKey i row = some k) := by
  rw [← fetch_selection, listed k]
  refine List.filterMap_congr (fun r filed => ?_)
  obtain ⟨e, stored, rfl⟩ := List.mem_map.mp filed
  have known := TableStore.mem_scan.mp (List.mem_filter.mp stored).1
  have unused := fresh tm.id e.1 e.2 known
  rw [withRow, TableStore.get_insert, if_neg (fun heq => ?_)]
  have := (Prod.mk.inj heq).2
  omega

/-- A row that a collection inserts is missed by the lookup of its id. -/
theorem insertOne_unlisted (h : Reachable s) (htm : s.tableMeta ns table = some tm) {i : Nat}
    (hcol : tm.schema.columnIndex "id" = some i) {row : Row F} {w : Value F}
    (hw : row.get i = some w) (equal : Value.eq w w = true) :
    ¬ LookupAgrees (act (.insertOne ⟨tm.id, tm.schema⟩ row) s) tm ns table i := by
  have valid := reachable_valid h
  obtain ⟨index, indexed⟩ := index_of_idColumn valid (bound_of_tableMeta htm) hcol
  obtain ⟨i', hcol', listed⟩ := bound_index h (bound_of_tableMeta htm) indexed
  obtain rfl := Option.some.inj (hcol.symm.trans hcol')
  change ¬ LookupAgrees (withRow s tm.id row) tm ns table i
  have resolved : (withRow s tm.id row).tableMeta ns table = some tm := htm
  have stale : (withRow s tm.id row).getIndex tm.id "id" = some index := indexed
  have scanned := scanRows_withRow valid.freshRows tm row
  intro agrees
  have met : row ∈ rowsWithId (withRow s tm.id row) tm i w := by
    apply mem_rowsWithId.mpr ⟨_, w, hw, equal⟩
    rw [scanned]
    exact List.mem_append_right _ List.mem_cons_self
  obtain ⟨rows, s', run, all⟩ := agrees w (List.ne_nil_of_mem met)
  rw [executePlan_filterScan resolved, indexPath_of_lookup rfl stale] at run
  cases hkey : IndexKey.fromValue w with
  | error e =>
    simp only [lookupIds_keyless index hkey] at run
    cases run
  | ok k =>
    simp only [lookupIds_keyed index hkey] at run
    cases run
    have counted : List.countP (fun row : Row F => (row.get i).any (fun v => Value.eq v w))
        [row] = 1 := by
      simp [hw, equal]
    have many := all.countP_le (fun row => (row.get i).any (fun v => Value.eq v w))
    have few := (List.filter_sublist (l := scanRows s tm)
      (p := fun row => decide (idKey i row = some k))).countP_le
      (p := fun row => (row.get i).any (fun v => Value.eq v w))
    rw [filed_withRow valid.freshRows listed, rowsWithId, scanned, List.countP_filter] at many
    simp only [Bool.and_self, List.countP_append, counted] at many
    omega

omit [Float64 F] [ValueDebug F] in
theorem flushedChunks_withRows (s : SessionState F) (tm : TableMeta) (rowStore : TableStore F) :
    flushedChunks { s with rowStore := rowStore } tm = flushedChunks s tm := by
  simp only [flushedChunks, SessionState.flushColumnarBuffer]
  split
  · split <;> rfl
  · rfl

/-- Rows that a collection deletes are still counted. -/
theorem deleteMany_counted (kept : Kept s) (htm : s.tableMeta ns table = some tm)
    {filter : Option (DocFilter F)} {c : DocumentCollection} (same : c = ⟨tm.id, tm.schema⟩)
    (some_found : c.find filter s.rowStore ≠ [])
    (few : (c.find filter s.rowStore).length < 2 ^ 64) :
    ¬ CountAgrees (act (.deleteMany c filter) s) tm ns table := by
  have valid := reachable_valid kept.reachable
  have known := bound_known valid.catalog (bound_of_tableMeta htm)
  obtain ⟨parts, built, joined⟩ :=
    flushed_parts (insertsOk_cut kept.insertsOk known) (valid.smallBuffers tm.id)
  subst same
  let after := act (.deleteMany ⟨tm.id, tm.schema⟩ filter) s
  have live : scanMeta after (.scan table ns) = .ok tm := resolveTable_eq_ok.mpr htm
  have chunks : flushedChunks after tm = flushedChunks s tm := flushedChunks_withRows s tm _
  have lengths : (scanRows after tm).length + (DocumentCollection.find ⟨tm.id, tm.schema⟩ filter
      s.rowStore).length = (scanRows s tm).length := by
    rw [scanRows, scanRows, List.length_map, List.length_map]
    exact DocumentCollection.length_deleteMany ⟨tm.id, tm.schema⟩ filter s.rowStore
  have found := List.length_pos_iff.mpr some_found
  obtain ⟨first, inside⟩ := List.exists_mem_of_length_pos (l := scanRows s tm) (by omega)
  have some_column := (kept.listed tm known first inside).1
  have some_chunk : flushedChunks s tm ≠ [] := by
    intro none
    rw [built_eq_nil_iff built, joined] at none
    rw [none] at inside
    cases inside
  intro agrees
  rw [CountAgrees, aggregate_of_chunks live (chunks ▸ some_chunk), chunks] at agrees
  have counted : oneRow (aggregateOverChunks (flushedChunks s tm) tm.schema) [.countStar] =
      .ok (.rows [.new [.int64 (Int64.ofNat (scanRows s tm).length)]]) := by
    rw [← joined, ← rowCount_of_built some_column built]
    rfl
  rw [counted] at agrees
  have alike : Int64.ofNat (scanRows s tm).length = Int64.ofNat (scanRows after tm).length := by
    simpa [Row.new] using agrees
  have congruent := ofNat_congr alike
  omega

/-- A step that shows its effect keeps the agreement exactly if it is maintained. -/
theorem agrees_act_iff (kept : Kept s) {a : Action F} (telling : Telling a s) :
    Agrees (act a s) ↔ Maintained a s := by
  refine ⟨fun agrees => ?_, fun maintained => agrees_of_kept (kept_act kept maintained)⟩
  cases a with
  | execute p => exact listed_of_agrees kept.reachable telling agrees
  | insertOne c row =>
    obtain ⟨tm, i, w, ⟨rfl, ns, table, htm⟩, hcol, hw, equal⟩ := telling
    exact insertOne_unlisted kept.reachable htm hcol hw equal ((agrees ns table tm htm).2 i hcol)
  | deleteMany c filter =>
    obtain ⟨⟨tm, same, ns, table, htm⟩, few⟩ := telling
    by_contra some_found
    exact deleteMany_counted kept htm same some_found few (agrees ns table tm htm).1

/-- In every state of a maintained run counts and lookups agree with the stored rows, and
there a step that shows its effect keeps them so exactly if it is maintained too. -/
theorem agree_while_maintained (run : MixedRun Maintained s) :
    Agrees s ∧ ∀ a, Telling a s → (Agrees (act a s) ↔ Maintained a s) :=
  ⟨agrees_of_kept (kept_run run), fun _ => agrees_act_iff (kept_run run)⟩

end Breaking

section Examples

/-- An empty table with an id column. -/
def shelf : SessionState Float :=
  act (.execute (.createTable "t" none [("id", .bigInt)])) .new

def shelfMeta : TableMeta := ⟨0, 0, "t", .new [⟨"id", .bigInt, true⟩], "row"⟩

def shelfCollection : DocumentCollection := ⟨0, .new [⟨"id", .bigInt, true⟩]⟩

theorem shelf_live : shelf.tableMeta none "t" = some shelfMeta := rfl

theorem shelfCollection_over : CollectionOver shelfCollection shelf shelfMeta :=
  ⟨rfl, none, "t", rfl⟩

theorem listed_int64 (a : Int64) : Listed shelfMeta.schema (⟨[.int64 a]⟩ : Row Float) := by
  refine ⟨List.cons_ne_nil _ _, ?_⟩
  rintro i w hcol hw
  have first : shelfMeta.schema.columnIndex "id" = some 0 := rfl
  obtain rfl := Option.some.inj (first.symm.trans hcol)
  obtain rfl := Option.some.inj hw
  refine ⟨⟨_, rfl⟩, fun v equal => ?_⟩
  cases v with
  | int64 b =>
    have same : a = b := by simpa [Value.eq] using equal
    exact ⟨_, rfl, by rw [same]; rfl⟩
  | _ => simp [Value.eq] at equal

/-- Two rows by INSERT, and a deletion that finds none. -/
def shelved : SessionState Float :=
  act (.deleteMany shelfCollection (some (.mk [.cmp "id" .gt (.int64 2)])))
    (act (.execute (.insert "t" none [] [[.int64 1], [.int64 2]])) shelf)

theorem shelved_maintained : MixedRun Maintained shelved := by
  refine MixedRun.act (MixedRun.act (MixedRun.act MixedRun.new _ ?_) _ ?_) _ rfl
  · exact storesOnly_of_noInsert rfl
  rintro table ns columns values tm ⟨⟩ htm vals inside
  obtain rfl := Option.some.inj (shelf_live.symm.trans htm)
  have both : vals ∈ [[.int64 1], [.int64 2]] := inside
  rcases List.mem_pair.mp both with rfl | rfl
  · exact listed_int64 1
  · exact listed_int64 2

theorem agree_while_maintained_shelved : Agrees shelved ∧
    ¬ Agrees (act (.insertOne shelfCollection ⟨[.int64 3]⟩) shelved) := by
  obtain ⟨agrees, later⟩ := agree_while_maintained shelved_maintained
  refine ⟨agrees, fun agrees' => ?_⟩
  exact (later (.insertOne shelfCollection ⟨[.int64 3]⟩)
    ⟨shelfMeta, 0, .int64 3, ⟨rfl, none, "t", rfl⟩, rfl, rfl, rfl⟩).mp agrees'

/-- A document in an empty table is not found by its id. -/
theorem inserted_document_missed :
    ¬ ∀ s : SessionState Float, MixedRun Admissible s → Agrees s := by
  intro agrees
  have run : MixedRun Admissible (act (.insertOne shelfCollection ⟨[.int64 1]⟩) shelf) :=
    MixedRun.act (MixedRun.act MixedRun.new _ trivial) _
      ⟨shelfMeta, 0, .int64 1, _, shelfCollection_over, rfl, rfl, rfl, rfl⟩
  obtain ⟨rows, s', found, all⟩ :=
    (agrees _ run none "t" shelfMeta rfl).2 0 rfl (.int64 1) (List.cons_ne_nil _ _)
  cases found
  exact absurd all.length_le (by decide)

end Examples

end SharedTables
