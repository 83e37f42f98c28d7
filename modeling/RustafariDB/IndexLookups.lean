import RustafariDB.SessionInvariants

/-!
# Index lookups against scans

A filter on the id column is answered from the index when there is one, and the
predicate is not checked again. The index is complete in every reachable state,
so agreement with the filtered scan comes down to how keys relate to values;
the exact conditions are below. They fail, for instance, for a range from a
negative to a positive integer.
-/

namespace IndexLookups

open Std ListBuckets Catalogs Values RowStorage BTreeIndexing Plans Floats Sessions
open Predicates Execution StatefulPrograms PlanEffects SessionInvariants

variable {F : Type} [Float64 F]

theorem idKey_eq_some {i : Nat} {row : Row F} {k : IndexKey} :
    idKey i row = some k ↔ ∃ v, row.get i = some v ∧ IndexKey.fromValue v = .ok k := by
  rw [idKey]
  cases row.get i with
  | none => simp
  | some v =>
    cases hkey : IndexKey.fromValue v <;> simp [hkey, Except.toOption]

section ExampleTable

/-- Three rows with integer ids; then an INSERT that fails on a NULL id. -/
def idTable : SessionState Float :=
  runPlans [.createTable "t" none [("id", .bigInt), ("amount", .bigInt)],
    .insert "t" none [] [[.int64 (-5), .int64 1], [.int64 0, .int64 2], [.int64 7, .int64 3]],
    .insert "t" none [] [[.null, .int64 4]]] .new

theorem idTable_reachable : Reachable idTable := reachable_runPlans _ RunFrom.new

def idTableMeta : TableMeta :=
  ⟨0, 0, "t", .new [⟨"id", .bigInt, true⟩, ⟨"amount", .bigInt, true⟩], "row"⟩

theorem idTable_live : idTable.tableMeta none "t" = some idTableMeta := rfl

theorem idTable_indexed : ∃ index, idTable.getIndex idTableMeta.id "id" = some index :=
  ⟨_, rfl⟩

theorem scanRows_idTable : scanRows idTable idTableMeta =
    [⟨[.int64 (-5), .int64 1]⟩, ⟨[.int64 0, .int64 2]⟩, ⟨[.int64 7, .int64 3]⟩,
      ⟨[.null, .int64 4]⟩] := rfl

end ExampleTable

section Contents
variable [ValueDebug F] {s : SessionState F}

/-- In every reachable state an id index files under each key exactly the ids of the
stored rows with that key, in increasing order. -/
theorem index_represents_rows (h : Reachable s) {t : Nat} {index : BTreeIndex}
    (indexed : s.getIndex t "id" = some index) :
    ∃ tm i, s.catalog.getTableById t = some tm ∧ tm.schema.columnIndex "id" = some i ∧
      ∀ k, (index.get k).Pairwise (· < ·) ∧
        ∀ r, r ∈ index.get k ↔ ∃ row v, s.rowStore.get t r = some row ∧
          row.get i = some v ∧ IndexKey.fromValue v = .ok k := by
  obtain ⟨_, tm, i, htm, hcol, listed⟩ := (reachable_valid h).contents t "id" index indexed
  refine ⟨tm, i, htm, hcol, fun k => ⟨?_, fun r => ?_⟩⟩
  · rw [listed k, List.pairwise_map]
    exact (TableStore.scan_sorted s.rowStore t).filter _
  · rw [mem_get_iff listed]
    simp only [TableStore.mem_scan, idKey_eq_some, exists_and_left]

theorem index_represents_rows_idTable :
    ∃ index, idTable.getIndex 0 "id" = some index ∧
      ∃ tm i, idTable.catalog.getTableById 0 = some tm ∧
        tm.schema.columnIndex "id" = some i ∧
        ∀ k, (index.get k).Pairwise (· < ·) ∧
          ∀ r, r ∈ index.get k ↔ ∃ row v, idTable.rowStore.get 0 r = some row ∧
            row.get i = some v ∧ IndexKey.fromValue v = .ok k :=
  ⟨_, rfl, index_represents_rows idTable_reachable rfl⟩

end Contents

section FilteredScan
variable {s : SessionState F} {tm : TableMeta} {ns : Option String} {table : String}

omit [Float64 F] in
/-- Fetching the ids of a selection of the stored rows gives back the rows. -/
theorem fetch_selection (p : Row F → Bool) :
    (((s.rowStore.scan tm.id).filter (fun e => p e.2)).map Prod.fst).filterMap
        (s.rowStore.get tm.id) = (scanRows s tm).filter p := by
  have stored : ∀ e ∈ (s.rowStore.scan tm.id).filter (fun e => p e.2),
      s.rowStore.get tm.id e.1 = some e.2 := by
    intro e he
    exact TableStore.mem_scan.mp (List.mem_filter.mp he).1
  rw [List.filterMap_map, List.filterMap_congr (g := fun e => some e.2) stored,
    List.filterMap_eq_map', scanRows, List.filter_map]
  rfl

variable [ValueDebug F]

/-- A filtered scan of a live table takes the index or evaluates the predicate. -/
theorem executePlan_filterScan (htm : s.tableMeta ns table = some tm)
    (predicate : FilterExpr F) :
    executePlan (.filter (.scan table ns) predicate) s =
      match indexPath s tm.id (.scan table ns) predicate with
      | some (index, lookup) =>
        match lookupIds index lookup with
        | .ok ids => .ok (.rows (ids.filterMap (s.rowStore.get tm.id))) s
        | .error e => .error e s
      | none => .ok (.rows ((scanRows s tm).filter
          (fun row => evalPredicate row predicate tm.schema))) s := by
  have live : scanMeta s (.scan table ns) = .ok tm := resolveTable_eq_ok.mpr htm
  have run := executePlan_filter live predicate
  rw [executePlan_scan htm] at run
  refine run.trans ?_
  cases indexPath s tm.id (.scan table ns) predicate <;> rfl

omit [Float64 F] [ValueDebug F] in
theorem scanMeta_of_unknown (unknown : s.tableMeta ns table = none) :
    scanMeta s (.scan table ns : PlanNode F) =
      .error (.tableNotFound (ns.getD "public" ++ "." ++ table)) := by
  rw [scanMeta, resolveTable, unknown]

theorem filterScan_unknown (unknown : s.tableMeta ns table = none)
    (predicate : FilterExpr F) :
    executePlan (.filter (.scan table ns) predicate) s =
      .error (.error (.tableNotFound (ns.getD "public" ++ "." ++ table))) s := by
  rw [executePlan, bind_run, get_run]
  simp only [scanMeta_of_unknown unknown]
  rfl

omit [Float64 F] [ValueDebug F] in
theorem indexPath_of_lookup {index : BTreeIndex} {predicate : FilterExpr F}
    {lookup : IdLookup F} (recognised : predicateToIdLookup predicate "id" = some lookup)
    (indexed : s.getIndex tm.id "id" = some index) :
    indexPath s tm.id (.scan table ns) predicate = some (index, lookup) := by
  simp only [indexPath, recognised, indexed, Option.map_some]

omit [Float64 F] [ValueDebug F] in
/-- The index is taken exactly for a recognised lookup on an indexed table. -/
theorem indexPath_cases (s : SessionState F) (tm : TableMeta) (ns : Option String)
    (table : String) (predicate : FilterExpr F) :
    indexPath s tm.id (.scan table ns) predicate = none ∨
      ∃ index lookup, s.getIndex tm.id "id" = some index ∧
        predicateToIdLookup predicate "id" = some lookup ∧
        indexPath s tm.id (.scan table ns) predicate = some (index, lookup) := by
  cases recognised : predicateToIdLookup predicate "id" with
  | none => exact Or.inl (by simp only [indexPath, recognised])
  | some lookup =>
    cases indexed : s.getIndex tm.id "id" with
    | none => exact Or.inl (by simp only [indexPath, recognised, indexed, Option.map_none])
    | some index =>
      exact Or.inr ⟨index, lookup, rfl, rfl, indexPath_of_lookup recognised indexed⟩

end FilteredScan

section Tables
variable [ValueDebug F] {s : SessionState F} {tm : TableMeta}

/-- The index of a bound table lists its rows by the table's own id column. -/
theorem bound_index (h : Reachable s) (bound : Bound s tm) {index : BTreeIndex}
    (indexed : s.getIndex tm.id "id" = some index) :
    ∃ i, tm.schema.columnIndex "id" = some i ∧
      Indexes index (idKey i) (s.rowStore.scan tm.id) := by
  have valid := reachable_valid h
  obtain ⟨_, tm', i, htm', hcol, listed⟩ := valid.contents tm.id "id" index indexed
  obtain rfl : tm = tm' :=
    Option.some.inj ((bound_known valid.catalog bound).symm.trans htm')
  exact ⟨i, hcol, listed⟩

end Tables

/-- A filtered scan returns, up to order, the scanned rows that satisfy the predicate. -/
def FilterAgrees [ValueDebug F] (s : SessionState F) (tm : TableMeta) (ns : Option String)
    (table : String) (predicate : FilterExpr F) : Prop :=
  ∃ rows s', executePlan (.filter (.scan table ns) predicate) s = .ok (.rows rows) s' ∧
    rows.Perm ((scanRows s tm).filter (fun row => evalPredicate row predicate tm.schema))

section Points
variable [ValueDebug F] {s : SessionState F} {tm : TableMeta}
variable {ns : Option String} {table : String}

omit [ValueDebug F] in
theorem lookupIds_keyed (index : BTreeIndex) {v : Value F} {key : IndexKey}
    (hkey : IndexKey.fromValue v = .ok key) :
    lookupIds index (.point v) = .ok (index.get key) := by
  simp only [lookupIds, hkey]
  rfl

/-- A point lookup with a key returns the rows filed under it. -/
theorem point_run (h : Reachable s) (htm : s.tableMeta ns table = some tm)
    {index : BTreeIndex} (indexed : s.getIndex tm.id "id" = some index) {i : Nat}
    (hcol : tm.schema.columnIndex "id" = some i) {v : Value F} {key : IndexKey}
    (hkey : IndexKey.fromValue v = .ok key) :
    executePlan (.filter (.scan table ns) (.cmp "id" .eq v)) s =
      .ok (.rows ((scanRows s tm).filter (fun row => idKey i row = some key))) s := by
  obtain ⟨i', hcol', listed⟩ := bound_index h (bound_of_tableMeta htm) indexed
  obtain rfl : i = i' := Option.some.inj (hcol.symm.trans hcol')
  rw [executePlan_filterScan htm, indexPath_of_lookup rfl indexed]
  simp only [lookupIds_keyed index hkey]
  rw [listed key, bucket, fetch_selection (fun row => decide (idKey i row = some key))]

omit [ValueDebug F] in
theorem lookupIds_keyless (index : BTreeIndex) {v : Value F} {e : RustafariError}
    (hkey : IndexKey.fromValue v = .error e) :
    lookupIds index (.point v) = .error (.error e) := by
  simp only [lookupIds, hkey]
  rfl

/-- A point lookup without a key fails. -/
theorem point_fails (htm : s.tableMeta ns table = some tm) {index : BTreeIndex}
    (indexed : s.getIndex tm.id "id" = some index) {v : Value F} {e : RustafariError}
    (hkey : IndexKey.fromValue v = .error e) :
    executePlan (.filter (.scan table ns) (.cmp "id" .eq v)) s = .error (.error e) s := by
  rw [executePlan_filterScan htm, indexPath_of_lookup rfl indexed]
  simp only [lookupIds_keyless index hkey]

/-- A point lookup agrees with the filtered scan exactly when the literal has a key and
every stored id has that key just in case it equals the literal. -/
theorem point_lookup_agrees_iff (h : Reachable s) (htm : s.tableMeta ns table = some tm)
    {index : BTreeIndex} (indexed : s.getIndex tm.id "id" = some index) (v : Value F) :
    FilterAgrees s tm ns table (.cmp "id" .eq v) ↔
    ∃ key i, IndexKey.fromValue v = .ok key ∧ tm.schema.columnIndex "id" = some i ∧
      ∀ row ∈ scanRows s tm, ∀ w, row.get i = some w →
        (IndexKey.fromValue w = .ok key ↔ Value.eq w v = true) := by
  obtain ⟨i, hcol, _⟩ := bound_index h (bound_of_tableMeta htm) indexed
  cases hkey : IndexKey.fromValue v with
  | error e =>
    rw [FilterAgrees, point_fails htm indexed hkey]
    constructor
    · rintro ⟨rows, s', run, _⟩
      cases run
    · rintro ⟨key, i, hk, _⟩
      cases hk
  | ok key =>
    have run := point_run h htm indexed hcol hkey
    have agree : (∀ row ∈ scanRows s tm, decide (idKey i row = some key) =
          evalPredicate row (.cmp "id" .eq v) tm.schema) ↔
        ∀ row ∈ scanRows s tm, ∀ w, row.get i = some w →
          (IndexKey.fromValue w = .ok key ↔ Value.eq w v = true) := by
      refine forall₂_congr (fun row _ => ?_)
      rw [Bool.eq_iff_iff, decide_eq_true_iff, idKey_eq_some]
      simp only [evalPredicate, hcol, Option.bind_some, evalCmp]
      cases row.get i with
      | none => simp
      | some w => simp
    constructor
    · rintro ⟨rows, s', run', same⟩
      rw [run] at run'
      cases run'
      exact ⟨key, i, rfl, hcol, agree.mp ((filter_perm_filter_iff _ _ _).mp same)⟩
    · rintro ⟨key', i', hk, hcol', same⟩
      obtain rfl := Except.ok.inj hk
      obtain rfl : i = i' := Option.some.inj (hcol.symm.trans hcol')
      exact ⟨_, s, run, (filter_perm_filter_iff _ _ _).mpr (agree.mpr same)⟩

theorem point_lookup_agrees_at_seven :
    FilterAgrees idTable idTableMeta none "t" (.cmp "id" .eq (.int64 7)) := by
  obtain ⟨index, indexed⟩ := idTable_indexed
  refine (point_lookup_agrees_iff idTable_reachable idTable_live indexed (.int64 7)).mpr
    ⟨_, 0, rfl, rfl, ?_⟩
  rw [scanRows_idTable]
  simp only [List.forall_mem_cons, List.not_mem_nil, false_implies, implies_true, and_true]
  refine ⟨?_, ?_, ?_, ?_⟩
  · rintro w ⟨⟩
    exact ⟨fun h => absurd (Except.ok.inj h) (by decide), fun h => absurd h (by decide)⟩
  · rintro w ⟨⟩
    exact ⟨fun h => absurd (Except.ok.inj h) (by decide), fun h => absurd h (by decide)⟩
  · rintro w ⟨⟩
    exact ⟨fun _ => rfl, fun _ => rfl⟩
  · rintro w ⟨⟩
    exact ⟨nofun, fun h => absurd h (by decide)⟩

/-- `id = NULL` fails through the index; the scan would return no rows. -/
theorem point_lookup_of_null_fails :
    ¬ ∀ (s : SessionState Float), Reachable s → ∀ (ns : Option String) (table : String)
      (tm : TableMeta) (index : BTreeIndex), s.tableMeta ns table = some tm →
      s.getIndex tm.id "id" = some index → ∀ v : Value Float,
        FilterAgrees s tm ns table (.cmp "id" .eq v) := by
  intro agrees
  obtain ⟨index, indexed⟩ := idTable_indexed
  obtain ⟨rows, s', run, _⟩ :=
    agrees idTable idTable_reachable none "t" idTableMeta index idTable_live indexed .null
  rw [point_fails idTable_live indexed rfl] at run
  cases run

end Points

section Ranges

/-- The range `id >= v1 AND id <= v2`, with its conjuncts in either order. -/
def IsIdRange (v1 v2 : Value F) (predicate : FilterExpr F) : Prop :=
  predicate = .and (.cmp "id" .ge v1) (.cmp "id" .le v2) ∨
    predicate = .and (.cmp "id" .le v2) (.cmp "id" .ge v1)

omit [Float64 F] in
theorem lookup_of_idRange {v1 v2 : Value F} {predicate : FilterExpr F}
    (range : IsIdRange v1 v2 predicate) :
    predicateToIdLookup predicate "id" = some (.rangeInclusive v1 v2) := by
  rcases range with rfl | rfl <;> rfl

theorem evalPredicate_idRange {v1 v2 : Value F} {predicate : FilterExpr F}
    (range : IsIdRange v1 v2 predicate) {schema : Schema} {i : Nat}
    (hcol : schema.columnIndex "id" = some i) (row : Row F) :
    evalPredicate row predicate schema =
      (row.get i).any (fun w => evalCmp .ge w v1 && evalCmp .le w v2) := by
  rcases range with rfl | rfl
  · simp only [evalPredicate, hcol, Option.bind_some]
    cases row.get i <;> rfl
  · simp only [evalPredicate, hcol, Option.bind_some]
    cases row.get i with
    | none => rfl
    | some w => exact Bool.and_comm _ _

variable [ValueDebug F] {s : SessionState F} {tm : TableMeta}
variable {ns : Option String} {table : String}
variable {v1 v2 : Value F} {predicate : FilterExpr F} {k1 k2 : IndexKey}

omit [ValueDebug F] in
/-- A range lookup with both keys panics, or returns what the range scan of the index does. -/
theorem lookupIds_range {index : BTreeIndex} (h1 : IndexKey.fromValue v1 = .ok k1)
    (h2 : IndexKey.fromValue v2 = .ok k2) :
    lookupIds index (.rangeInclusive v1 v2) =
      match index.range k1 (some k2) with
      | some ids => .ok ids
      | none => .error .panicked := by
  simp only [lookupIds, h1, h2]
  rfl

theorem range_eq_none_iff (index : BTreeIndex) :
    index.range k1 (some k2) = none ↔ compare k1 k2 = .gt := by
  simp only [BTreeIndex.range, Option.getD_some]
  split <;> simp_all

/-- A range lookup with ordered keys returns the rows whose key lies in the range. -/
theorem range_run (h : Reachable s) (htm : s.tableMeta ns table = some tm)
    {index : BTreeIndex} (indexed : s.getIndex tm.id "id" = some index) {i : Nat}
    (hcol : tm.schema.columnIndex "id" = some i) (range : IsIdRange v1 v2 predicate)
    (h1 : IndexKey.fromValue v1 = .ok k1) (h2 : IndexKey.fromValue v2 = .ok k2)
    (ordered : compare k1 k2 ≠ .gt) :
    ∃ rows, executePlan (.filter (.scan table ns) predicate) s = .ok (.rows rows) s ∧
      rows.Perm ((scanRows s tm).filter
        (fun row => (idKey i row).any (BTreeIndex.inKeyRange k1 k2))) := by
  obtain ⟨i', hcol', listed⟩ := bound_index h (bound_of_tableMeta htm) indexed
  obtain rfl : i = i' := Option.some.inj (hcol.symm.trans hcol')
  cases found : index.range k1 (some k2) with
  | none => exact False.elim (ordered ((range_eq_none_iff index).mp found))
  | some ids =>
    refine ⟨ids.filterMap (s.rowStore.get tm.id), ?_, ?_⟩
    · rw [executePlan_filterScan htm, indexPath_of_lookup (lookup_of_idRange range) indexed]
      simp only [lookupIds_range h1 h2, found]
    · rw [← fetch_selection]
      exact (range_perm listed found).filterMap _

/-- A range lookup with descending keys panics. -/
theorem range_panics (htm : s.tableMeta ns table = some tm) {index : BTreeIndex}
    (indexed : s.getIndex tm.id "id" = some index) (range : IsIdRange v1 v2 predicate)
    (h1 : IndexKey.fromValue v1 = .ok k1) (h2 : IndexKey.fromValue v2 = .ok k2)
    (descends : compare k1 k2 = .gt) :
    executePlan (.filter (.scan table ns) predicate) s = .error .panicked s := by
  rw [executePlan_filterScan htm, indexPath_of_lookup (lookup_of_idRange range) indexed]
  simp only [lookupIds_range h1 h2, (range_eq_none_iff index).mpr descends]

end Ranges

section RangePanics
variable [ValueDebug F] {s : SessionState F}

omit [ValueDebug F] in
/-- A range lookup panics exactly when both literals have keys and these descend. -/
theorem lookupIds_panics_iff {index : BTreeIndex} {v1 v2 : Value F} :
    lookupIds index (.rangeInclusive v1 v2) = .error .panicked ↔
      ∃ k1 k2, IndexKey.fromValue v1 = .ok k1 ∧ IndexKey.fromValue v2 = .ok k2 ∧
        compare k2 k1 = .lt := by
  cases h1 : IndexKey.fromValue v1 with
  | error e =>
    have failed : lookupIds index (.rangeInclusive v1 v2) = .error (.error e) := by
      simp only [lookupIds, h1]
      rfl
    simp [failed]
  | ok k1 =>
    cases h2 : IndexKey.fromValue v2 with
    | error e =>
      have failed : lookupIds index (.rangeInclusive v1 v2) = .error (.error e) := by
        simp only [lookupIds, h1, h2]
        rfl
      simp [failed]
    | ok k2 =>
      have descend : index.range k1 (some k2) = none ↔ compare k2 k1 = .lt :=
        (range_eq_none_iff index).trans OrientedCmp.gt_iff_lt
      rw [lookupIds_range h1 h2]
      simp only [Except.ok.injEq, exists_and_left, exists_eq_left', ← descend]
      cases index.range k1 (some k2) <;> simp

/-- A range filter does not panic exactly when it is not a range between two keys in
descending order on a table with an id column. -/
theorem range_filter_returns_iff (h : Reachable s) (ns : Option String) (table : String)
    {v1 v2 : Value F} {predicate : FilterExpr F} (range : IsIdRange v1 v2 predicate) :
    (¬ ∃ s', executePlan (.filter (.scan table ns) predicate) s = .error .panicked s') ↔
      ¬ ∃ tm i k1 k2, s.tableMeta ns table = some tm ∧
        tm.schema.columnIndex "id" = some i ∧ IndexKey.fromValue v1 = .ok k1 ∧
        IndexKey.fromValue v2 = .ok k2 ∧ compare k2 k1 = .lt := by
  refine not_congr ?_
  have recognised := lookup_of_idRange range
  cases htm : s.tableMeta ns table with
  | none =>
    rw [filterScan_unknown htm]
    constructor
    · rintro ⟨s', run⟩
      cases run
    · rintro ⟨tm, _, _, _, htm', _⟩
      cases htm'
  | some tm =>
    have bound := bound_of_tableMeta htm
    rw [executePlan_filterScan htm]
    cases hindex : s.getIndex tm.id "id" with
    | none =>
      have unindexed : indexPath s tm.id (.scan table ns) predicate = none := by
        simp only [indexPath, recognised, hindex, Option.map_none]
      rw [unindexed]
      constructor
      · rintro ⟨s', run⟩
        cases run
      · rintro ⟨tm', i, _, _, htm', hcol, _⟩
        obtain rfl := Option.some.inj htm'
        obtain ⟨index, indexed⟩ := index_of_idColumn (reachable_valid h) bound hcol
        rw [hindex] at indexed
        cases indexed
    | some index =>
      obtain ⟨i, hcol, _⟩ := bound_index h bound hindex
      rw [indexPath_of_lookup recognised hindex]
      constructor
      · rintro ⟨s', run⟩
        have panicked : lookupIds index (.rangeInclusive v1 v2) = .error .panicked := by
          cases found : lookupIds index (.rangeInclusive v1 v2) with
          | ok ids => simp [found] at run
          | error e =>
            simp only [found] at run
            cases run
            rfl
        obtain ⟨k1, k2, h1, h2, descending⟩ := lookupIds_panics_iff.mp panicked
        exact ⟨tm, i, k1, k2, rfl, hcol, h1, h2, descending⟩
      · rintro ⟨tm', i', k1, k2, _, _, h1, h2, descending⟩
        have panicked : lookupIds index (.rangeInclusive v1 v2) = .error .panicked :=
          lookupIds_panics_iff.mpr ⟨k1, k2, h1, h2, descending⟩
        refine ⟨s, ?_⟩
        simp only [panicked]

theorem range_filter_returns_three_to_five :
    ¬ ∃ s', executePlan (.filter (.scan "t" none)
      (.and (.cmp "id" .ge (.int64 3)) (.cmp "id" .le (.int64 5)))) idTable =
        .error .panicked s' := by
  refine (range_filter_returns_iff idTable_reachable none "t" (Or.inl rfl)).mpr ?_
  rintro ⟨tm, i, k1, k2, _, _, h1, h2, descending⟩
  cases h1
  cases h2
  exact absurd descending (by decide)

/-- The empty range from 5 to 3 panics. -/
theorem empty_range_panics :
    ¬ ∀ (s : SessionState Float), Reachable s → ∀ (ns : Option String) (table : String)
      (v1 v2 : Value Float) (predicate : FilterExpr Float), IsIdRange v1 v2 predicate →
        ¬ ∃ s', executePlan (.filter (.scan table ns) predicate) s = .error .panicked s' := by
  intro returns
  obtain ⟨index, indexed⟩ := idTable_indexed
  exact returns idTable idTable_reachable none "t" (.int64 5) (.int64 3) _ (Or.inl rfl)
    ⟨_, range_panics idTable_live indexed (Or.inl rfl) rfl rfl (by decide)⟩

end RangePanics

section IntegerRanges

theorem evalCmp_ge_int64 {w : Value F} {a : Int64} :
    evalCmp .ge w (.int64 a) = true ↔ ∃ x, w = .int64 x ∧ a.toInt ≤ x.toInt := by
  cases w with
  | int64 x =>
    simp only [evalCmp, Predicates.compare, Option.map_some, Option.getD_some, bne_iff_ne,
      compare_int64, ne_eq, Int.compare_eq_lt, Value.int64.injEq, exists_eq_left']
    omega
  | _ => simp [evalCmp, Predicates.compare]

theorem evalCmp_le_int64 {w : Value F} {b : Int64} :
    evalCmp .le w (.int64 b) = true ↔ ∃ x, w = .int64 x ∧ x.toInt ≤ b.toInt := by
  cases w with
  | int64 x =>
    simp only [evalCmp, Predicates.compare, Option.map_some, Option.getD_some, bne_iff_ne,
      compare_int64, ne_eq, Int.compare_eq_gt, Value.int64.injEq, exists_eq_left']
    omega
  | _ => simp [evalCmp, Predicates.compare]

theorem inKeyRange_int64 (a b x : Int64) :
    BTreeIndex.inKeyRange (i64ToBeBytes a) (i64ToBeBytes b) (i64ToBeBytes x) = true ↔
      (((0 ≤ a.toInt ↔ 0 ≤ x.toInt) ∧ a.toInt ≤ x.toInt) ∨ (0 ≤ a.toInt ∧ x.toInt < 0)) ∧
      (((0 ≤ x.toInt ↔ 0 ≤ b.toInt) ∧ x.toInt ≤ b.toInt) ∨ (0 ≤ x.toInt ∧ b.toInt < 0)) := by
  simp only [BTreeIndex.inKeyRange, Bool.and_eq_true, key_le_iff]

/-- The bounds as unsigned numbers do not descend. -/
def KeysAscend (a b : Int64) : Prop :=
  ((0 ≤ a.toInt ↔ 0 ≤ b.toInt) ∧ a.toInt ≤ b.toInt) ∨ (0 ≤ a.toInt ∧ b.toInt < 0)

/-- On one stored value the key range and the comparisons agree unless a key in the
range belongs to another type or to a range that is empty as numbers. -/
theorem range_agrees_iff {a b : Int64} (ascend : KeysAscend a b) (w : Value F) :
    ((IndexKey.fromValue w).toOption.any
        (BTreeIndex.inKeyRange (i64ToBeBytes a) (i64ToBeBytes b)) =
      (evalCmp .ge w (.int64 a) && evalCmp .le w (.int64 b))) ↔
    ∀ k, IndexKey.fromValue w = .ok k →
      BTreeIndex.inKeyRange (i64ToBeBytes a) (i64ToBeBytes b) k = true →
      a.toInt ≤ b.toInt ∧ ∃ x, w = .int64 x := by
  rw [Bool.eq_iff_iff, Bool.and_eq_true, evalCmp_ge_int64, evalCmp_le_int64]
  by_cases integer : ∃ x, w = .int64 x
  · obtain ⟨x, rfl⟩ := integer
    have key : IndexKey.fromValue (.int64 x : Value F) = .ok (i64ToBeBytes x) := rfl
    simp only [key, Except.toOption, Option.any_some, inKeyRange_int64, Value.int64.injEq,
      exists_eq_left', Except.ok.injEq, forall_eq', exists_eq', and_true]
    rw [KeysAscend] at ascend
    omega
  · have noMatch : ¬ ((∃ x, w = .int64 x ∧ a.toInt ≤ x.toInt) ∧
        ∃ x, w = .int64 x ∧ x.toInt ≤ b.toInt) := by
      rintro ⟨⟨x, hx, _⟩, _⟩
      exact integer ⟨x, hx⟩
    rw [iff_false_right noMatch]
    cases hkey : IndexKey.fromValue w with
    | error e => simp [Except.toOption]
    | ok k => simp [Except.toOption, integer]

variable [ValueDebug F] {s : SessionState F} {tm : TableMeta}
variable {ns : Option String} {table : String} {predicate : FilterExpr F}

omit [ValueDebug F] in
/-- The same for every stored row of a table. -/
theorem range_rows_agree_iff {a b : Int64} (ascend : KeysAscend a b)
    (range : IsIdRange (.int64 a) (.int64 b) predicate) {i : Nat}
    (hcol : tm.schema.columnIndex "id" = some i) :
    (∀ row ∈ scanRows s tm,
      (idKey i row).any (BTreeIndex.inKeyRange (i64ToBeBytes a) (i64ToBeBytes b)) =
        evalPredicate row predicate tm.schema) ↔
    ∀ row ∈ scanRows s tm, ∀ w k, row.get i = some w → IndexKey.fromValue w = .ok k →
      BTreeIndex.inKeyRange (i64ToBeBytes a) (i64ToBeBytes b) k = true →
      a.toInt ≤ b.toInt ∧ ∃ x, w = .int64 x := by
  refine forall₂_congr (fun row _ => ?_)
  rw [evalPredicate_idRange range hcol, idKey]
  cases row.get i with
  | none => simp
  | some w =>
    rw [Option.bind_some, Option.any_some, range_agrees_iff ascend]
    constructor
    · intro cond w' k hw
      obtain rfl := Option.some.inj hw
      exact cond k
    · exact fun cond k => cond w k rfl

/-- A range of integers agrees with the filtered scan exactly when the keys of its bounds
ascend and every stored id with a key between them is an integer of a nonempty range. -/
theorem integer_range_agrees_iff (h : Reachable s) (htm : s.tableMeta ns table = some tm)
    {index : BTreeIndex} (indexed : s.getIndex tm.id "id" = some index) {a b : Int64}
    (range : IsIdRange (.int64 a) (.int64 b) predicate) :
    FilterAgrees s tm ns table predicate ↔
    ∃ i, tm.schema.columnIndex "id" = some i ∧ KeysAscend a b ∧
      ∀ row ∈ scanRows s tm, ∀ w k, row.get i = some w → IndexKey.fromValue w = .ok k →
        BTreeIndex.inKeyRange (i64ToBeBytes a) (i64ToBeBytes b) k = true →
        a.toInt ≤ b.toInt ∧ ∃ x, w = .int64 x := by
  obtain ⟨i, hcol, _⟩ := bound_index h (bound_of_tableMeta htm) indexed
  have ka : IndexKey.fromValue (.int64 a : Value F) = .ok (i64ToBeBytes a) := rfl
  have kb : IndexKey.fromValue (.int64 b : Value F) = .ok (i64ToBeBytes b) := rfl
  have ascend_iff : compare (i64ToBeBytes a) (i64ToBeBytes b) ≠ .gt ↔ KeysAscend a b := by
    rw [ne_eq, ← Ordering.isLE_iff_ne_gt, key_le_iff, KeysAscend]
  by_cases ascend : KeysAscend a b
  · obtain ⟨rows, run, found⟩ :=
      range_run h htm indexed hcol range ka kb (ascend_iff.mpr ascend)
    have agree := range_rows_agree_iff (s := s) ascend range hcol
    constructor
    · rintro ⟨rows', s', run', same⟩
      rw [run] at run'
      cases run'
      exact ⟨i, hcol, ascend,
        agree.mp ((filter_perm_filter_iff _ _ _).mp (found.symm.trans same))⟩
    · rintro ⟨i', hcol', _, cond⟩
      obtain rfl : i = i' := Option.some.inj (hcol.symm.trans hcol')
      exact ⟨rows, s, run,
        found.trans ((filter_perm_filter_iff _ _ _).mpr (agree.mpr cond))⟩
  · have descends : compare (i64ToBeBytes a) (i64ToBeBytes b) = .gt := by
      by_contra ordered
      exact ascend (ascend_iff.mp ordered)
    rw [FilterAgrees, range_panics htm indexed range ka kb descends]
    constructor
    · rintro ⟨rows, s', run, _⟩
      cases run
    · rintro ⟨_, _, ascend', _⟩
      exact False.elim (ascend ascend')

theorem integer_range_agrees_zero_to_seven :
    FilterAgrees idTable idTableMeta none "t"
      (.and (.cmp "id" .ge (.int64 0)) (.cmp "id" .le (.int64 7))) := by
  obtain ⟨index, indexed⟩ := idTable_indexed
  refine (integer_range_agrees_iff idTable_reachable idTable_live indexed (Or.inl rfl)).mpr
    ⟨0, rfl, Or.inl (by decide), ?_⟩
  rw [scanRows_idTable]
  simp only [List.forall_mem_cons, List.not_mem_nil, false_implies, implies_true, and_true]
  refine ⟨?_, ?_, ?_, ?_⟩
  · rintro w k ⟨⟩ _ _
    exact ⟨by decide, _, rfl⟩
  · rintro w k ⟨⟩ _ _
    exact ⟨by decide, _, rfl⟩
  · rintro w k ⟨⟩ _ _
    exact ⟨by decide, _, rfl⟩
  · rintro w k ⟨⟩ hk
    cases hk

/-- A range from -1 to 1 panics instead of returning the row with id 0. -/
theorem integer_range_across_zero_fails :
    ¬ ∀ (s : SessionState Float), Reachable s → ∀ (ns : Option String) (table : String)
      (tm : TableMeta) (index : BTreeIndex), s.tableMeta ns table = some tm →
      s.getIndex tm.id "id" = some index → ∀ (a b : Int64) (predicate : FilterExpr Float),
        IsIdRange (.int64 a) (.int64 b) predicate → FilterAgrees s tm ns table predicate := by
  intro agrees
  obtain ⟨index, indexed⟩ := idTable_indexed
  obtain ⟨rows, s', run, _⟩ := agrees idTable idTable_reachable none "t" idTableMeta index
    idTable_live indexed (-1) 1 _ (Or.inl rfl)
  rw [range_panics idTable_live indexed (Or.inl rfl) rfl rfl (by decide)] at run
  cases run

end IntegerRanges

end IndexLookups
