import RustafariDB.SessionInvariants

/-!
# Properties of the stored rows

Nothing but INSERT puts rows into a table, and it appends the rows it is given up to the
first whose id has no key. So a property of rows relative to their schema holds of all
stored rows of a run exactly as long as it holds of the rows that INSERTs append.
-/

namespace StoredRows

open Values Catalogs RowStorage Plans Floats Sessions Execution StatefulPrograms
open CatalogInvariants PlanEffects SessionInvariants

variable {F : Type}

/-- Every stored row of a table in the catalog has the property. -/
def AllRows (P : Schema → Row F → Prop) (s : SessionState F) : Prop :=
  ∀ tm : TableMeta, s.catalog.tablesById[tm.id]? = some tm →
    ∀ row ∈ scanRows s tm, P tm.schema row

section Storing
variable [Float64 F]

/-- The rows of an INSERT that reach the row store: all up to the first whose id has no key. -/
def reaching (s : SessionState F) (tm : TableMeta) : List (List (Value F)) → List (List (Value F))
  | [] => []
  | vals :: rest =>
    if (blockedBy s tm (.new vals)).isSome then [vals] else vals :: reaching s tm rest

/-- The INSERT that a plan executes, if any, stores rows with the property only. -/
def StoresOnly (P : Schema → Row F → Prop) (p : PlanNode F) (s : SessionState F) : Prop :=
  ∀ table ns columns values tm, executedLeaf p = .insert table ns columns values →
    s.tableMeta ns table = some tm → ∀ vals ∈ reaching s tm values, P tm.schema (.new vals)

end Storing

section Inserts
variable [Float64 F] {s : SessionState F} {tm : TableMeta}

theorem reaching_of_clear {values : List (List (Value F))}
    (clear : ∀ vals ∈ values, blockedBy s tm (.new vals) = none) :
    reaching s tm values = values := by
  induction values with
  | nil => rfl
  | cons vals values ih =>
    obtain ⟨first, rest⟩ := List.forall_mem_cons.mp clear
    rw [reaching, first, if_neg (by simp), ih rest]

theorem reaching_of_blocked {before after : List (List (Value F))} {vals : List (Value F)}
    (clear : ∀ w ∈ before, blockedBy s tm (.new w) = none) {e : RustafariError}
    (blocked : blockedBy s tm (.new vals) = some e) :
    reaching s tm (before ++ vals :: after) = before ++ [vals] := by
  induction before with
  | nil => rw [List.nil_append, reaching, blocked, if_pos (Option.isSome_some), List.nil_append]
  | cons w before ih =>
    obtain ⟨first, rest⟩ := List.forall_mem_cons.mp clear
    rw [List.cons_append, reaching, first, if_neg (by simp), ih rest, List.cons_append]

variable [ValueDebug F]

/-- An INSERT appends the rows that reach the row store to its table. -/
theorem insert_appends (fresh : s.rowStore.Fresh) {ns : Option String} {table : String}
    (htm : s.tableMeta ns table = some tm) (columns : List String)
    (values : List (List (Value F))) {s' : SessionState F}
    (h : final (executePlan (.insert table ns columns values) s) = s') :
    s'.catalog = s.catalog ∧ scanRows s' tm = scanRows s tm ++ (reaching s tm values).map .new ∧
      ∀ t, t ≠ tm.id → s'.rowStore.scan t = s.rowStore.scan t := by
  subst h
  rw [executePlan_insert, htm]
  rcases insertRows_cases tm values 0 s with
    ⟨clear, run⟩ | ⟨before, vals, after, e, rfl, clear, blocked, run⟩
  · simp only [run, final_ok]
    rw [reaching_of_clear clear]
    exact ⟨catalog_storedAll s tm values, scan_storedAll_self fresh tm values,
      fun t other => scan_storedAll_other other values⟩
  · simp only [run, final_error]
    have fresh' := fresh_storedAll fresh tm before
    rw [reaching_of_blocked clear blocked]
    refine ⟨catalog_storedAll s tm before, ?_, fun t other => ?_⟩
    · rw [scanRows_withRow fresh', scanRows, scan_storedAll_self fresh, scanRows,
        List.map_append, List.append_assoc]
      rfl
    · change ((storedAll s tm before).rowStore.insert tm.id (.new vals)).2.scan t = _
      rw [TableStore.scan_insert_other other, scan_storedAll_other other]

end Inserts

section Steps
variable [Float64 F] {P : Schema → Row F → Prop} {s s' : SessionState F}

omit [Float64 F] in
/-- Such a property depends on the catalog and the stored rows. -/
theorem allRows_congr (catalog : s'.catalog = s.catalog)
    (rowStore : s'.rowStore = s.rowStore) : AllRows P s' ↔ AllRows P s := by
  simp only [AllRows, scanRows, catalog, rowStore]

/-- A new table has no rows and the others keep theirs. -/
theorem allRows_createTable (valid : SessionValid s) (all : AllRows P s) (ns : Option String)
    (table : String) (columns : List (String × ColumnType)) :
    AllRows P (createTable s ns table columns) := by
  obtain ⟨hcatalog, hrows, _, _⟩ := createTable_frame s ns table columns
  intro tm known row inside
  rw [scanRows, hrows] at inside
  rw [hcatalog, tablesById_createTable] at known
  split at known
  · rename_i unused
    rw [valid.noRows _ (Nat.le_of_eq unused)] at inside
    cases inside
  · exact all tm known row inside

theorem allRows_dropTable (valid : SessionValid s) (all : AllRows P s) {tm' : TableMeta}
    {ns : Option String} {table : String} (resolved : s.tableMeta ns table = some tm') :
    AllRows P (dropTable s tm' ns table) := by
  intro tm known row inside
  change (s.catalog.dropTable (ns.getD "public") table).2.tablesById[tm.id]? = some tm at known
  rw [tablesById_dropTable valid.catalog.toUniqueIds resolved tm.id] at known
  split at known
  · cases known
  · rename_i other
    have kept : (dropTable s tm' ns table).rowStore.scan tm.id = s.rowStore.scan tm.id :=
      TableStore.scan_dropTable_other (Ne.symm other)
    rw [scanRows, kept] at inside
    exact all tm known row inside

/-- Without an INSERT there is nothing to store. -/
theorem storesOnly_of_noInsert {p : PlanNode F} (noInsert : isInsert (executedLeaf p) = false) :
    StoresOnly P p s := by
  intro table ns columns values tm leaf
  rw [leaf] at noInsert
  cases noInsert

variable [ValueDebug F]

/-- An INSERT into a known table keeps the property exactly if the rows it stores have it. -/
theorem allRows_insert (valid : SessionValid s) (all : AllRows P s) {ns : Option String}
    {table : String} {tm : TableMeta} (htm : s.tableMeta ns table = some tm)
    (columns : List String) (values : List (List (Value F))) :
    AllRows P (final (executePlan (.insert table ns columns values) s)) ↔
      ∀ vals ∈ reaching s tm values, P tm.schema (.new vals) := by
  obtain ⟨catalog, appended, others⟩ := insert_appends valid.freshRows htm columns values rfl
  have bound := bound_of_tableMeta htm
  have known := bound_known valid.catalog bound
  constructor
  · intro after vals inside
    apply after tm (catalog ▸ known)
    rw [appended]
    exact List.mem_append_right _ (List.mem_map_of_mem inside)
  · intro stores tm' known' row inside
    rw [catalog] at known'
    by_cases same : tm.id = tm'.id
    · obtain rfl := eq_of_bound valid.catalog bound known' same
      rw [appended] at inside
      rcases List.mem_append.mp inside with inside | inside
      · exact all tm known row inside
      · obtain ⟨vals, listed, rfl⟩ := List.mem_map.mp inside
        exact stores vals listed
    · rw [scanRows, others tm'.id (Ne.symm same)] at inside
      exact all tm' known' row inside

/-- A statement keeps the property exactly if its INSERT stores rows with it only. -/
theorem allRows_step (valid : SessionValid s) (all : AllRows P s) (p : PlanNode F) :
    AllRows P (final (executePlan p s)) ↔ StoresOnly P p s := by
  rcases leaf_cases p with ⟨reader, flushes⟩ | ⟨table, ns, columns, values, leaf⟩ |
    ⟨table, ns, columns, leaf⟩ | ⟨table, ns, leaf⟩
  · obtain ⟨catalog, rowStore, _⟩ := flushes_frame (flushes s)
    refine iff_of_true ((allRows_congr catalog rowStore).mpr all) (storesOnly_of_noInsert ?_)
    cases leaf : executedLeaf p with
    | insert table ns columns values =>
      rw [leaf] at reader
      cases reader
    | _ => rfl
  · rw [final_executedLeaf, StoresOnly, leaf]
    cases htm : s.tableMeta ns table with
    | none =>
      have stopped : final (executePlan (.insert table ns columns values) s) = s := by
        rw [executePlan_insert, htm]
        rfl
      rw [stopped]
      refine iff_of_true all ?_
      rintro _ _ _ _ tm ⟨⟩ htm'
      cases htm.symm.trans htm'
    | some tm =>
      rw [allRows_insert valid all htm]
      constructor
      · rintro stores _ _ _ _ _ ⟨⟩ htm'
        cases htm.symm.trans htm'
        exact stores
      · exact fun stores => stores table ns columns values tm rfl htm
  · have noInsert : isInsert (executedLeaf p) = false := by rw [leaf]; rfl
    rw [final_executedLeaf, leaf]
    exact iff_of_true (allRows_createTable valid all ns table columns)
      (storesOnly_of_noInsert noInsert)
  · have noInsert : isInsert (executedLeaf p) = false := by rw [leaf]; rfl
    rw [final_executedLeaf, leaf, executePlan_dropTable]
    refine iff_of_true ?_ (storesOnly_of_noInsert noInsert)
    cases htm : s.tableMeta ns table with
    | none => exact all
    | some tm => exact allRows_dropTable valid all htm

end Steps

section Runs
variable [Float64 F] [ValueDebug F] {P : Schema → Row F → Prop} {s : SessionState F}

/-- Every INSERT of the sequence stores rows with the property only. -/
def AllStoreOnly (P : Schema → Row F → Prop) : List (PlanNode F) → SessionState F → Prop
  | [], _ => True
  | p :: plans, s => StoresOnly P p s ∧ AllStoreOnly P plans (final (executePlan p s))

omit [Float64 F] [ValueDebug F] in
theorem allRows_new (P : Schema → Row F → Prop) : AllRows P .new := by
  intro tm unknown
  simp [SessionState.new, Catalog.new] at unknown

theorem sessionValid_execute (valid : SessionValid s) (p : PlanNode F) :
    SessionValid (final (executePlan p s)) :=
  steps_invariant (fun _ _ => sessionValid_step) (executePlan_steps True p s (Or.inl trivial))
    valid

/-- The property holds in every state of a run exactly if the run stores such rows only. -/
theorem allRows_run (valid : SessionValid s) (all : AllRows P s) (plans : List (PlanNode F)) :
    (∀ done, done <+: plans → AllRows P (runPlans done s)) ↔ AllStoreOnly P plans s := by
  induction plans generalizing s with
  | nil =>
    refine iff_of_true (fun done h => ?_) trivial
    rw [List.prefix_nil.mp h]
    exact all
  | cons p plans ih =>
    have valid' := sessionValid_execute valid p
    constructor
    · intro each
      have first := each [p] (List.prefix_append [p] plans)
      refine ⟨(allRows_step valid all p).mp first, (ih valid' first).mp ?_⟩
      exact fun done h => each (p :: done) ((List.prefix_cons_inj p).mpr h)
    · rintro ⟨stores, rest⟩ done h
      cases done with
      | nil => exact all
      | cons p' done =>
        obtain ⟨rfl, begun⟩ := List.cons_prefix_cons.mp h
        exact (ih valid' ((allRows_step valid all p').mpr stores)).mpr rest done begun

end Runs

end StoredRows
