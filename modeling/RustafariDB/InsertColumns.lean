import RustafariDB.InsertEffects
import RustafariDB.SelectedRows
import RustafariDB.Utf8Order

/-!
# The column list of INSERT

The list is planned and then not looked at: the values of a row go to the columns of the
table in their order. The row store, the index and the columnar buffer take the same row, so
one condition on the list and the values decides for all of them.
-/

namespace InsertColumns

open Floats Values Catalogs Plans RowStorage BTreeIndexing Sessions Execution StatefulPrograms
open CatalogInvariants PlanEffects SessionInvariants QueryOperators IndexLookups InsertEffects

variable {F : Type}

section Lists

/-- The value a list of columns gives a column, Null for a column that is not listed. -/
def given (columns : List String) (vs : List (Value F)) (c : String) : Value F :=
  ((columns.idxOf? c).bind (fun k => vs[k]?)).getD .null

/-- Read by their place in the schema, the values of each row are those given. -/
def Positioned (schema : Schema) (columns : List String) (values : List (List (Value F))) : Prop :=
  ∀ vs ∈ values, ∀ c i, schema.columnIndex c = some i → vs[i]? = some (given columns vs c)

/-- The listed columns are all columns of the table, in their order. -/
theorem positioned_in_order {schema : Schema} {columns : List String}
    {values : List (List (Value F))} (built : schema = .new schema.columns)
    (order : columns = schema.columns.map Column.name) (distinct : columns.Nodup)
    (arity : ∀ vs ∈ values, vs.length = columns.length) : Positioned schema columns values := by
  intro vs inside c i known
  rw [built] at known
  obtain ⟨col, found, rfl⟩ := column_of_nameIndex known
  have listed : columns[i]? = some col.name := by
    rw [order, List.getElem?_map, found]
    rfl
  obtain ⟨short, at_i⟩ := List.getElem?_eq_some_iff.mp listed
  have first : columns.idxOf? col.name = some i := by
    refine List.idxOf?_eq_some_iff.mpr ⟨short, at_i, fun j before same => ?_⟩
    exact absurd (distinct.getElem_inj_iff.mp (same.trans at_i.symm)) (by omega)
  have present : i < vs.length := by
    rw [arity vs inside]
    exact short
  rw [given, first, Option.bind_some, List.getElem?_eq_getElem present, Option.getD_some]

end Lists

section Rows
variable [Float64 F] [ValueDebug F] {s t : SessionState F} {tm : TableMeta}
variable {ns : Option String} {table : String} {columns : List String}
variable {values : List (List (Value F))} {count : Nat}

/-- After the INSERT a SELECT of a column returns, below what it returned, the values given for
it, and the id index finds a new row just under the key of the value given for the id. -/
structure StoredUnder (s t : SessionState F) (tm : TableMeta) (ns : Option String)
    (table : String) (columns : List String) (values : List (List (Value F))) : Prop where
  selected : ∀ c i, tm.schema.columnIndex c = some i →
    outcome (executePlan (.project (.scan table ns) [c]) t) =
      .ok (.rows ((scanRows s tm).map (projectRow tm.schema [c]) ++
        values.map (fun vs => .new [given columns vs c])))
  found : ∀ index, t.getIndex tm.id "id" = some index → ∀ k vs, values[k]? = some vs →
    ∀ (v : Value F) key, IndexKey.fromValue v = .ok key →
      (s.rowStore.nextRowId + k ∈ index.get key ↔
        IndexKey.fromValue (given columns vs "id") = .ok key)

/-- The id index finds a new row under the key of a value just if this value was given. -/
def FindsGiven (s t : SessionState F) (tm : TableMeta) (columns : List String)
    (values : List (List (Value F))) : Prop :=
  ∀ index, t.getIndex tm.id "id" = some index → ∀ k vs, values[k]? = some vs →
    ∀ (v : Value F) key, IndexKey.fromValue v = .ok key →
      (s.rowStore.nextRowId + k ∈ index.get key ↔ given columns vs "id" = v)

/-- No other value has the index key of an id that is given. -/
def KeysApart (schema : Schema) (columns : List String) (values : List (List (Value F))) : Prop :=
  ∀ i, schema.columnIndex "id" = some i → ∀ vs ∈ values, ∀ v key,
    IndexKey.fromValue v = .ok key → IndexKey.fromValue (given columns vs "id") = .ok key →
      given columns vs "id" = v

omit [ValueDebug F] in
/-- A text that has not the length of another key shares its key with no other value. -/
theorem keyApart_string {text : String} (other : text.toUTF8.toList.length ≠ 1)
    (wide : text.toUTF8.toList.length ≠ 8) (v : Value F) (key : IndexKey)
    (keyed : IndexKey.fromValue v = .ok key)
    (same : IndexKey.fromValue (.string text : Value F) = .ok key) : .string text = v := by
  cases same
  have eight (n : Nat) : ByteOrder.toBytesBE 8 n ≠ text.toUTF8.toList := by
    intro equal
    exact wide (equal ▸ ByteOrder.length_toBytesBE 8 n)
  cases v with
  | bool b => exact False.elim (other (congrArg List.length (Except.ok.inj keyed)).symm)
  | int64 | float64 | timestamp | date => exact False.elim (eight _ (Except.ok.inj keyed))
  | string s =>
    have ordered := Utf8Order.compare_toUTF8 s text
    rw [Except.ok.inj keyed, Std.ReflOrd.compare_self] at ordered
    rw [Std.LawfulEqOrd.eq_of_compare ordered.symm]
  | _ => cases keyed

omit [ValueDebug F] in
theorem mem_scan_storedAll (fresh : s.rowStore.Fresh) {k : Nat} {row : Row F} :
    (s.rowStore.nextRowId + k, row) ∈ (storedAll s tm values).rowStore.scan tm.id ↔
      ∃ vs, values[k]? = some vs ∧ row = .new vs := by
  rw [scan_storedAll_ids fresh, List.mem_append]
  have old : (s.rowStore.nextRowId + k, row) ∉ s.rowStore.scan tm.id := by
    intro stored
    have before := fresh tm.id _ _ (TableStore.mem_scan.mp stored)
    omega
  rw [or_iff_right old, List.mem_map]
  constructor
  · rintro ⟨⟨vs, id⟩, listed, same⟩
    obtain ⟨rfl, rfl⟩ := Prod.mk.inj same
    exact ⟨vs, List.mk_add_mem_zipIdx_iff_getElem?.mp listed, rfl⟩
  · rintro ⟨vs, at_k, rfl⟩
    exact ⟨(vs, _), List.mk_add_mem_zipIdx_iff_getElem?.mpr at_k, rfl⟩

omit [Float64 F] [ValueDebug F] in
/-- A projection of one column of a new row is the value at its place, if it is there. -/
theorem projectRow_singleton_iff {schema : Schema} {c : String} {i : Nat}
    (known : schema.columnIndex c = some i) {vs : List (Value F)} {v : Value F} :
    projectRow schema [c] (.new vs) = .new [v] ↔ vs[i]? = some v := by
  cases value : vs[i]? with
  | none => simp [projectRow, known, value, Row.new, Row.get]
  | some w => simp [projectRow, known, value, Row.new, Row.get]

omit [ValueDebug F] in
/-- The id index finds a stored row under the key of the value in its place of the id. -/
theorem mem_index_storedAll (fresh : s.rowStore.Fresh) {index : BTreeIndex} {i k : Nat}
    (contents : Indexes index (idKey i) ((storedAll s tm values).rowStore.scan tm.id))
    {vs : List (Value F)} (at_k : values[k]? = some vs) {key : IndexKey} :
    s.rowStore.nextRowId + k ∈ index.get key ↔
      ∃ v, vs[i]? = some v ∧ IndexKey.fromValue v = .ok key := by
  have own : (∃ v, vs[i]? = some v ∧ IndexKey.fromValue v = .ok key) ↔
      idKey i (.new vs : Row F) = some key := idKey_eq_some.symm
  rw [mem_get_iff contents, own]
  constructor
  · rintro ⟨row, stored, filed⟩
    obtain ⟨vs', at_k', rfl⟩ := (mem_scan_storedAll fresh).mp stored
    cases at_k.symm.trans at_k'
    exact filed
  · intro filed
    exact ⟨.new vs, (mem_scan_storedAll fresh).mpr ⟨vs, at_k, rfl⟩, filed⟩

/-- A SELECT of a column returns what it returned before, and then the stored rows. -/
theorem project_storedAll (fresh : s.rowStore.Fresh) (live : s.tableMeta ns table = some tm)
    (c : String) : outcome (executePlan (.project (.scan table ns) [c]) (storedAll s tm values)) =
      .ok (.rows ((scanRows s tm).map (projectRow tm.schema [c]) ++
        values.map (fun vs => projectRow tm.schema [c] (.new vs)))) := by
  have live' : (storedAll s tm values).tableMeta ns table = some tm := by
    rw [SessionState.tableMeta, catalog_storedAll]
    exact live
  have appended : scanRows (storedAll s tm values) tm = scanRows s tm ++ values.map .new :=
    scan_storedAll_self fresh tm values
  have scan := executePlan_scan live'
  rw [appended] at scan
  rw [executePlan_project scan (resolveTable_eq_ok.mpr live'), List.map_append, List.map_map]
  rfl

theorem reachable_insert (h : Reachable s) (live : s.tableMeta ns table = some tm)
    (run : executePlan (.insert table ns columns values) s = .ok (.rowsAffected count) t) :
    Reachable t ∧ Bound t tm := by
  have reached := RunFrom.execute h (.insert table ns columns values) trivial
  rw [run] at reached
  obtain ⟨tm', htm', _, rfl⟩ := insert_ok run
  cases live.symm.trans htm'
  have live' : (storedAll s tm values).tableMeta ns table = some tm := by
    rw [SessionState.tableMeta, catalog_storedAll]
    exact live
  exact ⟨reached, bound_of_tableMeta live'⟩

theorem storedUnder_iff (h : Reachable s) (live : s.tableMeta ns table = some tm)
    (run : executePlan (.insert table ns columns values) s = .ok (.rowsAffected count) t) :
    StoredUnder s t tm ns table columns values ↔ Positioned tm.schema columns values := by
  have fresh := (reachable_valid h).freshRows
  obtain ⟨reached, bound⟩ := reachable_insert h live run
  obtain ⟨tm', htm', _, rfl⟩ := insert_ok run
  cases live.symm.trans htm'
  constructor
  · intro under vs inside c i known
    have same := (project_storedAll fresh live c).symm.trans (under.selected c i known)
    have new := List.append_cancel_left (ExecutionResult.rows.inj (Except.ok.inj same))
    exact (projectRow_singleton_iff known).mp (List.map_inj_left.mp new vs inside)
  · intro positioned
    refine ⟨fun c i known => ?_, fun index indexed k vs at_k v key _ => ?_⟩
    · have new : values.map (fun vs => projectRow tm.schema [c] (.new vs)) =
          values.map (fun vs => .new [given columns vs c]) :=
        List.map_inj_left.mpr (fun vs inside =>
          (projectRow_singleton_iff known).mpr (positioned vs inside c i known))
      rw [project_storedAll fresh live, new]
    · obtain ⟨i, hcol, contents⟩ := bound_index reached bound indexed
      have placed := positioned vs (List.mem_of_getElem? at_k) "id" i hcol
      rw [mem_index_storedAll fresh contents at_k, placed]
      simp only [Option.some.injEq, exists_eq_left']

/-- After a successful INSERT the new rows hold the given values under the listed columns, and
Null under the others, just if each value stands at the place of its column in the schema. The
index tells the given ids from all other values just if no other value has the key of one. -/
theorem insert_columns_iff (h : Reachable s) (live : s.tableMeta ns table = some tm)
    (run : executePlan (.insert table ns columns values) s = .ok (.rowsAffected count) t) :
    (StoredUnder s t tm ns table columns values ↔ Positioned tm.schema columns values) ∧
      (StoredUnder s t tm ns table columns values ∧ FindsGiven s t tm columns values ↔
        Positioned tm.schema columns values ∧ KeysApart tm.schema columns values) := by
  have under := storedUnder_iff h live run
  obtain ⟨reached, bound⟩ := reachable_insert h live run
  refine ⟨under, ?_, ?_⟩
  · rintro ⟨stored, finds⟩
    refine ⟨under.mp stored, fun i hcol vs inside v key keyed same => ?_⟩
    obtain ⟨k, at_k⟩ := List.mem_iff_getElem?.mp inside
    obtain ⟨index, indexed⟩ := index_of_idColumn (reachable_valid reached) bound hcol
    have member := (stored.found index indexed k vs at_k v key keyed).mpr same
    exact (finds index indexed k vs at_k v key keyed).mp member
  · rintro ⟨positioned, apart⟩
    have stored := under.mpr positioned
    refine ⟨stored, fun index indexed k vs at_k v key keyed => ?_⟩
    obtain ⟨i, hcol, -⟩ := bound_index reached bound indexed
    rw [stored.found index indexed k vs at_k v key keyed]
    refine ⟨apart i hcol vs (List.mem_of_getElem? at_k) v key keyed, ?_⟩
    rintro rfl
    exact keyed

end Rows

section Swapped

/-- A table with an id and a name. -/
def named : SessionState Float :=
  runPlans [.createTable "t" none [("id", .bigInt), ("name", .text)]] .new

def namedMeta : TableMeta :=
  ⟨0, 0, "t", .new [⟨"id", .bigInt, true⟩, ⟨"name", .text, true⟩], "row"⟩

theorem named_reachable : Reachable named := reachable_runPlans _ RunFrom.new

/-- A table whose ids are texts. -/
def labelled : SessionState Float :=
  runPlans [.createTable "t" none [("id", .text), ("name", .text)]] .new

def labelledMeta : TableMeta :=
  ⟨0, 0, "t", .new [⟨"id", .text, true⟩, ⟨"name", .text, true⟩], "row"⟩

theorem labelled_reachable : Reachable labelled := reachable_runPlans _ RunFrom.new

/-- In schema order the values are stored under their columns, and where the ids are texts the
index tells the given one from every other value. -/
theorem insert_columns_in_order :
    StoredUnder named (final (executePlan
        (.insert "t" none ["id", "name"] [[.int64 1, .string "x"]]) named))
      namedMeta none "t" ["id", "name"] [[.int64 1, .string "x"]] ∧
    StoredUnder labelled (final (executePlan
        (.insert "t" none ["id", "name"] [[.string "ab", .string "x"]]) labelled))
      labelledMeta none "t" ["id", "name"] [[.string "ab", .string "x"]] ∧
    FindsGiven labelled (final (executePlan
        (.insert "t" none ["id", "name"] [[.string "ab", .string "x"]]) labelled))
      labelledMeta ["id", "name"] [[.string "ab", .string "x"]] := by
  constructor
  · refine (insert_columns_iff named_reachable rfl rfl).1.mpr ?_
    exact positioned_in_order rfl rfl (by decide) (by decide)
  · refine (insert_columns_iff labelled_reachable rfl rfl).2.mpr ⟨?_, fun i _ vs inside => ?_⟩
    · exact positioned_in_order rfl rfl (by decide) (by decide)
    · obtain rfl := List.mem_singleton.mp inside
      have bytes : "ab".toUTF8.toList.length = 2 := by
        rw [ByteOrder.toUTF8_toList]
        rfl
      exact keyApart_string (by rw [bytes]; decide) (by rw [bytes]; decide)

/-- `INSERT INTO t (name, id) VALUES ('x', 1)` makes 'x' the id. -/
theorem swapped_columns :
    ¬∀ s : SessionState Float, Reachable s → ∀ ns table tm columns values count t,
      s.tableMeta ns table = some tm → columns.Nodup →
      (∀ c ∈ columns, ∃ i, tm.schema.columnIndex c = some i) →
      (∀ vs ∈ values, vs.length = columns.length) →
      executePlan (.insert table ns columns values) s = .ok (.rowsAffected count) t →
        StoredUnder s t tm ns table columns values := by
  intro under
  have known : ∀ c ∈ ["name", "id"], ∃ i, namedMeta.schema.columnIndex c = some i :=
    List.forall_mem_cons.mpr ⟨⟨1, rfl⟩, List.forall_mem_singleton.mpr ⟨0, rfl⟩⟩
  have swapped := (under named named_reachable none "t" namedMeta ["name", "id"]
    [[.string "x", .int64 1]] _ _ rfl (by decide) known (by decide) rfl).selected "id" 0 rfl
  have selected : outcome (executePlan (.project (.scan "t" none) ["id"]) (final (executePlan
      (.insert "t" none ["name", "id"] [[.string "x", .int64 1]]) named))) =
        .ok (.rows [.new [.string "x"]]) := rfl
  cases selected.symm.trans swapped

end Swapped

end InsertColumns
