import RustafariDB.Collections
import RustafariDB.Documents

/-!
# The columns of a stored document

A document becomes a row in the order of its field names, and is read back at the
positions of a schema. The two orders are the same just for the schemas that list their
names in ascending order.
-/

namespace DocumentColumns

open Std Floats Values Catalogs RowStorage FilterTranslation Collections Documents
open DocumentFilters (Json)

variable {F : Type} [Float64 F]

section Positions
variable {columns : List Column}

def names (columns : List Column) : List String := columns.map Column.name

/-- The names of the columns ascend. -/
def Ascending (columns : List Column) : Prop :=
  (names columns).Pairwise (fun a b => compare a b = .lt)

/-- Distinct names are found at their positions. -/
theorem columnIndex_eq_some (distinct : (names columns).Nodup) {name : String} {i : Nat} :
    (Schema.new columns).columnIndex name = some i ↔ (names columns)[i]? = some name := by
  have position {j : Nat} (index : (Schema.new columns).columnIndex name = some j) :
      (names columns)[j]? = some name := by
    obtain ⟨c, listed, rfl⟩ := column_of_nameIndex index
    rw [names, List.getElem?_map, listed, Option.map_some]
  constructor
  · exact position
  · intro listed
    obtain ⟨c, inside, rfl⟩ := List.mem_map.mp (List.mem_of_getElem? listed)
    obtain ⟨j, index⟩ := nameIndex_isSome inside
    have bound := (List.getElem?_eq_some_iff.mp listed).1
    have same := (List.getElem?_inj bound distinct).mp (listed.trans (position index).symm)
    rw [same]
    exact index

end Positions

section Landing

/-- The document has a field for each column and no other. -/
def HasFields (doc : Document F) (columns : List Column) : Prop :=
  ∀ name, name ∈ doc ↔ name ∈ names columns

/-- Inserted into a collection of the schema, each field is read back by its name. -/
def LandsRight (columns : List Column) (doc : Document F) : Prop :=
  ∀ (c : DocumentCollection) (store : TableStore F), c.schema = .new columns →
    ∃ row, (c.insertOne (docToRow doc) store).2.get c.tableId
          (c.insertOne (docToRow doc) store).1 = some row ∧
        ∀ name v, doc[name]? = some v →
          getField c.schema row name = some (Documents.jsonToValue v)

/-- No two fields have the same value. -/
def Distinguished (doc : Document F) : Prop :=
  ∀ (k k' : String) (v v' : Json F), doc[k]? = some v → doc[k']? = some v' →
    Documents.jsonToValue v = Documents.jsonToValue v' → k = k'

variable {columns : List Column} {doc : Document F}

omit [Float64 F] in
theorem get_insertOne (c : DocumentCollection) (row : Row F) (store : TableStore F) :
    (c.insertOne row store).2.get c.tableId (c.insertOne row store).1 = some row := by
  change (store.insert c.tableId row).2.get c.tableId store.nextRowId = some row
  rw [TableStore.get_insert, if_pos rfl]

/-- What the store and the table id add is nothing: the fields are read from the row. -/
theorem landsRight_iff : LandsRight columns doc ↔
    ∀ name v, doc[name]? = some v →
      getField (.new columns) (docToRow doc) name = some (Documents.jsonToValue v) := by
  constructor
  · intro lands
    obtain ⟨row, stored, fields⟩ := lands ⟨0, .new columns⟩ .new rfl
    cases (get_insertOne _ _ _).symm.trans stored
    exact fields
  · rintro fields c store schema
    refine ⟨docToRow doc, get_insertOne c _ store, ?_⟩
    rw [schema]
    exact fields

/-- The names of the fields in the order in which their values are stored. -/
def fieldNames (doc : Document F) : List String := doc.toList.map Prod.fst

omit [Float64 F] in
theorem fieldNames_sorted (doc : Document F) :
    (fieldNames doc).Pairwise (fun a b => compare a b = .lt) :=
  List.pairwise_map.mpr ExtTreeMap.ordered_keys_toList

omit [Float64 F] in
theorem nodup_of_ascending {ns : List String}
    (ascending : ns.Pairwise (fun a b => compare a b = .lt)) : ns.Nodup := by
  refine ascending.imp ?_
  rintro a b less rfl
  rw [compare_self] at less
  cases less

omit [Float64 F] in
theorem fieldNames_perm (distinct : (names columns).Nodup) (fields : HasFields doc columns) :
    (fieldNames doc).Perm (names columns) := by
  refine (List.perm_ext_iff_of_nodup (nodup_of_ascending (fieldNames_sorted doc)) distinct).mpr ?_
  intro name
  rw [← fields name, fieldNames, ExtTreeMap.map_fst_toList_eq_keys, ExtTreeMap.mem_keys]

omit [Float64 F] in
/-- The names of the columns ascend exactly if they are in the order of the document. -/
theorem ascending_iff (distinct : (names columns).Nodup) (fields : HasFields doc columns) :
    Ascending columns ↔ fieldNames doc = names columns := by
  constructor
  · intro ascending
    refine List.Perm.eq_of_pairwise (fun a b _ _ hab hba => ?_) (fieldNames_sorted doc) ascending
      (fieldNames_perm distinct fields)
    exact absurd hba (OrientedCmp.not_lt_of_lt hab)
  · intro same
    rw [Ascending, ← same]
    exact fieldNames_sorted doc

omit [Float64 F] in
theorem listed_field {name : String} {v : Json F} (stored : doc[name]? = some v) :
    ∃ i : Nat, doc.toList[i]? = some (name, v) :=
  List.mem_iff_getElem?.mp (ExtTreeMap.mem_toList_iff_getElem?_eq_some.mpr stored)

/-- In the order of the document each field is stored at the position of its column. -/
theorem landsRight_of_ascending (distinct : (names columns).Nodup)
    (fields : HasFields doc columns) (ascending : Ascending columns) : LandsRight columns doc := by
  rw [landsRight_iff]
  intro name v stored
  obtain ⟨i, listed⟩ := listed_field stored
  have index : (Schema.new columns).columnIndex name = some i := by
    rw [columnIndex_eq_some distinct, ← (ascending_iff distinct fields).mp ascending, fieldNames,
      List.getElem?_map, listed, Option.map_some]
  rw [getField, index, Option.bind_some, docToRow, Row.get_new, List.getElem?_map, listed,
    Option.map_some]

/-- A field that is read back is at the position of its column. -/
theorem ascending_of_landsRight (distinct : (names columns).Nodup)
    (fields : HasFields doc columns) (distinguished : Distinguished doc)
    (lands : LandsRight columns doc) : Ascending columns := by
  rw [landsRight_iff] at lands
  have perm := fieldNames_perm distinct fields
  rw [ascending_iff distinct fields]
  refine (List.ext_getElem perm.length_eq.symm (fun i hi hi' => ?_)).symm
  have here : (names columns)[i]? = some (names columns)[i] := List.getElem?_eq_getElem hi
  have inside : (names columns)[i] ∈ doc := (fields _).mpr (List.getElem_mem hi)
  obtain ⟨v, stored⟩ := Option.isSome_iff_exists.mp (ExtTreeMap.isSome_getElem?_iff_mem.mpr inside)
  have read := lands _ v stored
  rw [getField, (columnIndex_eq_some distinct).mpr here, Option.bind_some, docToRow, Row.get_new,
    List.getElem?_map] at read
  obtain ⟨⟨name, w⟩, listed, same⟩ := Option.map_eq_some_iff.mp read
  have stored' := ExtTreeMap.mem_toList_iff_getElem?_eq_some.mp (List.mem_of_getElem? listed)
  have named := distinguished _ _ v w stored stored' same.symm
  have there : (fieldNames doc)[i]? = some name := by
    rw [fieldNames, List.getElem?_map, listed, Option.map_some]
  rw [named]
  exact Option.some.inj (there.symm.trans (List.getElem?_eq_getElem hi'))

end Landing

section Labels

/-- A document whose fields hold their own names. -/
def labelled : List String → Document F
  | [] => ∅
  | name :: rest => (labelled rest).insert name (.string name)

omit [Float64 F] in
theorem getElem?_labelled (ns : List String) (name : String) :
    (labelled ns : Document F)[name]? = if name ∈ ns then some (.string name) else none := by
  induction ns with
  | nil => exact ExtTreeMap.getElem?_empty
  | cons n rest ih =>
    rw [labelled, ExtTreeMap.getElem?_insert, ih]
    by_cases same : n = name
    · subst same
      rw [if_pos (compare_self), if_pos List.mem_cons_self]
    · rw [if_neg (fun h => same (LawfulEqCmp.compare_eq_iff_eq.mp h))]
      simp only [List.mem_cons, Ne.symm same, false_or]

omit [Float64 F] in
theorem hasFields_labelled (columns : List Column) :
    HasFields (labelled (names columns) : Document F) columns := by
  intro name
  rw [← ExtTreeMap.isSome_getElem?_iff_mem, getElem?_labelled]
  by_cases inside : name ∈ names columns
  · rw [if_pos inside]
    exact iff_of_true rfl inside
  · rw [if_neg inside]
    exact iff_of_false Bool.false_ne_true inside

theorem distinguished_labelled (ns : List String) : Distinguished (labelled ns : Document F) := by
  have value {k : String} {v : Json F} (stored : (labelled ns : Document F)[k]? = some v) :
      v = .string k := by
    rw [getElem?_labelled] at stored
    by_cases inside : k ∈ ns
    · rw [if_pos inside] at stored
      exact (Option.some.inj stored).symm
    · rw [if_neg inside] at stored
      cases stored
  intro k k' v v' stored stored' same
  rw [value stored, value stored'] at same
  cases same
  rfl

/-- With distinct column names, every document with exactly these fields is read back field by
field if and only if the schema lists the names in ascending order. In any other schema no
document with different values in its fields is. -/
theorem documents_land_right_iff (columns : List Column) (distinct : (names columns).Nodup) :
    ((∀ doc : Document F, HasFields doc columns → LandsRight columns doc) ↔ Ascending columns) ∧
      ∀ doc : Document F, HasFields doc columns → Distinguished doc →
        (LandsRight columns doc ↔ Ascending columns) := by
  have each (doc : Document F) (fields : HasFields doc columns) (differ : Distinguished doc) :
      LandsRight columns doc ↔ Ascending columns :=
    ⟨ascending_of_landsRight distinct fields differ, landsRight_of_ascending distinct fields⟩
  refine ⟨⟨fun all => ?_, fun ascending doc fields => ?_⟩, each⟩
  · have fields := hasFields_labelled (F := F) columns
    exact (each _ fields (distinguished_labelled _)).mp (all _ fields)
  · exact landsRight_of_ascending distinct fields ascending

/-- Columns of the names, in this order. -/
def textColumns (ns : List String) : List Column := ns.map (fun n => ⟨n, .text, true⟩)

theorem documents_land_right_ascending :
    LandsRight (textColumns ["a", "b"]) (labelled ["a", "b"] : Document Float) := by
  refine (documents_land_right_iff (textColumns ["a", "b"]) (by decide)).1.mpr ?_ _
    (hasFields_labelled (textColumns ["a", "b"]))
  refine List.pairwise_pair.mpr ?_
  decide

/-- A collection with the columns `b`, `a`. -/
theorem columns_exchanged :
    ¬ ∀ columns : List Column, (names columns).Nodup →
      ∀ doc : Document Float, HasFields doc columns → LandsRight columns doc := by
  intro lands
  have distinct : (names (textColumns ["b", "a"])).Nodup := by decide
  have fields : HasFields (labelled ["b", "a"] : Document Float) (textColumns ["b", "a"]) :=
    hasFields_labelled (textColumns ["b", "a"])
  have ascending := ascending_of_landsRight distinct fields (distinguished_labelled _)
    (lands _ distinct _ fields)
  exact absurd (List.pairwise_pair.mp ascending) (by decide)

end Labels

end DocumentColumns
