import RustafariDB.Catalogs
import RustafariDB.Values

/-!
# The row store

`table_store.rs`: one ordered map keyed by table and row id, shared by all
tables, and one row counter. A table is the half-open key interval from its
first possible row to the first possible row of the next table id.
-/

namespace RowStorage

open Std OrderedMaps Catalogs Values

structure TableStore (F : Type) where
  nextRowId : Nat
  data : ExtTreeMap (Nat × Nat) (Row F)

/-- Keys in `(table_id, RowId(0))..(TableId(table_id.0 + 1), RowId(0))`. -/
def inTableRange (tableId : Nat) (key : Nat × Nat) : Bool :=
  (compare (tableId, 0) key).isLE && compare key (tableId + 1, 0) == .lt

namespace TableStore

variable {F : Type}

def new : TableStore F := ⟨0, ∅⟩

def insert (store : TableStore F) (tableId : Nat) (row : Row F) :
    Nat × TableStore F :=
  (store.nextRowId,
    { nextRowId := store.nextRowId + 1
      data := store.data.insert (tableId, store.nextRowId) row })

def get (store : TableStore F) (tableId : Nat) (rowId : Nat) : Option (Row F) :=
  store.data[(tableId, rowId)]?

def delete (store : TableStore F) (tableId : Nat) (rowId : Nat) :
    Bool × TableStore F :=
  ((store.get tableId rowId).isSome,
    { store with data := store.data.erase (tableId, rowId) })

def update (store : TableStore F) (tableId : Nat) (rowId : Nat) (row : Row F) :
    Bool × TableStore F :=
  match store.get tableId rowId with
  | some _ => (true, { store with data := store.data.insert (tableId, rowId) row })
  | none => (false, store)

def scan (store : TableStore F) (tableId : Nat) : List (Nat × Row F) :=
  (entriesWhere (inTableRange tableId) store.data).map (fun e => (e.1.2, e.2))

def dropTable (store : TableStore F) (tableId : Nat) : TableStore F :=
  let keys := (entriesWhere (inTableRange tableId) store.data).map Prod.fst
  { store with data := eraseAll store.data keys }

/-- Every stored row id was handed out by the counter. -/
def Fresh (store : TableStore F) : Prop :=
  ∀ tableId rowId row, store.get tableId rowId = some row → rowId < store.nextRowId

end TableStore

/-- The key interval of a table is exactly the keys of that table. -/
theorem inTableRange_iff (tableId : Nat) (key : Nat × Nat) :
    inTableRange tableId key = true ↔ key.1 = tableId := by
  obtain ⟨t, r⟩ := key
  have low : compare (tableId, 0) (t, r) = (compare tableId t).then (compare 0 r) := rfl
  have high : compare (t, r) (tableId + 1, 0) = (compare t (tableId + 1)).then (compare r 0) :=
    rfl
  simp only [inTableRange, low, high, Bool.and_eq_true, beq_iff_eq, Ordering.then_eq_lt,
    Ordering.isLE_then_iff_or, Nat.compare_eq_lt, Nat.compare_eq_eq, Nat.isLE_compare]
  constructor
  · rintro ⟨h, h' | ⟨_, h'⟩⟩ <;> omega
  · intro h
    omega

namespace TableStore

variable {F : Type} {store : TableStore F}

theorem mem_scan {tableId : Nat} {e : Nat × Row F} :
    e ∈ store.scan tableId ↔ store.get tableId e.1 = some e.2 := by
  simp only [scan, List.mem_map]
  constructor
  · rintro ⟨⟨⟨t, r⟩, row⟩, he, rfl⟩
    obtain ⟨hv, hp⟩ := mem_entriesWhere.mp he
    obtain rfl : t = tableId := (inTableRange_iff tableId (t, r)).mp hp
    exact hv
  · intro h
    refine ⟨((tableId, e.1), e.2), mem_entriesWhere.mpr ⟨h, ?_⟩, rfl⟩
    exact (inTableRange_iff tableId _).mpr rfl

/-- Scans are in strictly increasing row id. -/
theorem scan_sorted (store : TableStore F) (tableId : Nat) :
    (store.scan tableId).Pairwise (fun a b => a.1 < b.1) := by
  rw [scan, List.pairwise_map]
  refine (entriesWhere_sorted _ _).imp_of_mem ?_
  rintro ⟨⟨t, r⟩, row⟩ ⟨⟨t', r'⟩, row'⟩ ha hb hlt
  have ht : t = tableId := (inTableRange_iff tableId (t, r)).mp (mem_entriesWhere.mp ha).2
  have ht' : t' = tableId := (inTableRange_iff tableId (t', r')).mp (mem_entriesWhere.mp hb).2
  have lex : (compare t t').then (compare r r') = .lt := hlt
  simp only [Ordering.then_eq_lt, Nat.compare_eq_lt, Nat.compare_eq_eq] at lex
  change r < r'
  omega

theorem keySorted_scan (store : TableStore F) (tableId : Nat) : KeySorted (store.scan tableId) :=
  (scan_sorted store tableId).imp Nat.compare_eq_lt.mpr

/-- A scan is known by the lookups in its table. -/
theorem scan_congr {store' : TableStore F} {tableId : Nat}
    (same : ∀ r, store'.get tableId r = store.get tableId r) :
    store'.scan tableId = store.scan tableId := by
  refine keySorted_ext (keySorted_scan _ _) (keySorted_scan _ _) (fun e => ?_)
  rw [mem_scan, mem_scan, same]

@[simp] theorem scan_new (tableId : Nat) : (new : TableStore F).scan tableId = [] := by
  have empty : entriesWhere (inTableRange tableId) (new : TableStore F).data = [] :=
    entriesWhere_eq_nil (fun _ _ => ExtTreeMap.getElem?_empty)
  rw [scan, empty, List.map_nil]

theorem get_insert (tableId t : Nat) (r : Nat) (row : Row F) :
    (store.insert tableId row).2.get t r =
      if (tableId, store.nextRowId) = (t, r) then some row else store.get t r := by
  simp only [insert, get, ExtTreeMap.getElem?_insert, LawfulEqCmp.compare_eq_iff_eq]

/-- A fresh row goes to the end of its table. -/
theorem scan_insert_self (fresh : store.Fresh) (tableId : Nat) (row : Row F) :
    (store.insert tableId row).2.scan tableId =
      store.scan tableId ++ [(store.nextRowId, row)] := by
  have last := entriesWhere_insert_last (p := inTableRange tableId) (m := store.data)
    (tableId, store.nextRowId) row ((inTableRange_iff tableId _).mpr rfl) (by
      rintro ⟨⟨t, r⟩, v⟩ he
      obtain ⟨hv, hp⟩ := mem_entriesWhere.mp he
      obtain rfl : t = tableId := (inTableRange_iff tableId (t, r)).mp hp
      change (compare t t).then (compare r store.nextRowId) = .lt
      have hlt := fresh t r v hv
      simp [Nat.compare_eq_lt, hlt])
  simp only [scan, insert, last, List.map_append, List.map_cons, List.map_nil]

theorem scan_insert_other {tableId t : Nat} (other : t ≠ tableId) (row : Row F) :
    (store.insert tableId row).2.scan t = store.scan t := by
  refine scan_congr (fun r => ?_)
  rw [get_insert, if_neg (fun same => other (Prod.mk.inj same).1.symm)]

theorem fresh_insert (fresh : store.Fresh) (tableId : Nat) (row : Row F) :
    (store.insert tableId row).2.Fresh := by
  intro t r row' h
  rw [get_insert] at h
  change r < store.nextRowId + 1
  split at h
  · rename_i heq
    have hr : store.nextRowId = r := congrArg Prod.snd heq
    omega
  · have := fresh t r row' h
    omega

theorem get_delete (store : TableStore F) (tableId rowId t r : Nat) :
    (store.delete tableId rowId).2.get t r =
      if (tableId, rowId) = (t, r) then none else store.get t r := by
  simp only [delete, get, ExtTreeMap.getElem?_erase, LawfulEqCmp.compare_eq_iff_eq]

theorem scan_delete_other {tableId t : Nat} (other : t ≠ tableId) (rowId : Nat) :
    (store.delete tableId rowId).2.scan t = store.scan t := by
  refine scan_congr (fun r => ?_)
  rw [get_delete, if_neg (fun same => other (Prod.mk.inj same).1.symm)]

/-- A deleted row leaves its table and the others stay in order. -/
theorem scan_delete_self (store : TableStore F) (tableId rowId : Nat) :
    (store.delete tableId rowId).2.scan tableId =
      (store.scan tableId).filter (fun e => e.1 ≠ rowId) := by
  refine keySorted_ext (keySorted_scan _ _) ((keySorted_scan _ _).filter _) (fun e => ?_)
  rw [mem_scan, get_delete, List.mem_filter, mem_scan]
  by_cases gone : e.1 = rowId
  · subst gone
    simp
  · simp [gone, Ne.symm gone]

/-- An update replaces a row that is there. -/
theorem get_update (store : TableStore F) (tableId rowId : Nat) (row : Row F) (t r : Nat) :
    (store.update tableId rowId row).2.get t r =
      if (tableId, rowId) = (t, r) then (store.get t r).map (fun _ => row)
      else store.get t r := by
  rw [update]
  cases found : store.get tableId rowId with
  | none =>
    by_cases here : (tableId, rowId) = (t, r)
    · cases here
      rw [if_pos rfl, found]
      rfl
    · rw [if_neg here]
  | some old =>
    by_cases here : (tableId, rowId) = (t, r)
    · cases here
      rw [if_pos rfl, found]
      exact ExtTreeMap.getElem?_insert_self
    · rw [if_neg here]
      simp only [get, ExtTreeMap.getElem?_insert, LawfulEqCmp.compare_eq_iff_eq, if_neg here]

theorem get_dropTable (store : TableStore F) (tableId t : Nat) (r : Nat) :
    (store.dropTable tableId).get t r = if t = tableId then none else store.get t r := by
  simp only [dropTable, get, getElem?_eraseAll, List.mem_map]
  by_cases ht : t = tableId
  · subst ht
    rw [if_pos rfl]
    split
    · rfl
    · rename_i hnot
      cases hv : store.data[(t, r)]? with
      | none => rfl
      | some row =>
        refine False.elim (hnot ⟨((t, r), row), mem_entriesWhere.mpr ⟨hv, ?_⟩, rfl⟩)
        exact (inTableRange_iff t (t, r)).mpr rfl
  · rw [if_neg ht, if_neg]
    rintro ⟨⟨k, row⟩, he, rfl⟩
    exact ht ((inTableRange_iff tableId _).mp (mem_entriesWhere.mp he).2)

theorem scan_dropTable_other {tableId t : Nat} (other : t ≠ tableId) :
    (store.dropTable tableId).scan t = store.scan t :=
  scan_congr (fun r => by rw [get_dropTable, if_neg other])

theorem scan_dropTable_self (store : TableStore F) (tableId : Nat) :
    (store.dropTable tableId).scan tableId = [] := by
  refine List.eq_nil_iff_forall_not_mem.mpr (fun e he => ?_)
  have h := mem_scan.mp he
  rw [get_dropTable, if_pos rfl] at h
  cases h

theorem fresh_dropTable (fresh : store.Fresh) (tableId : Nat) :
    (store.dropTable tableId).Fresh := by
  intro t r row h
  rw [get_dropTable] at h
  split at h
  · cases h
  · exact fresh t r row h

theorem nextRowId_update (tableId rowId : Nat) (row : Row F) :
    (store.update tableId rowId row).2.nextRowId = store.nextRowId := by
  rw [update]
  split <;> rfl

end TableStore

end RowStorage
