import RustafariDB.FilterTranslation
import RustafariDB.TableHistories

/-!
# Document collections

`coll.rs`: a collection reads and writes the row store under the id of a table, and takes
field names from a schema. The shared store is passed along; a lock that cannot be poisoned
is left out. Indexes and chunks are not among what a collection can reach.
-/

namespace Collections

open Floats Values Catalogs RowStorage DocumentFilters FilterTranslation
open TableHistories (StoreHistory insertedIds inserted_history mem_insertedIds)

variable {F : Type}

structure DocumentCollection where
  tableId : Nat
  schema : Schema

section Deleting

/-- The loop of `delete_many`: it counts the ids that were still there. -/
def deleteEach (tableId : Nat) (ids : List Nat) (start : Nat × TableStore F) :
    Nat × TableStore F :=
  ids.foldl (fun acc rowId =>
    let (deleted, store) := acc.2.delete tableId rowId
    (if deleted then acc.1 + 1 else acc.1, store)) start

variable {tableId : Nat} {store : TableStore F}

/-- Distinct stored ids are all counted, and exactly their rows go. -/
theorem deleteEach_spec {ids : List Nat} (distinct : ids.Nodup)
    (there : ∀ rowId ∈ ids, (store.get tableId rowId).isSome) (n : Nat) :
    (deleteEach tableId ids (n, store)).1 = n + ids.length ∧
      (deleteEach tableId ids (n, store)).2.scan tableId =
        (store.scan tableId).filter (fun e => e.1 ∉ ids) ∧
      ∀ t, t ≠ tableId → (deleteEach tableId ids (n, store)).2.scan t = store.scan t := by
  induction ids generalizing n store with
  | nil =>
    refine ⟨rfl, ?_, fun t other => rfl⟩
    simp only [List.not_mem_nil, not_false_eq_true, decide_true, List.filter_true]
    rfl
  | cons rowId ids ih =>
    obtain ⟨absent, distinct⟩ := List.nodup_cons.mp distinct
    obtain ⟨first, later⟩ := List.forall_mem_cons.mp there
    have begun : deleteEach tableId (rowId :: ids) (n, store) =
        deleteEach tableId ids (n + 1, (store.delete tableId rowId).2) := by
      have counted : (store.delete tableId rowId).1 = true := first
      rw [deleteEach, List.foldl_cons]
      simp only [counted, if_true]
      rfl
    have still : ∀ r ∈ ids, ((store.delete tableId rowId).2.get tableId r).isSome := by
      intro r inside
      have other : (tableId, rowId) ≠ (tableId, r) := by
        rintro ⟨⟩
        exact absent inside
      rw [TableStore.get_delete, if_neg other]
      exact later r inside
    obtain ⟨count, scanned, others⟩ := ih distinct still (n + 1)
    rw [begun]
    refine ⟨?_, ?_, fun t other => ?_⟩
    · rw [count, List.length_cons]
      omega
    · rw [scanned, TableStore.scan_delete_self, List.filter_filter]
      refine List.filter_congr (fun e _ => ?_)
      simp only [List.mem_cons, not_or, Bool.decide_and]
      exact Bool.and_comm _ _
    · rw [others t other, TableStore.scan_delete_other other]

end Deleting

namespace DocumentCollection

/-- Insert one document (row). -/
def insertOne (c : DocumentCollection) (row : Row F) (store : TableStore F) :
    Nat × TableStore F :=
  store.insert c.tableId row

variable [Float64 F]

/-- The test of `find`; without a filter every row passes. -/
def passes (c : DocumentCollection) (filter : Option (DocFilter F)) (row : Row F) : Bool :=
  match filter with
  | some f => matchesFilter (getField c.schema row) f
  | none => true

/-- Find rows matching filter. -/
def find (c : DocumentCollection) (filter : Option (DocFilter F)) (store : TableStore F) :
    List (Nat × Row F) :=
  (store.scan c.tableId).filter (fun e => c.passes filter e.2)

/-- Find one row matching filter. -/
def findOne (c : DocumentCollection) (filter : Option (DocFilter F)) (store : TableStore F) :
    Option (Nat × Row F) :=
  (c.find filter store).head?

/-- Delete rows matching filter; the count of those deleted. -/
def deleteMany (c : DocumentCollection) (filter : Option (DocFilter F))
    (store : TableStore F) : Nat × TableStore F :=
  deleteEach c.tableId ((c.find filter store).map Prod.fst) (0, store)

variable {c : DocumentCollection} {filter : Option (DocFilter F)} {store : TableStore F}

theorem deleteMany_of_none (nothing : c.find filter store = []) :
    c.deleteMany filter store = (0, store) := by
  rw [deleteMany, nothing]
  rfl

theorem mem_find {e : Nat × Row F} :
    e ∈ c.find filter store ↔ store.get c.tableId e.1 = some e.2 ∧ c.passes filter e.2 = true := by
  rw [find, List.mem_filter, TableStore.mem_scan]

/-- `delete_many` removes what `find` returns, all of it and nothing else. -/
theorem deleteMany_spec (c : DocumentCollection) (filter : Option (DocFilter F))
    (store : TableStore F) :
    (c.deleteMany filter store).1 = (c.find filter store).length ∧
      (c.deleteMany filter store).2.scan c.tableId =
        (store.scan c.tableId).filter (fun e => !c.passes filter e.2) ∧
      ∀ t, t ≠ c.tableId → (c.deleteMany filter store).2.scan t = store.scan t := by
  have distinct : ((c.find filter store).map Prod.fst).Nodup := by
    refine List.pairwise_map.mpr (((TableStore.scan_sorted store c.tableId).filter _).imp ?_)
    exact Nat.ne_of_lt
  have there : ∀ rowId ∈ (c.find filter store).map Prod.fst,
      (store.get c.tableId rowId).isSome := by
    intro rowId inside
    obtain ⟨e, found, rfl⟩ := List.mem_map.mp inside
    rw [(mem_find.mp found).1, Option.isSome_some]
  obtain ⟨count, scanned, others⟩ := deleteEach_spec distinct there 0
  refine ⟨?_, ?_, others⟩
  · rw [deleteMany, count, List.length_map, Nat.zero_add]
  · rw [deleteMany, scanned]
    refine List.filter_congr (fun e inside => ?_)
    have stored := TableStore.mem_scan.mp inside
    have found : e.1 ∈ (c.find filter store).map Prod.fst ↔ c.passes filter e.2 = true := by
      constructor
      · intro listed
        obtain ⟨e', found, same⟩ := List.mem_map.mp listed
        obtain ⟨stored', passed⟩ := mem_find.mp found
        rw [same, stored] at stored'
        rw [Option.some.inj stored']
        exact passed
      · exact fun passed => List.mem_map.mpr ⟨e, mem_find.mpr ⟨stored, passed⟩, rfl⟩
    have same : decide (e.1 ∈ (c.find filter store).map Prod.fst) = c.passes filter e.2 := by
      rw [Bool.eq_iff_iff, decide_eq_true_iff]
      exact found
    rw [decide_not, same]

/-- The rows found and the rows left make up the table. -/
theorem length_deleteMany (c : DocumentCollection) (filter : Option (DocFilter F))
    (store : TableStore F) :
    ((c.deleteMany filter store).2.scan c.tableId).length + (c.find filter store).length =
      (store.scan c.tableId).length := by
  rw [(deleteMany_spec c filter store).2.1, find, Nat.add_comm]
  exact (List.length_eq_length_filter_add _).symm

section Histories

omit [Float64 F] in
theorem nextRowId_deleteEach (tableId : Nat) (rowIds : List Nat) (acc : Nat × TableStore F) :
    (deleteEach tableId rowIds acc).2.nextRowId = acc.2.nextRowId := by
  induction rowIds generalizing acc with
  | nil => rfl
  | cons rowId rowIds ih => exact ih _

/-- `delete_many` removes exactly what `find` finds, for every filter that looks afterwards,
leaves the other tables alone and gives no row id free again. -/
theorem deleteMany_removes_found (c : DocumentCollection) (filter : Option (DocFilter F))
    (store : TableStore F) :
    (c.deleteMany filter store).1 = (c.find filter store).length ∧
      c.find filter (c.deleteMany filter store).2 = [] ∧
      (∀ other : Option (DocFilter F), c.find other (c.deleteMany filter store).2 =
        (c.find other store).filter (fun e => !c.passes filter e.2)) ∧
      (∀ t, t ≠ c.tableId → (c.deleteMany filter store).2.scan t = store.scan t) ∧
      ∀ events, StoreHistory .new events store →
        ∀ events' later, StoreHistory (c.deleteMany filter store).2 events' later →
          ∀ (c' : DocumentCollection) (row : Row F),
            (c'.insertOne row later).1 ∉ insertedIds events ++ insertedIds events' := by
  obtain ⟨count, scanned, others⟩ := deleteMany_spec c filter store
  have found (other : Option (DocFilter F)) : c.find other (c.deleteMany filter store).2 =
      (c.find other store).filter (fun e => !c.passes filter e.2) := by
    rw [find, scanned, find, List.filter_filter, List.filter_filter]
    exact List.filter_congr (fun e _ => Bool.and_comm _ _)
  refine ⟨count, ?_, found, others, ?_⟩
  · rw [found filter, List.filter_eq_nil_iff]
    intro e inside
    rw [(mem_find.mp inside).2]
    exact Bool.false_ne_true
  · intro events history events' later history' c' row listed
    have between : (c.deleteMany filter store).2.nextRowId = store.nextRowId :=
      nextRowId_deleteEach c.tableId _ (0, store)
    have grown := (inserted_history history').2
    have next : (c'.insertOne row later).1 = later.nextRowId := rfl
    rw [next] at listed
    rcases List.mem_append.mp listed with early | late
    · have below := ((mem_insertedIds history).mp early).2
      omega
    · have below := ((mem_insertedIds history').mp late).2
      omega

end Histories

end DocumentCollection

end Collections
