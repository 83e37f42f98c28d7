import RustafariDB.Collections
import RustafariDB.Interleavings

/-!
# Collection calls by store section

Collections share one store through an `Arc`. A call is the sequence of what it does to the
store in one piece: the row counter is an atomic of its own, taken before the lock of the
rows, and `delete_many` lets go of the rows between its scan and each delete. A call that is
not interrupted does what `Collections` has for it.
-/

namespace CollectionCalls

open Values RowStorage DocumentFilters Floats
open StatefulPrograms Interleavings Program
open Collections (DocumentCollection)

inductive StoreSection (F : Type) where
  | nextRowId
  | putRow (tableId rowId : Nat) (row : Row F)
  | scanRows (tableId : Nat)
  | deleteRow (tableId rowId : Nat)

variable {F : Type}

abbrev Answer : StoreSection F → Type
  | .nextRowId => Nat
  | .putRow _ _ _ => Unit
  | .scanRows _ => List (Nat × Row F)
  | .deleteRow _ _ => Bool

/-- One section on the shared store. -/
def act : (op : StoreSection F) → TableStore F → Answer op × TableStore F
  | .nextRowId, store => (store.nextRowId, { store with nextRowId := store.nextRowId + 1 })
  | .putRow t rowId row, store => ((), { store with data := store.data.insert (t, rowId) row })
  | .scanRows t, store => (store.scan t, store)
  | .deleteRow t rowId, store => store.delete t rowId

/-- Nothing a collection does returns an error. -/
abbrev Task (F α : Type) := Program (Answer (F := F)) Empty α

def insertOne (c : DocumentCollection) (row : Row F) : Task F Nat := do
  let rowId ← perform StoreSection.nextRowId
  perform (StoreSection.putRow c.tableId rowId row)
  return rowId

/-- The loop of `delete_many`. -/
def deleteEach (tableId : Nat) : List Nat → Nat → Task F Nat
  | [], n => pure n
  | rowId :: rowIds, n => do
    let deleted : Bool ← perform (StoreSection.deleteRow tableId rowId)
    deleteEach tableId rowIds (if deleted then n + 1 else n)

variable [Float64 F]

def find (c : DocumentCollection) (filter : Option (DocFilter F)) :
    Task F (List (Nat × Row F)) := do
  let rows : List (Nat × Row F) ← perform (StoreSection.scanRows c.tableId)
  return rows.filter (fun e => c.passes filter e.2)

def findOne (c : DocumentCollection) (filter : Option (DocFilter F)) :
    Task F (Option (Nat × Row F)) := do
  let rows ← find c filter
  return rows.head?

def deleteMany (c : DocumentCollection) (filter : Option (DocFilter F)) : Task F Nat := do
  let toDelete ← find c filter
  deleteEach c.tableId (toDelete.map Prod.fst) 0

section Uninterrupted
variable {c : DocumentCollection} {filter : Option (DocFilter F)}

omit [Float64 F] in
theorem alone_insertOne (row : Row F) (store : TableStore F) :
    alone act (insertOne c row) store =
      .ok (c.insertOne row store).1 (c.insertOne row store).2 := rfl

theorem alone_find (store : TableStore F) :
    alone act (find c filter) store = .ok (c.find filter store) store := rfl

theorem alone_findOne (store : TableStore F) :
    alone act (findOne c filter) store = .ok (c.findOne filter store) store := rfl

omit [Float64 F] in
theorem alone_deleteEach (tableId : Nat) (rowIds : List Nat) (n : Nat) (store : TableStore F) :
    alone act (deleteEach tableId rowIds n) store =
      .ok (Collections.deleteEach tableId rowIds (n, store)).1
        (Collections.deleteEach tableId rowIds (n, store)).2 := by
  induction rowIds generalizing n store with
  | nil => rfl
  | cons rowId rowIds ih =>
    rw [deleteEach]
    exact ih (if (store.delete tableId rowId).1 then n + 1 else n) (store.delete tableId rowId).2

theorem alone_deleteMany (store : TableStore F) :
    alone act (deleteMany c filter) store =
      .ok (c.deleteMany filter store).1 (c.deleteMany filter store).2 :=
  alone_deleteEach c.tableId ((c.find filter store).map Prod.fst) 0 store

end Uninterrupted

section Calls

/-- A call on a collection of the store. -/
inductive Call (F : Type) where
  | insertOne (c : DocumentCollection) (row : Row F)
  | find (c : DocumentCollection) (filter : Option (DocFilter F))
  | findOne (c : DocumentCollection) (filter : Option (DocFilter F))
  | deleteMany (c : DocumentCollection) (filter : Option (DocFilter F))

inductive Reply (F : Type) where
  | rowId (rowId : Nat)
  | rows (rows : List (Nat × Row F))
  | row (row : Option (Nat × Row F))
  | deleted (n : Nat)

/-- What a call does, with its result as a reply. -/
def task : Call F → Task F (Reply F)
  | .insertOne c row => Reply.rowId <$> insertOne c row
  | .find c filter => Reply.rows <$> find c filter
  | .findOne c filter => Reply.row <$> findOne c filter
  | .deleteMany c filter => Reply.deleted <$> deleteMany c filter

/-- Calls under way on one store. -/
abbrev CallPool (F : Type) := Pool (Answer (F := F)) (TableStore F) Empty (Reply F)

end Calls

end CollectionCalls
