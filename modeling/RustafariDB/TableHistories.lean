import RustafariDB.RowStorage

/-!
# Histories of a row store

Every table is a map of its own that only its own calls change, although all tables share one
map and one counter. Ids are numbers here; the code's are words, and neither the ids handed
out nor the end of a table's key interval overflow before the highest word.
-/

namespace TableHistories

open Values RowStorage

variable {F : Type}

/-- A writing call with its answer. -/
inductive Event (F : Type) where
  | insert (tableId : Nat) (row : Row F) (rowId : Nat)
  | update (tableId rowId : Nat) (row : Row F) (found : Bool)
  | delete (tableId rowId : Nat) (found : Bool)
  | dropTable (tableId : Nat)

namespace Event

def tableId : Event F → Nat
  | .insert tableId _ _ | .update tableId _ _ _ | .delete tableId _ _ | .dropTable tableId =>
    tableId

/-- The id handed out. -/
def inserted : Event F → Option Nat
  | .insert _ _ rowId => some rowId
  | _ => none

/-- The row looked for, and whether it was there. -/
def looked : Event F → Option (Nat × Bool)
  | .update _ rowId _ found | .delete _ rowId found => some (rowId, found)
  | _ => none

/-- The rows of the table of the call after it. -/
def change (rows : Nat → Option (Row F)) : Event F → Nat → Option (Row F)
  | .insert _ row rowId => Function.update rows rowId (some row)
  | .update _ rowId row _ => Function.update rows rowId ((rows rowId).map (fun _ => row))
  | .delete _ rowId _ => Function.update rows rowId none
  | .dropTable _ => fun _ => none

end Event

/-- The rows of a table after its own calls; the other calls are not read. -/
def rowsAfter (tableId : Nat) (events : List (Event F)) : Nat → Option (Row F) :=
  (events.filter (fun e => e.tableId = tableId)).foldl Event.change (fun _ => none)

/-- One writing call on the store. -/
inductive StoreStep : TableStore F → Event F → TableStore F → Prop where
  | insert (store : TableStore F) (tableId : Nat) (row : Row F) :
      StoreStep store (.insert tableId row (store.insert tableId row).1)
        (store.insert tableId row).2
  | update (store : TableStore F) (tableId rowId : Nat) (row : Row F) :
      StoreStep store (.update tableId rowId row (store.update tableId rowId row).1)
        (store.update tableId rowId row).2
  | delete (store : TableStore F) (tableId rowId : Nat) :
      StoreStep store (.delete tableId rowId (store.delete tableId rowId).1)
        (store.delete tableId rowId).2
  | dropTable (store : TableStore F) (tableId : Nat) :
      StoreStep store (.dropTable tableId) (store.dropTable tableId)

/-- The writing calls made since a start. -/
inductive StoreHistory (start : TableStore F) : List (Event F) → TableStore F → Prop where
  | refl : StoreHistory start [] start
  | call {events : List (Event F)} {event : Event F} {store store' : TableStore F}
      (history : StoreHistory start events store) (step : StoreStep store event store') :
      StoreHistory start (events ++ [event]) store'

/-- The row ids handed out. -/
def insertedIds (events : List (Event F)) : List Nat := events.filterMap Event.inserted

variable {events : List (Event F)} {event : Event F} {start store store' : TableStore F}

section Steps

theorem ite_row {α : Type} (tableId rowId r : Nat) (a b : α) :
    (if (tableId, rowId) = (tableId, r) then a else b) = if r = rowId then a else b := by
  refine if_congr ⟨fun same => (Prod.mk.inj same).2.symm, ?_⟩ rfl rfl
  rintro rfl
  rfl

/-- A call changes the rows of its own table. -/
theorem get_step_own (step : StoreStep store event store') :
    store'.get event.tableId = event.change (store.get event.tableId) := by
  funext r
  cases step with
  | insert tableId row =>
    rw [Event.tableId, TableStore.get_insert, ite_row, Event.change, Function.update_apply]
    rfl
  | update tableId rowId row =>
    rw [Event.tableId, TableStore.get_update, ite_row, Event.change, Function.update_apply]
    by_cases here : r = rowId
    · rw [if_pos here, if_pos here, here]
    · rw [if_neg here, if_neg here]
  | delete tableId rowId =>
    rw [Event.tableId, TableStore.get_delete, ite_row, Event.change, Function.update_apply]
  | dropTable tableId => rw [Event.tableId, TableStore.get_dropTable, if_pos rfl, Event.change]

/-- And no other. -/
theorem get_step_other (step : StoreStep store event store') {t : Nat}
    (other : t ≠ event.tableId) : store'.get t = store.get t := by
  have key (tableId : Nat) (other : t ≠ tableId) (rowId r : Nat) : (tableId, rowId) ≠ (t, r) :=
    fun same => other (Prod.mk.inj same).1.symm
  funext r
  cases step with
  | insert tableId row => rw [TableStore.get_insert, if_neg (key tableId other _ _)]
  | update tableId rowId row => rw [TableStore.get_update, if_neg (key tableId other _ _)]
  | delete tableId rowId => rw [TableStore.get_delete, if_neg (key tableId other _ _)]
  | dropTable tableId => exact (TableStore.get_dropTable store tableId t r).trans (if_neg other)

theorem update_fst (store : TableStore F) (tableId rowId : Nat) (row : Row F) :
    (store.update tableId rowId row).1 = (store.get tableId rowId).isSome := by
  rw [TableStore.update]
  cases store.get tableId rowId <;> rfl

/-- A row is found where it is. -/
theorem found_iff (step : StoreStep store event store') {rowId : Nat} {found : Bool}
    (looked : event.looked = some (rowId, found)) :
    found = true ↔ (store.get event.tableId rowId).isSome = true := by
  cases step with
  | insert tableId row => cases looked
  | update tableId rowId row =>
    cases looked
    rw [update_fst]
    rfl
  | delete tableId rowId =>
    cases looked
    rfl
  | dropTable tableId => cases looked

/-- A call that looks for a row makes none. -/
theorem isSome_of_looked {rows : Nat → Option (Row F)} {looked : Nat × Bool}
    (looks : event.looked = some looked) {r : Nat} (there : (event.change rows r).isSome = true) :
    (rows r).isSome = true := by
  cases event with
  | insert => cases looks
  | update tableId rowId row found =>
    rw [Event.change, Function.update_apply] at there
    by_cases here : r = rowId
    · rw [if_pos here, Option.isSome_map] at there
      rw [here]
      exact there
    · rwa [if_neg here] at there
  | delete tableId rowId found =>
    rw [Event.change, Function.update_apply] at there
    by_cases here : r = rowId
    · rw [if_pos here] at there
      cases there
    · rwa [if_neg here] at there
  | dropTable => cases looks

theorem exists_of_step (step : StoreStep store event store') {looked : Nat × Bool}
    (looks : event.looked = some looked) {t r : Nat} (there : (store'.get t r).isSome = true) :
    (store.get t r).isSome = true := by
  by_cases own : t = event.tableId
  · subst own
    rw [get_step_own step] at there
    exact isSome_of_looked looks there
  · rwa [get_step_other step own] at there

end Steps

section Histories

theorem rowsAfter_append (t : Nat) (events : List (Event F)) (event : Event F) :
    rowsAfter t (events ++ [event]) =
      if event.tableId = t then event.change (rowsAfter t events) else rowsAfter t events := by
  rw [rowsAfter, List.filter_append, List.foldl_append]
  by_cases own : event.tableId = t
  · rw [if_pos own, List.filter_cons_of_pos (by exact decide_eq_true own)]
    rfl
  · rw [if_neg own, List.filter_cons_of_neg (by simpa using own)]
    rfl

/-- Every table has the rows of its own calls. -/
theorem get_history (history : StoreHistory .new events store) (t : Nat) :
    store.get t = rowsAfter t events := by
  induction history with
  | refl =>
    funext r
    exact Std.ExtTreeMap.getElem?_empty
  | @call events event store store' history step ih =>
    rw [rowsAfter_append, ← ih]
    by_cases own : event.tableId = t
    · rw [if_pos own, ← own, get_step_own step]
    · rw [if_neg own, get_step_other step (Ne.symm own)]

/-- The counter runs through the ids that a history hands out, in order. -/
theorem inserted_history (history : StoreHistory start events store) :
    insertedIds events = List.range' start.nextRowId (store.nextRowId - start.nextRowId) ∧
      start.nextRowId ≤ store.nextRowId := by
  induction history with
  | refl =>
    rw [Nat.sub_self]
    exact ⟨rfl, Nat.le_refl _⟩
  | @call events event store store' history step ih =>
    obtain ⟨ids, grown⟩ := ih
    rw [insertedIds] at ids ⊢
    rw [List.filterMap_append, ids]
    cases step with
    | insert tableId row =>
      have next : (store.insert tableId row).2.nextRowId = store.nextRowId + 1 := rfl
      have here : start.nextRowId + (store.nextRowId - start.nextRowId) = store.nextRowId := by
        omega
      rw [next, Nat.sub_add_comm grown, List.range'_1_concat, here]
      exact ⟨rfl, by omega⟩
    | update tableId rowId row =>
      rw [TableStore.nextRowId_update]
      exact ⟨List.append_nil _, grown⟩
    | delete tableId rowId => exact ⟨List.append_nil _, grown⟩
    | dropTable tableId => exact ⟨List.append_nil _, grown⟩

/-- The ids of a history lie between the counter before and the counter after it. -/
theorem mem_insertedIds (history : StoreHistory start events store) {rowId : Nat} :
    rowId ∈ insertedIds events ↔ start.nextRowId ≤ rowId ∧ rowId < store.nextRowId := by
  obtain ⟨ids, grown⟩ := inserted_history history
  rw [ids, List.mem_range'_1]
  omega

/-- A store behaves as a map for each table, over every history. -/
theorem independent_tables (history : StoreHistory .new events store) :
    (insertedIds events).Pairwise (· < ·) ∧
    (∀ t r, store.get t r = rowsAfter t events r) ∧
    (∀ t, (store.scan t).Pairwise (fun a b => a.1 < b.1) ∧
      ∀ e, e ∈ store.scan t ↔ rowsAfter t events e.1 = some e.2) ∧
    ∀ event store', StoreStep store event store' →
      (∀ rowId found, event.looked = some (rowId, found) →
        (found = true ↔ (store.get event.tableId rowId).isSome = true) ∧
          ∀ t r, (store'.get t r).isSome = true → (store.get t r).isSome = true) ∧
      ∀ t, t ≠ event.tableId →
        (∀ r, store'.get t r = store.get t r) ∧ store'.scan t = store.scan t := by
  refine ⟨?_, fun t r => ?_, fun t => ⟨TableStore.scan_sorted store t, fun e => ?_⟩,
    fun event store' step => ⟨fun rowId found looked => ⟨found_iff step looked, fun t r => ?_⟩,
      fun t other => ?_⟩⟩
  · rw [(inserted_history history).1]
    exact List.pairwise_lt_range'
  · rw [get_history history]
  · rw [TableStore.mem_scan, get_history history]
  · exact exists_of_step step looked
  · have same (r : Nat) : store'.get t r = store.get t r := by rw [get_step_other step other]
    exact ⟨same, TableStore.scan_congr same⟩

/-- Two tables get a row each, and the first table is dropped. -/
def secondTable : TableStore Float :=
  ((TableStore.new.insert 1 ⟨[.int64 7]⟩).2.insert 2 ⟨[.int64 8]⟩).2.dropTable 1

theorem independent_tables_second :
    secondTable.get 2 1 = some ⟨[.int64 8]⟩ ∧ secondTable.get 1 0 = none := by
  have maps := independent_tables (.call (.call (.call .refl (.insert .new 1 ⟨[.int64 7]⟩))
    (.insert _ 2 ⟨[.int64 8]⟩)) (.dropTable _ 1) : StoreHistory .new _ secondTable)
  exact ⟨maps.2.1 2 1, maps.2.1 1 0⟩

end Histories

end TableHistories
