import Mathlib.Algebra.Order.Group.Multiset
import RustafariDB.CollectionCalls

/-!
# Accounts of the row store

A row is stored under a table and a row id. An account of a store lists what was added since
a start, what was removed and which rows are promised a row id. The stored rows and the removed
ones are always the rows there were at the start and the added ones, no two with one row id.
-/

namespace RowAccounts

open Values RowStorage CollectionCalls
open TableHistories (Event StoreHistory exists_of_step)

variable {F : Type}

/-- A row under its table and its row id. -/
abbrev Entry (F : Type) := (Nat × Nat) × Row F

section Stored

def stored (store : TableStore F) : Multiset (Entry F) := ↑store.data.toList

def rowIds (rows : Multiset (Entry F)) : Multiset Nat := rows.map (fun e => e.1.2)

variable {store : TableStore F} {e : Entry F}

theorem mem_stored : e ∈ stored store ↔ store.get e.1.1 e.1.2 = some e.2 := by
  rw [stored, Multiset.mem_coe]
  exact Std.ExtTreeMap.mem_toList_iff_getElem?_eq_some

theorem nodup_stored (store : TableStore F) : (stored store).Nodup :=
  OrderedMaps.keySorted_nodup store.data.ordered_keys_toList

theorem mem_scan {t : Nat} {row : Nat × Row F} :
    row ∈ store.scan t ↔ ((t, row.1), row.2) ∈ stored store := by
  rw [TableStore.mem_scan, mem_stored]

theorem not_stored (absent : store.get e.1.1 e.1.2 = none) : e ∉ stored store := by
  intro inside
  rw [mem_stored, absent] at inside
  cases inside

theorem stored_put (absent : store.get e.1.1 e.1.2 = none) :
    stored (act (.putRow e.1.1 e.1.2 e.2) store).2 = e ::ₘ stored store := by
  refine (Multiset.Nodup.ext (nodup_stored _)
    (Multiset.nodup_cons.mpr ⟨not_stored absent, nodup_stored _⟩)).mpr (fun e' => ?_)
  have found : (act (.putRow e.1.1 e.1.2 e.2) store).2.get e'.1.1 e'.1.2 =
      if e.1 = e'.1 then some e.2 else store.get e'.1.1 e'.1.2 := by
    simp only [act, TableStore.get, Std.ExtTreeMap.getElem?_insert,
      Std.LawfulEqCmp.compare_eq_iff_eq]
  rw [mem_stored, found, Multiset.mem_cons, mem_stored]
  by_cases same : e.1 = e'.1
  · rw [if_pos same, ← same, absent]
    constructor
    · intro row
      exact .inl (Prod.ext same.symm (Option.some.inj row).symm)
    · rintro (rfl | row)
      · rfl
      · cases row
  · rw [if_neg same]
    constructor
    · exact .inr
    · rintro (rfl | row)
      · exact False.elim (same rfl)
      · exact row

theorem stored_delete (there : e ∈ stored store) :
    e ::ₘ stored (store.delete e.1.1 e.1.2).2 = stored store := by
  have absent : (store.delete e.1.1 e.1.2).2.get e.1.1 e.1.2 = none := by
    rw [TableStore.get_delete, if_pos rfl]
  refine (Multiset.Nodup.ext (Multiset.nodup_cons.mpr ⟨not_stored absent, nodup_stored _⟩)
    (nodup_stored _)).mpr (fun e' => ?_)
  rw [Multiset.mem_cons, mem_stored, mem_stored, TableStore.get_delete]
  rw [mem_stored] at there
  by_cases same : e.1 = e'.1
  · rw [if_pos same, ← same, there]
    constructor
    · rintro (rfl | row)
      · rfl
      · cases row
    · intro row
      exact .inl (Prod.ext same.symm (Option.some.inj row).symm)
  · rw [if_neg same]
    constructor
    · rintro (rfl | row)
      · exact False.elim (same rfl)
      · exact row
    · exact .inr

theorem stored_delete_absent {t rowId : Nat} (absent : store.get t rowId = none) :
    stored (store.delete t rowId).2 = stored store := by
  refine (Multiset.Nodup.ext (nodup_stored _) (nodup_stored _)).mpr (fun e => ?_)
  rw [mem_stored, mem_stored, TableStore.get_delete]
  split
  · rename_i same
    cases same
    rw [absent]
  · rfl

end Stored

section Accounts

/-- All rows there ever were are stored or removed; no two have one row id, and none has one
that is promised or still to come. -/
structure Accounted (start store : TableStore F)
    (added removed seen gone promised : Multiset (Entry F)) : Prop where
  balance : stored store + removed = stored start + added
  distinct : (rowIds (stored start + added + promised)).Nodup
  used : ∀ rowId ∈ rowIds (stored start + added + promised), rowId < store.nextRowId
  seen : ∀ e ∈ seen, e ∈ stored start + added
  gone : ∀ e ∈ gone, e ∈ removed

variable {start store : TableStore F} {e : Entry F}
variable {added removed seen gone promised : Multiset (Entry F)}

theorem Accounted.known (accounted : Accounted start store added removed seen gone promised) :
    e ∈ stored start + added ↔ e ∈ stored store ∨ e ∈ removed := by
  rw [← accounted.balance, Multiset.mem_add]

theorem Accounted.rowIds_nodup
    (accounted : Accounted start store added removed seen gone promised) :
    (rowIds (stored start + added)).Nodup := by
  have distinct := accounted.distinct
  rw [rowIds, Multiset.map_add] at distinct
  exact (Multiset.nodup_add.mp distinct).1

/-- A row id names one row. -/
theorem Accounted.unique (accounted : Accounted start store added removed seen gone promised)
    {e' : Entry F} (h : e ∈ stored start + added) (h' : e' ∈ stored start + added)
    (same : e.1.2 = e'.1.2) : e = e' :=
  Multiset.inj_on_of_nodup_map accounted.rowIds_nodup e h e' h' same

/-- Removed rows are not stored. -/
theorem Accounted.left (accounted : Accounted start store added removed seen gone promised)
    {t : Nat} {e : Nat × Row F} (inside : ((t, e.1), e.2) ∈ removed) :
    store.get t e.1 = none := by
  have distinct := accounted.rowIds_nodup
  rw [← accounted.balance, rowIds, Multiset.map_add] at distinct
  have apart := (Multiset.nodup_add.mp distinct).2.2
  have there := Multiset.mem_map_of_mem (fun e : Entry F => e.1.2) inside
  cases found : store.get t e.1 with
  | none => rfl
  | some row =>
    have here := Multiset.mem_map_of_mem (fun e => e.1.2)
      (mem_stored (e := ((t, e.1), row)).mpr found)
    exact False.elim (Multiset.disjoint_left.mp apart here there)

theorem accounted_nextRowId (accounted : Accounted start store added removed seen gone promised)
    (t : Nat) (row : Row F) :
    Accounted start (act .nextRowId store).2 added removed seen gone
      ({((t, store.nextRowId), row)} + promised) := by
  have ids : rowIds (stored start + added + ({((t, store.nextRowId), row)} + promised)) =
      store.nextRowId ::ₘ rowIds (stored start + added + promised) := by
    rw [add_left_comm, rowIds, Multiset.map_add]
    rfl
  refine ⟨accounted.balance, ?_, ?_, accounted.seen, accounted.gone⟩
  · rw [ids]
    refine Multiset.nodup_cons.mpr ⟨fun inside => ?_, accounted.distinct⟩
    exact Nat.lt_irrefl _ (accounted.used _ inside)
  · rw [ids]
    intro rowId inside
    change rowId < store.nextRowId + 1
    rcases Multiset.mem_cons.mp inside with newest | older
    · omega
    · have below := accounted.used rowId older
      omega

theorem accounted_putRow
    (accounted : Accounted start store added removed seen gone ({e} + promised)) :
    Accounted start (act (.putRow e.1.1 e.1.2 e.2) store).2 ({e} + added) removed seen gone
      promised := by
  have moved : stored start + ({e} + added) + promised =
      stored start + added + ({e} + promised) := by
    rw [add_left_comm, add_assoc, add_left_comm]
  have absent : store.get e.1.1 e.1.2 = none := by
    cases found : store.get e.1.1 e.1.2 with
    | none => rfl
    | some row =>
      have known := accounted.known.mpr (.inl (mem_stored (e := (e.1, row)).mpr found))
      have distinct := accounted.distinct
      rw [rowIds, Multiset.map_add] at distinct
      have mine : e ∈ {e} + promised :=
        Multiset.mem_add.mpr (.inl (Multiset.mem_singleton_self e))
      exact False.elim (Multiset.disjoint_left.mp (Multiset.nodup_add.mp distinct).2.2
        (Multiset.mem_map_of_mem (fun e => e.1.2) known)
        (Multiset.mem_map_of_mem (fun e => e.1.2) mine))
  refine ⟨?_, ?_, ?_, ?_, accounted.gone⟩
  · rw [stored_put absent, ← Multiset.singleton_add, add_assoc, accounted.balance, add_left_comm]
  · rw [moved]
    exact accounted.distinct
  · rw [moved]
    exact accounted.used
  · intro e' inside
    rw [add_left_comm]
    exact Multiset.mem_add.mpr (.inr (accounted.seen e' inside))

theorem accounted_seen (accounted : Accounted start store added removed seen gone promised)
    {rows : Multiset (Entry F)} (there : ∀ e ∈ rows, e ∈ stored store) :
    Accounted start store added removed (rows + seen) gone promised := by
  refine ⟨accounted.balance, accounted.distinct, accounted.used, ?_, accounted.gone⟩
  intro e inside
  rcases Multiset.mem_add.mp inside with here | before
  · exact accounted.known.mpr (.inl (there e here))
  · exact accounted.seen e before

theorem accounted_gone (accounted : Accounted start store added removed seen gone promised)
    {rows : Multiset (Entry F)} (known : ∀ e ∈ rows, e ∈ stored start + added)
    (absent : ∀ e ∈ rows, e ∉ stored store) :
    Accounted start store added removed seen (rows + gone) promised := by
  refine ⟨accounted.balance, accounted.distinct, accounted.used, accounted.seen, ?_⟩
  intro e inside
  rcases Multiset.mem_add.mp inside with here | before
  · exact (accounted.known.mp (known e here)).resolve_left (absent e here)
  · exact accounted.gone e before

/-- A row that was seen is removed as it was seen. -/
theorem accounted_delete (accounted : Accounted start store added removed seen gone promised)
    (saw : e ∈ seen) (there : (store.get e.1.1 e.1.2).isSome) :
    Accounted start (store.delete e.1.1 e.1.2).2 added ({e} + removed) seen gone promised := by
  obtain ⟨row, found⟩ := Option.isSome_iff_exists.mp there
  have inside := mem_stored (e := (e.1, row)).mpr found
  have same : (e.1, row) = e :=
    accounted.unique (accounted.known.mpr (.inl inside)) (accounted.seen e saw) rfl
  rw [same] at inside
  refine ⟨?_, accounted.distinct, accounted.used, accounted.seen, ?_⟩
  · rw [add_left_comm, ← add_assoc, Multiset.singleton_add, stored_delete inside]
    exact accounted.balance
  · exact fun e' before => Multiset.mem_add.mpr (.inr (accounted.gone e' before))

theorem accounted_delete_absent
    (accounted : Accounted start store added removed seen gone promised)
    (saw : e ∈ seen) (absent : store.get e.1.1 e.1.2 = none) :
    Accounted start (store.delete e.1.1 e.1.2).2 added removed seen ({e} + gone) promised := by
  have left : Accounted start store added removed seen ({e} + gone) promised := by
    refine accounted_gone accounted (fun e' same => ?_) (fun e' same => ?_)
    · rw [Multiset.mem_singleton.mp same]
      exact accounted.seen e saw
    · rw [Multiset.mem_singleton.mp same]
      exact not_stored absent
  refine ⟨?_, left.distinct, left.used, left.seen, left.gone⟩
  rw [stored_delete_absent absent]
  exact left.balance

end Accounts

section Histories

/-- A row id is in one table, and one that is still to come is in none. -/
def Distinct (store : TableStore F) : Prop :=
  ∀ t rowId, (store.get t rowId).isSome →
    rowId < store.nextRowId ∧ ∀ t', (store.get t' rowId).isSome → t = t'

variable {start store store' : TableStore F}

theorem distinct_of_fewer (distinct : Distinct store)
    (fewer : ∀ t rowId, (store'.get t rowId).isSome → (store.get t rowId).isSome)
    (counter : store'.nextRowId = store.nextRowId) : Distinct store' := by
  intro t rowId there
  obtain ⟨below, only⟩ := distinct t rowId (fewer t rowId there)
  rw [counter]
  exact ⟨below, fun t' there' => only t' (fewer t' rowId there')⟩

theorem distinct_insert (distinct : Distinct store) (tableId : Nat) (row : Row F) :
    Distinct (store.insert tableId row).2 := by
  have unused (t : Nat) : ¬(store.get t store.nextRowId).isSome := fun there =>
    Nat.lt_irrefl _ (distinct t store.nextRowId there).1
  have stored {t rowId : Nat} (there : ((store.insert tableId row).2.get t rowId).isSome) :
      t = tableId ∧ rowId = store.nextRowId ∨ (store.get t rowId).isSome := by
    rw [TableStore.get_insert] at there
    split at there
    · rename_i same
      exact .inl ⟨(congrArg Prod.fst same).symm, (congrArg Prod.snd same).symm⟩
    · exact .inr there
  intro t rowId there
  change rowId < store.nextRowId + 1 ∧ _
  rcases stored there with ⟨rfl, rfl⟩ | before
  · refine ⟨Nat.lt_succ_self _, fun t' there' => ?_⟩
    rcases stored there' with ⟨same, _⟩ | before
    · exact same.symm
    · exact False.elim (unused t' before)
  · obtain ⟨below, only⟩ := distinct t rowId before
    refine ⟨Nat.lt_succ_of_lt below, fun t' there' => ?_⟩
    rcases stored there' with ⟨_, rfl⟩ | before'
    · exact False.elim (unused t before)
    · exact only t' before'

theorem history_distinct {events : List (Event F)} (history : StoreHistory .new events store) :
    Distinct store := by
  induction history with
  | refl => exact fun t rowId there => by cases there
  | call history step ih =>
    cases step with
    | insert tableId row => exact distinct_insert ih tableId row
    | delete tableId rowId =>
      exact distinct_of_fewer ih (fun t r => exists_of_step (.delete _ tableId rowId) rfl) rfl
    | update tableId rowId row =>
      exact distinct_of_fewer ih (fun t r => exists_of_step (.update _ tableId rowId row) rfl)
        (TableStore.nextRowId_update _ _ row)
    | dropTable tableId =>
      refine distinct_of_fewer ih (fun t r there => ?_) rfl
      rw [TableStore.get_dropTable] at there
      split at there
      · cases there
      · exact there

theorem accounted_start {events : List (Event F)} (history : StoreHistory .new events start) :
    Accounted start start 0 0 0 0 0 := by
  have distinct := history_distinct history
  have there {e : Entry F} (inside : e ∈ stored start) : (start.get e.1.1 e.1.2).isSome := by
    rw [mem_stored.mp inside]
    rfl
  refine ⟨rfl, ?_, ?_, nofun, nofun⟩
  · rw [add_zero, add_zero]
    refine Multiset.Nodup.map_on (fun e inside e' inside' same => ?_) (nodup_stored start)
    have elsewhere := there inside'
    rw [← same] at elsewhere
    have key : e.1 = e'.1 := Prod.ext ((distinct _ _ (there inside)).2 _ elsewhere) same
    rw [mem_stored] at inside inside'
    rw [key, inside'] at inside
    exact Prod.ext key (Option.some.inj inside).symm
  · rw [add_zero, add_zero]
    intro rowId inside
    obtain ⟨e, stored, rfl⟩ := Multiset.mem_map.mp inside
    exact (distinct _ _ (there stored)).1

end Histories

end RowAccounts
