import Mathlib.Algebra.BigOperators.Pi
import Mathlib.Algebra.Order.BigOperators.Group.List
import Mathlib.Data.Multiset.OrderedMonoid
import RustafariDB.RowAccounts

/-!
# What concurrent collection calls did

Between two sections a call on a collection holds the rows it has stored or removed, what it
has seen in the store and what it knows to have left it. Together the calls keep the account
of the store, and a call returns with the receipt for its part of it.
-/

namespace DocumentAccounts

open Values RowStorage DocumentFilters Floats
open Interleavings CollectionCalls RowAccounts
open Collections (DocumentCollection)
open TableHistories (Event StoreHistory)

variable {F : Type}

section Stakes

/-- What a call may hold of the account. -/
inductive Part where
  | added | removed | seen | gone | promised
  deriving DecidableEq

abbrev Stake (F : Type) := Part → Multiset (Entry F)

/-- Rows written down under one part. -/
def note (part : Part) (rows : Multiset (Entry F)) : Stake F :=
  fun part' => if part' = part then rows else 0

@[simp] theorem note_same (part : Part) (rows : Multiset (Entry F)) :
    note part rows part = rows := if_pos rfl

@[simp] theorem note_other {part part' : Part} (other : part' ≠ part)
    (rows : Multiset (Entry F)) : note part rows part' = 0 := if_neg other

def account (start : TableStore F) : Protocol (StoreSection F) (TableStore F) (Stake F) where
  inv _ store g :=
    Accounted start store (g .added) (g .removed) (g .seen) (g .gone) (g .promised)
  allows _ _ _ _ _ := True
  shows _ _ := True

variable {start : TableStore F} {i : Nat}

theorem keeps_insertOne (c : DocumentCollection) (row : Row F) :
    Keeps act (account start) i
      (fun result g => ∃ rowId, result = .ok rowId ∧
        g = note .added {((c.tableId, rowId), row)})
      (insertOne c row) 0 := by
  refine keeps_perform_bind trivial (fun history store rest accounted _ => ?_)
  refine ⟨note .promised {((c.tableId, store.nextRowId), row)}, ?_, trivial, ?_⟩
  · simpa [account] using accounted_nextRowId accounted c.tableId row
  · intro history' store' rest' accounted' _
    refine ⟨note .added {((c.tableId, store.nextRowId), row)}, ?_, _, rfl, rfl⟩
    have promised : Accounted start store' (rest' .added) (rest' .removed) (rest' .seen)
        (rest' .gone) ({((c.tableId, store.nextRowId), row)} + rest' .promised) := by
      simpa [account] using accounted'
    change Accounted start (act (.putRow c.tableId store.nextRowId row) store').2 _ _ _ _ _
    simpa using accounted_putRow promised

/-- One call of the store's `delete`, for a row that was seen. -/
theorem keeps_deleteRow {e : Entry F} {g : Stake F} (saw : e ∈ g .seen)
    {post : Except Empty Nat → Stake F → Prop} {next : Bool → Task F Nat}
    (gone : Keeps act (account start) i post (next true) (note .removed {e} + g))
    (missed : Keeps act (account start) i post (next false) (note .gone {e} + g)) :
    Keeps act (account start) i post
      (Program.perform (StoreSection.deleteRow e.1.1 e.1.2) >>= next) g := by
  refine keeps_perform_bind trivial (fun history store rest accounted _ => ?_)
  have total : Accounted start store (g .added + rest .added) (g .removed + rest .removed)
    (g .seen + rest .seen) (g .gone + rest .gone) (g .promised + rest .promised) := accounted
  have saw' : e ∈ g .seen + rest .seen := Multiset.mem_add.mpr (.inl saw)
  have answer : (act (.deleteRow e.1.1 e.1.2) store).1 = (store.get e.1.1 e.1.2).isSome := rfl
  cases found : store.get e.1.1 e.1.2 with
  | some row =>
    rw [answer, found]
    refine ⟨note .removed {e} + g, ?_, gone⟩
    have left := accounted_delete total saw' (by rw [found]; rfl)
    change Accounted start (store.delete e.1.1 e.1.2).2 _ _ _ _ _
    simpa [add_assoc] using left
  | none =>
    rw [answer, found]
    refine ⟨note .gone {e} + g, ?_, missed⟩
    change Accounted start (store.delete e.1.1 e.1.2).2 _ _ _ _ _
    simpa [add_assoc] using accounted_delete_absent total saw' found

/-- The loop of `delete_many`: what it was to delete it has removed, and counted, or found
gone. -/
theorem keeps_deleteEach (t : Nat) (rows : List (Entry F)) (same : ∀ e ∈ rows, e.1.1 = t)
    (n : Nat) {g : Stake F} (saw : ∀ e ∈ rows, e ∈ g .seen) :
    Keeps act (account start) i
      (fun result g' => ∃ taken missed : Multiset (Entry F), taken + missed = ↑rows ∧
        result = .ok (n + taken.card) ∧ g' .added = g .added ∧
        g' .removed = taken + g .removed ∧ g' .gone = missed + g .gone)
      (deleteEach t (rows.map (fun e => e.1.2)) n) g := by
  induction rows generalizing n g with
  | nil => exact ⟨0, 0, rfl, rfl, rfl, (zero_add _).symm, (zero_add _).symm⟩
  | cons e rows ih =>
    obtain ⟨rfl, others⟩ := List.forall_mem_cons.mp same
    obtain ⟨first, later⟩ := List.forall_mem_cons.mp saw
    rw [List.map_cons, deleteEach]
    refine keeps_deleteRow first ?_ ?_
    · have onward := ih others (n + 1) (g := note .removed {e} + g)
        (fun e' inside => by simpa using later e' inside)
      refine keeps_mono (fun result g' => ?_) onward
      rintro ⟨taken, missed, all, count, added, removed, gone⟩
      refine ⟨e ::ₘ taken, missed, ?_, ?_, by simpa using added, ?_, by simpa using gone⟩
      · rw [Multiset.cons_add, all, Multiset.cons_coe]
      · rw [count, Multiset.card_cons, add_right_comm, add_assoc]
      · rw [removed, Pi.add_apply, note_same, Multiset.singleton_add, Multiset.add_cons,
          Multiset.cons_add]
    · have onward := ih others n (g := note .gone {e} + g)
        (fun e' inside => by simpa using later e' inside)
      refine keeps_mono (fun result g' => ?_) onward
      rintro ⟨taken, missed, all, count, added, removed, gone⟩
      refine ⟨taken, e ::ₘ missed, ?_, count, by simpa using added, by simpa using removed, ?_⟩
      · rw [Multiset.add_cons, all, Multiset.cons_coe]
      · rw [gone, Pi.add_apply, note_same, Multiset.singleton_add, Multiset.add_cons,
          Multiset.cons_add]

variable [Float64 F]

/-- What `find` knows of its rows: it has seen them, and every other row of the start that
passes was gone before. -/
structure Found (start : TableStore F) (c : DocumentCollection) (filter : Option (DocFilter F))
    (rows : List (Nat × Row F)) (g : Stake F) : Prop where
  added : g .added = 0
  removed : g .removed = 0
  sorted : rows.Pairwise (fun a b => a.1 < b.1)
  passed : ∀ e ∈ rows, c.passes filter e.2 = true
  seen : ∀ e ∈ rows, ((c.tableId, e.1), e.2) ∈ g .seen
  rest : ∀ e : Nat × Row F, start.get c.tableId e.1 = some e.2 → c.passes filter e.2 = true →
    e ∈ rows ∨ ((c.tableId, e.1), e.2) ∈ g .gone

theorem keeps_find (c : DocumentCollection) (filter : Option (DocFilter F)) :
    Keeps act (account start) i
      (fun result g => ∃ rows, result = .ok rows ∧ Found start c filter rows g)
      (find c filter) 0 := by
  classical
  refine keeps_perform_bind trivial (fun history store rest accounted _ => ?_)
  have total : Accounted start store (rest .added) (rest .removed) (rest .seen) (rest .gone)
    (rest .promised) := by simpa [account] using accounted
  let rows := c.find filter store
  let saw : Multiset (Entry F) := ↑(rows.map (fun e => ((c.tableId, e.1), e.2)))
  let missed := (stored start).filter (fun e => e ∉ stored store)
  have there : ∀ e ∈ saw, e ∈ stored store := by
    intro e inside
    obtain ⟨e', listed, rfl⟩ := List.mem_map.mp (Multiset.mem_coe.mp inside)
    exact mem_scan.mp (List.mem_of_mem_filter listed)
  have looked : Accounted start store (rest .added) (rest .removed) (saw + rest .seen)
      (missed + rest .gone) (rest .promised) := by
    refine accounted_gone (accounted_seen total there) (fun e inside => ?_) (fun e inside => ?_)
    · exact Multiset.mem_add.mpr (.inl (Multiset.mem_of_mem_filter inside))
    · exact (Multiset.mem_filter.mp inside).2
  refine ⟨note .seen saw + note .gone missed, ?_, rows, rfl, ?_⟩
  · change Accounted start store _ _ _ _ _
    simpa using looked
  · refine ⟨by simp, by simp, (TableStore.scan_sorted store c.tableId).filter _, ?_, ?_, ?_⟩
    · exact fun e inside => (List.mem_filter.mp inside).2
    · intro e inside
      have listed : ((c.tableId, e.1), e.2) ∈ saw := Multiset.mem_coe.mpr
        (List.mem_map_of_mem (f := fun e => ((c.tableId, e.1), e.2)) inside)
      simpa using listed
    · intro e begun passed
      by_cases still : ((c.tableId, e.1), e.2) ∈ stored store
      · exact .inl (List.mem_filter.mpr ⟨mem_scan.mpr still, passed⟩)
      · have left : ((c.tableId, e.1), e.2) ∈ missed :=
          Multiset.mem_filter.mpr ⟨mem_stored.mpr begun, still⟩
        exact .inr (by simpa using left)

/-- What `delete_many` knows when it returns. -/
structure Cleared (start : TableStore F) (c : DocumentCollection) (filter : Option (DocFilter F))
    (n : Nat) (g : Stake F) : Prop where
  added : g .added = 0
  counted : (g .removed).card = n
  passed : ∀ e ∈ g .removed, e.1.1 = c.tableId ∧ c.passes filter e.2 = true
  rest : ∀ e : Nat × Row F, start.get c.tableId e.1 = some e.2 → c.passes filter e.2 = true →
    ((c.tableId, e.1), e.2) ∈ g .removed ∨ ((c.tableId, e.1), e.2) ∈ g .gone

theorem keeps_deleteMany (c : DocumentCollection) (filter : Option (DocFilter F)) :
    Keeps act (account start) i
      (fun result g => ∃ n, result = .ok n ∧ Cleared start c filter n g)
      (deleteMany c filter) 0 := by
  refine keeps_bind (keeps_find c filter) ?_ (fun e g => by rintro ⟨_, ⟨⟩, _⟩)
  rintro rows g ⟨_, ⟨⟩, found⟩
  let listed : List (Entry F) := rows.map (fun e => ((c.tableId, e.1), e.2))
  have ids : rows.map Prod.fst = listed.map (fun e => e.1.2) := by
    rw [List.map_map]
    rfl
  have each {Q : Entry F → Prop} (holds : ∀ e ∈ rows, Q ((c.tableId, e.1), e.2)) :
      ∀ e ∈ listed, Q e := List.forall_mem_map.mpr holds
  rw [ids]
  refine keeps_mono (fun result g' => ?_)
    (keeps_deleteEach c.tableId listed (each (fun _ _ => rfl)) 0 (each found.seen))
  rintro ⟨taken, missed, all, count, added, removed, gone⟩
  rw [found.removed, add_zero] at removed
  refine ⟨taken.card, by rw [count, Nat.zero_add], ?_, by rw [removed], ?_, ?_⟩
  · rw [added, found.added]
  · intro e inside
    have among : e ∈ listed := by
      rw [← Multiset.mem_coe, ← all, ← removed]
      exact Multiset.mem_add.mpr (.inl inside)
    exact each (Q := fun e => e.1.1 = c.tableId ∧ c.passes filter e.2 = true)
      (fun e inside => ⟨rfl, found.passed e inside⟩) e among
  · intro e begun passed
    rw [removed, gone]
    rcases found.rest e begun passed with inside | before
    · have among : ((c.tableId, e.1), e.2) ∈ taken + missed := by
        rw [all]
        exact Multiset.mem_coe.mpr
          (List.mem_map_of_mem (f := fun e => ((c.tableId, e.1), e.2)) inside)
      rcases Multiset.mem_add.mp among with mine | other
      · exact .inl mine
      · exact .inr (Multiset.mem_add.mpr (.inl other))
    · exact .inr (Multiset.mem_add.mpr (.inr before))

/-- The stake with which a call returns. -/
def Returns (start : TableStore F) : Call F → Except Empty (Reply F) → Stake F → Prop
  | .insertOne c row, .ok (.rowId rowId), g => g = note .added {((c.tableId, rowId), row)}
  | .find c filter, .ok (.rows rows), g => Found start c filter rows g
  | .findOne c filter, .ok (.row row), g => ∃ rows, row = rows.head? ∧ Found start c filter rows g
  | .deleteMany c filter, .ok (.deleted n), g => Cleared start c filter n g
  | _, _, _ => False

theorem settles_task (call : Call F) :
    Settles act (account start) i (Returns start call) (task call) 0 := by
  cases call with
  | insertOne c row =>
    refine keeps_map (keeps_mono (fun result g => ?_) (keeps_insertOne c row))
    rintro ⟨rowId, rfl, rfl⟩
    exact ⟨trivial, rfl⟩
  | find c filter =>
    refine keeps_map (keeps_mono (fun result g => ?_) (keeps_find c filter))
    rintro ⟨rows, rfl, found⟩
    exact ⟨trivial, found⟩
  | findOne c filter =>
    refine keeps_map (keeps_bind (keeps_find c filter) ?_ (fun e g => by rintro ⟨_, ⟨⟩, _⟩))
    rintro rows g ⟨_, ⟨⟩, found⟩
    exact keeps_pure ⟨trivial, rows, rfl, found⟩
  | deleteMany c filter =>
    refine keeps_map (keeps_mono (fun result g => ?_) (keeps_deleteMany c filter))
    rintro ⟨n, rfl, cleared⟩
    exact ⟨trivial, cleared⟩

end Stakes

section Receipts

/-- What a call replied, and what it put into the store and took out of it. -/
structure Receipt (F : Type) where
  call : Call F
  reply : Reply F
  added : Multiset (Entry F)
  removed : Multiset (Entry F)

variable [Float64 F]

/-- Rows for a `find`: rows there were that pass, in row order, with all that pass and were
there throughout. -/
structure Shows (start last : TableStore F) (known : Multiset (Entry F))
    (c : DocumentCollection) (filter : Option (DocFilter F)) (rows : List (Nat × Row F)) :
    Prop where
  sorted : rows.Pairwise (fun a b => a.1 < b.1)
  passed : ∀ e ∈ rows, c.passes filter e.2 = true
  known : ∀ e ∈ rows, ((c.tableId, e.1), e.2) ∈ known
  stayed : ∀ e : Nat × Row F, start.get c.tableId e.1 = some e.2 →
    last.get c.tableId e.1 = some e.2 → c.passes filter e.2 = true → e ∈ rows

/-- A reply that agrees with what the call did. -/
def Receipt.Honest (start last : TableStore F) (known : Multiset (Entry F)) (r : Receipt F) :
    Prop :=
  match r.call, r.reply with
  | .insertOne c row, .rowId rowId => r.added = {((c.tableId, rowId), row)} ∧ r.removed = 0
  | .find c filter, .rows rows =>
    r.added = 0 ∧ r.removed = 0 ∧ Shows start last known c filter rows
  | .findOne c filter, .row row =>
    r.added = 0 ∧ r.removed = 0 ∧ ∃ rows, row = rows.head? ∧ Shows start last known c filter rows
  | .deleteMany c filter, .deleted n =>
    r.added = 0 ∧ r.removed.card = n ∧
      (∀ e ∈ r.removed, e.1.1 = c.tableId ∧ c.passes filter e.2 = true) ∧
      ∀ e : Nat × Row F, start.get c.tableId e.1 = some e.2 → c.passes filter e.2 = true →
        last.get c.tableId e.1 = none
  | _, _ => False

section Reading
variable {start last : TableStore F} {added removed seen gone promised : Multiset (Entry F)}
variable {c : DocumentCollection} {filter : Option (DocFilter F)} {g : Stake F}

theorem shows_of_found {rows : List (Nat × Row F)} (found : Found start c filter rows g)
    (accounted : Accounted start last added removed seen gone promised)
    (saw : ∀ e ∈ g .seen, e ∈ seen) (left : ∀ e ∈ g .gone, e ∈ gone) :
    Shows start last (stored start + added) c filter rows := by
  refine ⟨found.sorted, found.passed, ?_, ?_⟩
  · exact fun e inside => accounted.seen _ (saw _ (found.seen e inside))
  · intro e begun still passed
    refine (found.rest e begun passed).resolve_right (fun before => ?_)
    have absent := accounted.left (accounted.gone _ (left _ before))
    rw [absent] at still
    cases still

/-- The receipt of a call that has returned with its stake. -/
def receipt (call : Call F) (result : Except Empty (Reply F)) (g : Stake F) : Receipt F where
  call := call
  reply := match result with
    | .ok reply => reply
    | .error e => e.elim
  added := g .added
  removed := g .removed

theorem honest_of_returns {call : Call F} {result : Except Empty (Reply F)}
    (returns : Returns start call result g)
    (accounted : Accounted start last added removed seen gone promised)
    (saw : ∀ e ∈ g .seen, e ∈ seen) (left : ∀ e ∈ g .gone, e ∈ gone)
    (took : ∀ e ∈ g .removed, e ∈ removed) :
    (receipt call result g).Honest start last (stored start + added) := by
  cases result with
  | error e => exact e.elim
  | ok reply =>
    cases call with
    | insertOne c row =>
      cases reply with
      | rowId rowId =>
        obtain rfl : g = note .added {((c.tableId, rowId), row)} := returns
        exact ⟨by simp [receipt], by simp [receipt]⟩
      | _ => exact False.elim returns
    | find c filter =>
      cases reply with
      | rows rows =>
        have found : Found start c filter rows g := returns
        exact ⟨found.added, found.removed, shows_of_found found accounted saw left⟩
      | _ => exact False.elim returns
    | findOne c filter =>
      cases reply with
      | row row =>
        obtain ⟨rows, first, found⟩ := returns
        exact ⟨found.added, found.removed, rows, first, shows_of_found found accounted saw left⟩
      | _ => exact False.elim returns
    | deleteMany c filter =>
      cases reply with
      | deleted n =>
        have cleared : Cleared start c filter n g := returns
        refine ⟨cleared.added, cleared.counted, cleared.passed, fun e begun passed => ?_⟩
        rcases cleared.rest e begun passed with mine | before
        · exact accounted.left (took _ mine)
        · exact accounted.left (accounted.gone _ (left _ before))
      | _ => exact False.elim returns

end Reading

section Runs
variable {start : TableStore F}

/-- Calls on the collections of one store, in any interleaving. When all have returned every
row is accounted for: what is stored and what was removed are the rows of the start and the
inserted ones, under row ids of their own. Each `delete_many` has counted the rows that it
removed itself, which pass its filter, and no row of the start that passes is left; each
`find` has all the rows that pass and were there throughout. -/
theorem documents_accounted {events : List (Event F)}
    (history : StoreHistory .new events start)
    (calls : List (Call F)) {pool : CallPool F}
    (run : Run act (fun _ => False) always ⟨start, calls.map task, []⟩ pool)
    (quiet : pool.Quiet) :
    ∃ receipts : List (Receipt F), receipts.map Receipt.call = calls ∧
      pool.threads = receipts.map (fun r => .done (.ok r.reply)) ∧
      stored pool.state + (receipts.map Receipt.removed).sum =
        stored start + (receipts.map Receipt.added).sum ∧
      (rowIds (stored start + (receipts.map Receipt.added).sum)).Nodup ∧
      ∀ r ∈ receipts, r.Honest start pool.state
        (stored start + (receipts.map Receipt.added).sum) := by
  have initial : Certified act (account start) (calls.map (fun call => (Returns start call, 0)))
      (⟨start, calls.map task, []⟩ : CallPool F) := by
    constructor
    · have nothing : ((calls.map (fun call => (Returns start call, (0 : Stake F)))).map
          Prod.snd).sum = 0 := List.sum_eq_zero (by simp)
      rw [nothing]
      exact accounted_start history
    · exact settled_all (fun call _ i => settles_task call) 0
  obtain ⟨certs, k, cert, posts⟩ := certified_run
    (covers_of_allows (fun _ _ _ _ _ => trivial)) (fun _ _ impossible => impossible.elim) initial
    run
  rw [List.map_map] at posts
  obtain ⟨outcomes, names, threads, shares, met⟩ := outcomes_of_settled cert.threads quiet posts
  have total (part : Part) : (certs.map Prod.snd).sum part =
      (outcomes.map (fun o => o.2.2 part)).sum := by
    rw [shares, Pi.list_sum_apply, List.map_map]
    rfl
  have within (part : Part) {o : Call F × Except Empty (Reply F) × Stake F}
      (inside : o ∈ outcomes) {e : Entry F} (held : e ∈ o.2.2 part) :
      e ∈ (certs.map Prod.snd).sum part := by
    rw [total]
    exact Multiset.mem_of_le
      (List.le_sum_of_mem (List.mem_map_of_mem (f := fun o => o.2.2 part) inside)) held
  have accounted : Accounted start pool.state _ _ _ _ _ := cert.inv
  have added : (outcomes.map (fun o => receipt o.1 o.2.1 o.2.2)).map Receipt.added =
      outcomes.map (fun o => o.2.2 .added) := List.map_map
  have removed : (outcomes.map (fun o => receipt o.1 o.2.1 o.2.2)).map Receipt.removed =
      outcomes.map (fun o => o.2.2 .removed) := List.map_map
  refine ⟨outcomes.map (fun o => receipt o.1 o.2.1 o.2.2), ?_, ?_, ?_⟩
  · rw [List.map_map]
    exact names
  · rw [threads, List.map_map]
    refine List.map_congr_left (fun o inside => ?_)
    obtain ⟨call, result, g⟩ := o
    cases result with
    | error e => exact e.elim
    | ok reply => rfl
  · rw [added, removed, ← total, ← total]
    refine ⟨accounted.balance, accounted.rowIds_nodup, fun r listed => ?_⟩
    obtain ⟨o, inside, rfl⟩ := List.mem_map.mp listed
    exact honest_of_returns (met o inside) accounted (fun e => within .seen inside)
      (fun e => within .gone inside) (fun e => within .removed inside)

end Runs

end Receipts

section Instances

def documents : DocumentCollection := ⟨0, .new []⟩

/-- One document. -/
def oneDocument : TableStore Float := (documents.insertOne (.new []) .new).2

/-- Two calls clear the collection while another inserts and a fourth looks. -/
def fourCalls : List (Call Float) :=
  [.deleteMany documents none, .deleteMany documents none, .insertOne documents (.new []),
    .find documents none]

/-- Both have found the document before one of them deletes it. -/
theorem documents_accounted_four :
    ∃ (pool : CallPool Float) (receipts : List (Receipt Float)),
      turns act always [0, 1, 2, 1, 3, 2, 0] ⟨oneDocument, fourCalls.map task, []⟩ = some pool ∧
      receipts.map Receipt.call = fourCalls ∧
      pool.threads = receipts.map (fun r => .done (.ok r.reply)) ∧
      stored pool.state + (receipts.map Receipt.removed).sum =
        stored oneDocument + (receipts.map Receipt.added).sum ∧
      (rowIds (stored oneDocument + (receipts.map Receipt.added).sum)).Nodup ∧
      ∀ r ∈ receipts, r.Honest oneDocument pool.state
        (stored oneDocument + (receipts.map Receipt.added).sum) := by
  have resting : (turns act always [0, 1, 2, 1, 3, 2, 0]
      (⟨oneDocument, fourCalls.map task, []⟩ : CallPool Float)).any
    (fun pool => pool.threads.all (fun m => m.nextOp.isNone)) = true := rfl
  obtain ⟨pool, reached, still⟩ := (Option.any_eq_true _ _).mp resting
  have run : Run act (fun _ => False) always _ pool := run_of_turns _ reached
  obtain ⟨receipts, accounted⟩ := documents_accounted (.call .refl (.insert .new 0 (.new [])))
    fourCalls run (quiet_of_nextOp still)
  exact ⟨pool, receipts, reached, accounted⟩

end Instances

end DocumentAccounts
