import RustafariDB.BTreeIndexing
import RustafariDB.Multimaps

/-!
# Histories of a B-tree index

After any inserts and deletions an index files the pairs inserted and not yet deleted. A
deletion takes the first copy of its pair. A range visits the filed keys inside in order; one
without an end visits all keys of values, whose bytes the artificial end bounds.
-/

namespace IndexHistories

open Std Multimaps ByteOrder Floats Values BTreeIndexing

/-- The calls that change an index. -/
inductive IndexCall where
  | insert (key : IndexKey) (rowId : Nat)
  | delete (key : IndexKey) (rowId : Nat)

namespace IndexCall

def apply (index : BTreeIndex) : IndexCall → BTreeIndex
  | .insert key rowId => index.insert key rowId
  | .delete key rowId => (index.delete key rowId).2

/-- The pairs after the call: a deletion removes the first copy of its pair. -/
def account (pairs : List (IndexKey × Nat)) : IndexCall → List (IndexKey × Nat)
  | .insert key rowId => pairs ++ [(key, rowId)]
  | .delete key rowId => pairs.erase (key, rowId)

end IndexCall

def runCalls (calls : List IndexCall) : BTreeIndex := calls.foldl IndexCall.apply .new

/-- The pairs inserted and not yet deleted, in the order of their inserts. -/
def remaining (calls : List IndexCall) : List (IndexKey × Nat) :=
  calls.foldl IndexCall.account []

section Operations
variable {index : BTreeIndex} {pairs : List (IndexKey × Nat)} {key : IndexKey} {rowId : Nat}

theorem get_eq_under (index : BTreeIndex) (key : IndexKey) :
    index.get key = under index.map key := rfl

/-- A deletion answers whether the pair is there. -/
theorem delete_fst_iff : (index.delete key rowId).1 = true ↔ rowId ∈ index.get key := by
  rw [BTreeIndex.delete, BTreeIndex.get]
  cases index.map[key]? with
  | none => simp
  | some ids =>
    rw [Option.getD_some]
    by_cases listed : rowId ∈ ids
    · simp [listed]
    · simp [listed]

theorem delete_map (tight : Tight index.map) (key : IndexKey) (rowId : Nat) :
    (index.delete key rowId).2.map =
      refile index.map key ((under index.map key).erase rowId) := by
  have kept := refile_under tight key
  rw [under] at kept
  rw [BTreeIndex.delete, under]
  cases found : index.map[key]? with
  | none =>
    rw [found] at kept
    exact kept.symm
  | some ids =>
    rw [found, Option.getD_some] at kept
    rw [Option.getD_some]
    by_cases listed : rowId ∈ ids
    · simp only [if_pos listed]
      rfl
    · simp only [if_neg listed]
      rw [List.erase_of_not_mem listed, kept]

theorem files_apply (files : Files index.map pairs) (call : IndexCall) :
    Files (call.apply index).map (call.account pairs) := by
  cases call with
  | insert key rowId => exact files_push files key rowId
  | delete key rowId =>
    rw [IndexCall.apply, delete_map files.tight]
    exact files_erase files key rowId

/-- An index files the pairs that remain of its history. -/
theorem files_runCalls (calls : List IndexCall) :
    Files (runCalls calls).map (remaining calls) := by
  induction calls using List.reverseRecOn with
  | nil => exact files_empty
  | append_singleton calls call ih =>
    rw [runCalls, remaining, List.foldl_append, List.foldl_append]
    exact files_apply ih call

end Operations

section Ranges
variable {index : BTreeIndex} {pairs : List (IndexKey × Nat)} {F : Type} [Float64 F]

/-- The keys of pairs with a property, in increasing order. -/
def Visits (pairs : List (IndexKey × Nat)) (inside : IndexKey → Prop) (keys : List IndexKey) :
    Prop :=
  keys.Pairwise (fun a b => compare a b = .lt) ∧
    ∀ k, k ∈ keys ↔ inside k ∧ paired pairs k ≠ []

/-- A range with its start below its end reads the lists of the filed keys inside. -/
theorem range_visits (files : Files index.map pairs) (start : IndexKey)
    (stop : Option IndexKey)
    (ordered : (compare start (stop.getD lastKey)).isLE = true) :
    ∃ keys, Visits pairs (fun k => (compare start k).isLE = true ∧
        (compare k (stop.getD lastKey)).isLE = true) keys ∧
      index.range start stop = some (keys.flatMap index.get) := by
  refine ⟨visitedKeys index start (stop.getD lastKey),
    ⟨visitedKeys_sorted _ _ _, fun k => ?_⟩, ?_⟩
  · rw [mem_visitedKeys, files_key_iff files, BTreeIndex.inKeyRange, Bool.and_eq_true, and_comm]
  · rw [range_eq, if_neg (Ordering.isLE_iff_ne_gt.mp ordered)]

/-- No value has a key above the artificial end. -/
theorem fromValue_le {value : Value F} {key : IndexKey}
    (keyed : IndexKey.fromValue value = .ok key) : (compare key lastKey).isLE = true := by
  have number (n : Nat) : (compare (toBytesBE 8 n) lastKey).isLE = true :=
    le_replicate_of_length (by rw [length_toBytesBE]; decide)
  cases value <;> cases keyed
  case bool b => exact le_replicate_of_length (by simp)
  case int64 i => exact number _
  case float64 x => exact number _
  case string s => exact le_replicate_of_not_mem (not_mem_toUTF8 s) (by decide)
  case timestamp ts => exact number _
  case date d => exact number _

end Ranges

/-- The index is an ordered multimap over every history of inserts and deletions. -/
theorem ordered_multimap {F : Type} [Float64 F] (calls : List IndexCall) :
    (∀ k, (runCalls calls).get k = paired (remaining calls) k) ∧
    (∀ k rowId, ((runCalls calls).delete k rowId).1 = true ↔ (k, rowId) ∈ remaining calls) ∧
    (∀ k : IndexKey, (runCalls calls).map[k]? ≠ some []) ∧
    (∀ start stop, (compare start stop).isLE = true →
      ∃ keys, Visits (remaining calls) (fun k => (compare start k).isLE = true ∧
          (compare k stop).isLE = true) keys ∧
        (runCalls calls).range start (some stop) =
          some (keys.flatMap (runCalls calls).get)) ∧
    ∀ start, (∃ (value : Value F) (key : IndexKey), IndexKey.fromValue value = .ok key ∧
        (compare start key).isLE = true) →
      ∃ keys, Visits (remaining calls) (fun k => (compare start k).isLE = true ∧
          (compare k lastKey).isLE = true) keys ∧
        (runCalls calls).range start none = some (keys.flatMap (runCalls calls).get) ∧
        ∀ (value : Value F) (key : IndexKey), IndexKey.fromValue value = .ok key →
          (compare start key).isLE = true → paired (remaining calls) key ≠ [] → key ∈ keys := by
  have files := files_runCalls calls
  refine ⟨files.under, fun k rowId => ?_, files.tight, fun start stop ordered => ?_,
    fun start => ?_⟩
  · rw [delete_fst_iff, get_eq_under, files.under, mem_paired]
  · exact range_visits files start (some stop) ordered
  · rintro ⟨value, key, keyed, above⟩
    obtain ⟨keys, visits, run⟩ := range_visits files start none
      (TransCmp.isLE_trans above (fromValue_le keyed))
    refine ⟨keys, visits, run, fun value' key' keyed' above' filed => ?_⟩
    exact (visits.2 key').mpr ⟨⟨above', fromValue_le keyed'⟩, filed⟩

end IndexHistories
