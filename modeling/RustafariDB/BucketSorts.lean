import Mathlib.Data.List.Sort
import Mathlib.Order.Compare
import RustafariDB.ListBuckets

/-!
# Reading buckets is a stable sort

The buckets of an ascending key list, read one after another, hold the elements with a
listed key sorted by it, and elements of one key in the order of the list. So an ordered
map from keys to lists of elements and a stable sort by the key give the same sequence.
-/

namespace BucketSorts

open Std ListBuckets

universe u v
variable {α : Type u} {κ : Type v}

section Inserting
variable {r : α → α → Prop} [DecidableRel r]

/-- An element goes after those that do not admit it and before those that do. -/
theorem orderedInsert_between {x : α} {before after : List α} (passes : ∀ a ∈ before, ¬ r x a)
    (stops : ∀ b ∈ after, r x b) :
    (before ++ after).orderedInsert r x = before ++ x :: after := by
  induction before with
  | nil =>
    cases after with
    | nil => rfl
    | cons b after => exact List.orderedInsert_cons_of_le r after (stops b List.mem_cons_self)
  | cons a before ih =>
    obtain ⟨first, rest⟩ := List.forall_mem_cons.mp passes
    rw [List.cons_append, List.orderedInsert_of_not_le r _ first, ih rest, List.cons_append]

end Inserting

variable [DecidableEq κ]

theorem bucket_cons_self {key : α → Option κ} {x : α} {k : κ} (hx : key x = some k)
    (xs : List α) : bucket key (x :: xs) k = x :: bucket key xs k := by
  have kept : decide (key x = some k) = true := decide_eq_true hx
  rw [bucket, List.filter_cons, if_pos kept, bucket]

theorem bucket_cons_other {key : α → Option κ} {x : α} {k : κ} (hx : key x ≠ some k)
    (xs : List α) : bucket key (x :: xs) k = bucket key xs k := by
  have dropped : ¬ decide (key x = some k) = true := by simpa using hx
  rw [bucket, List.filter_cons, if_neg dropped, bucket]

theorem flatMap_bucket_skip {key : α → Option κ} {x : α} {ks : List κ}
    (absent : ∀ k ∈ ks, key x ≠ some k) (xs : List α) :
    ks.flatMap (bucket key (x :: xs)) = ks.flatMap (bucket key xs) :=
  List.flatMap_congr (fun k inside => bucket_cons_other (absent k inside) xs)

/-- Elements of the buckets of some keys have one of these keys. -/
theorem key_of_mem_flatMap {key : α → Option κ} {xs : List α} {ks : List κ} {x : α}
    (inside : x ∈ ks.flatMap (bucket key xs)) : ∃ k ∈ ks, key x = some k := by
  obtain ⟨k, listed, filed⟩ := List.mem_flatMap.mp inside
  exact ⟨k, listed, (mem_bucket.mp filed).2⟩

variable [Ord κ] [TransOrd κ] [LawfulEqOrd κ]

/-- The order of elements by their keys. -/
abbrev KeyLE (key : α → Option κ) (a b : α) : Prop := compare (key a) (key b) ≠ .gt

omit [DecidableEq κ] [TransOrd κ] [LawfulEqOrd κ] in
theorem compare_keys {key : α → Option κ} {a b : α} {j k : κ} (ha : key a = some j)
    (hb : key b = some k) : compare (key a) (key b) = compare j k := by
  rw [ha, hb]
  rfl

omit [DecidableEq κ] [LawfulEqOrd κ] in
theorem ne_of_compare_lt {j k : κ} (less : compare j k = .lt) : j ≠ k := by
  rintro rfl
  exact OrientedCmp.not_lt_of_lt less less

theorem flatMap_bucket_sorted (key : α → Option κ) {ks : List κ}
    (ascending : ks.Pairwise (fun j k => compare j k = .lt)) (xs : List α) :
    ks.flatMap (bucket key xs) =
      (xs.filter (fun x => ks.any (fun k => key x = some k))).insertionSort (KeyLE key) := by
  induction xs with
  | nil => exact List.flatMap_eq_nil_iff.mpr (fun _ _ => rfl)
  | cons x xs ih =>
    by_cases listed : ∃ k ∈ ks, key x = some k
    · obtain ⟨k, inside, hx⟩ := listed
      have kept : ks.any (fun k => key x = some k) = true :=
        List.any_eq_true.mpr ⟨k, inside, decide_eq_true hx⟩
      rw [List.filter_cons, if_pos kept, List.insertionSort_cons, ← ih]
      obtain ⟨lower, higher, rfl⟩ := List.append_of_mem inside
      obtain ⟨_, above, across⟩ := List.pairwise_append.mp ascending
      have below (j : κ) (hj : j ∈ lower) : compare j k = .lt := across j hj k List.mem_cons_self
      have above := (List.pairwise_cons.mp above).1
      -- the new element opens the bucket of its key
      have opened : (lower ++ k :: higher).flatMap (bucket key (x :: xs)) =
          lower.flatMap (bucket key xs) ++ x :: (k :: higher).flatMap (bucket key xs) := by
        have lowerSkips : ∀ j ∈ lower, key x ≠ some j := by
          rintro j hj same
          exact ne_of_compare_lt (below j hj) (Option.some.inj (same.symm.trans hx))
        have higherSkips : ∀ j ∈ higher, key x ≠ some j := by
          rintro j hj same
          exact ne_of_compare_lt (above j hj) (Option.some.inj (hx.symm.trans same))
        rw [List.flatMap_append, flatMap_bucket_skip lowerSkips, List.flatMap_cons,
          flatMap_bucket_skip higherSkips, bucket_cons_self hx, List.flatMap_cons, List.cons_append]
      rw [opened, List.flatMap_append]
      refine (orderedInsert_between (fun a ha => ?_) (fun b hb => ?_)).symm
      · obtain ⟨j, hj, hkey⟩ := key_of_mem_flatMap ha
        rw [not_not, compare_keys hx hkey]
        exact OrientedCmp.gt_of_lt (below j hj)
      · obtain ⟨j, hj, hkey⟩ := key_of_mem_flatMap hb
        rw [KeyLE, compare_keys hx hkey]
        rcases List.mem_cons.mp hj with rfl | hj
        · exact ne_of_eq_of_ne ReflCmp.compare_self nofun
        · rw [above j hj]
          exact nofun
    · have absent : ∀ k ∈ ks, key x ≠ some k := fun k inside hx => listed ⟨k, inside, hx⟩
      have dropped : ¬ ks.any (fun k => key x = some k) = true := by
        simpa using absent
      rw [flatMap_bucket_skip absent, ih, List.filter_cons, if_neg dropped]

end BucketSorts
