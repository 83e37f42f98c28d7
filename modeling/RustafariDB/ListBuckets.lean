import Mathlib.Data.List.Basic
import Mathlib.Data.List.Perm.Basic
import Mathlib.Data.List.Nodup

/-!
# Splitting a list into buckets

Each element has at most one key. Reading the buckets of a duplicate-free key
list one after another yields, up to order, the elements whose key is listed.
-/

namespace ListBuckets

universe u v
variable {α : Type u} {κ : Type v} [DecidableEq κ]

/-- The elements filed under one key, in list order. -/
def bucket (key : α → Option κ) (xs : List α) (k : κ) : List α :=
  xs.filter (fun x => key x = some k)

theorem mem_bucket {key : α → Option κ} {xs : List α} {k : κ} {x : α} :
    x ∈ bucket key xs k ↔ x ∈ xs ∧ key x = some k := by
  simp [bucket]

omit [DecidableEq κ] in
/-- Two tests that never hold together split the union of their selections. -/
theorem filter_or_perm (p q : α → Bool) (xs : List α)
    (apart : ∀ x ∈ xs, ¬ (p x = true ∧ q x = true)) :
    (xs.filter p ++ xs.filter q).Perm (xs.filter (fun x => p x || q x)) := by
  induction xs with
  | nil => exact List.Perm.refl _
  | cons x xs ih =>
    have tail := ih (fun y hy => apart y (List.mem_cons_of_mem x hy))
    cases hp : p x with
    | true =>
      have hq : q x = false := by
        cases hq : q x with
        | true => exact False.elim (apart x List.mem_cons_self ⟨hp, hq⟩)
        | false => rfl
      simpa [hp, hq] using tail
    | false =>
      cases hq : q x with
      | true =>
        have moved : (xs.filter p ++ x :: xs.filter q).Perm
            (x :: (xs.filter p ++ xs.filter q)) := List.perm_middle
        simpa [hp, hq] using moved.trans (tail.cons x)
      | false => simpa [hp, hq] using tail

omit [DecidableEq κ] in
/-- Two selections from one list agree up to order only if the tests agree on it. -/
theorem filter_perm_filter_iff (p q : α → Bool) (xs : List α) :
    (xs.filter p).Perm (xs.filter q) ↔ ∀ x ∈ xs, p x = q x := by
  constructor
  · intro same x hx
    refine Bool.eq_iff_iff.mpr ⟨fun hp => ?_, fun hq => ?_⟩
    · exact (List.mem_filter.mp (same.mem_iff.mp (List.mem_filter.mpr ⟨hx, hp⟩))).2
    · exact (List.mem_filter.mp (same.mem_iff.mpr (List.mem_filter.mpr ⟨hx, hq⟩))).2
  · intro agree
    rw [List.filter_congr agree]

theorem flatMap_bucket_perm (key : α → Option κ) (xs : List α) (ks : List κ)
    (distinct : ks.Nodup) :
    (ks.flatMap (bucket key xs)).Perm
      (xs.filter (fun x => ks.any (fun k => key x = some k))) := by
  induction ks with
  | nil => simp
  | cons k ks ih =>
    obtain ⟨hk, hks⟩ := List.nodup_cons.mp distinct
    have apart : ∀ x ∈ xs, ¬ (decide (key x = some k) = true ∧
        ks.any (fun j => decide (key x = some j)) = true) := by
      rintro x _ ⟨hx, hany⟩
      obtain ⟨j, hj, hxj⟩ := List.any_eq_true.mp hany
      have same : k = j :=
        Option.some.inj ((of_decide_eq_true hx).symm.trans (of_decide_eq_true hxj))
      exact hk (same ▸ hj)
    have joined := filter_or_perm (fun x => decide (key x = some k))
      (fun x => ks.any (fun j => decide (key x = some j))) xs apart
    simp only [List.flatMap_cons, List.any_cons]
    exact ((ih hks).append_left _).trans joined

end ListBuckets
