import Mathlib.Data.List.Sort
import Mathlib.Order.Compare

/-!
# Sorting by a comparison of the members

A comparison that is no preorder on its whole type still sorts a list on whose members
it is one. The members are compared as elements of a subtype, so that the rules for
oriented and transitive comparisons apply to them.
-/

namespace SortedLists

open Std

universe u
variable {α : Type u}

/-- A comparison, on the members of a list only. -/
def onMembers (xs : List α) (cmp : α → α → Ordering) (a b : {x // x ∈ xs}) : Ordering :=
  cmp a b

/-- The members of a list are ordered. -/
abbrev Orders (xs : List α) (cmp : α → α → Ordering) : Prop := TransCmp (onMembers xs cmp)

variable {xs : List α} {cmp : α → α → Ordering}

theorem orders_const (xs : List α) : Orders xs (fun _ _ => .eq) where
  eq_swap := rfl
  isLE_trans _ _ := rfl

theorem orders_swap (h : Orders xs cmp) : Orders xs (fun a b => cmp b a) :=
  inferInstanceAs (TransCmp (fun a b : {x // x ∈ xs} => onMembers xs cmp b a))

/-- Ties are broken by a second comparison. -/
theorem orders_then {cmp' : α → α → Ordering} (h : Orders xs cmp) (h' : Orders xs cmp') :
    Orders xs (fun a b => (cmp a b).then (cmp' a b)) :=
  inferInstanceAs (TransCmp (compareLex (onMembers xs cmp) (onMembers xs cmp')))

theorem orders_congr {cmp' : α → α → Ordering} (h : Orders xs cmp)
    (same : ∀ a ∈ xs, ∀ b ∈ xs, cmp' a b = cmp a b) : Orders xs cmp' := by
  have equal : onMembers xs cmp' = onMembers xs cmp := by
    funext a b
    exact same a a.2 b b.2
  rw [Orders, equal]
  exact h

/-- A list is sorted by a comparison that orders its members. -/
theorem pairwise_insertionSort (h : Orders xs cmp) :
    (xs.insertionSort (fun a b => cmp a b ≠ .gt)).Pairwise (fun a b => cmp a b ≠ .gt) := by
  let le (a b : {x // x ∈ xs}) : Prop := onMembers xs cmp a b ≠ .gt
  have total : Std.Total le := ⟨fun a b => by
    by_cases above : onMembers xs cmp a b = .gt
    · exact Or.inr (fun below => by
        rw [OrientedCmp.gt_iff_lt.mp above] at below
        cases below)
    · exact Or.inl above⟩
  have trans : IsTrans {x // x ∈ xs} le := ⟨fun a b c hab hbc => by
    have below := TransCmp.isLE_trans (Ordering.isLE_iff_ne_gt.mpr hab)
      (Ordering.isLE_iff_ne_gt.mpr hbc)
    exact Ordering.isLE_iff_ne_gt.mp below⟩
  have sorted := List.pairwise_insertionSort le xs.attach
  have forgets : (xs.attach.insertionSort le).map Subtype.val =
      xs.insertionSort (fun a b => cmp a b ≠ .gt) := by
    rw [List.map_insertionSort le (fun a b => cmp a b ≠ .gt) Subtype.val xs.attach
      (fun _ _ _ _ => Iff.rfl), List.attach_map_subtype_val]
  rw [← forgets, List.pairwise_map]
  exact sorted

/-- What `slice::sort_by` documents: members that are ordered are sorted and keep the order of
ties; for others any order may result, or a panic, which is `none`. -/
def SortBy (cmp : α → α → Ordering) (xs : List α) (outcome : Option (List α)) : Prop :=
  (Orders xs cmp → outcome = some (xs.insertionSort (fun a b => cmp a b ≠ .gt))) ∧
    ∀ ys, outcome = some ys → ys.Perm xs

theorem sortBy_of_orders (h : Orders xs cmp) {outcome : Option (List α)} :
    SortBy cmp xs outcome ↔ outcome = some (xs.insertionSort (fun a b => cmp a b ≠ .gt)) := by
  constructor
  · exact fun sorted => sorted.1 h
  · rintro rfl
    refine ⟨fun _ => rfl, ?_⟩
    rintro _ ⟨⟩
    exact List.perm_insertionSort _ xs

theorem sortBy_none (h : ¬ Orders xs cmp) : SortBy cmp xs none :=
  ⟨fun orders => absurd orders h, by rintro _ ⟨⟩⟩

end SortedLists
