import Mathlib.Data.List.Sort
import Mathlib.Data.List.TakeWhile
import Mathlib.Order.Defs.LinearOrder

/-!
# The first of a ranking

A list is sorted by descending weight and cut off, and its members have a merit that the
weight stands for. Elements of one weight come in any order. When every order is
possible, the cut lists respect merit just if weight never puts an element first that
can be among the cut ones and has less merit.
-/

namespace TopRanks

universe u v w
variable {α : Type u} {κ : Type v} {μ : Type w} [LinearOrder κ] [LinearOrder μ]

/-- Sort by descending weight and cut off. -/
def top (weight : α → κ) (k : Nat) (xs : List α) : List α :=
  (xs.insertionSort (fun a b => weight b ≤ weight a)).take k

/-- Merit descends, and nothing that is left out has more of it than something that is not. -/
structure Respects (merit : α → μ) (xs ys : List α) : Prop where
  descending : ys.Pairwise (fun a b => merit b ≤ merit a)
  omitted : ∀ a ∈ ys, ∀ b ∈ xs, b ∉ ys → merit b ≤ merit a

/-- Fewer than `k` elements have more weight. -/
def Leads (weight : α → κ) (k : Nat) (xs : List α) (a : α) : Prop :=
  ∀ above : List α, above.Nodup → (∀ b ∈ above, b ∈ xs ∧ weight a < weight b) → above.length < k

variable {weight : α → κ} {merit : α → μ} {k : Nat} {xs out : List α} {a b : α}

theorem sorted_pairwise (weight : α → κ) (xs : List α) :
    (xs.insertionSort (fun a b => weight b ≤ weight a)).Pairwise
      (fun a b => weight b ≤ weight a) := by
  have total : Std.Total (fun a b : α => weight b ≤ weight a) :=
    ⟨fun a b => le_total (weight b) (weight a)⟩
  have trans : IsTrans α (fun a b => weight b ≤ weight a) := ⟨fun _ _ _ hab hbc => hbc.trans hab⟩
  exact List.pairwise_insertionSort _ xs

theorem mem_of_mem_top (inside : a ∈ top weight k xs) : a ∈ xs :=
  (List.mem_insertionSort _).mp (List.mem_of_mem_take inside)

/-- What is cut off has at most the weight of what is kept. -/
theorem weight_le_of_omitted (kept : a ∈ top weight k xs) (inside : b ∈ xs)
    (cut : b ∉ top weight k xs) : weight b ≤ weight a := by
  have sorted := sorted_pairwise weight xs
  have whole := List.take_append_drop k (xs.insertionSort (fun a b => weight b ≤ weight a))
  rw [← whole, List.pairwise_append] at sorted
  have listed := (List.mem_insertionSort (fun a b => weight b ≤ weight a)).mpr inside
  rw [← whole, List.mem_append] at listed
  exact sorted.2.2 a kept b (listed.resolve_left cut)

theorem leads_of_mem (kept : a ∈ top weight k xs) : Leads weight k xs a := by
  intro above distinct higher
  obtain ⟨before, after, cut⟩ := List.append_of_mem kept
  have sorted := sorted_pairwise weight xs
  have whole := List.take_append_drop k (xs.insertionSort (fun a b => weight b ≤ weight a))
  rw [top] at cut
  rw [cut, List.append_assoc, List.cons_append] at whole
  rw [← whole] at sorted
  have later := (List.pairwise_cons.mp (List.pairwise_append.mp sorted).2.1).1
  have shorter : above ⊆ before := by
    intro b inside
    obtain ⟨listed, heavier⟩ := higher b inside
    have somewhere := (List.mem_insertionSort (fun a b => weight b ≤ weight a)).mpr listed
    rw [← whole, List.mem_append, List.mem_cons] at somewhere
    rcases somewhere with first | rfl | last
    · exact first
    · exact absurd heavier (lt_irrefl _)
    · exact absurd (later b last) (not_le.mpr heavier)
  have room : (before ++ a :: after).length ≤ k := by
    rw [← cut]
    exact List.length_take_le k _
  have count := (List.subperm_of_subset distinct shorter).length_le
  rw [List.length_append, List.length_cons] at room
  omega

/-- Some order puts an element before all others of its weight. -/
theorem exists_first (weight : α → κ) (inside : a ∈ xs) :
    ∃ out before after : List α, out.Perm xs ∧
      out.insertionSort (fun a b => weight b ≤ weight a) = before ++ a :: after ∧
        ∀ b ∈ before, weight a < weight b := by
  obtain ⟨front, back, rfl⟩ := List.append_of_mem inside
  have inserted := List.orderedInsert_eq_take_drop (fun a b => weight b ≤ weight a) a
    ((front ++ back).insertionSort (fun a b => weight b ≤ weight a))
  rw [← List.insertionSort_cons] at inserted
  refine ⟨a :: (front ++ back), _, _, List.perm_middle.symm, inserted, fun b early => ?_⟩
  have heavier := List.mem_takeWhile_imp early
  exact not_le.mp (of_decide_eq_true heavier)

theorem take_first {before after : List α} (room : before.length < k) :
    (before ++ a :: after).take k = before ++ a :: after.take (k - before.length - 1) := by
  obtain ⟨n, hn⟩ : ∃ n, k - before.length = n + 1 := ⟨k - before.length - 1, by omega⟩
  rw [List.take_append, List.take_of_length_le (by omega), hn, List.take_succ_cons]
  rfl

theorem merit_le_of_respects (distinct : xs.Nodup)
    (respects : ∀ out : List α, out.Perm xs → Respects merit xs (top weight k out))
    (here : a ∈ xs) (leads : Leads weight k xs a) (there : b ∈ xs)
    (lighter : weight b ≤ weight a) : merit b ≤ merit a := by
  obtain ⟨out, before, after, order, sorted, heavier⟩ := exists_first weight here
  have members : (before ++ a :: after).Perm xs := by
    rw [← sorted]
    exact (List.perm_insertionSort _ out).trans order
  have room : before.length < k := by
    refine leads before ?_ (fun c early => ⟨?_, heavier c early⟩)
    · exact (List.nodup_append.mp (members.nodup_iff.mpr distinct)).1
    · exact members.subset (List.mem_append_left _ early)
  have kept : top weight k out = before ++ a :: after.take (k - before.length - 1) := by
    rw [top, sorted, take_first room]
  obtain ⟨descending, omitted⟩ := respects out order
  rw [kept] at descending omitted
  have listed := members.symm.subset there
  rw [List.mem_append, List.mem_cons] at listed
  rcases listed with early | rfl | late
  · exact absurd lighter (not_le.mpr (heavier b early))
  · exact le_refl _
  · by_cases shown : b ∈ after.take (k - before.length - 1)
    · exact (List.pairwise_cons.mp (List.pairwise_append.mp descending).2.1).1 b shown
    · refine omitted a (List.mem_append_right _ List.mem_cons_self) b there ?_
      rw [List.mem_append, List.mem_cons]
      rintro (early | rfl | cut)
      · exact absurd lighter (not_le.mpr (heavier b early))
      · have once := (List.nodup_append.mp (members.nodup_iff.mpr distinct)).2.1
        exact (List.nodup_cons.mp once).1 late
      · exact shown cut

/-- Every order of a list is cut off in respect of merit exactly if no element that fewer than
`k` others outweigh has less merit than an element that does not outweigh it. -/
theorem respects_iff (distinct : xs.Nodup) :
    (∀ out : List α, out.Perm xs → Respects merit xs (top weight k out)) ↔
      ∀ a ∈ xs, Leads weight k xs a → ∀ b ∈ xs, weight b ≤ weight a → merit b ≤ merit a := by
  constructor
  · intro respects a here leads b there lighter
    exact merit_le_of_respects distinct respects here leads there lighter
  · intro agree out order
    have leads {a : α} (kept : a ∈ top weight k out) : Leads weight k xs a :=
      fun above nodup higher => leads_of_mem kept above nodup
        (fun b inside => ⟨order.mem_iff.mpr (higher b inside).1, (higher b inside).2⟩)
    constructor
    · refine ((sorted_pairwise weight out).sublist (List.take_sublist k _)).imp_of_mem ?_
      intro a b kept kept' lighter
      exact agree a (order.subset (mem_of_mem_top kept)) (leads kept) b
        (order.subset (mem_of_mem_top kept')) lighter
    · intro a kept b inside cut
      exact agree a (order.subset (mem_of_mem_top kept)) (leads kept) b inside
        (weight_le_of_omitted kept (order.mem_iff.mpr inside) cut)

end TopRanks
