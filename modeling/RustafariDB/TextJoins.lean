import Mathlib.Data.List.Basic

/-!
# Reading a joined text back

Pieces without the separator can be read back from their join. Only the empty list and
the list of one empty piece join to the same text, so non-empty pieces decide the list,
whatever the lengths.
-/

namespace TextJoins

variable {c : Char} {ls ms : List String}

theorem splitOn_join (some_piece : ls ≠ []) (apart : ∀ s ∈ ls, c ∉ s.toList) :
    ((String.singleton c).intercalate ls).toList.splitOn c = ls.map String.toList := by
  rw [String.toList_intercalate, String.toList_singleton]
  apply List.splitOn_intercalate
  · intro l inside
    obtain ⟨s, listed, rfl⟩ := List.mem_map.mp inside
    exact apart s listed
  · simpa using some_piece

theorem join_eq_empty (pieces : ∀ s ∈ ls, s ≠ "")
    (joined : (String.singleton c).intercalate ls = "") : ls = [] := by
  cases ls with
  | nil => rfl
  | cons s rest =>
    have present := pieces s List.mem_cons_self
    cases rest with
    | nil => exact absurd (by simpa using joined) present
    | cons t rest =>
      have letters := congrArg String.toList joined
      simp at letters

/-- The lists may have different lengths. -/
theorem join_injective (hls : ∀ s ∈ ls, s ≠ "" ∧ c ∉ s.toList)
    (hms : ∀ s ∈ ms, s ≠ "" ∧ c ∉ s.toList)
    (same : (String.singleton c).intercalate ls = (String.singleton c).intercalate ms) :
    ls = ms := by
  by_cases noneLeft : ls = []
  · subst noneLeft
    have joined : (String.singleton c).intercalate ms = "" := same ▸ String.intercalate_nil
    exact (join_eq_empty (fun s inside => (hms s inside).1) joined).symm
  by_cases noneRight : ms = []
  · subst noneRight
    have joined : (String.singleton c).intercalate ls = "" := same ▸ String.intercalate_nil
    exact join_eq_empty (fun s inside => (hls s inside).1) joined
  have letters : ls.map String.toList = ms.map String.toList := by
    rw [← splitOn_join noneLeft (fun s inside => (hls s inside).2),
      ← splitOn_join noneRight (fun s inside => (hms s inside).2), same]
  exact (List.map_inj_right (fun _ _ => String.toList_inj.mp)).mp letters

section Renderings
variable {α : Type*} {f : α → String} {xs ys : List α}

theorem map_injective_on {β : Type*} {f : α → β} (injective : ∀ x ∈ xs, ∀ y ∈ ys, f x = f y → x = y)
    (same : xs.map f = ys.map f) : xs = ys := by
  induction xs generalizing ys with
  | nil => exact (List.map_eq_nil_iff.mp same.symm).symm
  | cons x xs ih =>
    obtain ⟨y, rest, rfl, hy, rest_eq⟩ := List.map_eq_cons_iff.mp same.symm
    rw [injective x List.mem_cons_self y List.mem_cons_self hy.symm]
    refine congrArg (y :: ·) (ih (fun a ha b hb => ?_) rest_eq.symm)
    exact injective a (List.mem_cons_of_mem x ha) b (List.mem_cons_of_mem y hb)

/-- A joined rendering decides the list where the rendering decides its elements. -/
theorem join_map_injective (injective : ∀ x ∈ xs, ∀ y ∈ ys, f x = f y → x = y)
    (hxs : ∀ x ∈ xs, f x ≠ "" ∧ c ∉ (f x).toList) (hys : ∀ y ∈ ys, f y ≠ "" ∧ c ∉ (f y).toList)
    (same : (String.singleton c).intercalate (xs.map f) =
      (String.singleton c).intercalate (ys.map f)) : xs = ys :=
  map_injective_on injective
    (join_injective (List.forall_mem_map.mpr hxs) (List.forall_mem_map.mpr hys) same)

end Renderings

end TextJoins
