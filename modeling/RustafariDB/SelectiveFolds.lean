import Mathlib.Data.List.Basic

/-!
# Folds over the picked part of a list

A loop that skips the elements of the wrong kind and remembers whether it met
one of the right kind. Its result depends on the picked elements only.
-/

namespace SelectiveFolds

universe u v w
variable {α : Type u} {β : Type v} {σ : Type w}

/-- Fold what is picked from each element; `none` when nothing was picked. -/
def foldSome (pick : α → Option β) (f : σ → β → σ) (init : σ) (xs : List α) : Option σ :=
  let acc := xs.foldl (fun acc x =>
    match pick x with
    | some b => (f acc.1 b, true)
    | none => acc) (init, false)
  if acc.2 then some acc.1 else none

theorem foldl_flagged (pick : α → Option β) (f : σ → β → σ) (xs : List α)
    (init : σ) (any : Bool) :
    xs.foldl (fun acc x =>
      match pick x with
      | some b => (f acc.1 b, true)
      | none => acc) (init, any) =
    ((xs.filterMap pick).foldl f init, any || !(xs.filterMap pick).isEmpty) := by
  induction xs generalizing init any with
  | nil => simp
  | cons x xs ih =>
    cases hx : pick x with
    | none => simp only [List.foldl_cons, hx, List.filterMap_cons_none hx, ih]
    | some b =>
      simp only [List.foldl_cons, hx, List.filterMap_cons_some hx, ih, List.isEmpty_cons,
        Bool.true_or, Bool.not_false, Bool.or_true]

theorem foldSome_eq (pick : α → Option β) (f : σ → β → σ) (init : σ) (xs : List α) :
    foldSome pick f init xs =
      if (xs.filterMap pick).isEmpty then none else some ((xs.filterMap pick).foldl f init) := by
  simp only [foldSome, foldl_flagged, Bool.false_or]
  cases (xs.filterMap pick).isEmpty <;> rfl

/-- Partial folds joined one after another give the whole fold, if every join that takes
place continues the fold of the parts before it. -/
theorem foldl_parts (pick : α → Option β) (f : σ → β → σ) (init : σ) (join : σ → σ → σ)
    (parts : List (List α)) (a : σ)
    (continues : ∀ before part, before ++ [part] <+: parts → part.filterMap pick ≠ [] →
      join ((before.flatten.filterMap pick).foldl f a) ((part.filterMap pick).foldl f init) =
        (part.filterMap pick).foldl f ((before.flatten.filterMap pick).foldl f a)) :
    parts.foldl (fun acc xs => ((foldSome pick f init xs).map (join acc)).getD acc) a =
      (parts.flatten.filterMap pick).foldl f a := by
  induction parts generalizing a with
  | nil => rfl
  | cons xs parts ih =>
    have first : ((foldSome pick f init xs).map (join a)).getD a =
        (xs.filterMap pick).foldl f a := by
      rw [foldSome_eq]
      split
      · rename_i none
        rw [List.isEmpty_iff.mp none]
        rfl
      · rename_i some_picked
        exact continues [] xs (List.prefix_append [xs] parts) (by simpa using some_picked)
    rw [List.foldl_cons, first, List.flatten_cons, List.filterMap_append, List.foldl_append]
    refine ih _ (fun before part inside picked => ?_)
    have whole := continues (xs :: before) part (List.cons_prefix_cons.mpr ⟨rfl, inside⟩) picked
    rwa [List.flatten_cons, List.filterMap_append, List.foldl_append] at whole

/-- What is picked from the first parts comes first. -/
theorem picked_of_prefix (pick : α → Option β) {before parts : List (List α)} {part : List α}
    (inside : before ++ [part] <+: parts) : ∃ rest, parts.flatten.filterMap pick =
      before.flatten.filterMap pick ++ part.filterMap pick ++ rest := by
  obtain ⟨after, rfl⟩ := inside
  refine ⟨after.flatten.filterMap pick, ?_⟩
  rw [List.flatten_append, List.flatten_append, List.flatten_singleton, List.filterMap_append,
    List.filterMap_append]

/-- An initial value that changes nothing once it has been taken in. -/
structure Settles (op : σ → σ → σ) (init : σ) : Prop where
  self : op init init = init
  again : ∀ a, op (op init a) init = op init a

theorem Settles.foldl {op : σ → σ → σ} {init : σ} (settles : Settles op init)
    [Std.Associative op] (xs : List σ) : op (xs.foldl op init) init = xs.foldl op init := by
  cases xs with
  | nil => exact settles.self
  | cons x xs => rw [List.foldl_cons, List.foldl_assoc, settles.again]

/-- Partial folds of an associative operation, each begun anew, join to the whole fold. -/
theorem foldl_parts_assoc (pick : α → Option σ) (op : σ → σ → σ) [Std.Associative op]
    {init : σ} (settles : Settles op init) (parts : List (List α)) :
    parts.foldl (fun acc xs => ((foldSome pick op init xs).map (op acc)).getD acc) init =
      (parts.flatten.filterMap pick).foldl op init := by
  refine foldl_parts _ _ _ _ _ _ (fun before part _ _ => ?_)
  refine List.foldl_assoc.symm.trans ?_
  rw [settles.foldl]

/-- Some part has a result exactly when something is picked from the whole. -/
theorem any_isSome_foldSome (pick : α → Option β) (f : σ → β → σ) (init : σ)
    (parts : List (List α)) :
    parts.any (fun xs => (foldSome pick f init xs).isSome) =
      !(parts.flatten.filterMap pick).isEmpty := by
  induction parts with
  | nil => rfl
  | cons xs parts ih =>
    rw [List.any_cons, ih, foldSome_eq, List.flatten_cons, List.filterMap_append]
    cases xs.filterMap pick <;> rfl

/-- A component that is folded on its own can be read off at the end. -/
theorem map_foldSome {τ : Type w} (pick : α → Option β) {f : σ → β → σ} {init : σ}
    (g : σ → τ) (step : τ → β → τ) (component : ∀ a b, g (f a b) = step (g a) b)
    (xs : List α) : (foldSome pick f init xs).map g = foldSome pick step (g init) xs := by
  have folded : g ((xs.filterMap pick).foldl f init) =
      (xs.filterMap pick).foldl step (g init) := by
    exact (List.foldl_hom g (fun a b => (component a b).symm)).symm
  rw [foldSome_eq, foldSome_eq, ← folded]
  split <;> rfl

/-- A fold stays at an extreme exactly when it meets nothing else. -/
theorem foldl_eq_extreme_iff {op : σ → σ → σ} {e : σ}
    (extreme : ∀ a b, op a b = e ↔ a = e ∧ b = e) (xs : List σ) (a : σ) :
    xs.foldl op a = e ↔ a = e ∧ ∀ x ∈ xs, x = e := by
  induction xs generalizing a with
  | nil => simp
  | cons x xs ih => rw [List.foldl_cons, ih, extreme, List.forall_mem_cons, and_assoc]

/-- The operation returns what is level with one of its arguments and before both. -/
structure Selects (P : σ → Prop) (R : σ → σ → Prop) (op : σ → σ → σ) : Prop where
  keeps : ∀ a b, P a → P b → P (op a b)
  level : ∀ a b, P a → P b → R a (op a b) ∨ R b (op a b)
  left : ∀ a b, P a → P b → R (op a b) a
  right : ∀ a b, P a → P b → R (op a b) b
  trans : ∀ a b c, R a b → R b c → R a c

/-- Before all of a list and level with one of it. -/
def Extreme (R : σ → σ → Prop) (xs : List σ) (r : σ) : Prop :=
  (∃ x ∈ xs, R x r) ∧ ∀ x ∈ xs, R r x

section Selecting
variable {P : σ → Prop} {R : σ → σ → Prop} {op : σ → σ → σ}

theorem Selects.refl (selects : Selects P R op) {a : σ} (ha : P a) : R a a := by
  have level := (or_self _).mp (selects.level a a ha ha)
  exact selects.trans a _ a level (selects.left a a ha ha)

/-- An operation that is a selection of images selects by the order of the images. -/
theorem Selects.comap {τ : Type*} (selects : Selects P R op) {f : τ → σ} {op' : τ → τ → τ}
    (hom : ∀ a b, f (op' a b) = op (f a) (f b)) :
    Selects (fun a => P (f a)) (fun a b => R (f a) (f b)) op' := by
  refine ⟨fun a b ha hb => ?_, fun a b ha hb => ?_, fun a b ha hb => ?_, fun a b ha hb => ?_,
    fun a b c => selects.trans (f a) (f b) (f c)⟩
  · rw [hom]
    exact selects.keeps _ _ ha hb
  · rw [hom]
    exact selects.level _ _ ha hb
  · rw [hom]
    exact selects.left _ _ ha hb
  · rw [hom]
    exact selects.right _ _ ha hb

theorem Selects.foldl (selects : Selects P R op) {xs : List σ} (all : ∀ x ∈ xs, P x) {a : σ}
    (ha : P a) :
    (R a (xs.foldl op a) ∨ ∃ x ∈ xs, R x (xs.foldl op a)) ∧ R (xs.foldl op a) a ∧
      ∀ x ∈ xs, R (xs.foldl op a) x := by
  induction xs generalizing a with
  | nil =>
    exact ⟨Or.inl (selects.refl ha), selects.refl ha, fun _ none => absurd none List.not_mem_nil⟩
  | cons x xs ih =>
    rw [List.forall_mem_cons] at all
    obtain ⟨hx, rest⟩ := all
    obtain ⟨found, before, others⟩ := ih rest (selects.keeps a x ha hx)
    refine ⟨?_, selects.trans _ _ _ before (selects.left a x ha hx), ?_⟩
    · rcases found with start | ⟨y, later, level⟩
      · rcases selects.level a x ha hx with first | second
        · exact Or.inl (selects.trans _ _ _ first start)
        · exact Or.inr ⟨x, List.mem_cons_self, selects.trans _ _ _ second start⟩
      · exact Or.inr ⟨y, List.mem_cons_of_mem x later, level⟩
    · exact List.forall_mem_cons.mpr
        ⟨selects.trans _ _ _ before (selects.right a x ha hx), others⟩

/-- A fold that begins behind every element of a list selects from the list. -/
theorem Selects.foldl_extreme (selects : Selects P R op) {xs : List σ} (some_element : xs ≠ [])
    (all : ∀ x ∈ xs, P x) {start : σ} (ranked : P start) (behind : ∀ x ∈ xs, R x start) :
    Extreme R xs (xs.foldl op start) := by
  obtain ⟨found, _, before⟩ := selects.foldl all ranked
  refine ⟨?_, before⟩
  rcases found with untouched | inside
  · obtain ⟨x, hx⟩ := List.exists_mem_of_ne_nil xs some_element
    exact ⟨x, hx, selects.trans _ _ _ (behind x hx) untouched⟩
  · exact inside

end Selecting

/-- Every order of what is picked is what an order of the list picks. -/
theorem exists_perm_filterMap {pick : α → Option β} {xs : List α} {ys : List β}
    (h : (xs.filterMap pick).Perm ys) :
    ∃ xs' : List α, xs'.Perm xs ∧ xs'.filterMap pick = ys := by
  induction ys generalizing xs with
  | nil => exact ⟨xs, List.Perm.refl xs, h.eq_nil⟩
  | cons y ys ih =>
    obtain ⟨x, inside, hx⟩ := List.mem_filterMap.mp (h.mem_iff.mpr List.mem_cons_self)
    obtain ⟨before, after, rfl⟩ := List.append_of_mem inside
    have moved : (before ++ x :: after).Perm (x :: (before ++ after)) := List.perm_middle
    have rest := (moved.filterMap pick).symm.trans h
    rw [List.filterMap_cons_some hx] at rest
    obtain ⟨xs', order, picked⟩ := ih rest.cons_inv
    exact ⟨x :: xs', (order.cons x).trans moved.symm, by rw [List.filterMap_cons_some hx, picked]⟩

end SelectiveFolds
