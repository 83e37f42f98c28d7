import Mathlib.Data.Bool.Basic
import RustafariDB.SelectiveFolds

/-!
# Comparisons by rank

Some values of a type have a rank in a total preorder and the others are
comparable to nothing, not even to themselves. The comparison is oriented and
transitive, and choosing the better of two values is associative even though
values without a rank are passed over.
-/

namespace RankedOrders

open Std SelectiveFolds

universe u v
variable {α : Type u} {κ : Type v} [Ord κ]

def rankCompare (rank : α → Option κ) (a b : α) : Option Ordering :=
  match rank a, rank b with
  | some x, some y => some (compare x y)
  | _, _ => none

variable [TransOrd κ] {rank : α → Option κ} {a b c : α}

theorem rankCompare_swap (rank : α → Option κ) (a b : α) :
    rankCompare rank b a = (rankCompare rank a b).map Ordering.swap := by
  rw [rankCompare, rankCompare]
  cases rank a with
  | none => cases rank b <;> rfl
  | some x =>
    cases rank b with
    | none => rfl
    | some y => exact congrArg some OrientedCmp.eq_swap

/-- What is comparable to anything is comparable to itself. -/
theorem rankCompare_self (h : (rankCompare rank a b).isSome = true) :
    rankCompare rank a a = some .eq := by
  rw [rankCompare] at h ⊢
  cases ha : rank a with
  | none => simp [ha] at h
  | some x => exact congrArg some ReflCmp.compare_self

theorem rankCompare_trans (hab : (rankCompare rank a b).any Ordering.isLE = true)
    (hbc : (rankCompare rank b c).any Ordering.isLE = true) :
    (rankCompare rank a c).any Ordering.isLE = true := by
  rw [rankCompare] at hab hbc ⊢
  cases ha : rank a with
  | none => simp [ha] at hab
  | some x =>
    cases hb : rank b with
    | none => simp [hb] at hbc
    | some y =>
      cases hc : rank c with
      | none => simp [hb, hc] at hbc
      | some z =>
        rw [ha, hb] at hab
        rw [hb, hc] at hbc
        exact TransOrd.isLE_trans (α := κ) hab hbc

section Preferring

/-- The first of two values, unless it has no rank or the second is better. -/
def prefer (unranked : α → Bool) (better : α → α → Bool) (a b : α) : α :=
  if unranked a then b
  else if unranked b then a
  else if better b a then b
  else a

variable {unranked : α → Bool} {better : α → α → Bool}

omit [Ord κ] [TransOrd κ] in
theorem prefer_of_unranked (ha : unranked a = true) : prefer unranked better a b = b := by
  rw [prefer, if_pos ha]

omit [Ord κ] [TransOrd κ] in
theorem prefer_unranked (ha : unranked a = false) (hb : unranked b = true) :
    prefer unranked better a b = a := by
  simp [prefer, ha, hb]

omit [Ord κ] [TransOrd κ] in
theorem prefer_ranked (ha : unranked a = false) (hb : unranked b = false) :
    prefer unranked better a b = if better b a then b else a := by
  simp [prefer, ha, hb]

omit [Ord κ] [TransOrd κ] in
/-- A choice that began with a worst value is not changed by it. -/
theorem prefer_worst {worst : α} (present : unranked worst = false)
    (least : ∀ a, better worst a = false) (a : α) :
    prefer unranked better (prefer unranked better worst a) worst =
      prefer unranked better worst a := by
  have keeps (b : α) (hb : unranked b = false) : prefer unranked better b worst = b := by
    rw [prefer_ranked hb present, least]
    rfl
  apply keeps
  cases ha : unranked a with
  | true => rw [prefer_unranked present ha, present]
  | false =>
    rw [prefer_ranked present ha]
    split
    · exact ha
    · exact present

/-- "Better" is a strict order on the ranked values in which indifference is transitive. -/
structure StrictlyRanks (unranked : α → Bool) (better : α → α → Bool) : Prop where
  trans : ∀ a b c, unranked b = false → better c b = true → better b a = true →
    better c a = true
  negTrans : ∀ a b c, unranked b = false → better c b = false → better b a = false →
    better c a = false

omit [Ord κ] [TransOrd κ] in
/-- The choice is associative: the first of the best ranked values wins. -/
theorem prefer_assoc (strict : StrictlyRanks unranked better) (a b c : α) :
    prefer unranked better (prefer unranked better a b) c =
      prefer unranked better a (prefer unranked better b c) := by
  cases ha : unranked a with
  | true => rw [prefer_of_unranked ha, prefer_of_unranked ha]
  | false =>
    cases hb : unranked b with
    | true => rw [prefer_unranked ha hb, prefer_of_unranked hb]
    | false =>
      cases hc : unranked c with
      | true =>
        rw [prefer_unranked hb hc, prefer_ranked ha hb]
        split
        · exact prefer_unranked hb hc
        · exact prefer_unranked ha hc
      | false =>
        rw [prefer_ranked ha hb, prefer_ranked hb hc]
        cases hba : better b a <;> cases hcb : better c b
        · have hca := strict.negTrans a b c hb hcb hba
          simp only [Bool.false_eq_true, if_false, prefer_ranked ha hc, prefer_ranked ha hb,
            hca, hba]
        · simp only [Bool.false_eq_true, if_false, if_true, prefer_ranked ha hc]
        · simp only [Bool.false_eq_true, if_false, if_true, prefer_ranked hb hc,
            prefer_ranked ha hb, hcb, hba]
        · have hca := strict.trans a b c hb hcb hba
          simp only [if_true, prefer_ranked hb hc, prefer_ranked ha hc, hca, hcb]

omit [Ord κ] [TransOrd κ] in
/-- The converse relation ranks the same values. -/
theorem StrictlyRanks.flip (strict : StrictlyRanks unranked better) :
    StrictlyRanks unranked (fun a b => better b a) where
  trans a b c present hcb hba := strict.trans c b a present hba hcb
  negTrans a b c present hcb hba := strict.negTrans c b a present hba hcb

omit [TransOrd κ] in
theorem rankCompare_lt_iff :
    rankCompare rank a b = some .lt ↔
      ∃ x y, rank a = some x ∧ rank b = some y ∧ compare x y = .lt := by
  rw [rankCompare]
  cases rank a <;> cases rank b <;> simp

/-- The lesser rank is better. -/
theorem strictlyRanks_lt (absent : ∀ a, unranked a = (rank a).isNone)
    (less : ∀ a b, better a b = true ↔ rankCompare rank a b = some .lt) :
    StrictlyRanks unranked better where
  trans a b c _ hcb hba := by
    obtain ⟨z, y, hz, hy, hzy⟩ := rankCompare_lt_iff.mp ((less c b).mp hcb)
    obtain ⟨y', x, hy', hx, hyx⟩ := rankCompare_lt_iff.mp ((less b a).mp hba)
    obtain rfl : y = y' := Option.some.inj (hy.symm.trans hy')
    exact (less c a).mpr (rankCompare_lt_iff.mpr ⟨z, x, hz, hx, TransCmp.lt_trans hzy hyx⟩)
  negTrans a b c present hcb hba := by
    rw [absent] at present
    obtain ⟨y, hy⟩ := Option.ne_none_iff_exists'.mp (Option.isNone_eq_false_iff.mp present |>
      Option.isSome_iff_ne_none.mp)
    rw [Bool.eq_false_iff, ne_eq, less, rankCompare_lt_iff] at hcb hba ⊢
    rintro ⟨z, x, hz, hx, hzx⟩
    have hyz : (compare y z).isLE = true :=
      Ordering.isLE_iff_ne_gt.mpr fun h => hcb ⟨z, y, hz, hy, OrientedCmp.gt_iff_lt.mp h⟩
    have hxy : (compare x y).isLE = true :=
      Ordering.isLE_iff_ne_gt.mpr fun h => hba ⟨y, x, hy, hx, OrientedCmp.gt_iff_lt.mp h⟩
    exact OrientedCmp.not_lt_of_isLE (TransCmp.isLE_trans hxy hyz) hzx

/-- "Better" is the strict part of an order that is total on the ranked values. -/
structure Orders (unranked : α → Bool) (better : α → α → Bool) (R : α → α → Prop) : Prop where
  trans : ∀ a b c, R a b → R b c → R a c
  of_better : ∀ a b, better a b = true → R a b
  of_not_better : ∀ a b, unranked a = false → unranked b = false → better b a = false → R a b

omit [Ord κ] [TransOrd κ] in
theorem Orders.flip {R : α → α → Prop} (orders : Orders unranked better R) :
    Orders unranked (fun a b => better b a) (fun a b => R b a) where
  trans a b c hab hbc := orders.trans c b a hbc hab
  of_better a b hab := orders.of_better b a hab
  of_not_better a b ha hb hba := orders.of_not_better b a hb ha hba

theorem orders_le (absent : ∀ a, unranked a = (rank a).isNone)
    (less : ∀ a b, better a b = true ↔ rankCompare rank a b = some .lt) :
    Orders unranked better (fun a b => (rankCompare rank a b).any Ordering.isLE = true) where
  trans _ _ _ := rankCompare_trans
  of_better a b hab := by
    rw [(less a b).mp hab]
    rfl
  of_not_better a b ha hb hba := by
    rw [absent, Option.isNone_eq_false_iff, Option.isSome_iff_exists] at ha hb
    obtain ⟨x, hx⟩ := ha
    obtain ⟨y, hy⟩ := hb
    rw [Bool.eq_false_iff, ne_eq, less, rankCompare_lt_iff] at hba
    rw [rankCompare, hx, hy]
    exact Ordering.isLE_iff_ne_gt.mpr (fun greater =>
      hba ⟨y, x, hy, hx, OrientedCmp.gt_iff_lt.mp greater⟩)

omit [Ord κ] [TransOrd κ] in
/-- Among ranked values the choice stands before both. -/
theorem prefer_selects {R : α → α → Prop} (orders : Orders unranked better R) :
    Selects (fun a => unranked a = false) R (prefer unranked better) := by
  have level (a : α) (ha : unranked a = false) : R a a := by
    cases h : better a a with
    | true => exact orders.of_better a a h
    | false => exact orders.of_not_better a a ha ha h
  refine ⟨fun a b ha hb => ?_, fun a b ha hb => ?_, fun a b ha hb => ?_, fun a b ha hb => ?_,
    orders.trans⟩
  · rw [prefer_ranked ha hb]
    split
    · exact hb
    · exact ha
  · rw [prefer_ranked ha hb]
    split
    · exact Or.inr (level b hb)
    · exact Or.inl (level a ha)
  · rw [prefer_ranked ha hb]
    split
    · rename_i second
      exact orders.of_better b a second
    · exact level a ha
  · rw [prefer_ranked ha hb]
    split
    · exact level b hb
    · rename_i first
      exact orders.of_not_better a b ha hb (Bool.eq_false_iff.mpr first)

omit [Ord κ] [TransOrd κ] in
/-- A map that keeps the ranked values and the comparison keeps the choice. -/
theorem map_prefer {β : Type*} {unranked' : β → Bool} {better' : β → β → Bool} {f : α → β}
    (absent : ∀ a, unranked' (f a) = unranked a)
    (compared : ∀ a b, better' (f a) (f b) = better a b) (a b : α) :
    f (prefer unranked better a b) = prefer unranked' better' (f a) (f b) := by
  rw [prefer, prefer, absent, absent, compared]
  simp only [apply_ite f]

end Preferring

end RankedOrders
