import RustafariDB.SaturatingSums

/-!
# When a saturating sum is the clamped sum

A saturating sum of terms of one sign moves one way and is clamped once, which is the exact
sum clamped. Terms of both signs sum up exactly in every order if those above zero and those
below zero stay in range each for themselves, and otherwise not in every order.
-/

namespace ClampedSums

open SaturatingSums

/-- The nearest 64-bit integer. -/
def clamp (n : Int) : Int := max (-2 ^ 63) (min (2 ^ 63 - 1) n)

theorem toInt_saturatingAdd_eq (a b : Int64) :
    (saturatingAdd a b).toInt = clamp (a.toInt + b.toInt) := by
  rw [saturatingAdd, Int64.toInt_ofInt_of_le (by omega) (by omega), clamp]

theorem clamp_toInt (a : Int64) : clamp a.toInt = a.toInt := by
  obtain ⟨low, high⟩ := fits_toInt a
  rw [clamp]
  omega

theorem toInt_ofInt_clamp (n : Int) : (Int64.ofInt (clamp n)).toInt = clamp n := by
  rw [clamp, Int64.toInt_ofInt_of_le (by omega) (by omega)]

/-- What the terms above zero add up to. -/
def rises : List Int64 → Int
  | [] => 0
  | x :: xs => max 0 x.toInt + rises xs

def falls : List Int64 → Int
  | [] => 0
  | x :: xs => min 0 x.toInt + falls xs

def OneSign (xs : List Int64) : Prop := (∀ x ∈ xs, 0 ≤ x.toInt) ∨ ∀ x ∈ xs, x.toInt ≤ 0

/-- The terms above zero stay in range, and so do those below zero. -/
def BothFit (xs : List Int64) : Prop := rises xs < 2 ^ 63 ∧ -2 ^ 63 ≤ falls xs

/-- No order and no grouping of the terms clamps in between. -/
def Steady (xs : List Int64) : Prop := OneSign xs ∨ BothFit xs

variable {xs ys : List Int64}

section Totals

theorem rises_nonneg (xs : List Int64) : 0 ≤ rises xs := by
  induction xs with
  | nil => exact le_refl 0
  | cons x xs ih => rw [rises]; omega

theorem falls_nonpos (xs : List Int64) : falls xs ≤ 0 := by
  induction xs with
  | nil => exact le_refl 0
  | cons x xs ih => rw [falls]; omega

theorem exactSum_eq (xs : List Int64) : exactSum xs = rises xs + falls xs := by
  induction xs with
  | nil => rfl
  | cons x xs ih => rw [exactSum, rises, falls, ih]; omega

theorem rises_append (xs ys : List Int64) : rises (xs ++ ys) = rises xs + rises ys := by
  induction xs with
  | nil => exact (Int.zero_add _).symm
  | cons x xs ih => rw [List.cons_append, rises, rises, ih]; omega

theorem falls_append (xs ys : List Int64) : falls (xs ++ ys) = falls xs + falls ys := by
  induction xs with
  | nil => exact (Int.zero_add _).symm
  | cons x xs ih => rw [List.cons_append, falls, falls, ih]; omega

theorem exactSum_append (xs ys : List Int64) :
    exactSum (xs ++ ys) = exactSum xs + exactSum ys := by
  rw [exactSum_eq, exactSum_eq xs, exactSum_eq ys, rises_append, falls_append]
  omega

theorem totals_perm (h : xs.Perm ys) : rises xs = rises ys ∧ falls xs = falls ys := by
  induction h with
  | nil => exact ⟨rfl, rfl⟩
  | cons x _ ih => simp only [rises, falls, ih.1, ih.2, and_self]
  | swap x y l => constructor <;> simp only [rises, falls] <;> omega
  | trans _ _ ih ih' => exact ⟨ih.1.trans ih'.1, ih.2.trans ih'.2⟩

theorem exactSum_perm (h : xs.Perm ys) : exactSum xs = exactSum ys := by
  rw [exactSum_eq, exactSum_eq, (totals_perm h).1, (totals_perm h).2]

theorem falls_eq_zero : falls xs = 0 ↔ ∀ x ∈ xs, 0 ≤ x.toInt := by
  induction xs with
  | nil => simp [falls]
  | cons x xs ih =>
    have down := falls_nonpos xs
    rw [falls, List.forall_mem_cons, ← ih]
    omega

theorem rises_eq_zero : rises xs = 0 ↔ ∀ x ∈ xs, x.toInt ≤ 0 := by
  induction xs with
  | nil => simp [rises]
  | cons x xs ih =>
    have up := rises_nonneg xs
    rw [rises, List.forall_mem_cons, ← ih]
    omega

theorem oneSign_iff : OneSign xs ↔ falls xs = 0 ∨ rises xs = 0 := by
  rw [OneSign, falls_eq_zero, rises_eq_zero]

end Totals

section Folds

/-- Terms of one sign are clamped once. -/
theorem toInt_foldl_oneSign (sign : OneSign xs) (a : Int64) :
    (xs.foldl saturatingAdd a).toInt = clamp (a.toInt + exactSum xs) := by
  induction xs generalizing a with
  | nil => rw [exactSum, Int.add_zero, clamp_toInt]; rfl
  | cons x xs ih =>
    have rest : OneSign xs := sign.imp (fun up => (List.forall_mem_cons.mp up).2)
      (fun down => (List.forall_mem_cons.mp down).2)
    have sum := exactSum_eq xs
    have up := rises_nonneg xs
    have down := falls_nonpos xs
    obtain ⟨low, high⟩ := fits_toInt a
    rw [oneSign_iff, falls, rises] at sign
    rw [List.foldl_cons, ih rest, toInt_saturatingAdd_eq, exactSum, clamp, clamp, clamp]
    omega

theorem prefixesFit_of_bounds {start : Int} (low : -2 ^ 63 ≤ start + falls xs)
    (high : start + rises xs < 2 ^ 63) : PrefixesFit start xs := by
  induction xs generalizing start with
  | nil => trivial
  | cons x xs ih =>
    have up := rises_nonneg xs
    have down := falls_nonpos xs
    rw [rises] at high
    rw [falls] at low
    exact ⟨⟨by omega, by omega⟩, ih (by omega) (by omega)⟩

theorem steady_foldl (steady : Steady xs) :
    (xs.foldl saturatingAdd 0).toInt = clamp (exactSum xs) := by
  rcases steady with sign | ⟨high, low⟩
  · rw [toInt_foldl_oneSign sign]
    exact congrArg clamp (Int.zero_add _)
  · have fit : PrefixesFit (0 : Int64).toInt xs := by
      apply prefixesFit_of_bounds
      · exact low.trans_eq (Int.zero_add _).symm
      · exact (Int.zero_add _).trans_lt high
    have up := rises_nonneg xs
    have down := falls_nonpos xs
    have sum := exactSum_eq xs
    rw [toInt_foldl_saturatingAdd 0 fit, clamp]
    change 0 + _ = _
    omega

theorem steady_iff :
    Steady xs ↔ falls xs = 0 ∨ rises xs = 0 ∨ rises xs < 2 ^ 63 ∧ -2 ^ 63 ≤ falls xs := by
  rw [Steady, oneSign_iff, or_assoc]
  rfl

theorem steady_perm (h : xs.Perm ys) (steady : Steady xs) : Steady ys := by
  rw [steady_iff, ← (totals_perm h).1, ← (totals_perm h).2]
  exact steady_iff.mp steady

theorem steady_left (steady : Steady (xs ++ ys)) : Steady xs := by
  have upX := rises_nonneg xs
  have upY := rises_nonneg ys
  have downX := falls_nonpos xs
  have downY := falls_nonpos ys
  rw [steady_iff, rises_append, falls_append] at steady
  rw [steady_iff]
  omega

theorem steady_right (steady : Steady (xs ++ ys)) : Steady ys :=
  steady_left (steady_perm List.perm_append_comm steady)

/-- Steady terms may be summed in two groups. -/
theorem steady_join (steady : Steady (xs ++ ys)) :
    saturatingAdd (xs.foldl saturatingAdd 0) (ys.foldl saturatingAdd 0) =
      ys.foldl saturatingAdd (xs.foldl saturatingAdd 0) := by
  have whole := steady_foldl steady
  have left := steady_foldl (steady_left steady)
  have right := steady_foldl (steady_right steady)
  have upX := rises_nonneg xs
  have upY := rises_nonneg ys
  have downX := falls_nonpos xs
  have downY := falls_nonpos ys
  rw [steady_iff, rises_append, falls_append] at steady
  rw [← List.foldl_append, ← Int64.toInt_inj, toInt_saturatingAdd_eq, whole, left, right,
    exactSum_append, exactSum_eq xs, exactSum_eq ys]
  simp only [clamp]
  omega

/-- The terms of one sign first, then the others. -/
theorem toInt_foldl_twoSigns {ups downs : List Int64} (first : OneSign ups)
    (second : OneSign downs) :
    ((ups ++ downs).foldl saturatingAdd 0).toInt =
      clamp (clamp (exactSum ups) + exactSum downs) := by
  rw [List.foldl_append, toInt_foldl_oneSign second, steady_foldl (Or.inl first)]

/-- Every order gives the exact sum clamped just if the terms are steady. Otherwise the terms
above zero first, or those below zero first, give another. -/
theorem orders_exact_iff (xs : List Int64) :
    (∀ ys : List Int64, ys.Perm xs → (ys.foldl saturatingAdd 0).toInt = clamp (exactSum xs)) ↔
      Steady xs := by
  constructor
  · intro orders
    let up (x : Int64) : Bool := decide (0 ≤ x.toInt)
    let ups := xs.filter up
    let downs := xs.filter (fun x => !up x)
    have split : (ups ++ downs).Perm xs := List.filter_append_perm up xs
    have signUp : ∀ x ∈ ups, 0 ≤ x.toInt := fun x inside =>
      of_decide_eq_true (List.mem_filter.mp inside).2
    have signDown : ∀ x ∈ downs, x.toInt ≤ 0 := fun x inside => by
      have below := (List.mem_filter.mp inside).2
      simp only [up, Bool.not_eq_true', decide_eq_false_iff_not] at below
      omega
    have totals := totals_perm split
    rw [rises_append, falls_append, falls_eq_zero.mpr signUp, rises_eq_zero.mpr signDown] at totals
    have first := orders _ split
    have second := orders _ (List.perm_append_comm.trans split)
    rw [toInt_foldl_twoSigns (Or.inl signUp) (Or.inr signDown)] at first
    rw [toInt_foldl_twoSigns (Or.inr signDown) (Or.inl signUp)] at second
    rw [exactSum_eq ups, exactSum_eq downs, falls_eq_zero.mpr signUp, rises_eq_zero.mpr signDown,
      exactSum_eq xs, clamp, clamp, clamp] at first second
    have above := rises_nonneg xs
    have below := falls_nonpos xs
    rw [steady_iff]
    omega
  · intro steady ys order
    rw [steady_foldl (steady_perm order.symm steady), exactSum_perm order]

end Folds

end ClampedSums
