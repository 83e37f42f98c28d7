import Mathlib.Algebra.BigOperators.Group.List.Basic
import Mathlib.Order.Lattice

/-!
# Saturating 64-bit sums

A saturating sum is the exact sum as long as no running total leaves the range;
that condition is `PrefixesFit`. Once a total is clamped, later terms act on the
clamped value, so neither order nor grouping may be changed.
-/

namespace SaturatingSums

/-- The range of a signed 64-bit integer. -/
def Fits (n : Int) : Prop := -2 ^ 63 ≤ n ∧ n < 2 ^ 63

instance (n : Int) : Decidable (Fits n) := inferInstanceAs (Decidable (_ ∧ _))

theorem fits_toInt (a : Int64) : Fits a.toInt :=
  ⟨Int64.le_toInt a, Int64.toInt_lt a⟩

/-- A count is cast to 64 bits. -/
theorem ofNat_congr {a b : Nat} (same : Int64.ofNat a = Int64.ofNat b) :
    a % 2 ^ 64 = b % 2 ^ 64 := by
  have bits := congrArg (fun x => x.toBitVec.toNat) same
  simpa only [Int64.toBitVec_ofNat', BitVec.toNat_ofNat] using bits

/-- Addition clamped to the range. -/
def saturatingAdd (a b : Int64) : Int64 :=
  Int64.ofInt (max (-2 ^ 63) (min (2 ^ 63 - 1) (a.toInt + b.toInt)))

theorem toInt_saturatingAdd {a b : Int64} (fits : Fits (a.toInt + b.toInt)) :
    (saturatingAdd a b).toInt = a.toInt + b.toInt := by
  obtain ⟨low, high⟩ := fits
  have clamped : max (-2 ^ 63) (min (2 ^ 63 - 1) (a.toInt + b.toInt)) = a.toInt + b.toInt := by
    rw [min_eq_right (by omega), max_eq_right low]
  rw [saturatingAdd, clamped, Int64.toInt_ofInt_of_le low high]

theorem zero_saturatingAdd (a : Int64) : saturatingAdd 0 a = a := by
  have same : (0 : Int64).toInt + a.toInt = a.toInt := Int.zero_add _
  rw [← Int64.toInt_inj, toInt_saturatingAdd (by rw [same]; exact fits_toInt a), same]

/-- The exact value of a list of machine integers. -/
def exactSum : List Int64 → Int
  | [] => 0
  | x :: xs => x.toInt + exactSum xs

@[simp] theorem exactSum_nil : exactSum [] = 0 := rfl

@[simp] theorem exactSum_cons (x : Int64) (xs : List Int64) :
    exactSum (x :: xs) = x.toInt + exactSum xs := rfl

/-- No running total that starts at `start` leaves the range. -/
def PrefixesFit : Int → List Int64 → Prop
  | _, [] => True
  | start, x :: xs => Fits (start + x.toInt) ∧ PrefixesFit (start + x.toInt) xs

theorem prefixesFit_append {start : Int} {xs ys : List Int64} :
    PrefixesFit start (xs ++ ys) ↔
      PrefixesFit start xs ∧ PrefixesFit (start + exactSum xs) ys := by
  induction xs generalizing start with
  | nil => simp [PrefixesFit]
  | cons x xs ih =>
    simp only [List.cons_append, PrefixesFit, ih, exactSum_cons, and_assoc, Int.add_assoc]

theorem prefixesFit_total {start : Int} {xs : List Int64} (base : Fits start)
    (fit : PrefixesFit start xs) : Fits (start + exactSum xs) := by
  induction xs generalizing start with
  | nil => simpa using base
  | cons x xs ih =>
    have tail := ih fit.1 fit.2
    rwa [exactSum_cons, ← Int.add_assoc]

/-- Without clamping a saturating fold computes the exact sum. -/
theorem toInt_foldl_saturatingAdd (start : Int64) {xs : List Int64}
    (fit : PrefixesFit start.toInt xs) :
    (xs.foldl saturatingAdd start).toInt = start.toInt + exactSum xs := by
  induction xs generalizing start with
  | nil => simp
  | cons x xs ih =>
    have head := toInt_saturatingAdd fit.1
    have shifted : PrefixesFit (saturatingAdd start x).toInt xs := by
      rw [head]
      exact fit.2
    rw [List.foldl_cons, ih _ shifted, head, exactSum_cons, Int.add_assoc]

/-- A partial sum joins a running total as its terms would, if neither is clamped. -/
theorem saturatingAdd_partial {a : Int64} {xs : List Int64} (alone : PrefixesFit 0 xs)
    (after : PrefixesFit a.toInt xs) :
    saturatingAdd a (xs.foldl saturatingAdd 0) = xs.foldl saturatingAdd a := by
  have part : (xs.foldl saturatingAdd 0).toInt = exactSum xs := by
    rw [toInt_foldl_saturatingAdd 0 alone]
    exact Int.zero_add _
  have total : Fits (a.toInt + (xs.foldl saturatingAdd 0).toInt) := by
    rw [part]
    exact prefixesFit_total (fits_toInt a) after
  rw [← Int64.toInt_inj, toInt_saturatingAdd total, part, toInt_foldl_saturatingAdd a after]

end SaturatingSums
