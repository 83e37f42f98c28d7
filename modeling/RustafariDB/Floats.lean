import Mathlib.Data.Rat.Init
import Mathlib.Algebra.Order.Ring.Rat
import Mathlib.Algebra.Order.Field.Rat

/-!
# The `f64` operations of the program

Values are generic in the type of `Float64` payloads. `Float` is the IEEE 754
binary64 instance. `ExactFloat` keeps the special values but computes finite
results in the rationals, so that it has no rounding.
-/

namespace Floats

/-- What the program asks of `f64`. -/
class Float64 (F : Type) where
  zero : F
  infinity : F
  negInfinity : F
  /-- `as f64` from an integer type. -/
  ofInt : Int → F
  add : F → F → F
  div : F → F → F
  min : F → F → F
  max : F → F → F
  partialCmp : F → F → Option Ordering
  /-- The operator `==`: no NaN equals itself, and the two zeros are equal. -/
  beq : F → F → Bool
  toBits : F → BitVec 64

/-- A comparison by `<` and `==` that leaves NaN incomparable. -/
def orderingOf {F : Type} (lt eq : F → F → Bool) (a b : F) : Option Ordering :=
  if lt a b then some .lt
  else if eq a b then some .eq
  else if lt b a then some .gt
  else none

/-- `f64::min` and `f64::max` pass over a NaN operand. -/
def preferNumber {F : Type} (isNaN : F → Bool) (better : F → F → Bool) (a b : F) : F :=
  if isNaN a then b
  else if isNaN b then a
  else if better b a then b
  else a

instance : Float64 Float where
  zero := 0
  infinity := Float.ofBits 0x7ff0000000000000
  negInfinity := Float.ofBits 0xfff0000000000000
  ofInt := Float.ofInt
  add := fun a b => a + b
  div := fun a b => a / b
  min := preferNumber Float.isNaN (fun a b => a < b)
  max := preferNumber Float.isNaN (fun a b => b < a)
  partialCmp := orderingOf (fun a b => a < b) (fun a b => a == b)
  beq := fun a b => a == b
  toBits := fun a => a.toBits.toBitVec

/-- Floating point without rounding and with a single zero. -/
inductive ExactFloat where
  | nan
  | inf (negative : Bool)
  | finite (q : ℚ)
  deriving DecidableEq

namespace ExactFloat

def add : ExactFloat → ExactFloat → ExactFloat
  | nan, _ => nan
  | _, nan => nan
  | inf a, inf b => if a = b then inf a else nan
  | inf a, finite _ => inf a
  | finite _, inf b => inf b
  | finite p, finite q => finite (p + q)

def div : ExactFloat → ExactFloat → ExactFloat
  | nan, _ => nan
  | _, nan => nan
  | inf _, inf _ => nan
  | inf a, finite q => inf (xor a (decide (q < 0)))
  | finite _, inf _ => finite 0
  | finite p, finite q =>
    if q = 0 then (if p = 0 then nan else inf (decide (p < 0))) else finite (p / q)

def isNaN : ExactFloat → Bool
  | nan => true
  | _ => false

def isFinite : ExactFloat → Bool
  | finite _ => true
  | _ => false

def lt : ExactFloat → ExactFloat → Bool
  | nan, _ => false
  | _, nan => false
  | inf a, inf b => a && !b
  | inf a, finite _ => a
  | finite _, inf b => !b
  | finite p, finite q => decide (p < q)

def beq (a b : ExactFloat) : Bool :=
  !a.isNaN && decide (a = b)

/-- The nearest binary64 pattern that dividing numerator by denominator reaches. -/
def toBits : ExactFloat → BitVec 64
  | nan => 0x7ff8000000000000
  | inf false => 0x7ff0000000000000
  | inf true => 0xfff0000000000000
  | finite q => (Float.ofInt q.num / Float.ofInt q.den).toBits.toBitVec

end ExactFloat

instance : Float64 ExactFloat where
  zero := .finite 0
  infinity := .inf false
  negInfinity := .inf true
  ofInt := fun i => .finite i
  add := ExactFloat.add
  div := ExactFloat.div
  min := preferNumber ExactFloat.isNaN ExactFloat.lt
  max := preferNumber ExactFloat.isNaN (fun a b => ExactFloat.lt b a)
  partialCmp := orderingOf ExactFloat.lt ExactFloat.beq
  beq := ExactFloat.beq
  toBits := ExactFloat.toBits

namespace ExactFloat

instance : Zero ExactFloat := ⟨finite 0⟩

instance : Add ExactFloat := ⟨add⟩

theorem zero_def : (0 : ExactFloat) = finite 0 := rfl

theorem add_def (a b : ExactFloat) : a + b = add a b := rfl

@[simp] theorem finite_add (p q : ℚ) : finite p + finite q = finite (p + q) := rfl

theorem exact_add_assoc (a b c : ExactFloat) : a + b + c = a + (b + c) := by
  simp only [add_def]
  cases a with
  | nan => rfl
  | inf x =>
    cases b with
    | nan => rfl
    | inf y =>
      cases c with
      | nan => cases x <;> cases y <;> rfl
      | inf z => cases x <;> cases y <;> cases z <;> rfl
      | finite q => cases x <;> cases y <;> rfl
    | finite q => cases c <;> rfl
  | finite p =>
    cases b with
    | nan => rfl
    | inf y =>
      cases c with
      | nan => rfl
      | inf z => cases y <;> cases z <;> rfl
      | finite q => rfl
    | finite q =>
      cases c with
      | nan => rfl
      | inf z => rfl
      | finite r => simp only [add, add_assoc]

theorem exact_add_comm (a b : ExactFloat) : a + b = b + a := by
  simp only [add_def]
  cases a with
  | nan => cases b <;> rfl
  | inf x =>
    cases b with
    | nan => rfl
    | inf y => cases x <;> cases y <;> rfl
    | finite q => rfl
  | finite p =>
    cases b with
    | nan => rfl
    | inf y => rfl
    | finite q => simp only [add, add_comm]

theorem exact_zero_add (a : ExactFloat) : 0 + a = a := by
  cases a with
  | nan => rfl
  | inf x => rfl
  | finite q => rw [zero_def, finite_add, zero_add]

/-- Exact addition is associative and commutative on the special values too. -/
instance : AddCommMonoid ExactFloat where
  add_assoc := exact_add_assoc
  zero_add := exact_zero_add
  add_zero := fun a => (exact_add_comm a 0).trans (exact_zero_add a)
  add_comm := exact_add_comm
  nsmul := nsmulRec

theorem foldl_add_eq_sum (xs : List ExactFloat) (a : ExactFloat) :
    xs.foldl Float64.add a = a + xs.sum := by
  induction xs generalizing a with
  | nil => exact (add_zero a).symm
  | cons x xs ih =>
    have step : Float64.add a x = a + x := rfl
    rw [List.foldl_cons, ih, step, List.sum_cons, add_assoc]

/-- Only zero, or an addend that is already special, absorbs a finite number. -/
theorem add_finite_eq_self_iff {x : ExactFloat} {q : ℚ} :
    x + finite q = x ↔ q = 0 ∨ x.isFinite = false := by
  cases x with
  | nan => exact ⟨fun _ => Or.inr rfl, fun _ => rfl⟩
  | inf negative => exact ⟨fun _ => Or.inr rfl, fun _ => rfl⟩
  | finite p => simp [isFinite]

theorem finite_add_eq_iff {x : ExactFloat} {p q : ℚ} :
    finite p + x = finite q + x ↔ p = q ∨ x.isFinite = false := by
  cases x with
  | nan => exact ⟨fun _ => Or.inr rfl, fun _ => rfl⟩
  | inf negative => exact ⟨fun _ => Or.inr rfl, fun _ => rfl⟩
  | finite r => simp [isFinite]

/-- Division by a positive number loses nothing. -/
theorem div_finite_inj {x y : ExactFloat} {q : ℚ} (hq : 0 < q) :
    div x (finite q) = div y (finite q) ↔ x = y := by
  refine ⟨fun same => ?_, fun same => same ▸ rfl⟩
  cases x <;> cases y <;>
    simp_all [div, hq.ne', not_lt.mpr hq.le, div_left_inj']

/-- Two positive denominators give one quotient only for zero and the special values. -/
theorem div_finite_eq_iff {x : ExactFloat} {p q : ℚ} (hp : 0 < p) (hq : 0 < q) :
    div x (finite p) = div x (finite q) ↔ p = q ∨ x = 0 ∨ x.isFinite = false := by
  cases x with
  | nan => exact ⟨fun _ => Or.inr (Or.inr rfl), fun _ => rfl⟩
  | inf negative =>
    refine ⟨fun _ => Or.inr (Or.inr rfl), fun _ => ?_⟩
    simp only [div, decide_eq_false (not_lt.mpr hp.le), decide_eq_false (not_lt.mpr hq.le)]
  | finite r =>
    simp only [div, if_neg hp.ne', if_neg hq.ne', finite.injEq, zero_def, isFinite,
      Bool.true_eq_false, or_false]
    rw [div_eq_div_iff hp.ne' hq.ne', mul_eq_mul_left_iff, eq_comm]

end ExactFloat

end Floats
