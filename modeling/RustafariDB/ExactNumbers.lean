import RustafariDB.BinaryFloats
import RustafariDB.FloatLaws

/-!
# Exact values of floats

A binary64 number is read from its bits as a sign, a mantissa and an exponent in canonical
form, so that its comparison, which looks at exponents before mantissas, is the comparison
of exact values: rationals, two infinities, and NaN apart.
-/

namespace ExactNumbers

open SelectiveFolds RankedOrders BinaryFloats Floats FloatLaws

/-- Every number has an exact value. Comparison, minimum and maximum are those of the values. -/
class ExactFloat64 (F : Type) [Float64 F] where
  exact : F → ExactFloat
  partialCmp_exact (a b : F) : Float64.partialCmp a b = Float64.partialCmp (exact a) (exact b)
  exact_min (a b : F) : exact (Float64.min a b) = Float64.min (exact a) (exact b)
  exact_max (a b : F) : exact (Float64.max a b) = Float64.max (exact a) (exact b)
  exact_infinity : exact Float64.infinity = .inf false
  exact_negInfinity : exact Float64.negInfinity = .inf true

theorem partialCmp_rank (a b : ExactFloat) : Float64.partialCmp a b = rankCompare exactRank a b :=
  orderingOf_eq exact_ranked.less exact_ranked.equal a b

theorem compare_finite (p q : ℚ) :
    rankCompare exactRank (.finite p) (.finite q) = some (compare p q) := by
  simp only [rankCompare, exactRank, compare_pair, compare_classes, Ordering.eq_then]

theorem compare_finite_self (p : ℚ) :
    rankCompare exactRank (.finite p) (.finite p) = some .eq :=
  (compare_finite p p).trans (congrArg some (compare_eq_iff_eq.mpr rfl))

theorem compare_finite_lt {p q : ℚ} (h : p < q) :
    rankCompare exactRank (.finite p) (.finite q) = some .lt :=
  (compare_finite p q).trans (congrArg some (compare_lt_iff_lt.mpr h))

theorem compare_finite_gt {p q : ℚ} (h : q < p) :
    rankCompare exactRank (.finite p) (.finite q) = some .gt :=
  (compare_finite p q).trans (congrArg some (compare_gt_iff_gt.mpr h))

instance : ExactFloat64 ExactFloat :=
  ⟨id, fun _ _ => rfl, fun _ _ => rfl, fun _ _ => rfl, rfl, rfl⟩

/-- The order of exact values, which leaves NaN out. -/
def AtMost (a b : ExactFloat) : Prop := (Float64.partialCmp a b).any Ordering.isLE = true

theorem atMost_orders : Orders ExactFloat.isNaN ExactFloat.lt AtMost := by
  have ranked := orders_le exact_ranked.absent exact_ranked.less
  have same : AtMost = fun a b => (rankCompare exactRank a b).any Ordering.isLE = true := by
    funext a b
    rw [AtMost, partialCmp_rank]
  rwa [same]

theorem min_selects : Selects (fun a => ExactFloat.isNaN a = false) AtMost Float64.min :=
  prefer_selects atMost_orders

theorem max_selects :
    Selects (fun a => ExactFloat.isNaN a = false) (fun a b => AtMost b a) Float64.max :=
  prefer_selects atMost_orders.flip

theorem atMost_inf {a : ExactFloat} (ha : a.isNaN = false) : AtMost a (.inf false) :=
  atMost_orders.of_not_better a _ ha rfl (exact_ranked.greatest.2 a)

theorem inf_atMost {a : ExactFloat} (ha : a.isNaN = false) : AtMost (.inf true) a :=
  atMost_orders.of_not_better _ a rfl ha (exact_ranked.least.2 a)

theorem atMost_finite {p q : ℚ} : AtMost (.finite p) (.finite q) ↔ p ≤ q := by
  rw [AtMost, partialCmp_rank, compare_finite, Option.any_some]
  exact Ordering.isLE_iff_ne_gt.trans compare_le_iff_le

theorem atMost_antisymm {a b : ExactFloat} (hab : AtMost a b) (hba : AtMost b a) :
    Float64.partialCmp a b = some .eq := by
  rw [AtMost] at hab
  rw [AtMost, LawfulFloat64.partialCmp_swap a b] at hba
  cases order : Float64.partialCmp a b with
  | none => simp [order] at hab
  | some order' =>
    rw [order] at hab hba
    cases order' with
    | lt => cases hba
    | eq => rfl
    | gt => cases hab

section Binary64

open Float.Model

def unpackedValue : UnpackedFloat → ExactFloat
  | .notANumber => .nan
  | .infinity .positive => .inf false
  | .infinity .negative => .inf true
  | .zero _ => .finite 0
  | .finite .positive m e _ => .finite (scaled m e)
  | .finite .negative m e _ => .finite (-scaled m e)

/-- What the bits of a binary64 number unpack to. -/
def IsCanonical : UnpackedFloat → Prop
  | .finite _ m e _ => Canonical 52 (-1074) m e
  | _ => True

/-- The implicit bit of a normal number stands above its mantissa. -/
theorem toNat_implicit {w : Nat} (v : BitVec w) : (1#1 ++ v).toNat = 2 ^ w + v.toNat := by
  rw [BitVec.toNat_append, ← Nat.shiftLeft_add_eq_or_of_lt v.isLt, Nat.shiftLeft_eq]
  exact congrArg (· + v.toNat) (Nat.one_mul _)

theorem canonical_unpack (b : BitVec (Format.numBits .binary64)) :
    IsCanonical (UnpackedFloat.unpack .binary64 b) := by
  have mantissa : (UnpackedFloat.unpackMantissa b).toNat < 2 ^ 52 :=
    (UnpackedFloat.unpackMantissa b).isLt
  delta UnpackedFloat.unpack
  dsimp only
  by_cases special : UnpackedFloat.unpackExponent b = -1#_
  · rw [if_pos special]
    by_cases infinite : UnpackedFloat.unpackMantissa b = 0#_
    · rw [if_pos infinite]
      trivial
    · rw [if_neg infinite]
      trivial
  · rw [if_neg special]
    by_cases least : UnpackedFloat.unpackExponent b = 0#_
    · rw [if_pos least]
      by_cases none : UnpackedFloat.unpackMantissa b = 0#_
      · rw [dif_pos none]
        trivial
      · -- subnormal
        rw [dif_neg none]
        have exponent : (UnpackedFloat.unpackExponent b).toNat = 0 := by
          rw [least]
          rfl
        have bias : ((Format.exponentBias .binary64 : Nat) : Int) = 1023 := rfl
        exact ⟨by omega, by omega, fun less => by omega⟩
    · rw [if_neg least]
      have exponent : 0 < (UnpackedFloat.unpackExponent b).toNat :=
        Nat.pos_of_ne_zero (fun zero => least (BitVec.eq_of_toNat_eq zero))
      have bias : ((Format.exponentBias .binary64 : Nat) : Int) = 1023 := rfl
      have digits : (1#1 ++ UnpackedFloat.unpackMantissa b).toNat =
          2 ^ 52 + (UnpackedFloat.unpackMantissa b).toNat := toNat_implicit _
      exact ⟨by omega, by omega, fun _ => by omega⟩

theorem compare_unpackedValue {a b : UnpackedFloat} (ha : IsCanonical a) (hb : IsCanonical b) :
    a.compare b = rankCompare exactRank (unpackedValue a) (unpackedValue b) := by
  cases a with
  | notANumber => cases b <;> rfl
  | infinity s =>
    cases b with
    | infinity t => cases s <;> cases t <;> rfl
    | finite t => cases s <;> cases t <;> rfl
    | notANumber => cases s <;> rfl
    | zero t => cases s <;> rfl
  | zero s =>
    cases b with
    | infinity t => cases t <;> rfl
    | finite t n f positive =>
      have above := scaled_pos positive f
      cases t with
      | positive => exact (compare_finite_lt above).symm
      | negative => exact (compare_finite_gt (neg_lt_zero.mpr above)).symm
    | notANumber => rfl
    | zero t => exact (compare_finite_self 0).symm
  | finite s m e positive =>
    have above := scaled_pos positive e
    cases b with
    | infinity t => cases s <;> cases t <;> rfl
    | notANumber => cases s <;> rfl
    | zero t =>
      cases s with
      | positive => exact (compare_finite_gt above).symm
      | negative => exact (compare_finite_lt (neg_lt_zero.mpr above)).symm
    | finite t n f positive' =>
      have above' := scaled_pos positive' f
      have apart : -scaled m e < scaled n f := lt_trans (neg_lt_zero.mpr above) above'
      have apart' : -scaled n f < scaled m e := lt_trans (neg_lt_zero.mpr above') above
      cases s <;> cases t
      · change _ = rankCompare exactRank (.finite (-scaled m e)) (.finite (-scaled n f))
        rw [compare_finite, compare_neg_neg, compare_scaled hb ha]
        change some ((compare e f).then (compare m n)).swap = _
        rw [Ordering.swap_then, Int.compare_swap, Nat.compare_swap]
      · exact (compare_finite_lt apart).symm
      · exact (compare_finite_gt apart').symm
      · change _ = rankCompare exactRank (.finite (scaled m e)) (.finite (scaled n f))
        rw [compare_finite, compare_scaled ha hb]
        rfl

theorem rankCompare_unpackedValue (a b : Float) :
    rankCompare exactRank (unpackedValue a.toModel.unpack) (unpackedValue b.toModel.unpack) =
      rankCompare floatRank a b := by
  have canonical (x : Float) : IsCanonical x.toModel.unpack := canonical_unpack _
  rw [← compare_unpackedValue (canonical a) (canonical b), float_compare]

theorem isNaN_unpackedValue (a : Float) :
    (unpackedValue a.toModel.unpack).isNaN = Float.isNaN a := by
  rw [float_ranked.absent, floatRank]
  cases a.toModel.unpack with
  | infinity s => cases s <;> rfl
  | finite s => cases s <;> rfl
  | notANumber => rfl
  | zero s => rfl

theorem lt_unpackedValue (a b : Float) :
    (unpackedValue a.toModel.unpack).lt (unpackedValue b.toModel.unpack) = decide (a < b) := by
  rw [Bool.eq_iff_iff, exact_ranked.less, rankCompare_unpackedValue, ← float_ranked.less]

instance : ExactFloat64 Float where
  exact a := unpackedValue a.toModel.unpack
  partialCmp_exact a b := by
    rw [partialCmp_rank, rankCompare_unpackedValue]
    exact orderingOf_eq float_ranked.less float_ranked.equal a b
  exact_min := map_prefer isNaN_unpackedValue lt_unpackedValue
  exact_max a b := by
    rw [float_ranked.max_eq, exact_ranked.max_eq]
    exact map_prefer isNaN_unpackedValue (fun a b => lt_unpackedValue b a) a b
  exact_infinity := congrArg unpackedValue unpack_infinity
  exact_negInfinity := congrArg unpackedValue unpack_negInfinity

end Binary64

end ExactNumbers
