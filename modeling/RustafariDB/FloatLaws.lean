import RustafariDB.OrderedMaps
import RustafariDB.SelectiveFolds
import RustafariDB.RankedOrders
import RustafariDB.Floats

/-!
# Order laws of `f64`

The comparison of two numbers, their equality and their minimum obey the order of
the extended number line, with NaN outside it. These laws hold of IEEE binary64 and
of `ExactFloat`: each type has a rank that its comparisons compare.
-/

namespace FloatLaws

open SelectiveFolds RankedOrders Floats

/-- What the proofs ask of the comparisons of `f64`; nothing here is about rounding. -/
class LawfulFloat64 (F : Type) [Float64 F] : Prop where
  beq_iff : ∀ a b : F, Float64.beq a b = true ↔ Float64.partialCmp a b = some .eq
  partialCmp_swap : ∀ a b : F,
    Float64.partialCmp b a = (Float64.partialCmp a b).map Ordering.swap
  partialCmp_self : ∀ a b : F, (Float64.partialCmp a b).isSome = true →
    Float64.partialCmp a a = some .eq
  partialCmp_trans : ∀ a b c : F, (Float64.partialCmp a b).any Ordering.isLE = true →
    (Float64.partialCmp b c).any Ordering.isLE = true →
    (Float64.partialCmp a c).any Ordering.isLE = true
  min_assoc : ∀ a b c : F, Float64.min (Float64.min a b) c = Float64.min a (Float64.min b c)
  max_assoc : ∀ a b c : F, Float64.max (Float64.max a b) c = Float64.max a (Float64.max b c)
  min_settles : Settles Float64.min (Float64.infinity : F)
  max_settles : Settles Float64.max (Float64.negInfinity : F)

/-- Zero is added to a float alike from both sides; it need not be neutral. -/
class AddsZero (F : Type) [Float64 F] : Prop where
  add_zero : ∀ a : F, Float64.add a (Float64.ofInt 0) = Float64.add Float64.zero a

section Ranks
variable {F κ : Type} [Ord κ] [Std.TransOrd κ] {rank : F → Option κ}

theorem orderingOf_eq {lt eq : F → F → Bool}
    (less : ∀ a b, lt a b = true ↔ rankCompare rank a b = some .lt)
    (equal : ∀ a b, eq a b = true ↔ rankCompare rank a b = some .eq) (a b : F) :
    orderingOf lt eq a b = rankCompare rank a b := by
  simp only [orderingOf, less, equal, rankCompare_swap rank a b]
  cases rankCompare rank a b with
  | none => rfl
  | some order => cases order <;> rfl

/-- The operations are those of a rank with least and greatest values. -/
structure RankedBy [Float64 F] (rank : F → Option κ) (isNaN : F → Bool)
    (lt eq : F → F → Bool) : Prop where
  absent : ∀ a, isNaN a = (rank a).isNone
  less : ∀ a b, lt a b = true ↔ rankCompare rank a b = some .lt
  equal : ∀ a b, eq a b = true ↔ rankCompare rank a b = some .eq
  min_eq : Float64.min = prefer isNaN lt
  max_eq : Float64.max = prefer isNaN (fun a b => lt b a)
  partialCmp_eq : Float64.partialCmp = orderingOf lt eq
  beq_eq : Float64.beq = eq
  greatest : isNaN (Float64.infinity : F) = false ∧ ∀ a, lt Float64.infinity a = false
  least : isNaN (Float64.negInfinity : F) = false ∧ ∀ a, lt a Float64.negInfinity = false

omit [Ord κ] [Std.TransOrd κ] in
theorem settles_worst {isNaN : F → Bool} {better : F → F → Bool} {worst : F}
    (present : isNaN worst = false) (least : ∀ a, better worst a = false) :
    Settles (prefer isNaN better) worst where
  self := by
    rw [prefer_ranked present present]
    exact ite_self _
  again := prefer_worst present least

theorem lawful_of_ranked [Float64 F] {isNaN : F → Bool} {lt eq : F → F → Bool}
    (ranked : RankedBy rank isNaN lt eq) : LawfulFloat64 F := by
  have strict := strictlyRanks_lt ranked.absent ranked.less
  have compared (a b : F) : Float64.partialCmp a b = rankCompare rank a b := by
    rw [ranked.partialCmp_eq, orderingOf_eq ranked.less ranked.equal]
  refine ⟨fun a b => ?_, fun a b => ?_, fun a b known => ?_, fun a b c hab hbc => ?_, ?_, ?_,
    ?_, ?_⟩
  · rw [compared, ranked.beq_eq, ranked.equal]
  · rw [compared, compared, rankCompare_swap]
  · rw [compared] at known ⊢
    exact rankCompare_self known
  · rw [compared] at hab hbc ⊢
    exact rankCompare_trans hab hbc
  · rw [ranked.min_eq]
    exact prefer_assoc strict
  · rw [ranked.max_eq]
    exact prefer_assoc strict.flip
  · rw [ranked.min_eq]
    exact settles_worst ranked.greatest.1 ranked.greatest.2
  · rw [ranked.max_eq]
    exact settles_worst ranked.least.1 ranked.least.2

end Ranks

section Binary64

open Float.Model

theorem compare_triple (a b c x y z : Int) :
    compare (a, b, c) (x, y, z) = (compare a x).then ((compare b y).then (compare c z)) := rfl

theorem compare_neg (a b : Int) : compare (-a) (-b) = compare b a := by
  cases h : compare b a with
  | lt =>
    have less := Int.compare_eq_lt.mp h
    exact Int.compare_eq_lt.mpr (by omega)
  | eq =>
    have same := Int.compare_eq_eq.mp h
    exact Int.compare_eq_eq.mpr (by omega)
  | gt =>
    have greater := Int.compare_eq_gt.mp h
    exact Int.compare_eq_gt.mpr (by omega)

theorem compare_cast (a b : Nat) : compare (a : Int) (b : Int) = compare a b := by
  cases h : compare a b with
  | lt => exact Int.compare_eq_lt.mpr (Int.ofNat_lt.mpr (Nat.compare_eq_lt.mp h))
  | eq => exact Int.compare_eq_eq.mpr (congrArg Int.ofNat (Nat.compare_eq_eq.mp h))
  | gt => exact Int.compare_eq_gt.mpr (Int.ofNat_lt.mpr (Nat.compare_eq_gt.mp h))

/-- Class of the number, then exponent and mantissa; both are negated below zero. -/
def unpackedRank : UnpackedFloat → Option (Int × Int × Int)
  | .notANumber => none
  | .infinity .negative => some (-2, 0, 0)
  | .finite .negative m e _ => some (-1, -e, -m)
  | .zero _ => some (0, 0, 0)
  | .finite .positive m e _ => some (1, e, m)
  | .infinity .positive => some (2, 0, 0)

theorem unpacked_compare (a b : UnpackedFloat) : a.compare b = rankCompare unpackedRank a b := by
  cases a with
  | notANumber => cases b <;> rfl
  | infinity s =>
    cases b with
    | infinity t => cases s <;> cases t <;> rfl
    | finite t => cases s <;> cases t <;> rfl
    | _ => cases s <;> rfl
  | zero s =>
    cases b with
    | infinity t => cases t <;> rfl
    | finite t => cases t <;> rfl
    | _ => rfl
  | finite s m e _ =>
    cases b with
    | infinity t => cases s <;> cases t <;> rfl
    | finite t n f _ =>
      have same (x : Int) : compare x x = .eq := Std.ReflCmp.compare_self
      cases s <;> cases t
      · change some ((compare e f).then (compare m n)).swap =
          some (compare ((-1 : Int), -e, -(m : Int)) (-1, -f, -(n : Int)))
        rw [compare_triple, same, compare_neg, compare_neg, compare_cast, Ordering.swap_then,
          Int.compare_swap, Nat.compare_swap, Ordering.eq_then]
      · rfl
      · rfl
      · change some ((compare e f).then (compare m n)) =
          some (compare ((1 : Int), e, (m : Int)) (1, f, (n : Int)))
        rw [compare_triple, same, compare_cast, Ordering.eq_then]
    | _ => cases s <;> rfl

def floatRank (a : Float) : Option (Int × Int × Int) := unpackedRank a.toModel.unpack

theorem float_compare (a b : Float) :
    a.toModel.unpack.compare b.toModel.unpack = rankCompare floatRank a b :=
  unpacked_compare _ _

theorem float_lt_eq (a b : Float) :
    decide (a < b) = a.toModel.unpack.lt b.toModel.unpack := by
  rw [Bool.eq_iff_iff, decide_eq_true_iff]
  exact decide_eq_true_iff

theorem unpack_infinity :
    (Float64.infinity : Float).toModel.unpack = .infinity .positive := rfl

theorem unpack_negInfinity :
    (Float64.negInfinity : Float).toModel.unpack = .infinity .negative := rfl

theorem not_infinity_lt (a : UnpackedFloat) : (UnpackedFloat.infinity .positive).lt a = false := by
  cases a with
  | infinity s => cases s <;> rfl
  | _ => rfl

theorem not_lt_negInfinity (a : UnpackedFloat) :
    a.lt (UnpackedFloat.infinity .negative) = false := by
  cases a with
  | infinity s => cases s <;> rfl
  | finite s => cases s <;> rfl
  | _ => rfl

theorem float_ranked : RankedBy floatRank Float.isNaN (fun a b => a < b) (fun a b => a == b) where
  absent a := by
    rw [floatRank, Float.isNaN]
    change UnpackedFloat.isNaN _ = _
    cases a.toModel.unpack with
    | infinity s => cases s <;> rfl
    | finite s => cases s <;> rfl
    | _ => rfl
  less a b := by
    rw [← float_compare, float_lt_eq, UnpackedFloat.lt, beq_iff_eq]
  equal a b := by
    rw [← float_compare]
    change (_ == some Ordering.eq) = true ↔ _
    rw [beq_iff_eq]
  min_eq := rfl
  max_eq := rfl
  partialCmp_eq := rfl
  beq_eq := rfl
  greatest := by
    refine ⟨by decide, fun a => ?_⟩
    rw [float_lt_eq, unpack_infinity, not_infinity_lt]
  least := by
    refine ⟨by decide, fun a => ?_⟩
    rw [float_lt_eq, unpack_negInfinity, not_lt_negInfinity]

instance : LawfulFloat64 Float := lawful_of_ranked float_ranked

theorem unpacked_add_zero (format : Format) (a : UnpackedFloat) :
    UnpackedFloat.add format a (.zero .positive) =
      UnpackedFloat.add format (.zero .positive) a := by
  cases a with
  | infinity s => rfl
  | zero s => cases s <;> rfl
  | _ => rfl

instance : AddsZero Float where
  add_zero a := congrArg (fun x => Float.ofModel (Float.Model.pack x))
    (unpacked_add_zero Format.binary64 a.toModel.unpack)

/-- Equality of binary32 numbers is symmetric too. -/
theorem float32_beq_comm (a b : Float32) : (a == b) = (b == a) := by
  have swapped := rankCompare_swap unpackedRank a.toModel.unpack b.toModel.unpack
  rw [← unpacked_compare, ← unpacked_compare] at swapped
  change (UnpackedFloat.compare _ _ == some .eq) = (UnpackedFloat.compare _ _ == some .eq)
  rw [swapped]
  cases a.toModel.unpack.compare b.toModel.unpack with
  | none => rfl
  | some order => cases order <;> rfl

end Binary64

section Exact

/-- The infinities lie outside the rationals. -/
def exactRank : ExactFloat → Option (Int × ℚ)
  | .nan => none
  | .inf true => some (-1, 0)
  | .finite q => some (0, q)
  | .inf false => some (1, 0)

theorem compare_pair (a x : Int) (p q : ℚ) :
    compare (a, p) (x, q) = (compare a x).then (compare p q) := rfl

theorem compare_classes :
    compare (-1 : Int) 0 = .lt ∧ compare (1 : Int) 0 = .gt ∧ compare (0 : Int) (-1) = .gt ∧
      compare (0 : Int) 1 = .lt ∧ compare (0 : Int) 0 = .eq := ⟨rfl, rfl, rfl, rfl, rfl⟩

theorem exact_ranked :
    RankedBy exactRank ExactFloat.isNaN ExactFloat.lt ExactFloat.beq where
  absent a := by
    cases a with
    | inf negative => cases negative <;> rfl
    | _ => rfl
  less a b := by
    cases a with
    | nan => simp [ExactFloat.lt, rankCompare, exactRank]
    | inf s =>
      cases b with
      | nan => cases s <;> simp [ExactFloat.lt, rankCompare, exactRank]
      | inf t => cases s <;> cases t <;> decide
      | finite q =>
        cases s <;>
          simp [ExactFloat.lt, rankCompare, exactRank, compare_pair, compare_classes]
    | finite p =>
      cases b with
      | nan => simp [ExactFloat.lt, rankCompare, exactRank]
      | inf t =>
        cases t <;>
          simp [ExactFloat.lt, rankCompare, exactRank, compare_pair, compare_classes]
      | finite q =>
        simp only [ExactFloat.lt, rankCompare, exactRank, compare_pair, compare_classes,
          Ordering.eq_then, Option.some.injEq, decide_eq_true_iff, compare_lt_iff_lt]
  equal a b := by
    cases a with
    | nan => simp [ExactFloat.beq, ExactFloat.isNaN, rankCompare, exactRank]
    | inf s =>
      cases b with
      | nan => cases s <;> simp [ExactFloat.beq, rankCompare, exactRank]
      | inf t => cases s <;> cases t <;> decide
      | finite q =>
        cases s <;>
          simp [ExactFloat.beq, rankCompare, exactRank, compare_pair, compare_classes]
    | finite p =>
      cases b with
      | nan => simp [ExactFloat.beq, rankCompare, exactRank]
      | inf t =>
        cases t <;>
          simp [ExactFloat.beq, rankCompare, exactRank, compare_pair, compare_classes]
      | finite q =>
        simp only [ExactFloat.beq, rankCompare, exactRank, compare_pair, compare_classes,
          Ordering.eq_then, Option.some.injEq, compare_eq_iff_eq]
        simp [ExactFloat.isNaN]
  min_eq := rfl
  max_eq := rfl
  partialCmp_eq := rfl
  beq_eq := rfl
  greatest := by
    refine ⟨rfl, fun a => ?_⟩
    cases a <;> rfl
  least := by
    refine ⟨rfl, fun a => ?_⟩
    cases a with
    | inf negative => cases negative <;> rfl
    | _ => rfl

instance : LawfulFloat64 ExactFloat := lawful_of_ranked exact_ranked

instance : AddsZero ExactFloat where
  add_zero a := add_comm a 0

end Exact

end FloatLaws
