import RustafariDB.ExactNumbers

/-!
# The order of binary64 bits

Without its sign bit a number is larger the larger its bits are. So numbers with a clear
sign bit follow their bits, with the sign bit set they run against them, and the two zeros
are told apart by their bits only.
-/

namespace FloatBits

open RankedOrders Floats FloatLaws ExactNumbers Float.Model

section Magnitudes

/-- The rank of the number with a clear sign bit and these bits below it. -/
def magnitude (n : Nat) : Option (Int × Int × Int) :=
  let exponent : Nat := n / 2 ^ 52
  let mantissa : Nat := n % 2 ^ 52
  if exponent = 2047 then if mantissa = 0 then some (2, 0, 0) else none
  else if exponent = 0 then if mantissa = 0 then some (0, 0, 0) else some (1, -1074, mantissa)
  else some (1, exponent - 1075, 2 ^ 52 + mantissa)

def negated (rank : Int × Int × Int) : Int × Int × Int := (-rank.1, -rank.2.1, -rank.2.2)

variable {m n : Nat} {x y : Int × Int × Int}

theorem compare_negated (x y : Int × Int × Int) :
    compare (negated x) (negated y) = compare y x := by
  obtain ⟨a, b, c⟩ := x
  obtain ⟨d, e, f⟩ := y
  rw [negated, negated, compare_triple, compare_triple, compare_neg, compare_neg, compare_neg]

theorem triple_lt {a b c d e f : Int} (less : a < d ∨ a = d ∧ (b < e ∨ b = e ∧ c < f)) :
    compare (a, b, c) (d, e, f) = .lt := by
  rw [compare_triple]
  rcases less with first | ⟨rfl, second | ⟨rfl, third⟩⟩
  · rw [Int.compare_eq_lt.mpr first]
    rfl
  · rw [Int.compare_eq_eq.mpr rfl, Int.compare_eq_lt.mpr second]
    rfl
  · rw [Int.compare_eq_eq.mpr rfl, Int.compare_eq_eq.mpr rfl, Int.compare_eq_lt.mpr third]
    rfl

/-- Zero, a subnormal, a normal number or infinity. -/
theorem magnitude_cases (short : n < 2 ^ 63) (ranked : magnitude n = some x) :
    n = 0 ∧ x = (0, 0, 0) ∨ 0 < n ∧ n < 2 ^ 52 ∧ x = (1, -1074, (n : Int)) ∨
      2 ^ 52 ≤ n ∧ n < 2047 * 2 ^ 52 ∧
        x = (1, (n : Int) / 2 ^ 52 - 1075, 2 ^ 52 + (n : Int) % 2 ^ 52) ∨
      n = 2047 * 2 ^ 52 ∧ x = (2, 0, 0) := by
  rw [magnitude] at ranked
  by_cases special : n / 2 ^ 52 = 2047
  · by_cases infinite : n % 2 ^ 52 = 0
    · simp only [if_pos special, if_pos infinite] at ranked
      exact Or.inr (Or.inr (Or.inr ⟨by omega, (Option.some.inj ranked).symm⟩))
    · simp only [if_pos special, if_neg infinite] at ranked
      cases ranked
  · by_cases least : n / 2 ^ 52 = 0
    · by_cases zero : n % 2 ^ 52 = 0
      · simp only [if_neg special, if_pos least, if_pos zero] at ranked
        exact Or.inl ⟨by omega, (Option.some.inj ranked).symm⟩
      · simp only [if_neg special, if_pos least, if_neg zero] at ranked
        have whole : n % 2 ^ 52 = n := by omega
        rw [whole] at ranked
        exact Or.inr (Or.inl ⟨by omega, by omega, (Option.some.inj ranked).symm⟩)
    · simp only [if_neg special, if_neg least] at ranked
      refine Or.inr (Or.inr (Or.inl ⟨by omega, by omega, ?_⟩))
      rw [← Option.some.inj ranked]
      push_cast
      rfl

theorem magnitude_lt (hm : m < 2 ^ 63) (hn : n < 2 ^ 63) (ranked : magnitude m = some x)
    (ranked' : magnitude n = some y) (less : m < n) : compare x y = .lt := by
  have low := magnitude_cases hm ranked
  have high := magnitude_cases hn ranked'
  rcases low with ⟨_, rfl⟩ | ⟨_, _, rfl⟩ | ⟨_, _, rfl⟩ | ⟨_, rfl⟩ <;>
    rcases high with ⟨_, rfl⟩ | ⟨_, _, rfl⟩ | ⟨_, _, rfl⟩ | ⟨_, rfl⟩ <;>
    exact triple_lt (by omega)

theorem magnitude_nonneg (short : n < 2 ^ 63) (ranked : magnitude n = some x) :
    x = (0, 0, 0) ∨ 0 < x.1 := by
  rcases magnitude_cases short ranked with ⟨-, rfl⟩ | ⟨-, -, rfl⟩ | ⟨-, -, rfl⟩ | ⟨-, rfl⟩
  · exact Or.inl rfl
  · exact Or.inr Int.zero_lt_one
  · exact Or.inr Int.zero_lt_one
  · exact Or.inr (by decide)

/-- No negated magnitude is above a magnitude. -/
theorem not_lt_negated (hm : m < 2 ^ 63) (hn : n < 2 ^ 63) (ranked : magnitude m = some x)
    (ranked' : magnitude n = some y) : compare x (negated y) ≠ .lt := by
  have apart (less : -y.1 < x.1) : compare x (negated y) = .gt := by
    rw [Std.OrientedOrd.eq_swap, negated, ← Prod.mk.eta (p := x),
      ← Prod.mk.eta (p := x.2), triple_lt (Or.inl less)]
    rfl
  rcases magnitude_nonneg hm ranked with rfl | above
  · rcases magnitude_nonneg hn ranked' with rfl | above'
    · decide
    · rw [apart (by simp only; omega)]
      decide
  · rcases magnitude_nonneg hn ranked' with rfl | above'
    · rw [apart (by simp only; omega)]
      decide
    · rw [apart (by omega)]
      decide

/-- Magnitudes compare as their bits. -/
theorem compare_magnitude (hm : m < 2 ^ 63) (hn : n < 2 ^ 63) (ranked : magnitude m = some x)
    (ranked' : magnitude n = some y) : compare x y = compare m n := by
  rcases Nat.lt_trichotomy m n with less | rfl | greater
  · rw [Nat.compare_eq_lt.mpr less, magnitude_lt hm hn ranked ranked' less]
  · obtain rfl := Option.some.inj (ranked.symm.trans ranked')
    rw [Nat.compare_eq_eq.mpr rfl]
    exact Std.ReflCmp.compare_self
  · rw [Nat.compare_eq_gt.mpr greater, Std.OrientedOrd.eq_swap,
      magnitude_lt hn hm ranked' ranked greater]
    rfl

end Magnitudes

section Fields
variable (b : BitVec (Format.numBits .binary64))

theorem toNat_unpackMantissa : (UnpackedFloat.unpackMantissa b).toNat = b.toNat % 2 ^ 52 := by
  delta UnpackedFloat.unpackMantissa
  rw [BitVec.toNat_cast, BitVec.extractLsb_toNat, Nat.shiftRight_zero]
  rfl

theorem toNat_unpackExponent :
    (UnpackedFloat.unpackExponent b).toNat = b.toNat / 2 ^ 52 % 2 ^ 11 := by
  delta UnpackedFloat.unpackExponent
  rw [BitVec.toNat_cast, BitVec.extractLsb_toNat, Nat.shiftRight_eq_div_pow]
  rfl

theorem toNat_unpackSign : (UnpackedFloat.unpackSign b).toNat = b.toNat / 2 ^ 63 % 2 := by
  delta UnpackedFloat.unpackSign
  rw [BitVec.toNat_cast, BitVec.extractLsb_toNat, Nat.shiftRight_eq_div_pow]
  rfl

theorem ofBitVec_unpackSign : UnpackedFloat.Sign.ofBitVec (UnpackedFloat.unpackSign b) =
    if b.toNat / 2 ^ 63 % 2 = 0 then .positive else .negative := by
  have clear : UnpackedFloat.unpackSign b = 0#1 ↔ (UnpackedFloat.unpackSign b).toNat = 0 :=
    BitVec.toNat_inj.symm
  rw [UnpackedFloat.Sign.ofBitVec, ← toNat_unpackSign]
  by_cases zero : (UnpackedFloat.unpackSign b).toNat = 0
  · rw [if_pos (clear.mpr zero), if_pos zero]
  · rw [if_neg (mt clear.mp zero), if_neg zero]

def signed : UnpackedFloat.Sign → Int × Int × Int → Int × Int × Int
  | .positive, rank => rank
  | .negative, rank => negated rank

theorem unpackedRank_finite (sign : UnpackedFloat.Sign) (m : Nat) (e : Int) (pos : 0 < m) :
    unpackedRank (.finite sign m e pos) = some (signed sign (1, e, m)) := by
  cases sign <;> rfl

theorem unpackedRank_unpack : unpackedRank (UnpackedFloat.unpack .binary64 b) =
    (magnitude (b.toNat % 2 ^ 63)).map
      (signed (UnpackedFloat.Sign.ofBitVec (UnpackedFloat.unpackSign b))) := by
  have mantissa := toNat_unpackMantissa b
  have exponent := toNat_unpackExponent b
  have low : b.toNat % 2 ^ 63 % 2 ^ 52 = (UnpackedFloat.unpackMantissa b).toNat := by omega
  have high : b.toNat % 2 ^ 63 / 2 ^ 52 = (UnpackedFloat.unpackExponent b).toNat := by omega
  have special : UnpackedFloat.unpackExponent b = -1#_ ↔
      (UnpackedFloat.unpackExponent b).toNat = 2047 := BitVec.toNat_inj.symm
  have least : UnpackedFloat.unpackExponent b = 0#_ ↔
      (UnpackedFloat.unpackExponent b).toNat = 0 := BitVec.toNat_inj.symm
  have empty : UnpackedFloat.unpackMantissa b = 0#_ ↔
      (UnpackedFloat.unpackMantissa b).toNat = 0 := BitVec.toNat_inj.symm
  have bias : ((Format.exponentBias .binary64 : Nat) : Int) = 1023 := rfl
  have implicit : (1#1 ++ UnpackedFloat.unpackMantissa b).toNat =
      2 ^ 52 + (UnpackedFloat.unpackMantissa b).toNat := toNat_implicit _
  rw [magnitude]
  simp only [low, high]
  delta UnpackedFloat.unpack
  dsimp only
  generalize UnpackedFloat.Sign.ofBitVec (UnpackedFloat.unpackSign b) = sign
  by_cases all : (UnpackedFloat.unpackExponent b).toNat = 2047
  · rw [if_pos (special.mpr all), if_pos all]
    by_cases zero : (UnpackedFloat.unpackMantissa b).toNat = 0
    · rw [if_pos (empty.mpr zero), if_pos zero]
      cases sign <;> rfl
    · rw [if_neg (mt empty.mp zero), if_neg zero]
      rfl
  · rw [if_neg (mt special.mp all), if_neg all]
    by_cases none : (UnpackedFloat.unpackExponent b).toNat = 0
    · rw [if_pos (least.mpr none), if_pos none]
      by_cases zero : (UnpackedFloat.unpackMantissa b).toNat = 0
      · rw [dif_pos (empty.mpr zero), if_pos zero]
        cases sign <;> rfl
      · rw [dif_neg (mt empty.mp zero), if_neg zero, unpackedRank_finite]
        refine congrArg (fun e => some (signed sign (1, e, _))) ?_
        omega
    · rw [if_neg (mt least.mp none), if_neg none, unpackedRank_finite, implicit]
      refine congrArg₂ (fun e m => some (signed sign (1, e, m))) ?_ ?_
      · omega
      · push_cast
        rfl

end Fields

section Numbers
variable {a b : Float}

def bits (a : Float) : Nat := (Float64.toBits a).toNat

theorem bits_lt (a : Float) : bits a < 2 ^ 64 := (Float64.toBits a).isLt

theorem bits_inj : bits a = bits b ↔ a = b := by
  refine ⟨fun same => ?_, fun same => congrArg bits same⟩
  obtain ⟨⟨x, _⟩⟩ := a
  obtain ⟨⟨y, _⟩⟩ := b
  obtain rfl : x = y := UInt64.toNat_inj.mp same
  rfl

theorem floatRank_eq (a : Float) : floatRank a =
    if bits a < 2 ^ 63 then magnitude (bits a)
    else (magnitude (bits a - 2 ^ 63)).map negated := by
  have range := bits_lt a
  have read : (Float64.toBits a).toNat = bits a := rfl
  have rank : floatRank a = unpackedRank (UnpackedFloat.unpack .binary64 (Float64.toBits a)) := rfl
  rw [rank, unpackedRank_unpack, ofBitVec_unpackSign, read]
  by_cases positive : bits a < 2 ^ 63
  · rw [if_pos positive, if_pos (by omega), Nat.mod_eq_of_lt positive]
    exact Option.map_id_apply
  · have rest : bits a % 2 ^ 63 = bits a - 2 ^ 63 := by omega
    rw [if_neg positive, if_neg (by omega), rest]
    rfl

theorem partialCmp_eq (a b : Float) : Float64.partialCmp a b = rankCompare floatRank a b :=
  orderingOf_eq float_ranked.less float_ranked.equal a b

/-- A number has a rank, above zero or below. -/
theorem floatRank_cases (number : a.isNaN = false) : ∃ x,
    bits a < 2 ^ 63 ∧ magnitude (bits a) = some x ∧ floatRank a = some x ∨
      ¬bits a < 2 ^ 63 ∧ magnitude (bits a - 2 ^ 63) = some x ∧
        floatRank a = some (negated x) := by
  have ranked := float_ranked.absent a
  rw [number, floatRank_eq] at ranked
  rw [floatRank_eq]
  by_cases positive : bits a < 2 ^ 63
  · rw [if_pos positive] at ranked ⊢
    obtain ⟨x, found⟩ := Option.isSome_iff_exists.mp (Option.isNone_eq_false_iff.mp ranked.symm)
    exact ⟨x, Or.inl ⟨positive, found, found⟩⟩
  · rw [if_neg positive, Option.isNone_map] at ranked
    obtain ⟨x, found⟩ := Option.isSome_iff_exists.mp (Option.isNone_eq_false_iff.mp ranked.symm)
    rw [if_neg positive, found]
    exact ⟨x, Or.inr ⟨positive, rfl, rfl⟩⟩

/-- Numbers compare as their bits when both are without the sign bit, or the same. -/
theorem partialCmp_bits_iff (ha : a.isNaN = false) (hb : b.isNaN = false) :
    Float64.partialCmp a b = some (compare (bits a) (bits b)) ↔
      (bits a < 2 ^ 63 ∧ bits b < 2 ^ 63) ∨ a = b := by
  have rangeA := bits_lt a
  have rangeB := bits_lt b
  obtain ⟨x, ⟨clear, rank, eqA⟩ | ⟨set, rank, eqA⟩⟩ := floatRank_cases ha <;>
    obtain ⟨y, ⟨clear', rank', eqB⟩ | ⟨set', rank', eqB⟩⟩ := floatRank_cases hb <;>
    simp only [partialCmp_eq, rankCompare, eqA, eqB]
  · rw [compare_magnitude clear clear' rank rank']
    exact iff_of_true rfl (Or.inl ⟨clear, clear'⟩)
  · rw [Nat.compare_eq_lt.mpr (by omega)]
    refine iff_of_false (fun less => ?_) (by rintro (both | rfl) <;> omega)
    exact not_lt_negated clear (by omega) rank rank' (Option.some.inj less)
  · rw [Nat.compare_eq_gt.mpr (by omega), Std.OrientedOrd.eq_swap]
    refine iff_of_false (fun greater => ?_) (by rintro (both | rfl) <;> omega)
    exact not_lt_negated clear' (by omega) rank' rank
      (Ordering.swap_inj.mp (Option.some.inj greater))
  · have reversed := compare_magnitude (by omega) (by omega) rank' rank
    rw [compare_negated, reversed, ← bits_inj]
    rcases Nat.lt_trichotomy (bits a) (bits b) with less | same | greater
    · rw [Nat.compare_eq_lt.mpr less, Nat.compare_eq_gt.mpr (by omega)]
      exact iff_of_false (by rintro ⟨⟩) (by omega)
    · rw [same]
      exact iff_of_true (by rw [Nat.compare_eq_eq.mpr rfl, Nat.compare_eq_eq.mpr rfl])
        (Or.inr rfl)
    · rw [Nat.compare_eq_gt.mpr greater, Nat.compare_eq_lt.mpr (by omega)]
      exact iff_of_false (by rintro ⟨⟩) (by omega)

end Numbers

end FloatBits
