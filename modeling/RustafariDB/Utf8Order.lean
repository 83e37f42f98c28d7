import RustafariDB.ByteOrder

/-!
# UTF-8 keeps the order of texts

The first byte of a character says how many continuation bytes follow it. Longer forms begin
with greater bytes and encode greater code points, and the rest is the code point in base 64.
So the bytes of two texts compare as the texts do, code point by code point.
-/

namespace Utf8Order

open Std ByteOrder

section CodePoints

/-- Continuation bytes: the low `w` digits in base 64, marked. -/
def digits : Nat → Nat → List UInt8
  | 0, _ => []
  | w + 1, v => UInt8.ofNat (v / 64 ^ w % 64 + 0x80) :: digits w v

/-- How many continuation bytes a code point takes. -/
def width (v : Nat) : Nat :=
  if v ≤ 0x7f then 0 else if v ≤ 0x7ff then 1 else if v ≤ 0xffff then 2 else 3

def mark : Nat → Nat
  | 0 => 0
  | 1 => 0xc0
  | 2 => 0xe0
  | _ => 0xf0

def lead (v : Nat) : Nat := v / 64 ^ width v + mark (width v)

def encode (v : Nat) : List UInt8 := UInt8.ofNat (lead v) :: digits (width v) v

variable {u v : Nat}

theorem width_cases (v : Nat) : width v = 0 ∧ v ≤ 0x7f ∨ width v = 1 ∧ 0x7f < v ∧ v ≤ 0x7ff ∨
    width v = 2 ∧ 0x7ff < v ∧ v ≤ 0xffff ∨ width v = 3 ∧ 0xffff < v := by
  rw [width]
  by_cases one : v ≤ 0x7f
  · exact Or.inl ⟨if_pos one, one⟩
  · by_cases two : v ≤ 0x7ff
    · rw [if_neg one, if_pos two]
      omega
    · by_cases three : v ≤ 0xffff
      · rw [if_neg one, if_neg two, if_pos three]
        omega
      · rw [if_neg one, if_neg two, if_neg three]
        omega

theorem lead_cases (v : Nat) : width v = 0 ∧ lead v = v ∧ v ≤ 0x7f ∨
    width v = 1 ∧ lead v = v / 64 + 0xc0 ∧ 0x7f < v ∧ v ≤ 0x7ff ∨
    width v = 2 ∧ lead v = v / 4096 + 0xe0 ∧ 0x7ff < v ∧ v ≤ 0xffff ∨
    width v = 3 ∧ lead v = v / 262144 + 0xf0 ∧ 0xffff < v := by
  rcases width_cases v with ⟨w, range⟩ | ⟨w, range⟩ | ⟨w, range⟩ | ⟨w, range⟩
  · exact Or.inl ⟨w, by rw [lead, w, Nat.pow_zero, Nat.div_one]; rfl, range⟩
  · exact Or.inr (Or.inl ⟨w, by rw [lead, w]; rfl, range⟩)
  · exact Or.inr (Or.inr (Or.inl ⟨w, by rw [lead, w]; rfl, range⟩))
  · exact Or.inr (Or.inr (Or.inr ⟨w, by rw [lead, w]; rfl, range⟩))

theorem lead_lt_256 (small : v < 0x110000) : lead v < 256 := by
  have form := lead_cases v
  omega

/-- A longer form begins with a greater byte and encodes a greater code point. -/
theorem lt_of_width_lt (wider : width u < width v) : lead u < lead v ∧ u < v := by
  have shorter := lead_cases u
  have longer := lead_cases v
  omega

theorem compare_add (m n k : Nat) : compare (m + k) (n + k) = compare m n := by
  rcases Nat.lt_trichotomy m n with less | rfl | greater
  · rw [Nat.compare_eq_lt.mpr less, Nat.compare_eq_lt.mpr (by omega)]
  · rw [Nat.compare_eq_eq.mpr rfl, Nat.compare_eq_eq.mpr rfl]
  · rw [Nat.compare_eq_gt.mpr greater, Nat.compare_eq_gt.mpr (by omega)]

theorem compare_digits (w u v : Nat) (x y : List UInt8) :
    compare (digits w u ++ x) (digits w v ++ y) =
      (compare (u % 64 ^ w) (v % 64 ^ w)).then (compare x y) := by
  induction w with
  | zero =>
    rw [Nat.pow_zero, Nat.mod_one, Nat.mod_one, Nat.compare_eq_eq.mpr rfl, Ordering.eq_then]
    rfl
  | succ w ih =>
    have high (n : Nat) : n % (64 ^ w * 64) / 64 ^ w = n / 64 ^ w % 64 :=
      Nat.mod_mul_right_div_self n (64 ^ w) 64
    have low (n : Nat) : n % (64 ^ w * 64) % 64 ^ w = n % 64 ^ w :=
      Nat.mod_mul_right_mod n (64 ^ w) 64
    rw [digits, digits, List.cons_append, List.cons_append, compare_cons,
      compare_ofNat (by omega) (by omega), compare_add, ih, ← Ordering.then_assoc, ← high,
      ← high v, ← low, ← low v, compare_div_then_mod, Nat.pow_succ]

/-- Encoded code points compare as the code points, and then what follows them. -/
theorem compare_encode (hu : u < 0x110000) (hv : v < 0x110000) (x y : List UInt8) :
    compare (encode u ++ x) (encode v ++ y) = (compare u v).then (compare x y) := by
  rw [encode, encode, List.cons_append, List.cons_append, compare_cons,
    compare_ofNat (lead_lt_256 hu) (lead_lt_256 hv)]
  rcases Nat.lt_trichotomy (width u) (width v) with shorter | same | longer
  · obtain ⟨leads, less⟩ := lt_of_width_lt shorter
    rw [Nat.compare_eq_lt.mpr leads, Nat.compare_eq_lt.mpr less]
    rfl
  · rw [lead, lead, ← same, compare_add, compare_digits, ← Ordering.then_assoc,
      compare_div_then_mod]
  · obtain ⟨leads, greater⟩ := lt_of_width_lt longer
    rw [Nat.compare_eq_gt.mpr leads, Nat.compare_eq_gt.mpr greater]
    rfl

end CodePoints

section Texts

theorem toNat_lt (c : Char) : c.toNat < 0x110000 := by
  have valid : c.toNat < 0xd800 ∨ 0xdfff < c.toNat ∧ c.toNat < 0x110000 := c.valid
  omega

theorem utf8EncodeChar_eq (c : Char) : String.utf8EncodeChar c = encode c.toNat := by
  have small := toNat_lt c
  have read : c.val.toNat = c.toNat := rfl
  rw [String.utf8EncodeChar, encode, lead, read]
  by_cases one : c.toNat ≤ 0x7f
  · have w : width c.toNat = 0 := if_pos one
    simp only [if_pos one, w, digits, mark, Nat.pow_zero, Nat.div_one, Nat.add_zero]
  · by_cases two : c.toNat ≤ 0x7ff
    · have w : width c.toNat = 1 := by rw [width, if_neg one, if_pos two]
      have head : c.toNat / 64 % 0x20 = c.toNat / 64 := Nat.mod_eq_of_lt (by omega)
      simp only [if_neg one, if_pos two, w, digits, mark, head, Nat.pow_zero, Nat.div_one,
        Nat.pow_one]
    · by_cases three : c.toNat ≤ 0xffff
      · have w : width c.toNat = 2 := by rw [width, if_neg one, if_neg two, if_pos three]
        have head : c.toNat / 4096 % 0x10 = c.toNat / 4096 := Nat.mod_eq_of_lt (by omega)
        simp only [if_neg one, if_neg two, if_pos three, w, digits, mark, head, Nat.reducePow,
          Nat.div_one]
      · have w : width c.toNat = 3 := by rw [width, if_neg one, if_neg two, if_neg three]
        have head : c.toNat / 262144 % 0x08 = c.toNat / 262144 := Nat.mod_eq_of_lt (by omega)
        simp only [if_neg one, if_neg two, if_neg three, w, digits, mark, head, Nat.reducePow,
          Nat.div_one]

theorem compare_char (c d : Char) : compare c d = compare c.toNat d.toNat := by
  have less (c d : Char) : c < d ↔ c.toNat < d.toNat := UInt32.lt_iff_toNat_lt
  have equal : c = d ↔ c.toNat = d.toNat := Char.toNat_inj.symm
  change compareOfLessAndEq c d = compareOfLessAndEq c.toNat d.toNat
  simp only [compareOfLessAndEq, less, equal]

/-- The bytes of characters compare as the characters. -/
theorem compare_flatMap (cs ds : List Char) :
    compare (cs.flatMap String.utf8EncodeChar) (ds.flatMap String.utf8EncodeChar) =
      compare cs ds := by
  induction cs generalizing ds with
  | nil =>
    cases ds with
    | nil => rfl
    | cons d ds =>
      rw [List.flatMap_cons, utf8EncodeChar_eq]
      rfl
  | cons c cs ih =>
    cases ds with
    | nil =>
      rw [List.flatMap_cons, utf8EncodeChar_eq]
      rfl
    | cons d ds =>
      rw [List.flatMap_cons, List.flatMap_cons, utf8EncodeChar_eq, utf8EncodeChar_eq,
        compare_encode (toNat_lt c) (toNat_lt d), ih, List.compare_cons_cons, compare_char]

theorem compare_eq_lt_iff (cs ds : List Char) : compare cs ds = .lt ↔ cs < ds := by
  induction cs generalizing ds with
  | nil =>
    cases ds with
    | nil => exact iff_of_false (by rintro ⟨⟩) (List.lt_irrefl [])
    | cons d ds => exact iff_of_true rfl (List.nil_lt_cons d ds)
  | cons c cs ih =>
    cases ds with
    | nil => exact iff_of_false (by rintro ⟨⟩) (List.not_lt_nil _)
    | cons d ds =>
      rw [List.compare_cons_cons, List.cons_lt_cons_iff, Ordering.then_eq_lt, ih, compare_char,
        Nat.compare_eq_lt, Nat.compare_eq_eq, Char.toNat_inj]
      exact Iff.rfl

theorem compare_toList (s t : String) : compare s.toList t.toList = compare s t := by
  have unfolded : compare s t = if s < t then .lt else if s = t then .eq else .gt := rfl
  have less : s < t ↔ compare s.toList t.toList = .lt := (compare_eq_lt_iff _ _).symm
  have equal : s = t ↔ compare s.toList t.toList = .eq := by
    rw [LawfulEqOrd.compare_eq_iff_eq, String.toList_inj]
  rw [unfolded]
  simp only [less, equal]
  cases compare s.toList t.toList <;> rfl

/-- The bytes of texts compare as the texts. -/
theorem compare_toUTF8 (s t : String) :
    compare s.toUTF8.toList t.toUTF8.toList = compare s t := by
  rw [toUTF8_toList, toUTF8_toList, compare_flatMap, compare_toList]

end Texts

end Utf8Order
