import Mathlib.Data.List.Sort
import Mathlib.Algebra.Order.Ring.Nat

/-!
# Big-endian bytes

A fixed-width big-endian encoding compares byte by byte exactly as the encoded
numbers compare. Both numbers must fit the width; nothing is said about the
encodings of numbers that lose their high part.

A long enough string of highest bytes bounds every short string, and every text:
UTF-8 has no use for that byte.
-/

namespace ByteOrder

open Std

/-- The low `w` bytes of a number, most significant first. -/
def toBytesBE : Nat → Nat → List UInt8
  | 0, _ => []
  | w + 1, n => UInt8.ofNat (n / 256 ^ w) :: toBytesBE w (n % 256 ^ w)

theorem length_toBytesBE (w n : Nat) : (toBytesBE w n).length = w := by
  induction w generalizing n with
  | zero => rfl
  | succ w ih => rw [toBytesBE, List.length_cons, ih]

theorem compare_cons (a b : UInt8) (as bs : List UInt8) :
    compare (a :: as) (b :: bs) = (compare a b).then (compare as bs) := by
  rw [List.compare_eq_compareLex, List.compareLex_cons_cons]

theorem compare_ofNat {a b : Nat} (ha : a < 256) (hb : b < 256) :
    compare (UInt8.ofNat a) (UInt8.ofNat b) = compare a b := by
  rw [UInt8.compare_eq_toNat_compare_toNat, UInt8.toNat_ofNat_of_lt' ha,
    UInt8.toNat_ofNat_of_lt' hb]

/-- Comparing quotients and then remainders compares the numbers. -/
theorem compare_div_then_mod (k m n : Nat) :
    (compare (m / k) (n / k)).then (compare (m % k) (n % k)) = compare m n := by
  have hm := Nat.div_add_mod m k
  have hn := Nat.div_add_mod n k
  rcases Nat.lt_trichotomy (m / k) (n / k) with h | h | h
  · have hlt : m < n := Nat.lt_of_div_lt_div h
    rw [Nat.compare_eq_lt.mpr h, Nat.compare_eq_lt.mpr hlt]
    rfl
  · rw [Nat.compare_eq_eq.mpr h, Ordering.eq_then]
    rw [h] at hm
    rcases Nat.lt_trichotomy (m % k) (n % k) with h' | h' | h'
    · rw [Nat.compare_eq_lt.mpr h', Nat.compare_eq_lt.mpr (by omega)]
    · rw [Nat.compare_eq_eq.mpr h', Nat.compare_eq_eq.mpr (by omega)]
    · rw [Nat.compare_eq_gt.mpr h', Nat.compare_eq_gt.mpr (by omega)]
  · have hlt : n < m := Nat.lt_of_div_lt_div h
    rw [Nat.compare_eq_gt.mpr h, Nat.compare_eq_gt.mpr hlt]
    rfl

/-- Bytes compare as the numbers they encode. -/
theorem compare_toBytesBE {w m n : Nat} (hm : m < 256 ^ w) (hn : n < 256 ^ w) :
    compare (toBytesBE w m) (toBytesBE w n) = compare m n := by
  induction w generalizing m n with
  | zero =>
    have hm' : m = 0 := by simpa using hm
    have hn' : n = 0 := by simpa using hn
    rw [hm', hn']
    rfl
  | succ w ih =>
    have pos : 0 < 256 ^ w := Nat.pow_pos (by omega)
    rw [Nat.pow_succ] at hm hn
    have head : compare (UInt8.ofNat (m / 256 ^ w)) (UInt8.ofNat (n / 256 ^ w)) =
        compare (m / 256 ^ w) (n / 256 ^ w) :=
      compare_ofNat (Nat.div_lt_of_lt_mul hm) (Nat.div_lt_of_lt_mul hn)
    have tail := ih (Nat.mod_lt m pos) (Nat.mod_lt n pos)
    rw [toBytesBE, toBytesBE, compare_cons, head, tail, compare_div_then_mod]

section Bounds
variable {bytes : List UInt8} {n : Nat}

theorem isLE_compare_max (b : UInt8) : (compare b 0xff).isLE = true := by
  have bound : b.toNat < 256 := b.toNat_lt
  rw [UInt8.compare_eq_toNat_compare_toNat, Nat.isLE_compare]
  change b.toNat ≤ 255
  omega

/-- No byte string is above the highest one that is at least as long. -/
theorem le_replicate_of_length (short : bytes.length ≤ n) :
    (compare bytes (List.replicate n (0xff : UInt8))).isLE = true := by
  induction bytes generalizing n with
  | nil => cases n <;> rfl
  | cons b bytes ih =>
    cases n with
    | zero => cases short
    | succ n =>
      rw [List.replicate_succ, compare_cons, Ordering.isLE_then_iff_and]
      exact ⟨isLE_compare_max b, Or.inr (ih (Nat.le_of_succ_le_succ short))⟩

/-- A byte string without a highest byte is below, however long it is. -/
theorem le_replicate_of_not_mem (absent : (0xff : UInt8) ∉ bytes) (pos : 0 < n) :
    (compare bytes (List.replicate n (0xff : UInt8))).isLE = true := by
  obtain ⟨n, rfl⟩ := Nat.exists_eq_succ_of_ne_zero pos.ne'
  cases bytes with
  | nil => rfl
  | cons b bytes =>
    have less : compare b 0xff = .lt := by
      have atMost := isLE_compare_max b
      cases order : compare b (0xff : UInt8) with
      | lt => rfl
      | eq => exact absurd (LawfulEqCmp.eq_of_compare order ▸ List.mem_cons_self) absent
      | gt =>
        rw [order] at atMost
        cases atMost
    rw [List.replicate_succ, compare_cons, less]
    rfl

end Bounds

section Texts

theorem ofNat_ne_max {n : Nat} (small : n < 0xff) : UInt8.ofNat n ≠ 0xff := by
  intro same
  have value := congrArg UInt8.toNat same
  rw [UInt8.toNat_ofNat_of_lt' (by omega : n < 256)] at value
  change n = 255 at value
  omega

/-- The first byte of a character is at most 0xf7, and the others are at most 0xbf. -/
theorem not_mem_utf8EncodeChar (c : Char) : (0xff : UInt8) ∉ String.utf8EncodeChar c := by
  have bytes : ∀ b ∈ String.utf8EncodeChar c, b ≠ 0xff := by
    rw [String.utf8EncodeChar]
    by_cases one : c.val.toNat ≤ 0x7f
    · rw [if_pos one]
      exact List.forall_mem_cons.mpr ⟨ofNat_ne_max (by omega), by simp⟩
    · rw [if_neg one]
      by_cases two : c.val.toNat ≤ 0x7ff
      · rw [if_pos two]
        exact List.forall_mem_cons.mpr ⟨ofNat_ne_max (by omega),
          List.forall_mem_cons.mpr ⟨ofNat_ne_max (by omega), by simp⟩⟩
      · rw [if_neg two]
        by_cases three : c.val.toNat ≤ 0xffff
        · rw [if_pos three]
          exact List.forall_mem_cons.mpr ⟨ofNat_ne_max (by omega),
            List.forall_mem_cons.mpr ⟨ofNat_ne_max (by omega),
              List.forall_mem_cons.mpr ⟨ofNat_ne_max (by omega), by simp⟩⟩⟩
        · rw [if_neg three]
          exact List.forall_mem_cons.mpr ⟨ofNat_ne_max (by omega),
            List.forall_mem_cons.mpr ⟨ofNat_ne_max (by omega),
              List.forall_mem_cons.mpr ⟨ofNat_ne_max (by omega),
                List.forall_mem_cons.mpr ⟨ofNat_ne_max (by omega), by simp⟩⟩⟩⟩
  exact fun listed => bytes _ listed rfl

theorem toList_loop_eq (bytes : ByteArray) (n : Nat) : ∀ (i : Nat) (r : List UInt8),
    bytes.size - i = n →
      ByteArray.toList.loop bytes i r = r.reverse ++ bytes.data.toList.drop i := by
  have size : bytes.data.toList.length = bytes.size := Array.length_toList
  induction n with
  | zero =>
    intro i r done
    rw [ByteArray.toList.loop, if_neg (by omega), List.drop_eq_nil_of_le (by omega),
      List.append_nil]
  | succ n ih =>
    intro i r left
    have bound : i < bytes.data.toList.length := by omega
    have read : bytes.get! i = bytes.data.toList[i] := getElem!_pos bytes.data i bound
    rw [ByteArray.toList.loop, if_pos (by omega), ih (i + 1) _ (by omega), read,
      List.drop_eq_getElem_cons bound, List.reverse_cons, List.append_assoc, List.singleton_append]

/-- The bytes of a text are those of its characters. -/
theorem toUTF8_toList (s : String) :
    s.toUTF8.toList = s.toList.flatMap String.utf8EncodeChar := by
  have encoded : s.toUTF8 = s.toList.utf8Encode := (String.utf8Encode_toList (b := s)).symm
  rw [ByteArray.toList, toList_loop_eq _ _ 0 [] rfl, List.reverse_nil, List.nil_append,
    List.drop_zero, encoded, List.utf8Encode, List.toList_data_toByteArray]

/-- No UTF-8 text contains the highest byte. -/
theorem not_mem_toUTF8 (s : String) : (0xff : UInt8) ∉ s.toUTF8.toList := by
  rw [toUTF8_toList]
  intro listed
  obtain ⟨c, -, encoded⟩ := List.mem_flatMap.mp listed
  exact not_mem_utf8EncodeChar c encoded

end Texts

end ByteOrder
