import RustafariDB.BTreeIndexing
import RustafariDB.FloatBits
import RustafariDB.Predicates
import RustafariDB.Utf8Order

/-!
# The order of index keys

A key is the bytes of a value. Booleans and texts are ordered as their keys. Integers,
timestamps and dates are written in two's complement without a flip of the sign bit, so that
negative ones come last; floats are written as their bits; and timestamps lose what is below
a millisecond.
-/

namespace KeyOrders

open Std Floats FloatLaws FloatBits Values ByteOrder BTreeIndexing

/-- The order of values of one type: the comparison of the executor, and the order of the
types it does not compare. -/
def naturalOrder : Value Float → Value Float → Option Ordering
  | .bool a, .bool b => some (compare a b)
  | .timestamp a, .timestamp b => some (compare (a.secs, a.nanos) (b.secs, b.nanos))
  | .date a, .date b => some (compare a.days b.days)
  | a, b => Predicates.compare a b

/-- A leap second takes the nanoseconds past 10^9, and every instant has an `i64` of
milliseconds. -/
structure InRange (ts : DateTime) : Prop where
  nanos : ts.nanos < 2000000000
  least : -2 ^ 63 ≤ ts.timestampMillis
  greatest : ts.timestampMillis < 2 ^ 63

theorem InRange.millis {ts : DateTime} (range : InRange ts) :
    -2 ^ 63 ≤ ts.timestampMillis ∧ ts.timestampMillis < 2 ^ 63 := ⟨range.least, range.greatest⟩

/-- Two values of one indexable type, and numbers if they are floats. -/
def Comparable : Value Float → Value Float → Prop
  | .bool _, .bool _ => True
  | .int64 _, .int64 _ => True
  | .float64 a, .float64 b => a.isNaN = false ∧ b.isNaN = false
  | .string _, .string _ => True
  | .timestamp a, .timestamp b => InRange a ∧ InRange b
  | .date a, .date b => InRange a.midnight ∧ InRange b.midnight
  | _, _ => False

/-- The keys are made, follow the order of the values, and tell them apart. -/
def KeysOrdered (a b : Value Float) : Prop :=
  ∃ ka kb, IndexKey.fromValue a = .ok ka ∧ IndexKey.fromValue b = .ok kb ∧
    naturalOrder a b = some (compare ka kb) ∧ (ka = kb → a = b)

def Before (a b : DateTime) : Prop := a.secs < b.secs ∨ a.secs = b.secs ∧ a.nanos < b.nanos

/-- Where the bytes keep the order: what is signed on one side of zero, floats above it, and
instants that their milliseconds keep apart. -/
def Kept : Value Float → Value Float → Prop
  | .int64 a, .int64 b => 0 ≤ a.toInt ↔ 0 ≤ b.toInt
  | .float64 a, .float64 b => (bits a < 2 ^ 63 ∧ bits b < 2 ^ 63) ∨ a = b
  | .timestamp a, .timestamp b => a = b ∨ (0 ≤ a.timestampMillis ↔ 0 ≤ b.timestampMillis) ∧
      (a.timestampMillis < b.timestampMillis ∧ Before a b ∨
        b.timestampMillis < a.timestampMillis ∧ Before b a)
  | .date a, .date b => 0 ≤ a.days ↔ 0 ≤ b.days
  | _, _ => True

section Keys

theorem keysOrdered_iff {a b : Value Float} {ka kb : IndexKey}
    (ha : IndexKey.fromValue a = .ok ka) (hb : IndexKey.fromValue b = .ok kb) :
    KeysOrdered a b ↔ naturalOrder a b = some (compare ka kb) ∧ (ka = kb → a = b) := by
  constructor
  · rintro ⟨ka', kb', ha', hb', ordered⟩
    rw [ha] at ha'
    rw [hb] at hb'
    cases ha'
    cases hb'
    exact ordered
  · exact fun ordered => ⟨ka, kb, ha, hb, ordered⟩

theorem compare_congr {m n p q : Int} (less : m < n ↔ p < q) (same : m = n ↔ p = q) :
    compare m n = compare p q := by
  change compareOfLessAndEq m n = compareOfLessAndEq p q
  simp only [compareOfLessAndEq, less, same]

/-- Two's complement follows the order on one side of zero, and reverses it across. -/
theorem compare_i64_keys (i j : Int64) : compare (i64ToBeBytes i) (i64ToBeBytes j) =
    if 0 ≤ i.toInt ↔ 0 ≤ j.toInt then compare i.toInt j.toInt
    else compare j.toInt i.toInt := by
  have li := Int64.le_toInt i
  have lj := Int64.le_toInt j
  have ui := Int64.toInt_lt i
  have uj := Int64.toInt_lt j
  rw [compare_i64ToBeBytes, ← compare_cast, toNat_toUInt64, toNat_toUInt64]
  by_cases hi : 0 ≤ i.toInt <;> by_cases hj : 0 ≤ j.toInt <;>
    simp only [hi, hj, if_true, if_false, iff_true, iff_false, not_true] <;>
    exact compare_congr (by omega) (by omega)

theorem i64ToBeBytes_inj {i j : Int64} : i64ToBeBytes i = i64ToBeBytes j ↔ i = j := by
  refine ⟨fun same => ?_, fun same => congrArg i64ToBeBytes same⟩
  have equal := compare_i64ToBeBytes i j
  rw [same, Std.ReflOrd.compare_self] at equal
  have bytes : i.toUInt64 = j.toUInt64 := UInt64.toNat_inj.mp (Nat.compare_eq_eq.mp equal.symm)
  obtain ⟨i⟩ := i
  obtain ⟨j⟩ := j
  exact congrArg Int64.ofUInt64 bytes

theorem compare_millis_keys {m n : Int} (hm : -2 ^ 63 ≤ m ∧ m < 2 ^ 63)
    (hn : -2 ^ 63 ≤ n ∧ n < 2 ^ 63) :
    compare (i64ToBeBytes (Int64.ofInt m)) (i64ToBeBytes (Int64.ofInt n)) =
      if 0 ≤ m ↔ 0 ≤ n then compare m n else compare n m := by
  rw [compare_i64_keys, Int64.toInt_ofInt_of_le hm.1 hm.2, Int64.toInt_ofInt_of_le hn.1 hn.2]

end Keys

section Types

theorem bool_keys_ordered (a b : Bool) : KeysOrdered (.bool a) (.bool b) := by
  refine (keysOrdered_iff rfl rfl).mpr ?_
  cases a with
  | false =>
    cases b with
    | false => exact ⟨rfl, fun _ => rfl⟩
    | true => exact ⟨rfl, fun same => absurd same (by decide)⟩
  | true =>
    cases b with
    | false => exact ⟨rfl, fun same => absurd same (by decide)⟩
    | true => exact ⟨rfl, fun _ => rfl⟩

theorem string_keys_ordered (s t : String) : KeysOrdered (.string s) (.string t) := by
  refine (keysOrdered_iff rfl rfl).mpr ⟨?_, fun same => ?_⟩
  · rw [Utf8Order.compare_toUTF8]
    rfl
  · have equal := Utf8Order.compare_toUTF8 s t
    rw [same, ReflOrd.compare_self] at equal
    exact congrArg Value.string (LawfulEqOrd.eq_of_compare equal.symm)

/-- Where the order is reversed only what is equal stays in order. -/
theorem compare_reversed_ne {m n : Int} (apart : m ≠ n) : compare m n ≠ compare n m := by
  rcases Int.lt_or_gt_of_ne apart with less | greater
  · rw [Int.compare_eq_lt.mpr less, Int.compare_eq_gt.mpr less]
    decide
  · rw [Int.compare_eq_gt.mpr greater, Int.compare_eq_lt.mpr greater]
    decide

theorem int64_keys_ordered_iff (i j : Int64) :
    KeysOrdered (.int64 i) (.int64 j) ↔ (0 ≤ i.toInt ↔ 0 ≤ j.toInt) := by
  have natural : naturalOrder (.int64 i) (.int64 j) = some (compare i.toInt j.toInt) :=
    congrArg some (Predicates.compare_int64 i j)
  rw [keysOrdered_iff rfl rfl, natural, compare_i64_keys, i64ToBeBytes_inj]
  by_cases side : 0 ≤ i.toInt ↔ 0 ≤ j.toInt
  · rw [if_pos side]
    exact iff_of_true ⟨rfl, congrArg Value.int64⟩ side
  · rw [if_neg side]
    refine iff_of_false (fun ordered => ?_) side
    exact compare_reversed_ne (by omega) (Option.some.inj ordered.1)

theorem float64_keys_ordered_iff {a b : Float} (ha : a.isNaN = false) (hb : b.isNaN = false) :
    KeysOrdered (.float64 a) (.float64 b) ↔ (bits a < 2 ^ 63 ∧ bits b < 2 ^ 63) ∨ a = b := by
  have natural : naturalOrder (.float64 a) (.float64 b) = Float64.partialCmp a b := rfl
  have keys : compare (toBytesBE 8 (bits a)) (toBytesBE 8 (bits b)) = compare (bits a) (bits b) :=
    compare_toBytesBE (bits_lt a) (bits_lt b)
  have apart : toBytesBE 8 (bits a) = toBytesBE 8 (bits b) → Value.float64 a = .float64 b := by
    intro same
    rw [same, ReflOrd.compare_self] at keys
    exact congrArg Value.float64 (bits_inj.mp (Nat.compare_eq_eq.mp keys.symm))
  rw [← partialCmp_bits_iff ha hb, ← keys]
  exact (keysOrdered_iff rfl rfl).trans ⟨fun ordered => ordered.1, fun follows => ⟨follows, apart⟩⟩

theorem midnight_millis (d : NaiveDate) : d.midnight.timestampMillis = d.days * 86400000 := by
  change d.days * 86400 * 1000 + (0 : Nat) / 1000000 = d.days * 86400000
  omega

/-- Equal keys of instants are equal milliseconds. -/
theorem millis_of_keys {m n : Int} (hm : -2 ^ 63 ≤ m ∧ m < 2 ^ 63) (hn : -2 ^ 63 ≤ n ∧ n < 2 ^ 63)
    (same : i64ToBeBytes (Int64.ofInt m) = i64ToBeBytes (Int64.ofInt n)) : m = n := by
  have equal := congrArg Int64.toInt (i64ToBeBytes_inj.mp same)
  rwa [Int64.toInt_ofInt_of_le hm.1 hm.2, Int64.toInt_ofInt_of_le hn.1 hn.2] at equal

theorem date_keys_ordered_iff {a b : NaiveDate} (ha : InRange a.midnight)
    (hb : InRange b.midnight) :
    KeysOrdered (.date a) (.date b) ↔ (0 ≤ a.days ↔ 0 ≤ b.days) := by
  have natural : naturalOrder (.date a) (.date b) = some (compare a.days b.days) := rfl
  have keys := compare_millis_keys ha.millis hb.millis
  have ma := midnight_millis a
  have mb := midnight_millis b
  have apart (same : i64ToBeBytes (Int64.ofInt a.midnight.timestampMillis) =
      i64ToBeBytes (Int64.ofInt b.midnight.timestampMillis)) : a = b := by
    have millis := millis_of_keys ha.millis hb.millis same
    have days : a.days = b.days := by omega
    obtain ⟨m⟩ := a
    obtain ⟨n⟩ := b
    exact congrArg NaiveDate.mk days
  refine (keysOrdered_iff rfl rfl).trans ?_
  rw [natural, keys]
  by_cases side : 0 ≤ a.days ↔ 0 ≤ b.days
  · have follows : compare a.midnight.timestampMillis b.midnight.timestampMillis =
        compare a.days b.days := compare_congr (by omega) (by omega)
    rw [if_pos (by omega), follows]
    exact iff_of_true ⟨rfl, fun same => congrArg Value.date (apart same)⟩ side
  · have follows : compare b.midnight.timestampMillis a.midnight.timestampMillis =
        compare b.days a.days := compare_congr (by omega) (by omega)
    rw [if_neg (by omega), follows]
    refine iff_of_false (fun ordered => ?_) side
    exact compare_reversed_ne (by omega) (Option.some.inj ordered.1)

/-- Instants compare by seconds and then by nanoseconds. -/
theorem compare_instants (a b : DateTime) :
    (a = b ∧ compare (a.secs, a.nanos) (b.secs, b.nanos) = .eq) ∨
      (Before a b ∧ compare (a.secs, a.nanos) (b.secs, b.nanos) = .lt) ∨
      (Before b a ∧ compare (a.secs, a.nanos) (b.secs, b.nanos) = .gt) := by
  have unfolded : compare (a.secs, a.nanos) (b.secs, b.nanos) =
      (compare a.secs b.secs).then (compare a.nanos b.nanos) := rfl
  rw [unfolded]
  rcases Int.lt_trichotomy a.secs b.secs with less | same | greater
  · exact Or.inr (Or.inl ⟨Or.inl less, by rw [Int.compare_eq_lt.mpr less]; rfl⟩)
  · rw [Int.compare_eq_eq.mpr same, Ordering.eq_then]
    rcases Nat.lt_trichotomy a.nanos b.nanos with less | equal | greater
    · exact Or.inr (Or.inl ⟨Or.inr ⟨same, less⟩, Nat.compare_eq_lt.mpr less⟩)
    · refine Or.inl ⟨?_, Nat.compare_eq_eq.mpr equal⟩
      obtain ⟨s, n⟩ := a
      obtain ⟨t, k⟩ := b
      exact congrArg₂ DateTime.mk same equal
    · exact Or.inr (Or.inr ⟨Or.inr ⟨same.symm, greater⟩, Nat.compare_eq_gt.mpr greater⟩)
  · exact Or.inr (Or.inr ⟨Or.inl greater, by rw [Int.compare_eq_gt.mpr greater]; rfl⟩)

/-- Milliseconds on two sides of the epoch are in order, leap seconds or not. -/
theorem millis_lt_across {a b : DateTime} (range : InRange a) (before : Before a b)
    (across : ¬(0 ≤ a.timestampMillis ↔ 0 ≤ b.timestampMillis)) :
    a.timestampMillis < b.timestampMillis := by
  have short := range.nanos
  simp only [DateTime.timestampMillis, Before] at *
  omega

/-- The first of two instants keeps its place where its milliseconds are less. -/
theorem keys_of_before {a b : DateTime} (ha : InRange a) (hb : InRange b) (before : Before a b) :
    compare (i64ToBeBytes (Int64.ofInt a.timestampMillis))
        (i64ToBeBytes (Int64.ofInt b.timestampMillis)) = .lt ↔
      (0 ≤ a.timestampMillis ↔ 0 ≤ b.timestampMillis) ∧
        a.timestampMillis < b.timestampMillis := by
  rw [compare_millis_keys ha.millis hb.millis]
  by_cases side : 0 ≤ a.timestampMillis ↔ 0 ≤ b.timestampMillis
  · rw [if_pos side, Int.compare_eq_lt]
    exact ⟨fun less => ⟨side, less⟩, And.right⟩
  · have less := millis_lt_across ha before side
    rw [if_neg side, Int.compare_eq_lt]
    exact iff_of_false (by omega) (fun kept => side kept.1)

theorem not_before_self (a : DateTime) : ¬Before a a := by
  rintro (less | ⟨-, less⟩) <;> omega

theorem not_before_of_before {a b : DateTime} (before : Before a b) : ¬Before b a := by
  rcases before with less | ⟨same, less⟩ <;> rintro (less' | ⟨same', less'⟩) <;> omega

/-- Keys in strict order are told apart. -/
theorem strict_keys {j k : IndexKey} {order : Ordering} (strict : order ≠ .eq) {same : Prop} :
    some order = some (compare j k) ∧ (j = k → same) ↔ compare j k = order := by
  constructor
  · exact fun ordered => (Option.some.inj ordered.1).symm
  · intro follows
    refine ⟨congrArg some follows.symm, fun equal => ?_⟩
    rw [equal, ReflOrd.compare_self] at follows
    exact absurd follows.symm strict

theorem kept_of_before {a b : DateTime} (before : Before a b) :
    Kept (.timestamp a) (.timestamp b) ↔ (0 ≤ a.timestampMillis ↔ 0 ≤ b.timestampMillis) ∧
      a.timestampMillis < b.timestampMillis := by
  constructor
  · rintro (rfl | ⟨side, ⟨less, -⟩ | ⟨-, after⟩⟩)
    · exact absurd before (not_before_self a)
    · exact ⟨side, less⟩
    · exact absurd after (not_before_of_before before)
  · rintro ⟨side, less⟩
    exact Or.inr ⟨side, Or.inl ⟨less, before⟩⟩

theorem kept_comm {a b : DateTime} :
    Kept (.timestamp a) (.timestamp b) ↔ Kept (.timestamp b) (.timestamp a) :=
  or_congr eq_comm (and_congr Iff.comm or_comm)

theorem timestamp_keys_ordered_iff {a b : DateTime} (ha : InRange a) (hb : InRange b) :
    KeysOrdered (.timestamp a) (.timestamp b) ↔ Kept (.timestamp a) (.timestamp b) := by
  have natural : naturalOrder (.timestamp a) (.timestamp b) =
      some (compare (a.secs, a.nanos) (b.secs, b.nanos)) := rfl
  refine (keysOrdered_iff rfl rfl).trans ?_
  rw [natural]
  rcases compare_instants a b with ⟨rfl, order⟩ | ⟨before, order⟩ | ⟨after, order⟩
  · rw [order, ReflOrd.compare_self]
    exact iff_of_true ⟨rfl, fun _ => rfl⟩ (Or.inl rfl)
  · rw [order, strict_keys (by decide), keys_of_before ha hb before, kept_of_before before]
  · rw [order, strict_keys (by decide), OrientedCmp.gt_iff_lt, keys_of_before hb ha after,
      kept_comm, kept_of_before after]

end Types

theorem index_keys_ordered_iff {a b : Value Float} (comparable : Comparable a b) :
    KeysOrdered a b ↔ Kept a b := by
  cases a <;> cases b <;> try exact comparable.elim
  case bool.bool a b => exact iff_of_true (bool_keys_ordered a b) trivial
  case int64.int64 a b => exact int64_keys_ordered_iff a b
  case float64.float64 a b => exact float64_keys_ordered_iff comparable.1 comparable.2
  case string.string a b => exact iff_of_true (string_keys_ordered a b) trivial
  case timestamp.timestamp a b => exact timestamp_keys_ordered_iff comparable.1 comparable.2
  case date.date a b => exact date_keys_ordered_iff comparable.1 comparable.2

theorem index_keys_ordered_positive : Comparable (.int64 1) (.int64 2) ∧
    (KeysOrdered (.int64 1) (.int64 2) ↔ Kept (.int64 1) (.int64 2)) :=
  ⟨trivial, index_keys_ordered_iff trivial⟩

/-- The key of -1 is above the key of 1. -/
theorem negative_key_above : Comparable (.int64 (-1)) (.int64 1) ∧
    ¬KeysOrdered (.int64 (-1)) (.int64 1) := by
  refine ⟨trivial, fun ordered => ?_⟩
  have side := (int64_keys_ordered_iff _ _).mp ordered
  exact absurd side (by decide)

end KeyOrders
