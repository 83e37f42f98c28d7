import RustafariDB.ByteOrder
import RustafariDB.ListBuckets
import RustafariDB.OrderedMaps
import RustafariDB.Values

/-!
# The B-tree index

`btree.rs`: keys are untagged byte strings and an index maps each key to the
row ids filed under it. The lock around the map cannot be poisoned, since no
writer panics, so the lookups are total; only a range with its start above its
end panics. Int64 keys are two's complement: they follow the numbers between
values of one sign and put every negative number last.
-/

namespace BTreeIndexing

open Std OrderedMaps ListBuckets ByteOrder Floats Values

/-- Column value serialized for ordering. -/
abbrev IndexKey := List UInt8

variable {F : Type}

/-- `to_be_bytes` of an `i64`. -/
def i64ToBeBytes (i : Int64) : List UInt8 := toBytesBE 8 i.toUInt64.toNat

namespace IndexKey

def fromValue [Float64 F] : Value F → Except RustafariError IndexKey
  | .null => .error (.index "null not indexable")
  | .bool b => .ok [if b then 1 else 0]
  | .int64 i => .ok (i64ToBeBytes i)
  | .float64 x => .ok (toBytesBE 8 (Float64.toBits x).toNat)
  | .string s => .ok s.toUTF8.toList
  | .timestamp ts => .ok (i64ToBeBytes (Int64.ofInt ts.timestampMillis))
  | .date d => .ok (i64ToBeBytes (Int64.ofInt d.midnight.timestampMillis))
  | _ => .error (.index "type not indexable in btree")

end IndexKey

/-- The lock is left out. -/
structure BTreeIndex where
  map : ExtTreeMap IndexKey (List Nat)

namespace BTreeIndex

def new : BTreeIndex := ⟨∅⟩

def get (index : BTreeIndex) (key : IndexKey) : List Nat := index.map[key]?.getD []

def insert (index : BTreeIndex) (key : IndexKey) (rowId : Nat) : BTreeIndex :=
  ⟨index.map.insert key (index.get key ++ [rowId])⟩

def delete (index : BTreeIndex) (key : IndexKey) (rowId : Nat) : Bool × BTreeIndex :=
  match index.map[key]? with
  | none => (false, index)
  | some ids =>
    if rowId ∈ ids then
      (true, ⟨if (ids.erase rowId).isEmpty then index.map.erase key
        else index.map.insert key (ids.erase rowId)⟩)
    else (false, index)

def inKeyRange (start stop key : IndexKey) : Bool :=
  (compare start key).isLE && (compare key stop).isLE

/-- Keys in `start..=end`; `none` is the panic that `BTreeMap::range` documents for a start above
the end. On a map that was never filled the library returns nothing instead. -/
def range (index : BTreeIndex) (start : IndexKey) (stop : Option IndexKey) :
    Option (List Nat) :=
  let stop := stop.getD (List.replicate 256 0xff)
  if compare start stop = .gt then none
  else some ((entriesWhere (inKeyRange start stop) index.map).flatMap Prod.snd)

end BTreeIndex

section Contents

variable {index : BTreeIndex}

@[simp] theorem get_new (key : IndexKey) : BTreeIndex.new.get key = [] := by
  simp [BTreeIndex.new, BTreeIndex.get]

theorem get_insert (key k : IndexKey) (rowId : Nat) :
    (index.insert key rowId).get k = if key = k then index.get k ++ [rowId] else index.get k := by
  rw [BTreeIndex.get, BTreeIndex.insert, ExtTreeMap.getElem?_insert]
  by_cases hk : key = k
  · rw [if_pos (by simpa using hk), if_pos hk, hk, Option.getD_some]
  · rw [if_neg (by simpa using hk), if_neg hk, BTreeIndex.get]

variable {α : Type} {keyOf : α → Option IndexKey} {rows : List (Nat × α)}

/-- The index files under every key the ids of the rows with that key, in row order. -/
def Indexes (index : BTreeIndex) (keyOf : α → Option IndexKey) (rows : List (Nat × α)) : Prop :=
  ∀ k, index.get k = (bucket (fun e => keyOf e.2) rows k).map Prod.fst

theorem mem_get_iff (contents : Indexes index keyOf rows) {k : IndexKey} {r : Nat} :
    r ∈ index.get k ↔ ∃ row, (r, row) ∈ rows ∧ keyOf row = some k := by
  rw [contents k, List.mem_map]
  constructor
  · rintro ⟨⟨_, row⟩, filed, rfl⟩
    exact ⟨row, mem_bucket.mp filed⟩
  · rintro ⟨row, filed⟩
    exact ⟨(r, row), mem_bucket.mpr filed, rfl⟩

theorem indexes_new : Indexes BTreeIndex.new keyOf [] := by
  intro k
  rw [get_new]
  rfl

theorem indexes_insert (contents : Indexes index keyOf rows) {key : IndexKey} {a : α}
    (hkey : keyOf a = some key) (rowId : Nat) :
    Indexes (index.insert key rowId) keyOf (rows ++ [(rowId, a)]) := by
  intro k
  rw [get_insert, bucket, List.filter_append, List.map_append, ← bucket, ← contents k]
  by_cases hk : key = k
  · subst hk
    simp [hkey]
  · have absent : keyOf a ≠ some k := by
      rw [hkey]
      exact fun h => hk (Option.some.inj h)
    simp [hk, absent]

theorem indexes_skip (contents : Indexes index keyOf rows) {a : α}
    (nokey : keyOf a = none) (rowId : Nat) :
    Indexes index keyOf (rows ++ [(rowId, a)]) := by
  intro k
  rw [bucket, List.filter_append, List.map_append, ← bucket, ← contents k]
  simp [nokey]

/-- The end of a range without an end. -/
def lastKey : IndexKey := List.replicate 256 0xff

/-- The keys that a range visits, in increasing order. -/
def visitedKeys (index : BTreeIndex) (start stop : IndexKey) : List IndexKey :=
  (entriesWhere (BTreeIndex.inKeyRange start stop) index.map).map Prod.fst

theorem visitedKeys_sorted (index : BTreeIndex) (start stop : IndexKey) :
    (visitedKeys index start stop).Pairwise (fun a b => compare a b = .lt) :=
  List.pairwise_map.mpr (entriesWhere_sorted _ _)

theorem mem_visitedKeys {start stop k : IndexKey} : k ∈ visitedKeys index start stop ↔
    (∃ ids, index.map[k]? = some ids) ∧ BTreeIndex.inKeyRange start stop k = true := by
  rw [visitedKeys, List.mem_map]
  constructor
  · rintro ⟨⟨k, ids⟩, visited, rfl⟩
    obtain ⟨stored, inside⟩ := mem_entriesWhere.mp visited
    exact ⟨⟨ids, stored⟩, inside⟩
  · rintro ⟨⟨ids, stored⟩, inside⟩
    exact ⟨(k, ids), mem_entriesWhere.mpr ⟨stored, inside⟩, rfl⟩

/-- A range that does not start above its end reads the lists of the keys it visits. -/
theorem range_eq (index : BTreeIndex) (start : IndexKey) (stop : Option IndexKey) :
    index.range start stop = if compare start (stop.getD lastKey) = .gt then none
      else some ((visitedKeys index start (stop.getD lastKey)).flatMap index.get) := by
  have read (stop : IndexKey) :
      (entriesWhere (BTreeIndex.inKeyRange start stop) index.map).flatMap Prod.snd =
        (visitedKeys index start stop).flatMap index.get := by
    rw [visitedKeys, List.flatMap_map]
    refine List.flatMap_congr (fun e he => ?_)
    rw [BTreeIndex.get, (mem_entriesWhere.mp he).1, Option.getD_some]
  rw [← read]
  rfl

/-- A row has one of the visited keys when its key lies in the range. -/
theorem any_visitedKeys (contents : Indexes index keyOf rows) {start stop : IndexKey}
    {e : Nat × α} (he : e ∈ rows) :
    (visitedKeys index start stop).any (fun k => keyOf e.2 = some k) =
      (keyOf e.2).any (BTreeIndex.inKeyRange start stop) := by
  refine Bool.eq_iff_iff.mpr ⟨fun hany => ?_, fun hrange => ?_⟩
  · obtain ⟨k, hk, hek⟩ := List.any_eq_true.mp hany
    rw [of_decide_eq_true hek]
    exact (mem_visitedKeys.mp hk).2
  · obtain ⟨k, hk, hin⟩ := (Option.any_eq_true _ _).mp hrange
    have filed : e.1 ∈ index.get k := (mem_get_iff contents).mpr ⟨e.2, he, hk⟩
    have stored : ∃ ids, index.map[k]? = some ids := by
      cases found : index.map[k]? with
      | none =>
        rw [BTreeIndex.get, found] at filed
        cases filed
      | some ids => exact ⟨ids, rfl⟩
    exact List.any_eq_true.mpr ⟨k, mem_visitedKeys.mpr ⟨stored, hin⟩, decide_eq_true hk⟩

/-- A range scan returns the ids of the rows whose key lies in the range, by key. -/
theorem range_perm (contents : Indexes index keyOf rows) {start stop : IndexKey}
    {ids : List Nat} (run : index.range start (some stop) = some ids) :
    ids.Perm ((rows.filter (fun e =>
      (keyOf e.2).any (BTreeIndex.inKeyRange start stop))).map Prod.fst) := by
  let keys := visitedKeys index start stop
  have byKey : ids = (keys.flatMap (bucket (fun e => keyOf e.2) rows)).map Prod.fst := by
    rw [range_eq, Option.getD_some] at run
    by_cases above : compare start stop = .gt
    · rw [if_pos above] at run
      cases run
    · rw [if_neg above] at run
      rw [List.map_flatMap, ← Option.some.inj run]
      exact List.flatMap_congr (fun k _ => contents k)
  have distinct : keys.Nodup := by
    refine (visitedKeys_sorted index start stop).imp ?_
    rintro a _ hlt rfl
    exact OrientedCmp.not_lt_of_lt hlt hlt
  rw [byKey]
  refine List.Perm.map _ ((flatMap_bucket_perm _ _ _ distinct).trans (List.Perm.of_eq ?_))
  exact List.filter_congr (fun e he => any_visitedKeys contents he)

end Contents

section IntegerKeys

theorem toNat_toUInt64 (i : Int64) :
    (i.toUInt64.toNat : Int) = if 0 ≤ i.toInt then i.toInt else i.toInt + 2 ^ 64 := by
  have h := BitVec.toInt_eq_toNat_cond i.toBitVec
  rw [Int64.toInt_toBitVec, Int64.toNat_toBitVec] at h
  have bound : i.toUInt64.toNat < 2 ^ 64 := i.toUInt64.toNat_lt
  split at h <;> split <;> omega

theorem compare_i64ToBeBytes (a b : Int64) :
    compare (i64ToBeBytes a) (i64ToBeBytes b) = compare a.toUInt64.toNat b.toUInt64.toNat :=
  compare_toBytesBE a.toUInt64.toNat_lt b.toUInt64.toNat_lt

/-- `a` is at most `b` as keys: the numbers agree on it, or only `b` is negative. -/
theorem key_le_iff (a b : Int64) :
    (compare (i64ToBeBytes a) (i64ToBeBytes b)).isLE = true ↔
      ((0 ≤ a.toInt ↔ 0 ≤ b.toInt) ∧ a.toInt ≤ b.toInt) ∨ (0 ≤ a.toInt ∧ b.toInt < 0) := by
  rw [compare_i64ToBeBytes, Nat.isLE_compare]
  have ha := toNat_toUInt64 a
  have hb := toNat_toUInt64 b
  have la := Int64.le_toInt a
  have lb := Int64.le_toInt b
  have ua := Int64.toInt_lt a
  have ub := Int64.toInt_lt b
  split at ha <;> split at hb <;> omega

end IntegerKeys

end BTreeIndexing
