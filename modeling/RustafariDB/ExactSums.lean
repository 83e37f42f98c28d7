import RustafariDB.AggregateAgreement
import RustafariDB.ClampedSums

/-!
# When SUM of integers is exact

SUM adds with saturation row by row, and over chunks once more on the sums of the chunks.
Whether some order of the rows is clamped on the way is decided by the terms above zero and
the terms below zero.
-/

namespace ExactSums

open SelectiveFolds SaturatingSums ClampedSums Floats Values Catalogs Plans ColumnarStorage
open Aggregates AggregateAgreement

variable {F : Type} [Float64 F] {schema : Schema} {column : String} {i : Nat}

/-- The exact sum as far as 64 bits go, and Null for no integer at all. -/
def exactResult (ints : List Int64) : Value F :=
  if ints.isEmpty then .null else .int64 (Int64.ofInt (clamp (exactSum ints)))

/-- In every order of the rows and every cut of them into chunks SUM is the exact sum. -/
def SumsExactly (schema : Schema) (column : String) (i : Nat) (rows : List (Row F)) : Prop :=
  ∀ rows', rows'.Perm rows →
    aggregateOverRowSlice rows' schema (.sum column) = .ok (exactResult (columnInts rows i)) ∧
    ∀ chunks slices, Shows column chunks slices → slices.flatten = columnCells rows' i →
      aggregateOverChunks chunks schema (.sum column) = .ok (exactResult (columnInts rows i))

variable {rows : List (Row F)}

omit [Float64 F] in
theorem columnInts_eq (rows : List (Row F)) (i : Nat) :
    columnInts rows i = rows.filterMap (fun r => int64Of ((r.get i).getD .null)) := by
  rw [columnInts, columnCells, List.filterMap_map]
  rfl

omit [Float64 F] in
theorem columnInts_perm {rows' : List (Row F)} (h : rows'.Perm rows) :
    (columnInts rows' i).Perm (columnInts rows i) :=
  (h.map _).filterMap _

omit [Float64 F] in
theorem columnFloats_eq_nil {rows' : List (Row F)} (h : rows'.Perm rows)
    (integers : ∀ v ∈ columnCells rows i, v = .null ∨ ∃ x, v = .int64 x) :
    columnFloats rows' i = [] := by
  refine List.filterMap_eq_nil_iff.mpr (fun v inside => ?_)
  rcases integers v ((h.map _).mem_iff.mp inside) with rfl | ⟨x, rfl⟩
  · rfl
  · rfl

/-- SUM over the rows of an integer column is exact just if its saturating sum is. -/
theorem rowSum_exact_iff (hcol : schema.columnIndex column = some i)
    {rows' : List (Row F)} (order : rows'.Perm rows) (noFloat : columnFloats rows' i = []) :
    aggregateOverRowSlice rows' schema (.sum column) = .ok (exactResult (columnInts rows i)) ↔
      ((columnInts rows' i).foldl saturatingAdd 0).toInt =
        clamp (exactSum (columnInts rows i)) := by
  have present : (columnInts rows' i).isEmpty = (columnInts rows i).isEmpty := by
    have lengths := (columnInts_perm (i := i) order).length_eq
    rw [Bool.eq_iff_iff, List.isEmpty_iff, List.isEmpty_iff, ← List.length_eq_zero_iff,
      ← List.length_eq_zero_iff, lengths]
  rw [rowSum_eq hcol, sumResult, noFloat, exactResult, present]
  cases none : (columnInts rows i).isEmpty with
  | true =>
    rw [List.isEmpty_iff] at none
    rw [none, List.isEmpty_iff.mp (present.trans (by rw [none]; rfl))]
    exact iff_of_true rfl rfl
  | false =>
    have machine (a : Int64) (n : Int) : a = Int64.ofInt (clamp n) ↔ a.toInt = clamp n := by
      rw [← Int64.toInt_inj, toInt_ofInt_clamp]
    rw [← machine]
    simp only [Bool.not_true, Bool.not_false, Bool.false_eq_true, if_false, if_true,
      List.isEmpty_nil, Except.ok.injEq, Value.int64.injEq]

/-- The sums of the chunks add up to the sum of the column. -/
theorem chunkSums_steady {chunks : List (ColumnarChunk F)} {slices : List (List (Value F))}
    (shown : Shows column chunks slices) (steady : Steady (slices.flatten.filterMap int64Of)) :
    (chunkSums chunks column).int = (slices.flatten.filterMap int64Of).foldl saturatingAdd 0 := by
  rw [chunkSums_eq shown]
  refine foldl_parts _ _ _ _ _ _ (fun before part inside _ => ?_)
  obtain ⟨rest, picked⟩ := picked_of_prefix int64Of inside
  rw [picked] at steady
  exact steady_join (steady_left steady)

/-- SUM of a column of integers and Nulls is exact in every order of the rows and over every
cut into chunks just if the integers are of one sign, or those above zero and those below
zero each stay in the range of an `i64`. -/
theorem integer_sum_exact_iff (hcol : schema.columnIndex column = some i)
    (integers : ∀ v ∈ columnCells rows i, v = .null ∨ ∃ x, v = .int64 x) :
    SumsExactly schema column i rows ↔ Steady (columnInts rows i) := by
  constructor
  · intro exactly
    refine (orders_exact_iff _).mp (fun ys order => ?_)
    rw [columnInts_eq] at order
    obtain ⟨rows', reordered, picked⟩ := exists_perm_filterMap order.symm
    have row := (exactly rows' reordered).1
    rw [rowSum_exact_iff hcol reordered (columnFloats_eq_nil reordered integers)] at row
    rw [← picked, ← columnInts_eq rows']
    exact row
  · intro steady rows' order
    have noFloat := columnFloats_eq_nil order integers
    have steady' := steady_perm (columnInts_perm order).symm steady
    have row : aggregateOverRowSlice rows' schema (.sum column) =
        .ok (exactResult (columnInts rows i)) := by
      rw [rowSum_exact_iff hcol order noFloat, steady_foldl steady',
        exactSum_perm (columnInts_perm order)]
    refine ⟨row, fun chunks slices shown joined => ?_⟩
    have alike : (chunkSums chunks column).int = (columnInts rows' i).foldl saturatingAdd 0 := by
      rw [chunkSums_steady shown (by rw [joined]; exact steady'), joined]
      rfl
    exact (sum_of_integers hcol shown joined alike noFloat).trans row

def amounts : List (Row Float) := [.new [.int64 3], .new [.null], .new [.int64 4]]

def amountSchema : Schema := .new [⟨"amount", .bigInt, true⟩]

theorem integer_sum_exact_amounts : SumsExactly amountSchema "amount" 0 amounts := by
  have integers : ∀ v ∈ columnCells amounts 0, v = .null ∨ ∃ x, v = .int64 x := by
    intro v inside
    simp only [columnCells, amounts, List.map_cons, List.map_nil, List.mem_cons,
      List.not_mem_nil, or_false] at inside
    rcases inside with rfl | rfl | rfl
    · exact Or.inr ⟨3, rfl⟩
    · exact Or.inl rfl
    · exact Or.inr ⟨4, rfl⟩
  have present : columnInts amounts 0 = [3, 4] := rfl
  have positive : ∀ x ∈ columnInts amounts 0, 0 ≤ x.toInt := by
    rw [present]
    exact List.forall_mem_cons.mpr ⟨by decide, List.forall_mem_singleton.mpr (by decide)⟩
  exact (integer_sum_exact_iff rfl integers).mpr (Or.inl (Or.inl positive))

/-- The greatest integer, 1 and -1 add up to the greatest less one. -/
theorem order_changes_sum :
    ¬∀ rows : List (Row Float), (∀ v ∈ columnCells rows 0, v = .null ∨ ∃ x, v = .int64 x) →
      SumsExactly amountSchema "amount" 0 rows := by
  intro exactly
  have integers : ∀ v ∈ columnCells [Row.new [.int64 Int64.maxValue], .new [.int64 1],
      .new [.int64 (-1 : Int64)]] 0, v = (.null : Value Float) ∨ ∃ x, v = .int64 x := by
    intro v inside
    simp only [columnCells, List.map_cons, List.map_nil, List.mem_cons, List.not_mem_nil,
      or_false] at inside
    rcases inside with rfl | rfl | rfl
    · exact Or.inr ⟨_, rfl⟩
    · exact Or.inr ⟨_, rfl⟩
    · exact Or.inr ⟨_, rfl⟩
  have clamped := (exactly _ integers _ (List.Perm.refl _)).1
  rw [rowSum_exact_iff rfl (List.Perm.refl _) rfl] at clamped
  revert clamped
  decide

end ExactSums
