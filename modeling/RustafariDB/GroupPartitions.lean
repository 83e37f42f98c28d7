import RustafariDB.QueryOperators
import RustafariDB.TextJoins

/-!
# GROUP BY as a partition

Groups are kept under a joined text. Where the rendering of values can be told apart and
read back, the text decides the tuple of present key values, also for short rows, and the
groups are the classes of equal tuples.
-/

namespace GroupPartitions

open Values Catalogs Plans Floats Aggregates Execution StatefulPrograms QueryOperators

variable {F : Type}

/-- Renderings that tell the values apart, are not empty and hold no NUL character. -/
structure Renders [ValueDebug F] (values : Set (Value F)) : Prop where
  injective : ∀ v ∈ values, ∀ w ∈ values, ValueDebug.debug v = ValueDebug.debug w → v = w
  readable : ∀ v ∈ values, ValueDebug.debug v ≠ "" ∧ '\x00' ∉ (ValueDebug.debug v).toList

/-- The values the rows hold. -/
def cells (rows : List (Row F)) : Set (Value F) := {v | ∃ row ∈ rows, v ∈ row.values}

open scoped Classical in
/-- The rows with one tuple of present key values, in their order. -/
noncomputable def rowsWith (indices : List Nat) (rows : List (Row F)) (tuple : List (Value F)) :
    List (Row F) :=
  rows.filter (fun row => groupValues indices row = tuple)

variable {indices : List Nat} {rows : List (Row F)}

theorem mem_groupValues {row : Row F} {v : Value F} (inside : v ∈ groupValues indices row) :
    v ∈ row.values := by
  obtain ⟨i, -, found⟩ := List.mem_filterMap.mp inside
  exact List.mem_of_getElem? found

theorem mem_rowsWith {tuple : List (Value F)} {row : Row F} :
    row ∈ rowsWith indices rows tuple ↔ row ∈ rows ∧ groupValues indices row = tuple := by
  simp only [rowsWith, List.mem_filter, decide_eq_true_eq]

section Keys
variable [ValueDebug F]

/-- The key decides the tuple, also between rows of different widths. -/
theorem groupKey_eq_iff (renders : Renders (cells rows)) {a b : Row F} (ha : a ∈ rows)
    (hb : b ∈ rows) :
    groupKey indices a = groupKey indices b ↔ groupValues indices a = groupValues indices b := by
  have held (row : Row F) (inRows : row ∈ rows) : ∀ v ∈ groupValues indices row, v ∈ cells rows :=
    fun v inside => ⟨row, inRows, mem_groupValues inside⟩
  constructor
  · intro same
    apply TextJoins.join_map_injective (c := '\x00') (f := ValueDebug.debug)
    · exact fun v hv w hw => renders.injective v (held a ha v hv) w (held b hb w hw)
    · exact fun v hv => renders.readable v (held a ha v hv)
    · exact fun v hv => renders.readable v (held b hb v hv)
    · exact same
  · intro same
    rw [groupKey, groupKey, same]

variable (renders : Renders (cells rows))
include renders

theorem nodup_tuples : ((rowGroups indices rows).map Prod.fst).Nodup := by
  rw [rowGroups, List.map_map]
  exact Groupings.nodup_labels (fun a ha b hb => groupKey_eq_iff renders ha hb)

theorem mem_tuples {tuple : List (Value F)} :
    tuple ∈ (rowGroups indices rows).map Prod.fst ↔
      ∃ row ∈ rows, groupValues indices row = tuple := by
  rw [rowGroups, List.map_map]
  exact Groupings.mem_labels (fun a ha b hb => groupKey_eq_iff renders ha hb)

open scoped Classical in
theorem group_eq_rowsWith {g : List (Value F) × List (Row F)}
    (inside : g ∈ rowGroups indices rows) : g.2 = rowsWith indices rows g.1 := by
  obtain ⟨⟨key, group⟩, listed, rfl⟩ := List.mem_map.mp inside
  exact Groupings.group_of_label (fun a ha b hb => groupKey_eq_iff renders ha hb) listed

/-- Read one after another, the groups hold every row once. -/
theorem flatMap_rowsWith_perm :
    (((rowGroups indices rows).map Prod.fst).flatMap (rowsWith indices rows)).Perm rows := by
  have groups : ((rowGroups indices rows).map Prod.fst).flatMap (rowsWith indices rows) =
      (rowGroups indices rows).flatMap Prod.snd := by
    rw [List.flatMap_map]
    exact List.flatMap_congr (fun g inside => (group_eq_rowsWith renders inside).symm)
  rw [groups, rowGroups, List.flatMap_map]
  exact Groupings.grouped_perm (groupKey indices) (groupValues indices) rows

end Keys

section Partition
variable [Float64 F] [ValueDebug F] {schema : Schema} {columns : List String}

/-- GROUP BY returns one row for each tuple of present key values that occurs: the tuple,
then the aggregates of the rows that have it. -/
theorem groupBy_partitions
    (known : List.Forall₂ (fun c i => schema.columnIndex c = some i) columns indices)
    (aggs : List AggExpr) (rows : List (Row F)) (renders : Renders (cells rows)) :
    ∃ tuples : List (List (Value F)), tuples.Nodup ∧
      (∀ tuple, tuple ∈ tuples ↔ ∃ row ∈ rows, groupValues indices row = tuple) ∧
      (∀ out, groupRows schema columns aggs rows = .ok out ↔
        List.Forall₂ (fun tuple row => ∃ values,
          aggs.mapM (aggregateOverRowSlice (rowsWith indices rows tuple) schema) = .ok values ∧
          row = .new (tuple ++ values)) tuples out) ∧
      (∀ row ∈ rows, ∃! tuple, tuple ∈ tuples ∧ row ∈ rowsWith indices rows tuple) ∧
      (tuples.flatMap (rowsWith indices rows)).Perm rows := by
  refine ⟨(rowGroups indices rows).map Prod.fst, nodup_tuples renders,
    fun tuple => mem_tuples renders, fun out => ?_, fun row inRows => ?_,
    flatMap_rowsWith_perm renders⟩
  · rw [List.forall₂_map_left_iff, groupRows_eq_ok]
    have same : ∀ g ∈ rowGroups indices rows, ∀ row : Row F,
        (∃ vs, aggs.mapM (aggregateOverRowSlice g.2 schema) = .ok vs ∧ row = .new (g.1 ++ vs)) ↔
        (∃ vs, aggs.mapM (aggregateOverRowSlice (rowsWith indices rows g.1) schema) = .ok vs ∧
          row = .new (g.1 ++ vs)) := by
      intro g inside row
      rw [group_eq_rowsWith renders inside]
    constructor
    · rintro ⟨indices', known', groups⟩
      obtain rfl := indices_unique known known'
      exact (forall₂_congr same).mp groups
    · intro groups
      exact ⟨indices, known, (forall₂_congr same).mpr groups⟩
  · refine ⟨groupValues indices row, ⟨(mem_tuples renders).mpr ⟨row, inRows, rfl⟩,
      mem_rowsWith.mpr ⟨inRows, rfl⟩⟩, ?_⟩
    rintro tuple ⟨-, inside⟩
    exact (mem_rowsWith.mp inside).2.symm

/-- A short row before two rows with both values. -/
def ragged : List (Row ExactFloat) :=
  [.new [.int64 1], .new [.int64 1, .string "x"], .new [.int64 1, .string "x"]]

theorem cells_ragged (v : Value ExactFloat) :
    v ∈ cells ragged ↔ v = .int64 1 ∨ v = .string "x" := by
  simp [cells, ragged, Row.new]

theorem renders_ragged : Renders (cells ragged) where
  injective v hv w hw same := by
    rcases (cells_ragged v).mp hv with rfl | rfl <;> rcases (cells_ragged w).mp hw with rfl | rfl
    · rfl
    · exact absurd same (by decide)
    · exact absurd same (by decide)
    · rfl
  readable v hv := by
    rcases (cells_ragged v).mp hv with rfl | rfl
    · decide
    · decide

theorem groupBy_partitions_ragged :
    ∃ tuples : List (List (Value ExactFloat)), tuples.Nodup ∧
      ∀ tuple, tuple ∈ tuples ↔ tuple = [.int64 1] ∨ tuple = [.int64 1, .string "x"] := by
  have known : List.Forall₂ (fun c i => (Schema.new [⟨"a", .bigInt, true⟩,
      ⟨"b", .text, true⟩]).columnIndex c = some i) ["a", "b"] [0, 1] := .cons rfl (.cons rfl .nil)
  obtain ⟨tuples, distinct, member, -⟩ :=
    groupBy_partitions known [.countStar] ragged renders_ragged
  refine ⟨tuples, distinct, fun tuple => (member tuple).trans ?_⟩
  simp [ragged, groupValues, Row.new, Row.get, eq_comm]

end Partition

end GroupPartitions
