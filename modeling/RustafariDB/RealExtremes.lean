import RustafariDB.AggregateAgreement
import RustafariDB.NumericComparisons

/-!
# MIN and MAX as extrema

MIN and MAX fold the integers and the floats of a column apart, each from a value behind
all numbers of its kind. If there is a float, the extreme float is the result, whatever the
integers are. Strings are passed over. Over chunks an integer equal to the initial value
counts as none.
-/

namespace RealExtremes

open SelectiveFolds RankedOrders Floats FloatLaws ExactNumbers Values Catalogs Plans
open ColumnarStorage Aggregates AggregateAgreement NumericComparisons

variable {F : Type} [Float64 F] [ExactFloat64 F]

section Extrema

/-- Numbers are ordered by their exact values and strings as strings. -/
def valueOrder (v w : Value F) : Option Ordering :=
  match v, w with
  | .string s, .string t => some (Ord.compare s t)
  | v, w => (number v).bind (fun a => (number w).bind (Float64.partialCmp a))

def NotAbove (v w : Value F) : Prop := (valueOrder v w).any Ordering.isLE = true

def NotBelow (v w : Value F) : Prop := NotAbove w v

def IsNumber (v : Value F) : Prop := ∃ a, number v = some a ∧ a.isNaN = false

/-- Next to Null there are numbers only, of any mix, or strings only. -/
def Comparable (vs : List (Value F)) : Prop :=
  (∀ v ∈ vs, v.isNull = true ∨ IsNumber v) ∨ ∀ v ∈ vs, v.isNull = true ∨ ∃ s, v = .string s

/-- Null for nothing but Null, and otherwise a value that occurs and stands before all. -/
def IsExtreme (before : Value F → Value F → Prop) (vs : List (Value F)) (r : Value F) : Prop :=
  (r = .null ∧ ∀ v ∈ vs, v.isNull = true) ∨
    (∃ v ∈ vs, v.isNull = false ∧ Value.eq v r = true) ∧ ∀ v ∈ vs, v.isNull = false → before r v

/-- The aggregate of the rows is an extreme, and so it is over every cut into chunks. -/
def FindsExtreme (before : Value F → Value F → Prop) (agg : AggExpr) (schema : Schema)
    (column : String) (i : Nat) (rows : List (Row F)) : Prop :=
  (∃ r, aggregateOverRowSlice rows schema agg = .ok r ∧ IsExtreme before (columnCells rows i) r) ∧
    ∀ chunks slices, Shows column chunks slices → slices.flatten = columnCells rows i →
      ∃ r, aggregateOverChunks chunks schema agg = .ok r ∧
        IsExtreme before (columnCells rows i) r

/-- All are numbers, and some float stands before all integers; or no float is there, and
not only copies of one integer. -/
def FloatsFirst (before : ExactFloat → ExactFloat → Prop) (sentinel : Int64)
    (vs : List (Value F)) : Prop :=
  (∀ v ∈ vs, v.isNull = true ∨ IsNumber v) ∧
    ((∃ f, .float64 f ∈ vs ∧ ∀ x, .int64 x ∈ vs →
        before (ExactFloat64.exact f) (.finite x.toInt)) ∨
      (∀ f, .float64 f ∉ vs) ∧ ((∀ x, .int64 x ∉ vs) ∨ ∃ x, .int64 x ∈ vs ∧ x ≠ sentinel))

end Extrema

section Values
variable {vs : List (Value F)} {v r : Value F}

omit [Float64 F] [ExactFloat64 F] in
theorem mem_ints {x : Int64} : x ∈ vs.filterMap int64Of ↔ .int64 x ∈ vs := by
  rw [List.mem_filterMap]
  constructor
  · rintro ⟨v, inside, picked⟩
    cases v with
    | int64 y =>
      cases picked
      exact inside
    | _ => cases picked
  · exact fun inside => ⟨_, inside, rfl⟩

omit [Float64 F] [ExactFloat64 F] in
theorem mem_floats {f : F} : f ∈ vs.filterMap float64Of ↔ .float64 f ∈ vs := by
  rw [List.mem_filterMap]
  constructor
  · rintro ⟨v, inside, picked⟩
    cases v with
    | float64 y =>
      cases picked
      exact inside
    | _ => cases picked
  · exact fun inside => ⟨_, inside, rfl⟩

/-- A number is an integer or a float. -/
theorem number_cases (h : IsNumber v) :
    (∃ x, v = .int64 x) ∨ ∃ f, v = .float64 f ∧ (ExactFloat64.exact f).isNaN = false := by
  obtain ⟨a, known, present⟩ := h
  cases v with
  | int64 x => exact Or.inl ⟨x, rfl⟩
  | float64 f =>
    cases known
    exact Or.inr ⟨f, rfl, present⟩
  | _ => cases known

omit [ExactFloat64 F] in
theorem eq_int64 {x : Int64} (h : Value.eq (.int64 x) r = true) : r = .int64 x := by
  cases r with
  | int64 y =>
    rw [Value.eq, beq_iff_eq] at h
    rw [h]
  | _ => cases h

omit [ExactFloat64 F] in
/-- Where the present values are copies of one integer, the extreme is that integer. -/
theorem extreme_unique {before : Value F → Value F → Prop} {x : Int64} (inside : .int64 x ∈ vs)
    (copies : ∀ v ∈ vs, v.isNull = true ∨ v = .int64 x) (h : IsExtreme before vs r) :
    r = .int64 x := by
  rcases h with ⟨_, absent⟩ | ⟨⟨v, member, present, same⟩, _⟩
  · cases absent _ inside
  · rcases copies v member with null | rfl
    · rw [null] at present
      cases present
    · exact eq_int64 same

end Values

section Folds
variable {opI : Int64 → Int64 → Int64} {opF : F → F → F} {sentinel : Int64} {start : F}
variable {before : ExactFloat → ExactFloat → Prop}

/-- The loops of MIN, or of MAX, choose by one order, each from a value behind its kind. -/
structure Chooses (opI : Int64 → Int64 → Int64) (opF : F → F → F) (sentinel : Int64) (start : F)
    (before : ExactFloat → ExactFloat → Prop) : Prop where
  ints : Selects (fun x : Int64 => ExactFloat.isNaN (.finite x.toInt) = false)
    (fun x y => before (.finite x.toInt) (.finite y.toInt)) opI
  floats : Selects (fun f => (ExactFloat64.exact f).isNaN = false)
    (fun f g => before (ExactFloat64.exact f) (ExactFloat64.exact g)) opF
  behindInts : ∀ x : Int64, before (.finite x.toInt) (.finite sentinel.toInt)
  present : (ExactFloat64.exact start).isNaN = false
  behindFloats : ∀ f : F, (ExactFloat64.exact f).isNaN = false →
    before (ExactFloat64.exact f) (ExactFloat64.exact start)
  trans : ∀ a b c, before a b → before b c → before a c
  level : ∀ a b, before a b → before b a → Float64.partialCmp a b = some .eq

variable [LawfulFloat64 F] {vs : List (Value F)} {beside : Value F → Value F → Prop}

omit [Float64 F] [ExactFloat64 F] [LawfulFloat64 F] in
theorem no_member {α : Type} {pick : Value F → Option α} {make : α → Value F}
    (mem : ∀ {x}, x ∈ vs.filterMap pick ↔ make x ∈ vs) :
    vs.filterMap pick = [] ↔ ∀ x, make x ∉ vs := by
  simp only [List.eq_nil_iff_forall_not_mem, mem]

/-- Numbers of one representation that stand before each other are equal values. -/
theorem eq_of_level (chooses : Chooses opI opF sentinel start before) {v w : Value F}
    {a b : ExactFloat} (same : SameRepresentation v w) (hv : number v = some a)
    (hw : number w = some b) (hab : before a b) (hba : before b a) : Value.eq v w = true := by
  have truth := evalCmp_same .eq same hv hw
  rw [chooses.level a b hab hba] at truth
  exact truth

/-- Among integers the extreme is found. -/
theorem integers_extreme (chooses : Chooses opI opF sentinel start before)
    (agrees : ∀ v w a b, number v = some a → number w = some b → (beside v w ↔ before a b))
    (integers : ∀ v ∈ vs, v.isNull = false → ∃ x, v = .int64 x)
    (some_int : vs.filterMap int64Of ≠ []) :
    IsExtreme beside vs (.int64 ((vs.filterMap int64Of).foldl opI sentinel)) := by
  obtain ⟨⟨x, inside, level⟩, first⟩ := chooses.ints.foldl_extreme some_int
    (fun _ _ => rfl) rfl (fun x _ => chooses.behindInts x)
  refine Or.inr ⟨⟨.int64 x, mem_ints.mp inside, rfl, ?_⟩, fun v member present => ?_⟩
  · exact eq_of_level chooses trivial rfl rfl level (first x inside)
  · obtain ⟨y, rfl⟩ := integers v member present
    exact (agrees _ _ _ _ rfl rfl).mpr (first y (mem_ints.mpr member))

/-- The extreme float is the extreme of the column if some float stands before the integers. -/
theorem floats_extreme_iff (chooses : Chooses opI opF sentinel start before)
    (agrees : ∀ v w a b, number v = some a → number w = some b → (beside v w ↔ before a b))
    (numbers : ∀ v ∈ vs, v.isNull = false → IsNumber v)
    (some_float : vs.filterMap float64Of ≠ []) :
    IsExtreme beside vs (.float64 ((vs.filterMap float64Of).foldl opF start)) ↔
      ∃ f, .float64 f ∈ vs ∧
        ∀ x, .int64 x ∈ vs → before (ExactFloat64.exact f) (.finite x.toInt) := by
  have present (f : F) (inside : f ∈ vs.filterMap float64Of) :
      (ExactFloat64.exact f).isNaN = false := by
    obtain ⟨a, known, ranked⟩ := numbers _ (mem_floats.mp inside) rfl
    cases known
    exact ranked
  obtain ⟨⟨f, inside, level⟩, first⟩ := chooses.floats.foldl_extreme some_float present
    chooses.present (fun f inside => chooses.behindFloats f (present f inside))
  constructor
  · rintro (⟨isNull, _⟩ | ⟨_, stands⟩)
    · cases isNull
    · refine ⟨f, mem_floats.mp inside, fun x member => ?_⟩
      exact chooses.trans _ _ _ level ((agrees _ _ _ _ rfl rfl).mp (stands _ member rfl))
  · rintro ⟨g, member, passes⟩
    refine Or.inr ⟨⟨.float64 f, mem_floats.mp inside, rfl, ?_⟩, fun v member' there => ?_⟩
    · exact eq_of_level chooses trivial rfl rfl level (first f inside)
    · rcases number_cases (numbers v member' there) with ⟨x, rfl⟩ | ⟨h, rfl, _⟩
      · exact (agrees _ _ _ _ rfl rfl).mpr
          (chooses.trans _ _ _ (first g (mem_floats.mpr member)) (passes x member'))
      · exact (agrees _ _ _ _ rfl rfl).mpr (first h (mem_floats.mpr member'))

/-- On numbers, what the row loop returns is an extreme unless the integers pass the floats. -/
theorem extremeResult_iff (chooses : Chooses opI opF sentinel start before)
    (agrees : ∀ v w a b, number v = some a → number w = some b → (beside v w ↔ before a b))
    (numbers : ∀ v ∈ vs, v.isNull = true ∨ IsNumber v) :
    IsExtreme beside vs (extremeResult ⟨(vs.filterMap int64Of).foldl opI sentinel,
        (vs.filterMap float64Of).foldl opF start, !(vs.filterMap int64Of).isEmpty,
        !(vs.filterMap float64Of).isEmpty⟩) ↔
      (∃ f, .float64 f ∈ vs ∧
        ∀ x, .int64 x ∈ vs → before (ExactFloat64.exact f) (.finite x.toInt)) ∨
      ∀ f, .float64 f ∉ vs := by
  have known (v : Value F) (inside : v ∈ vs) (present : v.isNull = false) : IsNumber v :=
    (numbers v inside).resolve_left (by rw [present]; exact Bool.false_ne_true)
  rw [← no_member mem_floats]
  by_cases noFloat : vs.filterMap float64Of = []
  · have absent := (no_member mem_floats).mp noFloat
    have integers (v : Value F) (inside : v ∈ vs) (present : v.isNull = false) :
        ∃ x, v = .int64 x := by
      rcases number_cases (known v inside present) with integer | ⟨f, rfl, _⟩
      · exact integer
      · exact absurd inside (absent f)
    refine iff_of_true ?_ (Or.inr noFloat)
    rw [noFloat]
    by_cases noInt : vs.filterMap int64Of = []
    · rw [noInt]
      refine Or.inl ⟨rfl, fun v inside => ?_⟩
      by_contra present
      obtain ⟨x, rfl⟩ := integers v inside (Bool.eq_false_iff.mpr present)
      exact (no_member mem_ints).mp noInt x inside
    · rw [List.isEmpty_eq_false_iff.mpr noInt]
      exact integers_extreme chooses agrees integers noInt
  · rw [List.isEmpty_eq_false_iff.mpr noFloat, or_iff_left noFloat]
    exact floats_extreme_iff chooses agrees known noFloat

omit [ExactFloat64 F] [LawfulFloat64 F] in
/-- Strings are passed over, so that Null is returned, which is right for Null alone. -/
theorem strings_extreme (strings : ∀ v ∈ vs, v.isNull = true ∨ ∃ s, v = .string s)
    (h : IsExtreme beside vs (extremeResult ⟨(vs.filterMap int64Of).foldl opI sentinel,
      (vs.filterMap float64Of).foldl opF start, !(vs.filterMap int64Of).isEmpty,
      !(vs.filterMap float64Of).isEmpty⟩)) :
    ∀ v ∈ vs, v.isNull = true := by
  have noInt : vs.filterMap int64Of = [] := by
    refine (no_member mem_ints).mpr (fun x inside => ?_)
    rcases strings _ inside with null | ⟨s, string⟩
    · cases null
    · cases string
  have noFloat : vs.filterMap float64Of = [] := by
    refine (no_member mem_floats).mpr (fun f inside => ?_)
    rcases strings _ inside with null | ⟨s, string⟩
    · cases null
    · cases string
  rw [noInt, noFloat] at h
  rcases h with ⟨_, absent⟩ | ⟨⟨v, inside, present, same⟩, _⟩
  · exact absent
  · rcases strings v inside with null | ⟨s, rfl⟩
    · rw [null] at present
      cases present
    · cases same

section Cuts
variable {agg : AggExpr} {schema : Schema} {column : String} {i : Nat} {rows : List (Row F)}

omit [LawfulFloat64 F] in
/-- Copies of the initial value are taken for none, over some cut into chunks. -/
theorem copies_hidden
    (chunkResult : ∀ chunks slices, Shows column chunks slices →
      slices.flatten = columnCells rows i →
        (aggregateOverChunks chunks schema agg = aggregateOverRowSlice rows schema agg ↔
          columnFloats rows i ≠ [] ∨ columnInts rows i = [] ∨
            ∃ x ∈ columnInts rows i, x ≠ sentinel))
    (finds : FindsExtreme beside agg schema column i rows)
    (numbers : ∀ v ∈ columnCells rows i, v.isNull = true ∨ IsNumber v)
    (noFloat : ∀ f, .float64 f ∉ columnCells rows i) :
    (∀ x, .int64 x ∉ columnCells rows i) ∨ ∃ x, .int64 x ∈ columnCells rows i ∧ x ≠ sentinel := by
  obtain ⟨⟨r, returned, extreme⟩, overChunks⟩ := finds
  have shown : Shows column [ColumnarChunk.new 0 [⟨column, columnCells rows i⟩]]
      [columnCells rows i] := by
    refine List.Forall₂.cons ?_ List.Forall₂.nil
    simp [ColumnarChunk.column, ColumnarChunk.new]
  have joined : [columnCells rows i].flatten = columnCells rows i := by simp
  obtain ⟨r', returned', extreme'⟩ := overChunks _ _ shown joined
  by_contra copies
  rw [not_or, not_forall, not_exists] at copies
  obtain ⟨⟨x, inside⟩, same⟩ := copies
  rw [not_not] at inside
  have only (y : Int64) (member : .int64 y ∈ columnCells rows i) : y = sentinel :=
    not_not.mp (fun differs => same y ⟨member, differs⟩)
  have all : ∀ v ∈ columnCells rows i, v.isNull = true ∨ v = .int64 sentinel := by
    intro v member
    refine (numbers v member).imp_right (fun number => ?_)
    rcases number_cases number with ⟨y, rfl⟩ | ⟨f, rfl, _⟩
    · rw [only y member]
    · exact absurd member (noFloat f)
  rw [only x inside] at inside
  have alike : aggregateOverChunks [ColumnarChunk.new 0 [⟨column, columnCells rows i⟩]] schema agg =
      aggregateOverRowSlice rows schema agg := by
    rw [returned, returned', extreme_unique inside all extreme,
      extreme_unique inside all extreme']
  rcases (chunkResult _ _ shown joined).mp alike with some_float | noInt | ⟨y, member, differs⟩
  · exact some_float ((no_member mem_floats).mpr noFloat)
  · exact (no_member mem_ints).mp noInt _ inside
  · exact differs (only y (mem_ints.mp member))

/-- The condition decides over the rows and over every cut of them. -/
theorem findsExtreme_iff (chooses : Chooses opI opF sentinel start before)
    (agrees : ∀ v w a b, number v = some a → number w = some b → (beside v w ↔ before a b))
    (rowResult : aggregateOverRowSlice rows schema agg = .ok (extremeResult
      ⟨(columnInts rows i).foldl opI sentinel, (columnFloats rows i).foldl opF start,
        !(columnInts rows i).isEmpty, !(columnFloats rows i).isEmpty⟩))
    (chunkResult : ∀ chunks slices, Shows column chunks slices →
      slices.flatten = columnCells rows i →
        (aggregateOverChunks chunks schema agg = aggregateOverRowSlice rows schema agg ↔
          columnFloats rows i ≠ [] ∨ columnInts rows i = [] ∨
            ∃ x ∈ columnInts rows i, x ≠ sentinel))
    (comparable : Comparable (columnCells rows i)) :
    FindsExtreme beside agg schema column i rows ↔
      FloatsFirst before sentinel (columnCells rows i) := by
  constructor
  · intro finds
    obtain ⟨r, returned, extreme⟩ := finds.1
    rw [rowResult, Except.ok.injEq] at returned
    rw [← returned] at extreme
    have numbers : ∀ v ∈ columnCells rows i, v.isNull = true ∨ IsNumber v := by
      rcases comparable with numbers | strings
      · exact numbers
      · exact fun v inside => Or.inl (strings_extreme strings extreme v inside)
    refine ⟨numbers, ((extremeResult_iff chooses agrees numbers).mp extreme).imp_right ?_⟩
    exact fun noFloat => ⟨noFloat, copies_hidden chunkResult finds numbers noFloat⟩
  · rintro ⟨numbers, condition⟩
    have found := (extremeResult_iff chooses agrees numbers).mpr (condition.imp_right And.left)
    refine ⟨⟨_, rowResult, found⟩, fun chunks slices shown joined => ⟨_, ?_, found⟩⟩
    refine ((chunkResult chunks slices shown joined).mpr ?_).trans rowResult
    rcases condition with ⟨f, inside, _⟩ | ⟨_, noInt | ⟨x, inside, differs⟩⟩
    · exact Or.inl (List.ne_nil_of_mem (mem_floats.mpr inside))
    · exact Or.inr (Or.inl ((no_member mem_ints).mpr noInt))
    · exact Or.inr (Or.inr ⟨x, mem_ints.mpr inside, differs⟩)

end Cuts

end Folds

section Extremes
variable [LawfulFloat64 F]

omit [LawfulFloat64 F] in
theorem valueOrder_numbers {v w : Value F} {a b : ExactFloat} (hv : number v = some a)
    (hw : number w = some b) : valueOrder v w = Float64.partialCmp a b := by
  have general : valueOrder v w =
      (number v).bind (fun a => (number w).bind (Float64.partialCmp a)) := by
    cases v with
    | string s => cases hv
    | _ => rfl
  rw [general, hv, hw]
  rfl

theorem finite_min (x y : Int64) :
    (.finite (min x y).toInt : ExactFloat) = Float64.min (.finite x.toInt) (.finite y.toInt) := by
  change _ = if decide ((y.toInt : ℚ) < x.toInt) = true
    then ExactFloat.finite y.toInt else .finite x.toInt
  rw [toInt_min]
  split <;> rename_i order <;> rw [decide_eq_true_iff, Int.cast_lt] at order
  · rw [min_eq_right order.le]
  · rw [min_eq_left (not_lt.mp order)]

theorem finite_max (x y : Int64) :
    (.finite (max x y).toInt : ExactFloat) = Float64.max (.finite x.toInt) (.finite y.toInt) := by
  change _ = if decide ((x.toInt : ℚ) < y.toInt) = true
    then ExactFloat.finite y.toInt else .finite x.toInt
  rw [toInt_max]
  split <;> rename_i order <;> rw [decide_eq_true_iff, Int.cast_lt] at order
  · rw [max_eq_right order.le]
  · rw [max_eq_left (not_lt.mp order)]

omit [LawfulFloat64 F] in
theorem min_chooses :
    Chooses min Float64.min Int64.maxValue (Float64.infinity : F) AtMost where
  ints := min_selects.comap finite_min
  floats := min_selects.comap ExactFloat64.exact_min
  behindInts x := atMost_finite.mpr (by exact_mod_cast Int64.toInt_le x)
  present := by rw [ExactFloat64.exact_infinity]; rfl
  behindFloats f ranked := by rw [ExactFloat64.exact_infinity]; exact atMost_inf ranked
  trans := atMost_orders.trans
  level _ _ := atMost_antisymm

omit [LawfulFloat64 F] in
theorem max_chooses :
    Chooses max Float64.max Int64.minValue (Float64.negInfinity : F) (fun a b => AtMost b a) where
  ints := max_selects.comap finite_max
  floats := max_selects.comap ExactFloat64.exact_max
  behindInts x := atMost_finite.mpr (by exact_mod_cast Int64.minValue_le_toInt x)
  present := by rw [ExactFloat64.exact_negInfinity]; rfl
  behindFloats f ranked := by rw [ExactFloat64.exact_negInfinity]; exact inf_atMost ranked
  trans := atMost_orders.flip.trans
  level _ _ hab hba := atMost_antisymm hba hab

variable {schema : Schema} {column : String} {i : Nat} {rows : List (Row F)}

theorem min_extreme_iff (hcol : schema.columnIndex column = some i)
    (comparable : Comparable (columnCells rows i)) :
    FindsExtreme NotAbove (.min column) schema column i rows ↔
      FloatsFirst AtMost Int64.maxValue (columnCells rows i) := by
  refine findsExtreme_iff min_chooses (fun v w a b hv hw => ?_) ?_ ?_ comparable
  · rw [NotAbove, valueOrder_numbers hv hw, AtMost]
  · simp only [aggregateOverRowSlice, columnOrError, hcol]
    rw [← foldl_columnValues]
    rfl
  · exact fun chunks slices shown joined => min_agrees_iff hcol shown joined
      (foldedAlike_of_assoc LawfulFloat64.min_assoc LawfulFloat64.min_settles joined)

theorem max_extreme_iff (hcol : schema.columnIndex column = some i)
    (comparable : Comparable (columnCells rows i)) :
    FindsExtreme NotBelow (.max column) schema column i rows ↔
      FloatsFirst (fun a b => AtMost b a) Int64.minValue (columnCells rows i) := by
  refine findsExtreme_iff max_chooses (fun v w a b hv hw => ?_) ?_ ?_ comparable
  · rw [NotBelow, NotAbove, valueOrder_numbers hw hv, AtMost]
  · simp only [aggregateOverRowSlice, columnOrError, hcol]
    rw [← foldl_columnValues]
    rfl
  · exact fun chunks slices shown joined => max_agrees_iff hcol shown joined
      (foldedAlike_of_assoc LawfulFloat64.max_assoc LawfulFloat64.max_settles joined)

/-- For a column of numbers, or of strings, MIN and MAX are extrema over the rows and over
every cut into chunks just if there is no string, and some float stands before all integers,
or there is no float and not only copies of the initial integer. -/
theorem min_max_extreme_iff (hcol : schema.columnIndex column = some i)
    (comparable : Comparable (columnCells rows i)) :
    (FindsExtreme NotAbove (.min column) schema column i rows ↔
      FloatsFirst AtMost Int64.maxValue (columnCells rows i)) ∧
    (FindsExtreme NotBelow (.max column) schema column i rows ↔
      FloatsFirst (fun a b => AtMost b a) Int64.minValue (columnCells rows i)) :=
  ⟨min_extreme_iff hcol comparable, max_extreme_iff hcol comparable⟩

end Extremes

section Discounts

def discountSchema : Schema := .new [⟨"discount", .double, true⟩]

/-- Ten as an integer and as a float, next to Null. -/
def discounts : List (Row Float) := [.new [.int64 10], .new [.null], .new [.float64 10.0]]

theorem min_max_extreme_discounts :
    FindsExtreme NotAbove (.min "discount") discountSchema "discount" 0 discounts ∧
      FindsExtreme NotBelow (.max "discount") discountSchema "discount" 0 discounts := by
  have ten : number (.float64 10.0 : Value Float) = some (.finite 10) := congrArg some exact_ten
  have numbers : ∀ v ∈ columnCells discounts 0, v.isNull = true ∨ IsNumber v := by
    intro v inside
    simp only [columnCells, discounts, List.map_cons, List.map_nil, List.mem_cons,
      List.not_mem_nil, or_false] at inside
    rcases inside with rfl | rfl | rfl
    · exact Or.inr ⟨_, rfl, rfl⟩
    · exact Or.inl rfl
    · exact Or.inr ⟨_, ten, rfl⟩
  have float : .float64 (10.0 : Float) ∈ columnCells discounts 0 := by simp [columnCells, discounts]
  have integer (x : Int64) (inside : .int64 x ∈ columnCells discounts 0) : x = 10 := by
    simpa [columnCells, discounts] using inside
  have listed : discountSchema.columnIndex "discount" = some 0 := rfl
  obtain ⟨least, greatest⟩ := min_max_extreme_iff listed (Or.inl numbers)
  refine ⟨least.mpr ⟨numbers, Or.inl ⟨10.0, float, fun x inside => ?_⟩⟩,
    greatest.mpr ⟨numbers, Or.inl ⟨10.0, float, fun x inside => ?_⟩⟩⟩
  · rw [integer x inside, exact_ten]
    exact atMost_finite.mpr (by decide)
  · rw [integer x inside, exact_ten]
    exact atMost_finite.mpr (by decide)

def untaxed : List (Row Float) := [.new [.int64 0], .new [.float64 10.0]]

/-- Beside the float 10.0 the integer 0 is not the minimum. -/
theorem integer_below_float :
    ¬∀ (schema : Schema) (column : String) (i : Nat) (rows : List (Row Float)),
      schema.columnIndex column = some i → Comparable (columnCells rows i) →
        FindsExtreme NotAbove (.min column) schema column i rows := by
  intro finds
  have ten : number (.float64 10.0 : Value Float) = some (.finite 10) := congrArg some exact_ten
  have comparable : Comparable (columnCells untaxed 0) := by
    refine Or.inl (fun v inside => ?_)
    simp only [columnCells, untaxed, List.map_cons, List.map_nil, List.mem_cons,
      List.not_mem_nil, or_false] at inside
    rcases inside with rfl | rfl
    · exact Or.inr ⟨_, rfl, rfl⟩
    · exact Or.inr ⟨_, ten, rfl⟩
  have least := finds discountSchema "discount" 0 untaxed rfl comparable
  rw [min_extreme_iff rfl comparable] at least
  rcases least.2 with ⟨f, inside, first⟩ | ⟨noFloat, _⟩
  · have only : f = 10.0 := by simpa [columnCells, untaxed] using inside
    have below := first 0 (by simp [columnCells, untaxed])
    rw [only, exact_ten] at below
    exact absurd (atMost_finite.mp below) (by decide)
  · exact noFloat 10.0 (by simp [columnCells, untaxed])

end Discounts

end RealExtremes
