import RustafariDB.VectorIndexing

/-!
# Nearest vectors

A search returns the nearest entries when the comparison of its sort orders the entries.
It does so unless a distance is NaN: then the entries with other distances all tie with that
one, which only a list without two different distances allows.
-/

namespace NearestVectors

open SortedLists Values VectorIndexing

variable {F : Type} [VectorFloat F]

open VectorFloat

section Distances
variable {entries : List (Nat × F)}

/-- A distance is NaN, and two others differ. -/
def Incomparable (entries : List (Nat × F)) : Prop :=
  (∃ e ∈ entries, isNaN e.2 = true) ∧
    ∃ a ∈ entries, ∃ b ∈ entries, partialCmp a.2 b.2 = some .lt

theorem compareDistance_lt {a b : Nat × F} :
    compareDistance a b = .lt ↔ partialCmp a.2 b.2 = some .lt := by
  rw [compareDistance]
  cases partialCmp a.2 b.2 <;> simp

variable [LawfulVectorFloat F]

theorem compareDistance_swap (a b : Nat × F) :
    compareDistance a b = (compareDistance b a).swap := by
  rw [compareDistance, compareDistance, LawfulVectorFloat.partialCmp_swap b.2 a.2]
  cases partialCmp b.2 a.2 <;> rfl

theorem compareDistance_gt {a b : Nat × F} :
    compareDistance a b = .gt ↔ partialCmp b.2 a.2 = some .lt := by
  rw [compareDistance_swap, ← compareDistance_lt]
  cases compareDistance b a <;> decide

theorem compareDistance_of_nan {a b : Nat × F} (nan : isNaN a.2 = true ∨ isNaN b.2 = true) :
    compareDistance a b = .eq := by
  have absent : partialCmp a.2 b.2 = none := by
    rw [← Option.not_isSome_iff_eq_none, LawfulVectorFloat.comparable]
    rintro ⟨left, right⟩
    rw [left, right] at nan
    exact nan.elim Bool.false_ne_true Bool.false_ne_true
  rw [compareDistance, absent]
  rfl

theorem partialCmp_of_numbers {a b : Nat × F} (left : isNaN a.2 = false)
    (right : isNaN b.2 = false) : partialCmp a.2 b.2 = some (compareDistance a b) := by
  obtain ⟨order, same⟩ := Option.isSome_iff_exists.mp
    ((LawfulVectorFloat.comparable a.2 b.2).mpr ⟨left, right⟩)
  rw [compareDistance, same]
  rfl

/-- Between two different distances a NaN ties with both. -/
theorem not_incomparable_of_orders (orders : Orders entries compareDistance) :
    ¬ Incomparable entries := by
  rintro ⟨⟨y, hy, nan⟩, x, hx, z, hz, less⟩
  have trans := orders.isLE_trans (a := ⟨z, hz⟩) (b := ⟨y, hy⟩) (c := ⟨x, hx⟩)
  have back : compareDistance z x = .gt := compareDistance_gt.mpr less
  have below : (compareDistance z x).isLE = true := by
    refine trans ?_ ?_
    · change (compareDistance z y).isLE = true
      rw [compareDistance_of_nan (Or.inr nan)]
      rfl
    · change (compareDistance y x).isLE = true
      rw [compareDistance_of_nan (Or.inl nan)]
      rfl
  rw [back] at below
  cases below

/-- Numbers are ordered. -/
theorem orders_of_numbers (numbers : ∀ e ∈ entries, isNaN e.2 = false) :
    Orders entries compareDistance where
  eq_swap := compareDistance_swap _ _
  isLE_trans {a b c} hab hbc := by
    have ab := partialCmp_of_numbers (numbers a a.2) (numbers b b.2)
    have bc := partialCmp_of_numbers (numbers b b.2) (numbers c c.2)
    have ac := partialCmp_of_numbers (numbers a a.2) (numbers c c.2)
    have below := LawfulVectorFloat.partialCmp_trans a.1.2 b.1.2 c.1.2
      (by rw [ab]; exact hab) (by rw [bc]; exact hbc)
    rw [ac] at below
    exact below

/-- If no two distances differ, all entries tie. -/
theorem orders_of_ties (ties : ∀ a ∈ entries, ∀ b ∈ entries, partialCmp a.2 b.2 ≠ some .lt) :
    Orders entries compareDistance := by
  refine orders_congr (orders_const entries) (fun a ha b hb => ?_)
  cases order : compareDistance a b with
  | lt => exact absurd (compareDistance_lt.mp order) (ties a ha b hb)
  | eq => rfl
  | gt => exact absurd (compareDistance_gt.mp order) (ties b hb a ha)

theorem orders_iff : Orders entries compareDistance ↔ ¬ Incomparable entries := by
  constructor
  · exact not_incomparable_of_orders
  · intro comparable
    by_cases numbers : ∀ e ∈ entries, isNaN e.2 = false
    · exact orders_of_numbers numbers
    · refine orders_of_ties (fun a ha b hb less => numbers (fun e he => ?_))
      exact Bool.eq_false_iff.mpr (fun nan => comparable ⟨⟨e, he, nan⟩, a, ha, b, hb, less⟩)

end Distances

section Searches
variable {dimension : Nat} {inserted : List (Nat × List F)} {ix : VectorIndex F}
variable {query : List F} {topK : Nat}

/-- An index after accepted inserts. -/
inductive Filled (dimension : Nat) : List (Nat × List F) → VectorIndex F → Prop where
  | new : Filled dimension [] (.new dimension)
  | insert {done : List (Nat × List F)} {ix ix' : VectorIndex F} {rowId : Nat} {vector : List F}
      (filled : Filled dimension done ix) (accepted : ix.insert rowId vector = .ok ix') :
      Filled dimension (done ++ [(rowId, vector)]) ix'

/-- The search returns: as many entries as there are up to `topK`, with distances that do not
descend, and none of the others is nearer than one of them. -/
def Nearest (ix : VectorIndex F) (query : List F) (topK : Nat) : Prop :=
  ∀ outcome, ix.Search query topK outcome → ∃ found rest, outcome = some (.ok found) ∧
    found.length = min topK ix.entries.length ∧
    (found ++ rest).Perm (ix.withDist query) ∧
    found.Pairwise (fun a b => partialCmp a.2 b.2 ≠ some .gt) ∧
    ∀ a ∈ found, ∀ b ∈ rest, partialCmp b.2 a.2 ≠ some .lt

omit [VectorFloat F] in
theorem insert_ok {ix' : VectorIndex F} {rowId : Nat} {vector : List F}
    (accepted : ix.insert rowId vector = .ok ix') :
    ix'.dimension = ix.dimension ∧ ix'.entries = ix.entries ++ [(rowId, vector)] := by
  rw [VectorIndex.insert] at accepted
  by_cases differs : vector.length ≠ ix.dimension
  · rw [if_pos differs] at accepted
    cases accepted
  · rw [if_neg differs] at accepted
    cases accepted
    exact ⟨rfl, rfl⟩

omit [VectorFloat F] in
theorem filled_entries (filled : Filled dimension inserted ix) :
    ix.dimension = dimension ∧ ix.entries = inserted := by
  induction filled with
  | new => exact ⟨rfl, rfl⟩
  | insert filled accepted ih =>
    obtain ⟨sameDimension, appended⟩ := insert_ok accepted
    rw [sameDimension, appended, ih.2]
    exact ⟨ih.1, rfl⟩

/-- A query of the right dimension is answered by the front of the sorted entries. -/
theorem search_of_fits (fits : query.length = ix.dimension)
    {outcome : Option (Except RustafariError (List (Nat × F)))} :
    ix.Search query topK outcome ↔ ∃ sorted,
      SortBy compareDistance (ix.withDist query) sorted ∧
        outcome = sorted.map (fun s => .ok (s.take topK)) := by
  rw [VectorIndex.Search, if_neg (not_not_intro fits)]

/-- Where the entries are not ordered, the sort may panic. -/
theorem orders_of_nearest (fits : query.length = ix.dimension)
    (nearest : Nearest ix query topK) : Orders (ix.withDist query) compareDistance := by
  by_contra unordered
  have panics : ix.Search query topK none :=
    (search_of_fits fits).mpr ⟨none, sortBy_none unordered, rfl⟩
  obtain ⟨found, rest, returned, -⟩ := nearest none panics
  cases returned

variable [LawfulVectorFloat F]

/-- The front of ordered entries is nearest. -/
theorem nearest_of_orders (fits : query.length = ix.dimension)
    (orders : Orders (ix.withDist query) compareDistance) : Nearest ix query topK := by
  intro outcome searched
  obtain ⟨sorted, sorting, rfl⟩ := (search_of_fits fits).mp searched
  rw [sortBy_of_orders orders] at sorting
  subst sorting
  set ranked := (ix.withDist query).insertionSort (fun a b => compareDistance a b ≠ .gt)
    with ranked_eq
  have perm : ranked.Perm (ix.withDist query) := List.perm_insertionSort _ _
  have ascending : (ranked.take topK ++ ranked.drop topK).Pairwise
      (fun a b => compareDistance a b ≠ .gt) := by
    rw [List.take_append_drop]
    exact pairwise_insertionSort orders
  rw [List.pairwise_append] at ascending
  refine ⟨ranked.take topK, ranked.drop topK, rfl, ?_, ?_, ?_, ?_⟩
  · rw [List.length_take, perm.length_eq, VectorIndex.withDist, List.length_map]
  · rw [List.take_append_drop]
    exact perm
  · refine ascending.1.imp (fun {a b} below above => below ?_)
    rw [compareDistance, above]
    rfl
  · intro a ha b hb less
    exact ascending.2.2 a ha b hb (compareDistance_gt.mpr less)

/-- Search finds nearest vectors unless one has a NaN distance while two others differ. -/
theorem nearest_iff (filled : Filled dimension inserted ix)
    (fits : query.length = dimension) :
    Nearest ix query topK ↔
      ¬ Incomparable (inserted.map (fun e => (e.1, l2Distance query e.2))) := by
  obtain ⟨sameDimension, contents⟩ := filled_entries filled
  rw [← contents]
  change Nearest ix query topK ↔ ¬ Incomparable (ix.withDist query)
  rw [← sameDimension] at fits
  rw [← orders_iff]
  exact ⟨orders_of_nearest fits, nearest_of_orders fits⟩

end Searches

section Numbers

def one : Float32 := Float32.ofBits 0x3f800000
def two : Float32 := Float32.ofBits 0x40000000

theorem nearest_numbers : Nearest ⟨1, [(1, [two]), (2, [one])]⟩ [Float32.ofBits 0] 1 := by
  have numbers : ∀ e ∈ ([(1, [two]), (2, [one])] : List (Nat × List Float32)),
      isNaN (l2Distance [Float32.ofBits 0] e.2) = false := by decide +kernel
  have filled : Filled 1 [(1, [two]), (2, [one])] ⟨1, [(1, [two]), (2, [one])]⟩ :=
    .insert (.insert .new rfl) rfl
  refine (nearest_iff filled rfl).mpr ?_
  rintro ⟨⟨_, distance, nan⟩, -⟩
  obtain ⟨e, he, rfl⟩ := List.mem_map.mp distance
  rw [numbers e he] at nan
  cases nan

/-- The NaN in the middle is a tie with both of its neighbours. -/
def scattered : VectorIndex Float32 :=
  ⟨1, [(1, [two]), (2, [Float32.ofBits 0x7fc00000]), (3, [one])]⟩

/-- The farthest of the two numbers may come first, or the search may panic. -/
theorem farther_first :
    Filled 1 scattered.entries scattered ∧
    scattered.Search [Float32.ofBits 0] 3 (some (.ok (scattered.withDist [Float32.ofBits 0]))) ∧
    ¬ (scattered.withDist [Float32.ofBits 0]).Pairwise
      (fun a b => partialCmp a.2 b.2 ≠ some .gt) ∧
    ¬ Nearest scattered [Float32.ofBits 0] 3 := by
  have ties : Incomparable (scattered.withDist [Float32.ofBits 0]) :=
    ⟨⟨(2, l2Distance [Float32.ofBits 0] [Float32.ofBits 0x7fc00000]),
      List.mem_cons_of_mem _ List.mem_cons_self, by decide +kernel⟩,
      (3, l2Distance [Float32.ofBits 0] [one]),
      List.mem_cons_of_mem _ (List.mem_cons_of_mem _ List.mem_cons_self),
      (1, l2Distance [Float32.ofBits 0] [two]), List.mem_cons_self, by decide +kernel⟩
  have unordered : ¬ Orders (scattered.withDist [Float32.ofBits 0]) compareDistance :=
    fun orders => not_incomparable_of_orders orders ties
  have searched : scattered.Search [Float32.ofBits 0] 3
      (some (.ok (scattered.withDist [Float32.ofBits 0]))) := by
    refine (search_of_fits rfl).mpr ⟨some (scattered.withDist [Float32.ofBits 0]), ?_, rfl⟩
    refine ⟨fun orders => absurd orders unordered, ?_⟩
    rintro _ ⟨⟩
    exact List.Perm.refl _
  have descends : ¬ (scattered.withDist [Float32.ofBits 0]).Pairwise
      (fun a b => partialCmp a.2 b.2 ≠ some .gt) := by decide +kernel
  refine ⟨.insert (.insert (.insert .new rfl) rfl) rfl, searched, descends, fun nearest => ?_⟩
  obtain ⟨found, rest, returned, -, -, ascending, -⟩ := nearest _ searched
  cases returned
  exact descends ascending

end Numbers

end NearestVectors
