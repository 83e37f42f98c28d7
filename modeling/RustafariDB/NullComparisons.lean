import RustafariDB.ConditionMeaning

/-!
# NULL in conditions

A condition selects a row when it is TRUE in three-valued logic, where a comparison with
NULL is UNKNOWN. The order operators and a missing value never satisfy a comparison; `=`
and `<>` compare NULL as a value like any other.
-/

namespace NullComparisons

open Floats Values Catalogs Plans Predicates SqlSyntax SqlPlanning StatefulPrograms
open ConditionMeaning

section Kleene

/-- Conjunction of truth values; `none` is UNKNOWN. -/
def kleeneAnd : Option Bool → Option Bool → Option Bool
  | some false, _ => some false
  | _, some false => some false
  | some true, some true => some true
  | _, _ => none

def kleeneOr : Option Bool → Option Bool → Option Bool
  | some true, _ => some true
  | _, some true => some true
  | some false, some false => some false
  | _, _ => none

theorem kleeneAnd_eq_true {a b : Option Bool} :
    kleeneAnd a b = some true ↔ a = some true ∧ b = some true := by
  rcases a with - | (_ | _) <;> rcases b with - | (_ | _) <;> decide

theorem kleeneOr_eq_true {a b : Option Bool} :
    kleeneOr a b = some true ↔ a = some true ∨ b = some true := by
  rcases a with - | (_ | _) <;> rcases b with - | (_ | _) <;> decide

end Kleene

variable {F : Type} [Float64 F]

section Truth

/-- A comparison with NULL or with a missing value is UNKNOWN. -/
def comparisonTruth (op : CmpOp) (stored : Option (Value F)) (literal : Value F) : Option Bool :=
  match stored with
  | none => none
  | some v => if v.isNull || literal.isNull then none else some (evalCmp op v literal)

/-- The truth value of a predicate on a row. -/
def truth (schema : Schema) (row : Row F) : FilterExpr F → Option Bool
  | .literal b => some b
  | .cmp col op value => comparisonTruth op ((schema.columnIndex col).bind row.get) value
  | .and a b => kleeneAnd (truth schema row a) (truth schema row b)
  | .or a b => kleeneOr (truth schema row a) (truth schema row b)
  | .not n => (truth schema row n).map (fun b => !b)

/-- A predicate passes the rows on which it is TRUE. -/
def PassesTrue (schema : Schema) (row : Row F) (pred : FilterExpr F) : Prop :=
  evalPredicate row pred schema = true ↔ truth schema row pred = some true

/-- The predicates a predicate is made of by AND and OR, itself included. -/
inductive Piece : FilterExpr F → FilterExpr F → Prop where
  | self (p : FilterExpr F) : Piece p p
  | andLeft {a b p : FilterExpr F} (h : Piece a p) : Piece (.and a b) p
  | andRight {a b p : FilterExpr F} (h : Piece b p) : Piece (.and a b) p
  | orLeft {a b p : FilterExpr F} (h : Piece a p) : Piece (.or a b) p
  | orRight {a b p : FilterExpr F} (h : Piece b p) : Piece (.or a b) p

/-- What the WHERE compiler produces has no negation. -/
inductive Positive : FilterExpr F → Prop where
  | literal (b : Bool) : Positive (.literal b)
  | cmp (col : String) (op : CmpOp) (value : Value F) : Positive (.cmp col op value)
  | and {a b : FilterExpr F} (ha : Positive a) (hb : Positive b) : Positive (.and a b)
  | or {a b : FilterExpr F} (ha : Positive a) (hb : Positive b) : Positive (.or a b)

/-- `=` with NULL on both sides, or `<>` with NULL on one. -/
def NullPasses (op : CmpOp) (stored literal : Value F) : Prop :=
  op = .eq ∧ stored.isNull = true ∧ literal.isNull = true ∨
    op = .ne ∧ stored.isNull ≠ literal.isNull

instance (op : CmpOp) (stored literal : Value F) : Decidable (NullPasses op stored literal) :=
  inferInstanceAs (Decidable (_ ∨ _))

/-- The row satisfies the predicate by way of a comparison that NULL passes. -/
def NullDecides (schema : Schema) (row : Row F) : FilterExpr F → Prop
  | .literal _ => False
  | .cmp col op literal => ∃ stored,
      (schema.columnIndex col).bind row.get = some stored ∧ NullPasses op stored literal
  | .and a b =>
      NullDecides schema row a ∧ (NullDecides schema row b ∨ truth schema row b = some true) ∨
        truth schema row a = some true ∧ NullDecides schema row b
  | .or a b =>
      NullDecides schema row a ∧ truth schema row b ≠ some true ∨
        truth schema row a ≠ some true ∧ NullDecides schema row b
  | .not _ => False

end Truth

section Comparisons
variable {schema : Schema} {row : Row F}

theorem compare_null {v w : Value F} (null : v.isNull = true ∨ w.isNull = true) :
    Predicates.compare v w = none := by
  cases v with
  | null => rfl
  | _ =>
    cases w with
    | null => rfl
    | _ => rcases null with h | h <;> cases h

/-- NULL equals NULL and nothing else. -/
theorem eq_null {v w : Value F} (null : v.isNull = true ∨ w.isNull = true) :
    Value.eq v w = (v.isNull && w.isNull) := by
  cases v with
  | null => cases w <;> rfl
  | _ =>
    cases w with
    | null => rfl
    | _ => rcases null with h | h <;> cases h

/-- With NULL on a side a comparison is satisfied by the two equality operators only. -/
theorem evalCmp_null {op : CmpOp} {v w : Value F} (null : v.isNull = true ∨ w.isNull = true) :
    evalCmp op v w = true ↔ NullPasses op v w := by
  cases op with
  | eq => simp [evalCmp, eq_null null, NullPasses]
  | ne =>
    rw [evalCmp, eq_null null, NullPasses]
    generalize v.isNull = hv at null ⊢
    generalize w.isNull = hw at null ⊢
    revert hv hw
    decide
  | gt | ge | lt | le => simp [evalCmp, compare_null null, NullPasses]

omit [Float64 F] in
theorem not_nullPasses {op : CmpOp} {v w : Value F} (hv : v.isNull = false)
    (hw : w.isNull = false) : ¬NullPasses op v w := by
  simp [NullPasses, hv, hw]

theorem passesTrue_cmp (col : String) (op : CmpOp) (literal : Value F) :
    PassesTrue schema row (.cmp col op literal) ↔
      ∀ stored, (schema.columnIndex col).bind row.get = some stored →
        ¬NullPasses op stored literal := by
  rw [PassesTrue, evalPredicate_cmp, truth]
  cases (schema.columnIndex col).bind row.get with
  | none => simp [evalComparison, comparisonTruth]
  | some stored =>
    simp only [evalComparison, comparisonTruth, Option.some.injEq, forall_eq']
    by_cases null : stored.isNull = true ∨ literal.isNull = true
    · rw [if_pos (by simpa using null), evalCmp_null null]
      simp
    · obtain ⟨hv, hw⟩ := not_or.mp null
      have present : ¬NullPasses op stored literal :=
        not_nullPasses (by simpa using hv) (by simpa using hw)
      rw [if_neg (by simpa using null), Option.some.injEq]
      exact ⟨fun _ => present, fun _ => Iff.rfl⟩

theorem passesTrue_and {a b : FilterExpr F} (ha : PassesTrue schema row a)
    (hb : PassesTrue schema row b) : PassesTrue schema row (.and a b) := by
  rw [PassesTrue, evalPredicate, truth, Bool.and_eq_true, kleeneAnd_eq_true]
  exact and_congr ha hb

theorem passesTrue_or {a b : FilterExpr F} (ha : PassesTrue schema row a)
    (hb : PassesTrue schema row b) : PassesTrue schema row (.or a b) := by
  rw [PassesTrue, evalPredicate, truth, Bool.or_eq_true, kleeneOr_eq_true]
  exact or_congr ha hb

/-- A predicate without negation passes the rows on which it is TRUE if its comparisons do. -/
theorem passesTrue_of_comparisons {p : FilterExpr F} (positive : Positive p)
    (comparisons : ∀ col op literal, Piece p (.cmp col op literal) →
      PassesTrue schema row (.cmp col op literal)) : PassesTrue schema row p := by
  induction positive with
  | literal b => simp [PassesTrue, evalPredicate, truth]
  | cmp col op value => exact comparisons col op value (.self _)
  | and _ _ iha ihb =>
    apply passesTrue_and
    · exact iha (fun col op literal inside => comparisons col op literal (.andLeft inside))
    · exact ihb (fun col op literal inside => comparisons col op literal (.andRight inside))
  | or _ _ iha ihb =>
    apply passesTrue_or
    · exact iha (fun col op literal inside => comparisons col op literal (.orLeft inside))
    · exact ihb (fun col op literal inside => comparisons col op literal (.orRight inside))

/-- A predicate without negation passes every row on which it is TRUE. -/
theorem passes_of_true {p : FilterExpr F} (positive : Positive p)
    (holds : truth schema row p = some true) : evalPredicate row p schema = true := by
  induction positive with
  | literal b => exact Option.some.inj holds
  | cmp col op value =>
    rw [evalPredicate_cmp]
    rw [truth] at holds
    cases found : (schema.columnIndex col).bind row.get with
    | none => simp [found, comparisonTruth] at holds
    | some stored =>
      rw [found, comparisonTruth] at holds
      split at holds
      · cases holds
      · exact Option.some.inj holds
  | and _ _ iha ihb =>
    obtain ⟨ha, hb⟩ := kleeneAnd_eq_true.mp holds
    rw [evalPredicate, iha ha, ihb hb]
    rfl
  | or _ _ iha ihb =>
    rw [evalPredicate, Bool.or_eq_true]
    exact (kleeneOr_eq_true.mp holds).imp iha ihb

/-- NULL decides where the row passes although the predicate is not TRUE. -/
theorem nullDecides_iff {p : FilterExpr F} (positive : Positive p) :
    NullDecides schema row p ↔
      evalPredicate row p schema = true ∧ truth schema row p ≠ some true := by
  induction positive with
  | literal b => simp [evalPredicate, truth, NullDecides]
  | cmp col op value =>
    have agrees : PassesTrue schema row (.cmp col op value) ↔ _ := passesTrue_cmp col op value
    have passes : truth schema row (.cmp col op value) = some true →
        evalPredicate row (.cmp col op value) schema = true := passes_of_true (.cmp col op value)
    rw [PassesTrue] at agrees
    rw [NullDecides]
    grind
  | @and a b ha hb iha ihb =>
    have passes : truth schema row a = some true → evalPredicate row a schema = true :=
      passes_of_true ha
    have passes' : truth schema row b = some true → evalPredicate row b schema = true :=
      passes_of_true hb
    rw [NullDecides, iha, ihb, evalPredicate, truth, Bool.and_eq_true]
    simp only [ne_eq, kleeneAnd_eq_true]
    by_cases holds : truth schema row a = some true <;>
      by_cases holds' : truth schema row b = some true <;> simp [holds, holds', passes, passes']
  | @or a b ha hb iha ihb =>
    have passes : truth schema row a = some true → evalPredicate row a schema = true :=
      passes_of_true ha
    have passes' : truth schema row b = some true → evalPredicate row b schema = true :=
      passes_of_true hb
    rw [NullDecides, iha, ihb, evalPredicate, truth, Bool.or_eq_true]
    simp only [ne_eq, kleeneOr_eq_true]
    by_cases holds : truth schema row a = some true <;>
      by_cases holds' : truth schema row b = some true <;> simp [holds, holds', passes, passes']

theorem passesTrue_iff {p : FilterExpr F} (positive : Positive p) :
    PassesTrue schema row p ↔ ¬NullDecides schema row p := by
  rw [PassesTrue, nullDecides_iff positive, not_and, not_not]
  exact ⟨fun same => same.mp, fun only => ⟨only, passes_of_true positive⟩⟩

end Comparisons

section Compiled

omit [Float64 F] in
theorem piece_trans {p q r : FilterExpr F} (hpq : Piece p q) (hqr : Piece q r) : Piece p r := by
  induction hpq with
  | self => exact hqr
  | andLeft _ ih => exact .andLeft (ih hqr)
  | andRight _ ih => exact .andRight (ih hqr)
  | orLeft _ ih => exact .orLeft (ih hqr)
  | orRight _ ih => exact .orRight (ih hqr)

omit [Float64 F] in
theorem positive_piece {p q : FilterExpr F} (positive : Positive p) (piece : Piece p q) :
    Positive q := by
  induction piece with
  | self => exact positive
  | andLeft _ ih =>
    cases positive with
    | and ha _ => exact ih ha
  | andRight _ ih =>
    cases positive with
    | and _ hb => exact ih hb
  | orLeft _ ih =>
    cases positive with
    | or ha _ => exact ih ha
  | orRight _ ih =>
    cases positive with
    | or _ hb => exact ih hb

variable [FloatText F]

theorem positive_exprToFilter (e : Expr) {p : FilterExpr F} (h : exprToFilter e = .ok p) :
    Positive p := by
  induction e using exprToFilter.induct generalizing p with
  | case1 left right ihl ihr =>
    obtain ⟨l, r, hl, hr, rfl⟩ := exprToFilter_and_eq_ok.mp h
    exact .and (ihl hl) (ihr hr)
  | case2 left right ihl ihr =>
    obtain ⟨l, r, hl, hr, rfl⟩ := exprToFilter_or_eq_ok.mp h
    exact .or (ihl hl) (ihr hr)
  | case3 | case4 | case5 | case6 | case7 | case8 =>
    obtain ⟨id, v, lit, -, rfl, -⟩ := comparison_cases rfl h
    exact .cmp id.value _ lit
  | case9 => cases h
  | case10 b =>
    cases h
    exact .literal b
  | case11 inner ih => exact ih h
  | case12 e =>
    rw [exprToFilter] at h
    · cases h
    all_goals assumption

/-- A compiled condition passes exactly the rows on which it is TRUE just if NULL does not
decide it, and so do all its pieces just if no comparison of it is a `=` of NULL with NULL or
a `<>` of NULL with another value. -/
theorem null_comparisons_iff (schema : Schema) (row : Row F) {e : Expr} {p : FilterExpr F}
    (h : exprToFilter e = .ok p) :
    (PassesTrue schema row p ↔ ¬NullDecides schema row p) ∧
      ((∀ piece, Piece p piece → PassesTrue schema row piece) ↔
        ∀ col op literal, Piece p (.cmp col op literal) →
          ∀ stored, (schema.columnIndex col).bind row.get = some stored →
            ¬NullPasses op stored literal) := by
  refine ⟨passesTrue_iff (positive_exprToFilter e h), ⟨?_, ?_⟩⟩
  · intro passes col op literal inside
    exact (passesTrue_cmp col op literal).mp (passes _ inside)
  · intro clear piece inside
    apply passesTrue_of_comparisons (positive_piece (positive_exprToFilter e h) inside)
    intro col op literal within
    exact (passesTrue_cmp col op literal).mpr (clear col op literal (piece_trans inside within))

/-- `x = 5` does not select a row whose `x` is NULL. -/
theorem null_comparisons_five :
    PassesTrue numbered (.new [.null] : Row Float) (.cmp "x" .eq (.int64 5)) := by
  have compiled : exprToFilter (.binaryOp (.identifier ⟨"x", none⟩) .eq (.value (.number "5"))) =
      .ok (.cmp "x" .eq (.int64 5) : FilterExpr Float) := rfl
  apply (null_comparisons_iff numbered (.new [.null]) compiled).1.mpr
  rintro ⟨stored, ⟨⟩, passes⟩
  revert passes
  decide

/-- `x = NULL` selects a row whose `x` is NULL. -/
theorem null_equals_null :
    ¬∀ (e : Expr) (p : FilterExpr Float), exprToFilter e = .ok p →
      ∀ (schema : Schema) (row : Row Float),
        evalPredicate row p schema = true ↔ truth schema row p = some true := by
  intro passes
  have compiled : exprToFilter (.binaryOp (.identifier ⟨"x", none⟩) .eq (.value .null)) =
      .ok (.cmp "x" .eq .null : FilterExpr Float) := rfl
  have unknown := (passes _ _ compiled numbered (.new [.null])).mp rfl
  cases unknown

end Compiled

end NullComparisons
