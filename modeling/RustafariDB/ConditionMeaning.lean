import RustafariDB.SqlPlanning
import RustafariDB.StatefulPrograms
import RustafariDB.ValueOrder

/-!
# What a WHERE condition means

A condition is evaluated directly, each comparison with its operands as they are
written, and beside it through the filter it is compiled to. The two differ where an
order comparison has its literal first: the compiled one has changed the operands
and kept the operator.
-/

namespace ConditionMeaning

open Floats FloatLaws Values Catalogs Plans Predicates SqlSyntax SqlPlanning ValueOrder
open StatefulPrograms

variable {F : Type} [Float64 F] [FloatText F]

section Direct

/-- The value of an operand on a row, if it is a column that the row has, or a literal. -/
def operandValue (schema : Schema) (row : Row F) : Expr → Option (Value F)
  | .identifier id => (schema.columnIndex id.value).bind row.get
  | .value v => (literalValue v).toOption
  | _ => none

def comparisonOp : BinaryOperator → Option CmpOp
  | .eq => some .eq
  | .notEq => some .ne
  | .gt => some .gt
  | .lt => some .lt
  | .gtEq => some .ge
  | .ltEq => some .le
  | _ => none

/-- A comparison of operands that both have a value. -/
def evalComparison (op : CmpOp) (left right : Option (Value F)) : Bool :=
  match left, right with
  | some a, some b => evalCmp op a b
  | _, _ => false

/-- The condition as it is written. -/
def evalExpr (schema : Schema) (row : Row F) : Expr → Bool
  | .binaryOp left .and right => evalExpr schema row left && evalExpr schema row right
  | .binaryOp left .or right => evalExpr schema row left || evalExpr schema row right
  | .binaryOp left op right =>
    match comparisonOp op with
    | some op => evalComparison op (operandValue schema row left) (operandValue schema row right)
    | none => false
  | .value (.boolean b) => b
  | .nested inner => evalExpr schema row inner
  | _ => false

/-- The conditions a condition is made of by AND, OR and parentheses, itself included. -/
inductive Part : Expr → Expr → Prop where
  | self (e : Expr) : Part e e
  | andLeft {l r e : Expr} (h : Part l e) : Part (.binaryOp l .and r) e
  | andRight {l r e : Expr} (h : Part r e) : Part (.binaryOp l .and r) e
  | orLeft {l r e : Expr} (h : Part l e) : Part (.binaryOp l .or r) e
  | orRight {l r e : Expr} (h : Part r e) : Part (.binaryOp l .or r) e
  | nested {inner e : Expr} (h : Part inner e) : Part (.nested inner) e

def isOrdering : BinaryOperator → Bool
  | .gt => true
  | .lt => true
  | .gtEq => true
  | .ltEq => true
  | _ => false

end Direct

section Compiled

theorem exprToValue_eq_ok {e : Expr} {lit : Value F} :
    exprToValue e = .ok lit ↔ ∃ v, e = .value v ∧ literalValue v = .ok lit := by
  constructor
  · intro h
    cases e with
    | value v => exact ⟨v, rfl, h⟩
    | _ => cases h
  · rintro ⟨v, rfl, h⟩
    exact h

theorem exprToFilter_and_eq_ok {left right : Expr} {g : FilterExpr F} :
    exprToFilter (.binaryOp left .and right) = .ok g ↔
      ∃ l r, exprToFilter left = .ok l ∧ exprToFilter right = .ok r ∧ g = .and l r := by
  rw [exprToFilter]
  constructor
  · intro h
    obtain ⟨l, hl, h⟩ := bind_eq_ok.mp h
    obtain ⟨r, hr, h⟩ := bind_eq_ok.mp h
    exact ⟨l, r, hl, hr, (Except.ok.inj h).symm⟩
  · rintro ⟨l, r, hl, hr, rfl⟩
    rw [hl, hr]
    rfl

theorem exprToFilter_or_eq_ok {left right : Expr} {g : FilterExpr F} :
    exprToFilter (.binaryOp left .or right) = .ok g ↔
      ∃ l r, exprToFilter left = .ok l ∧ exprToFilter right = .ok r ∧ g = .or l r := by
  rw [exprToFilter]
  constructor
  · intro h
    obtain ⟨l, hl, h⟩ := bind_eq_ok.mp h
    obtain ⟨r, hr, h⟩ := bind_eq_ok.mp h
    exact ⟨l, r, hl, hr, (Except.ok.inj h).symm⟩
  · rintro ⟨l, r, hl, hr, rfl⟩
    rw [hl, hr]
    rfl

/-- A literal before its column. -/
def LiteralFirst (left right : Expr) (id : Ident) (v : SqlValue) : Prop :=
  left = .value v ∧ right = .identifier id

def ColumnFirst (left right : Expr) (id : Ident) (v : SqlValue) : Prop :=
  left = .identifier id ∧ right = .value v

theorem orderingFilter_cases {op : CmpOp} {left right : Expr} {g : FilterExpr F}
    (h : orderingFilter op left right = .ok g) :
    ∃ id v lit, literalValue v = .ok lit ∧ g = .cmp id.value op lit ∧
      (ColumnFirst left right id v ∨ LiteralFirst left right id v) := by
  unfold orderingFilter at h
  split at h
  · rename_i id
    obtain ⟨lit, hlit, rfl⟩ := map_eq_ok.mp h
    obtain ⟨v, rfl, hv⟩ := exprToValue_eq_ok.mp hlit
    exact ⟨id, v, lit, hv, rfl, Or.inl ⟨rfl, rfl⟩⟩
  · split at h
    · rename_i id
      obtain ⟨lit, hlit, rfl⟩ := map_eq_ok.mp h
      obtain ⟨v, rfl, hv⟩ := exprToValue_eq_ok.mp hlit
      exact ⟨id, v, lit, hv, rfl, Or.inr ⟨rfl, rfl⟩⟩
    · cases h

theorem eqFilter_cases {left right : Expr} {g : FilterExpr F}
    (h : eqFilter left right = .ok g) :
    ∃ id v lit, literalValue v = .ok lit ∧ g = .cmp id.value .eq lit ∧
      (ColumnFirst left right id v ∨ LiteralFirst left right id v) := by
  unfold eqFilter at h
  split at h
  · rename_i id v
    obtain ⟨lit, hlit, rfl⟩ := map_eq_ok.mp h
    exact ⟨id, v, lit, hlit, rfl, Or.inl ⟨rfl, rfl⟩⟩
  · rename_i v id
    obtain ⟨lit, hlit, rfl⟩ := map_eq_ok.mp h
    exact ⟨id, v, lit, hlit, rfl, Or.inr ⟨rfl, rfl⟩⟩
  · cases h

theorem notEqFilter_cases {left right : Expr} {g : FilterExpr F}
    (h : notEqFilter left right = .ok g) :
    ∃ id v lit, literalValue v = .ok lit ∧ g = .cmp id.value .ne lit ∧
      ColumnFirst left right id v := by
  unfold notEqFilter at h
  split at h
  · rename_i id v
    obtain ⟨lit, hlit, rfl⟩ := map_eq_ok.mp h
    exact ⟨id, v, lit, hlit, rfl, rfl, rfl⟩
  · cases h

/-- The four order operators share one branch. -/
theorem exprToFilter_ordering {op : BinaryOperator} {c : CmpOp} (ordering : isOrdering op = true)
    (hop : comparisonOp op = some c) (left right : Expr) :
    (exprToFilter (.binaryOp left op right) : Except _ (FilterExpr F)) =
      orderingFilter c left right := by
  cases op with
  | gt | lt | gtEq | ltEq =>
    cases hop
    rfl
  | _ => cases ordering

/-- A comparison is compiled with the column first, whichever side it stands on. -/
theorem comparison_cases {left right : Expr} {op : BinaryOperator} {c : CmpOp}
    (hop : comparisonOp op = some c) {g : FilterExpr F}
    (h : exprToFilter (.binaryOp left op right) = .ok g) :
    ∃ id v lit, literalValue v = .ok lit ∧ g = .cmp id.value c lit ∧
      (ColumnFirst left right id v ∨
        (LiteralFirst left right id v ∧ (c = .eq ∨ isOrdering op = true))) := by
  by_cases ordering : isOrdering op = true
  · rw [exprToFilter_ordering ordering hop] at h
    obtain ⟨id, v, lit, hv, hg, order⟩ := orderingFilter_cases h
    exact ⟨id, v, lit, hv, hg, order.imp_right (fun first => ⟨first, Or.inr ordering⟩)⟩
  · cases op with
    | eq =>
      cases hop
      obtain ⟨id, v, lit, hv, hg, order⟩ := eqFilter_cases h
      exact ⟨id, v, lit, hv, hg, order.imp_right (fun first => ⟨first, Or.inl rfl⟩)⟩
    | notEq =>
      cases hop
      obtain ⟨id, v, lit, hv, hg, order⟩ := notEqFilter_cases h
      exact ⟨id, v, lit, hv, hg, Or.inl order⟩
    | gt | lt | gtEq | ltEq => exact absurd rfl ordering
    | and | or | other => cases hop

variable {schema : Schema} {row : Row F}

/-- The compiled filter of a condition, if it has one, says what the condition says. -/
def Agrees (schema : Schema) (row : Row F) (e : Expr) : Prop :=
  ∀ g, exprToFilter e = .ok g → evalPredicate row g schema = evalExpr schema row e

theorem agrees_and {left right : Expr} (hl : Agrees schema row left)
    (hr : Agrees schema row right) : Agrees schema row (.binaryOp left .and right) := by
  intro g h
  obtain ⟨l, r, hleft, hright, rfl⟩ := exprToFilter_and_eq_ok.mp h
  rw [evalPredicate, hl l hleft, hr r hright, evalExpr]

theorem agrees_or {left right : Expr} (hl : Agrees schema row left)
    (hr : Agrees schema row right) : Agrees schema row (.binaryOp left .or right) := by
  intro g h
  obtain ⟨l, r, hleft, hright, rfl⟩ := exprToFilter_or_eq_ok.mp h
  rw [evalPredicate, hl l hleft, hr r hright, evalExpr]

/-- Both sides of a comparison compare a stored value with a literal. -/
theorem evalExpr_comparison {left right : Expr} {op : BinaryOperator} {c : CmpOp}
    (hop : comparisonOp op = some c) :
    evalExpr schema row (.binaryOp left op right) =
      evalComparison c (operandValue schema row left) (operandValue schema row right) := by
  cases op with
  | eq | notEq | gt | lt | gtEq | ltEq =>
    cases hop
    rfl
  | and | or | other => cases hop

omit [FloatText F] in
/-- A strict order comparison does not survive an exchange of its operands. -/
theorem evalCmp_flip_iff [LawfulFloat64 F] {op : BinaryOperator} {c : CmpOp}
    (ordering : isOrdering op = true) (hop : comparisonOp op = some c) (a b : Value F) :
    evalCmp c a b = evalCmp c b a ↔
      Predicates.compare a b ≠ some .lt ∧ Predicates.compare a b ≠ some .gt := by
  cases op with
  | gt | lt | gtEq | ltEq =>
    cases hop
    simp only [evalCmp, compare_swap a b]
    cases Predicates.compare a b with
    | none => decide
    | some order => cases order <;> decide
  | _ => cases ordering

end Compiled

section Meaning
variable [LawfulFloat64 F] {schema : Schema} {row : Row F}

/-- No order comparison of the condition that has its literal first tells the stored
value and the literal apart. -/
def NeverFlipped (schema : Schema) (row : Row F) (e : Expr) : Prop :=
  ∀ op v id, isOrdering op = true → Part e (.binaryOp (.value v) op (.identifier id)) →
    ∀ lit, literalValue v = .ok lit →
      ∀ stored, (schema.columnIndex id.value).bind row.get = some stored →
        Predicates.compare stored lit ≠ some .lt ∧ Predicates.compare stored lit ≠ some .gt

/-- An order comparison that has its literal first and tells its operands apart. -/
def Flipped (schema : Schema) (row : Row F) (left : Expr) (op : BinaryOperator) (right : Expr) :
    Prop :=
  ∃ v id, isOrdering op = true ∧ LiteralFirst left right id v ∧
    ∃ lit, literalValue v = .ok lit ∧
      ∃ stored, (schema.columnIndex id.value).bind row.get = some stored ∧
        (Predicates.compare stored lit = some .lt ∨ Predicates.compare stored lit = some .gt)

/-- Such comparisons decide the condition: where one side of an AND or an OR is wrong, the
other is right and leaves the decision to it, or is wrong too and was meant to be the same. -/
def FlipDecides (schema : Schema) (row : Row F) : Expr → Prop
  | .binaryOp left .and right =>
    FlipDecides schema row left ∧ ¬FlipDecides schema row right ∧ evalExpr schema row right = true ∨
      ¬FlipDecides schema row left ∧ FlipDecides schema row right ∧
        evalExpr schema row left = true ∨
      FlipDecides schema row left ∧ FlipDecides schema row right ∧
        evalExpr schema row left = evalExpr schema row right
  | .binaryOp left .or right =>
    FlipDecides schema row left ∧ ¬FlipDecides schema row right ∧
        evalExpr schema row right = false ∨
      ¬FlipDecides schema row left ∧ FlipDecides schema row right ∧
        evalExpr schema row left = false ∨
      FlipDecides schema row left ∧ FlipDecides schema row right ∧
        evalExpr schema row left = evalExpr schema row right
  | .binaryOp left op right => Flipped schema row left op right
  | .nested inner => FlipDecides schema row inner
  | _ => False

omit [FloatText F] [LawfulFloat64 F] in
theorem evalPredicate_cmp (col : String) (c : CmpOp) (lit : Value F) :
    evalPredicate row (.cmp col c lit) schema =
      evalComparison c ((schema.columnIndex col).bind row.get) (some lit) := by
  rw [evalPredicate]
  cases (schema.columnIndex col).bind row.get <;> rfl

omit [LawfulFloat64 F] in
theorem operandValue_literal {v : SqlValue} {lit : Value F} (hv : literalValue v = .ok lit) :
    operandValue schema row (.value v) = some lit := by
  rw [operandValue, hv]
  rfl

/-- One comparison is compiled faithfully unless its operands change places for good. -/
theorem agrees_comparison_iff {left right : Expr} {op : BinaryOperator} {c : CmpOp}
    (hop : comparisonOp op = some c) :
    Agrees schema row (.binaryOp left op right) ↔
      ∀ v id, isOrdering op = true → LiteralFirst left right id v →
        ∀ lit, literalValue v = .ok lit →
          ∀ stored, (schema.columnIndex id.value).bind row.get = some stored →
            Predicates.compare stored lit ≠ some .lt ∧
              Predicates.compare stored lit ≠ some .gt := by
  constructor
  · rintro agrees v id ordering ⟨rfl, rfl⟩ lit hlit stored hstored
    have compiled : (exprToFilter (.binaryOp (.value v) op (.identifier id)) :
        Except _ (FilterExpr F)) = .ok (.cmp id.value c lit) := by
      rw [exprToFilter_ordering ordering hop]
      exact map_eq_ok.mpr ⟨lit, hlit, rfl⟩
    have same := agrees _ compiled
    rw [evalPredicate_cmp, evalExpr_comparison hop, operandValue_literal hlit, operandValue,
      hstored] at same
    exact (evalCmp_flip_iff ordering hop stored lit).mp same
  · intro balanced g h
    obtain ⟨id, v, lit, hv, rfl, ⟨rfl, rfl⟩ | ⟨⟨rfl, rfl⟩, kind⟩⟩ := comparison_cases hop h
    · rw [evalPredicate_cmp, evalExpr_comparison hop, operandValue_literal hv, operandValue]
    · rw [evalPredicate_cmp, evalExpr_comparison hop, operandValue_literal hv, operandValue]
      cases hstored : (schema.columnIndex id.value).bind row.get with
      | none => rfl
      | some stored =>
        rcases kind with rfl | ordering
        · exact eq_comm stored lit
        · exact (evalCmp_flip_iff ordering hop stored lit).mpr
            (balanced v id ordering ⟨rfl, rfl⟩ lit hv stored hstored)

omit [LawfulFloat64 F] in
/-- A condition whose parts are compiled faithfully is. -/
theorem agrees_of_comparisons (e : Expr)
    (comparisons : ∀ left op right, (comparisonOp op).isSome = true →
      Part e (.binaryOp left op right) → Agrees schema row (.binaryOp left op right)) :
    Agrees schema row e := by
  induction e using exprToFilter.induct with
  | case1 left right ihl ihr =>
    refine agrees_and (ihl fun l op r hop part => ?_) (ihr fun l op r hop part => ?_)
    · exact comparisons l op r hop (.andLeft part)
    · exact comparisons l op r hop (.andRight part)
  | case2 left right ihl ihr =>
    refine agrees_or (ihl fun l op r hop part => ?_) (ihr fun l op r hop part => ?_)
    · exact comparisons l op r hop (.orLeft part)
    · exact comparisons l op r hop (.orRight part)
  | case3 | case4 | case5 | case6 | case7 | case8 => exact comparisons _ _ _ rfl (.self _)
  | case9 => nofun
  | case10 b =>
    rintro _ ⟨⟩
    rfl
  | case11 inner ih =>
    exact ih (fun l op r hop part => comparisons l op r hop (.nested part))
  | case12 e =>
    intro g h
    rw [exprToFilter] at h
    · cases h
    all_goals assumption

theorem agrees_iff_not_flipDecides {left right : Expr} {op : BinaryOperator} {c : CmpOp}
    (hop : comparisonOp op = some c) :
    Agrees schema row (.binaryOp left op right) ↔
      ¬FlipDecides schema row (.binaryOp left op right) := by
  have leaf : FlipDecides schema row (.binaryOp left op right) ↔
      Flipped schema row left op right := by
    cases op with
    | and | or | other => cases hop
    | _ => exact Iff.rfl
  rw [leaf, agrees_comparison_iff hop]
  constructor
  · rintro balanced ⟨v, id, ordering, first, lit, hlit, stored, hstored, apart⟩
    obtain ⟨less, greater⟩ := balanced v id ordering first lit hlit stored hstored
    exact apart.elim less greater
  · intro balanced v id ordering first lit hlit stored hstored
    rw [← not_or]
    exact fun apart => balanced ⟨v, id, ordering, first, lit, hlit, stored, hstored, apart⟩

/-- An AND is wrong where one side is and the other is true, or both are and were meant to be
alike. -/
theorem and_eq_iff {c d m n : Bool} {wrong wrong' : Prop} (left : c = m ↔ ¬wrong)
    (right : d = n ↔ ¬wrong') :
    ((c && d) = (m && n)) ↔ ¬(wrong ∧ ¬wrong' ∧ n = true ∨ ¬wrong ∧ wrong' ∧ m = true ∨
      wrong ∧ wrong' ∧ m = n) := by
  grind

theorem or_eq_iff {c d m n : Bool} {wrong wrong' : Prop} (left : c = m ↔ ¬wrong)
    (right : d = n ↔ ¬wrong') :
    ((c || d) = (m || n)) ↔ ¬(wrong ∧ ¬wrong' ∧ n = false ∨ ¬wrong ∧ wrong' ∧ m = false ∨
      wrong ∧ wrong' ∧ m = n) := by
  grind

/-- The filter of a whole condition says what the condition says just where no exchanged
comparison decides it. -/
theorem eval_eq_iff_not_flipDecides (e : Expr) :
    ∀ g, exprToFilter e = .ok g →
      (evalPredicate row g schema = evalExpr schema row e ↔ ¬FlipDecides schema row e) := by
  have comparison {left right : Expr} {op : BinaryOperator}
      (hop : (comparisonOp op).isSome = true) (g : FilterExpr F)
      (h : exprToFilter (.binaryOp left op right) = .ok g) :
      evalPredicate row g schema = evalExpr schema row (.binaryOp left op right) ↔
        ¬FlipDecides schema row (.binaryOp left op right) := by
    obtain ⟨c, hop⟩ := Option.isSome_iff_exists.mp hop
    rw [← agrees_iff_not_flipDecides hop]
    refine ⟨fun same g' h' => ?_, fun agrees => agrees g h⟩
    cases h.symm.trans h'
    exact same
  induction e using exprToFilter.induct with
  | case1 left right ihl ihr =>
    intro g h
    obtain ⟨l, r, hleft, hright, rfl⟩ := exprToFilter_and_eq_ok.mp h
    rw [evalPredicate, evalExpr, FlipDecides]
    exact and_eq_iff (ihl l hleft) (ihr r hright)
  | case2 left right ihl ihr =>
    intro g h
    obtain ⟨l, r, hleft, hright, rfl⟩ := exprToFilter_or_eq_ok.mp h
    rw [evalPredicate, evalExpr, FlipDecides]
    exact or_eq_iff (ihl l hleft) (ihr r hright)
  | case3 | case4 | case5 | case6 | case7 | case8 => exact comparison rfl
  | case9 => nofun
  | case10 b =>
    rintro _ ⟨⟩
    exact iff_of_true rfl id
  | case11 inner ih => exact ih
  | case12 e =>
    intro g h
    rw [exprToFilter] at h
    · cases h
    all_goals assumption

theorem part_trans {a b c : Expr} (hab : Part a b) (hbc : Part b c) : Part a c := by
  induction hab with
  | self => exact hbc
  | andLeft _ ih => exact .andLeft (ih hbc)
  | andRight _ ih => exact .andRight (ih hbc)
  | orLeft _ ih => exact .orLeft (ih hbc)
  | orRight _ ih => exact .orRight (ih hbc)
  | nested _ ih => exact .nested (ih hbc)

/-- On a row, a condition and all its parts are compiled to filters of their meaning
exactly when no order comparison with its literal first tells its operands apart, and the
condition alone exactly when no such comparison decides it. -/
theorem where_meaning_iff (schema : Schema) (row : Row F) (e : Expr) :
    ((∀ part, Part e part → Agrees schema row part) ↔ NeverFlipped schema row e) ∧
      ∀ f, exprToFilter e = .ok f →
        (evalPredicate row f schema = evalExpr schema row e ↔ ¬FlipDecides schema row e) := by
  refine ⟨⟨?_, ?_⟩, eval_eq_iff_not_flipDecides e⟩
  · intro agrees op v id ordering part lit hlit stored hstored
    obtain ⟨c, hop⟩ : ∃ c, comparisonOp op = some c := by
      cases op with
      | gt | lt | gtEq | ltEq => exact ⟨_, rfl⟩
      | _ => cases ordering
    exact (agrees_comparison_iff hop).mp (agrees _ part) v id ordering ⟨rfl, rfl⟩ lit hlit
      stored hstored
  · intro balanced part inside
    refine agrees_of_comparisons part (fun left op right hop within => ?_)
    obtain ⟨c, hop⟩ := Option.isSome_iff_exists.mp hop
    rw [agrees_comparison_iff hop]
    rintro v id ordering ⟨rfl, rfl⟩
    exact balanced op v id ordering (part_trans inside within)

end Meaning

section Flipped

/-- `5 < x` in parentheses, beside `x = 3`. -/
def literalBelow : Expr :=
  .binaryOp (.nested (.binaryOp (.value (.number "5")) .lt (.identifier ⟨"x", none⟩))) .or
    (.binaryOp (.value (.number "3")) .eq (.identifier ⟨"x", none⟩))

def numbered : Schema := .new [⟨"x", .bigInt, true⟩]

/-- On a row with 5 no part goes wrong; on a row with 3 one does, and does not decide. -/
theorem where_meaning_five :
    evalPredicate (.new [.int64 5] : Row Float)
        (.or (.cmp "x" .lt (.int64 5)) (.cmp "x" .eq (.int64 3))) numbered =
      evalExpr numbered (.new [.int64 5] : Row Float) literalBelow ∧
    evalPredicate (.new [.int64 3] : Row Float)
        (.or (.cmp "x" .lt (.int64 5)) (.cmp "x" .eq (.int64 3))) numbered =
      evalExpr numbered (.new [.int64 3] : Row Float) literalBelow := by
  constructor
  · apply (where_meaning_iff numbered (.new [.int64 5] : Row Float) literalBelow).1.mpr _ _
      (.self literalBelow) _ rfl
    intro op v id ordering part lit hlit stored hstored
    cases part with
    | orLeft part =>
      cases part with
      | nested part =>
        cases part
        cases hlit
        cases hstored
        decide
    | orRight part =>
      cases part
      cases ordering
  · refine ((where_meaning_iff numbered (.new [.int64 3] : Row Float) literalBelow).2 _ rfl).mpr ?_
    have equality : ¬FlipDecides numbered (.new [.int64 3] : Row Float)
        (.binaryOp (.value (.number "3")) .eq (.identifier ⟨"x", none⟩)) := by
      rintro ⟨_, _, ordering, _⟩
      cases ordering
    rintro (⟨_, _, fails⟩ | ⟨_, decides, _⟩ | ⟨_, decides, _⟩)
    · cases fails
    · exact equality decides
    · exact equality decides

/-- A row with 3 passes the filter of `5 < x`. -/
theorem literal_first_reversed :
    ¬ ∀ (e : Expr) (f : FilterExpr Float), exprToFilter e = .ok f →
      ∀ (schema : Schema) (row : Row Float),
        evalPredicate row f schema = evalExpr schema row e := by
  intro same
  have differs := same (.binaryOp (.value (.number "5")) .lt (.identifier ⟨"x", none⟩))
    (.cmp "x" .lt (.int64 5)) rfl numbered (.new [.int64 3])
  have passes : evalPredicate (.new [.int64 3] : Row Float) (.cmp "x" .lt (.int64 5)) numbered =
      true := rfl
  have fails : evalExpr numbered (.new [.int64 3] : Row Float)
      (.binaryOp (.value (.number "5")) .lt (.identifier ⟨"x", none⟩)) = false := rfl
  rw [passes, fails] at differs
  cases differs

end Flipped

end ConditionMeaning
