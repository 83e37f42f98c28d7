import RustafariDB.DocumentFilters
import RustafariDB.ValueOrder

/-!
# Document filters as SQL predicates

A document filter is translated into a predicate: its conditions become a conjunction,
`$in` a disjunction of equalities and `$nin` a conjunction of inequalities. On the
columns of a row both evaluators give the same answer.
-/

namespace FilterTranslation

open Floats FloatLaws Values Catalogs Plans Predicates DocumentFilters ValueOrder

variable {F : Type}

section Translation

/-- The field equals one of the items. -/
def anyOf (field : String) : List (Value F) → FilterExpr F
  | [] => .literal false
  | item :: rest => .or (.cmp field .eq item) (anyOf field rest)

/-- The field equals none of the items. -/
def noneOf (field : String) : List (Value F) → FilterExpr F
  | [] => .literal true
  | item :: rest => .and (.cmp field .ne item) (noneOf field rest)

/-- The items `$in` and `$nin` look at. -/
def listItems : Value F → List (Value F)
  | .array items => items
  | _ => []

def cmpExpr (field : String) (op : FilterOp) (value : Value F) : FilterExpr F :=
  match op with
  | .eq => .cmp field .eq value
  | .ne => .cmp field .ne value
  | .gt => .cmp field .gt value
  | .gte => .cmp field .ge value
  | .lt => .cmp field .lt value
  | .lte => .cmp field .le value
  | .in_ => anyOf field (listItems value)
  | .nin => noneOf field (listItems value)

mutual

def filterExpr : DocFilter F → FilterExpr F
  | .mk conditions => allExpr conditions

def allExpr : List (FilterCondition F) → FilterExpr F
  | [] => .literal true
  | c :: rest => .and (conditionExpr c) (allExpr rest)

def conditionExpr : FilterCondition F → FilterExpr F
  | .cmp field op value => cmpExpr field op value
  | .and subs => everyExpr subs
  | .or subs => anyExpr subs
  | .not sub => .not (filterExpr sub)

def everyExpr : List (DocFilter F) → FilterExpr F
  | [] => .literal true
  | f :: rest => .and (filterExpr f) (everyExpr rest)

def anyExpr : List (DocFilter F) → FilterExpr F
  | [] => .literal false
  | f :: rest => .or (filterExpr f) (anyExpr rest)

end

/-- The operand of `$in` and of `$nin` is an array that is not empty. -/
def HasItems (op : FilterOp) (value : Value F) : Prop :=
  op = .in_ ∨ op = .nin → ∃ item rest, value = .array (item :: rest)

mutual

/-- Every `$in` and `$nin` of a filter has items. -/
def Itemized : DocFilter F → Prop
  | .mk conditions => ItemizedAll conditions

def ItemizedAll : List (FilterCondition F) → Prop
  | [] => True
  | c :: rest => ItemizedCondition c ∧ ItemizedAll rest

def ItemizedCondition : FilterCondition F → Prop
  | .cmp _ op value => HasItems op value
  | .and subs => ItemizedEvery subs
  | .or subs => ItemizedEvery subs
  | .not sub => Itemized sub

def ItemizedEvery : List (DocFilter F) → Prop
  | [] => True
  | f :: rest => Itemized f ∧ ItemizedEvery rest

end

end Translation

section Agreement
variable [Float64 F] {schema : Schema} {row : Row F}

/-- `get_field` of a document collection. -/
def getField (schema : Schema) (row : Row F) (name : String) : Option (Value F) :=
  (schema.columnIndex name).bind row.get

theorem compare_eq (a b : Value F) : DocumentFilters.compare a b = Predicates.compare a b := by
  cases a <;> cases b <;> rfl

/-- A comparison with a missing field fails, and so do all comparisons of a list. -/
theorem eval_missing {field : String} (missing : getField schema row field = none)
    {op : FilterOp} {value : Value F} (items : HasItems op value) :
    evalPredicate row (cmpExpr field op value) schema = false := by
  have failed (c : CmpOp) (v : Value F) : evalPredicate row (.cmp field c v) schema = false := by
    rw [evalPredicate, ← getField, missing]
  cases op with
  | in_ =>
    obtain ⟨item, rest, rfl⟩ := items (Or.inl rfl)
    have none (vs : List (Value F)) : evalPredicate row (anyOf field vs) schema = false := by
      induction vs with
      | nil => rfl
      | cons v vs ih => rw [anyOf, evalPredicate, failed, ih, Bool.or_false]
    exact none (item :: rest)
  | nin =>
    obtain ⟨item, rest, rfl⟩ := items (Or.inr rfl)
    rw [cmpExpr, listItems, noneOf, evalPredicate, failed, Bool.false_and]
  | _ => exact failed _ value

variable [LawfulFloat64 F]

theorem eval_present {field : String} {fv : Value F} (present : getField schema row field = some fv)
    {op : FilterOp} {value : Value F} (items : HasItems op value) :
    evalPredicate row (cmpExpr field op value) schema = cmpMatch op fv value := by
  have compared (c : CmpOp) (v : Value F) :
      evalPredicate row (.cmp field c v) schema = evalCmp c fv v := by
    rw [evalPredicate, ← getField, present]
  cases op with
  | in_ =>
    obtain ⟨item, rest, rfl⟩ := items (Or.inl rfl)
    have some_item (vs : List (Value F)) :
        evalPredicate row (anyOf field vs) schema = vs.any (fun v => Value.eq v fv) := by
      induction vs with
      | nil => rfl
      | cons v vs ih =>
        rw [anyOf, evalPredicate, compared, ih, List.any_cons, evalCmp, eq_comm fv v]
    exact some_item (item :: rest)
  | nin =>
    obtain ⟨item, rest, rfl⟩ := items (Or.inr rfl)
    have no_item (vs : List (Value F)) :
        evalPredicate row (noneOf field vs) schema = !vs.any (fun v => Value.eq v fv) := by
      induction vs with
      | nil => rfl
      | cons v vs ih =>
        rw [noneOf, evalPredicate, compared, ih, List.any_cons, Bool.not_or, evalCmp,
          eq_comm fv v]
    exact no_item (item :: rest)
  | eq => exact compared .eq value
  | ne => exact compared .ne value
  | gt => rw [cmpExpr, compared, evalCmp, cmpMatch, compare_eq]
  | gte => rw [cmpExpr, compared, evalCmp, cmpMatch, compare_eq]
  | lt => rw [cmpExpr, compared, evalCmp, cmpMatch, compare_eq]
  | lte => rw [cmpExpr, compared, evalCmp, cmpMatch, compare_eq]

set_option linter.unusedSectionVars false in
mutual

theorem matchesFilter_eq : ∀ f : DocFilter F, Itemized f →
    matchesFilter (getField schema row) f = evalPredicate row (filterExpr f) schema
  | .mk conditions, items => matchesAll_eq conditions items

theorem matchesAll_eq : ∀ cs : List (FilterCondition F), ItemizedAll cs →
    matchesAll (getField schema row) cs = evalPredicate row (allExpr cs) schema
  | [], _ => rfl
  | c :: rest, items => by
    rw [matchesAll, allExpr, evalPredicate, matchesCondition_eq c items.1,
      matchesAll_eq rest items.2]

theorem matchesCondition_eq : ∀ c : FilterCondition F, ItemizedCondition c →
    matchesCondition (getField schema row) c = evalPredicate row (conditionExpr c) schema
  | .cmp field op value, items => by
    rw [matchesCondition, conditionExpr]
    cases h : getField schema row field with
    | none => exact (eval_missing h items).symm
    | some fv => exact (eval_present h items).symm
  | .and subs, items => matchesEvery_eq subs items
  | .or subs, items => matchesAny_eq subs items
  | .not sub, items => by
    rw [matchesCondition, conditionExpr, evalPredicate, matchesFilter_eq sub items]

theorem matchesEvery_eq : ∀ fs : List (DocFilter F), ItemizedEvery fs →
    matchesEvery (getField schema row) fs = evalPredicate row (everyExpr fs) schema
  | [], _ => rfl
  | f :: rest, items => by
    rw [matchesEvery, everyExpr, evalPredicate, matchesFilter_eq f items.1,
      matchesEvery_eq rest items.2]

theorem matchesAny_eq : ∀ fs : List (DocFilter F), ItemizedEvery fs →
    matchesAny (getField schema row) fs = evalPredicate row (anyExpr fs) schema
  | [], _ => rfl
  | f :: rest, items => by
    rw [matchesAny, anyExpr, evalPredicate, matchesFilter_eq f items.1,
      matchesAny_eq rest items.2]

end

/-- On every row a document filter and its translation select alike. -/
theorem document_filter_agrees (f : DocFilter F) (items : Itemized f) (schema : Schema)
    (row : Row F) :
    matchesFilter (getField schema row) f = evalPredicate row (filterExpr f) schema :=
  matchesFilter_eq f items

end Agreement

/-- `{ age: { $nin: [1, 2] }, $not: { name: "b" } }`. -/
def youngFilter : DocFilter Float :=
  .mk [.cmp "age" .nin (.array [.int64 1, .int64 2]), .not (.mk [.cmp "name" .eq (.string "b")])]

/-- A row that is short of its `name`. -/
def unnamedRow : Row Float := .new [.int64 3]

theorem document_filter_agrees_young :
    matchesFilter (getField (.new [⟨"age", .bigInt, true⟩, ⟨"name", .text, true⟩]) unnamedRow)
        youngFilter =
      evalPredicate unnamedRow (filterExpr youngFilter)
        (.new [⟨"age", .bigInt, true⟩, ⟨"name", .text, true⟩]) := by
  refine document_filter_agrees youngFilter ⟨fun _ => ⟨_, _, rfl⟩, ?_, trivial⟩ _ unnamedRow
  exact ⟨by nofun, trivial⟩

end FilterTranslation
