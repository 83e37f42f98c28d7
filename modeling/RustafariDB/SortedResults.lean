import Mathlib.Data.List.Pairwise
import RustafariDB.QueryOperators
import RustafariDB.SortedLists
import RustafariDB.SqlPlanning
import RustafariDB.ValueOrder

/-!
# What ORDER BY returns

ORDER BY stands above the select list in a plan, and takes the positions of its columns
from the base table. The rows come back sorted by the output columns wherever these two
positions are the same.
-/

namespace SortedResults

open Floats Values Catalogs Plans SqlSyntax SqlPlanning Predicates Sessions Execution
open StatefulPrograms PlanEffects QueryOperators FloatLaws ValueOrder SortedLists

variable {F : Type} [Float64 F]

section Specification

/-- Two rows have comparable values at a position. -/
def ComparableAt (i : Nat) (a b : Row F) : Prop :=
  ∃ v w, a.get i = some v ∧ b.get i = some w ∧ (Predicates.compare v w).isSome = true

/-- Lexicographic order by positions, each ascending or descending. -/
def Precedes : List (Nat × Bool) → Row F → Row F → Prop
  | [], _, _ => True
  | (i, asc) :: keys, a, b => ∃ v w, a.get i = some v ∧ b.get i = some w ∧
      (Predicates.compare v w = some (if asc then .lt else .gt) ∨
        Predicates.compare v w = some .eq ∧ Precedes keys a b)

/-- The columns of the rows of a select list. A projection leaves out what the table does
not have; aggregates are no columns. -/
def outputColumns (schema : Schema) : PlanNode F → List String
  | .project _ columns => columns.filter (fun c => (schema.columnIndex c).isSome)
  | .groupBy _ columns _ => columns
  | .aggregate _ _ => []
  | _ => schema.columns.map Column.name

/-- The ORDER BY items are output columns at the positions of the keys. -/
def SortKeys (outputs : List String) : List OrderByExpr → List (Nat × Bool) → Prop :=
  List.Forall₂ (fun o key => ∃ id, o.expr = .identifier id ∧ outputs[key.1]? = some id.value ∧
    key.2 = o.asc.getD true)

/-- The sort columns stand in the output where they stand in the base table. -/
def Aligned (schema : Schema) : List OrderByExpr → List (Nat × Bool) → Prop :=
  List.Forall₂ (fun o key => ∃ id, o.expr = .identifier id ∧ id.value ≠ "" ∧
    schema.columnIndex id.value = some key.1)

/-- The query without ORDER BY, LIMIT and OFFSET. -/
def unordered (q : Query) : Query := { q with orderBy := [], limit := none, offset := none }

end Specification

section Comparisons
variable [LawfulFloat64 F] {rows : List (Row F)} {keys : List (Nat × Bool)} {i : Nat}

omit [LawfulFloat64 F] in
theorem compareVals_get {a b : Row F} {v w : Value F} (ha : a.get i = some v)
    (hb : b.get i = some w) :
    compareVals (a.get i) (b.get i) = (Predicates.compare v w).getD .eq := by
  rw [ha, hb]
  rfl

omit [LawfulFloat64 F] in
/-- On comparable values "not after" is a comparison that says so. -/
theorem compareVals_isLE {a b : Row F} {v w : Value F} (ha : a.get i = some v)
    (hb : b.get i = some w) (comparable : (Predicates.compare v w).isSome = true) :
    (compareVals (a.get i) (b.get i)).isLE =
      (Predicates.compare v w).any Ordering.isLE := by
  rw [compareVals_get ha hb]
  obtain ⟨order, h⟩ := Option.isSome_iff_exists.mp comparable
  rw [h, Option.getD_some, Option.any_some]

/-- Rows are ordered by a column whose values are comparable, also to themselves. -/
theorem orders_column (comparable : ∀ a ∈ rows, ∀ b ∈ rows, ComparableAt i a b) :
    Orders rows (fun a b => compareVals (a.get i) (b.get i)) where
  eq_swap {a b} := by
    obtain ⟨v, w, ha, hb, _⟩ := comparable a a.2 b b.2
    rw [onMembers, onMembers, compareVals_get ha hb, compareVals_get hb ha, compare_swap w v]
    cases Predicates.compare w v <;> rfl
  isLE_trans {a b c} hab hbc := by
    obtain ⟨u, v, ha, hb, huv⟩ := comparable a a.2 b b.2
    obtain ⟨v', w, hb', hc, hvw⟩ := comparable b b.2 c c.2
    obtain rfl : v = v' := Option.some.inj (hb.symm.trans hb')
    obtain ⟨u', w', ha', hc', huw⟩ := comparable a a.2 c c.2
    obtain rfl : u = u' := Option.some.inj (ha.symm.trans ha')
    obtain rfl : w = w' := Option.some.inj (hc.symm.trans hc')
    rw [onMembers, compareVals_isLE ha hb huv] at hab
    rw [onMembers, compareVals_isLE hb hc hvw] at hbc
    rw [onMembers, compareVals_isLE ha hc huw]
    exact compare_trans hab hbc

omit [LawfulFloat64 F] in
theorem compareRows_cons (asc : Bool) (a b : Row F) :
    compareRows ((i, asc) :: keys) a b =
      (if asc then compareVals (a.get i) (b.get i)
        else (compareVals (a.get i) (b.get i)).swap).then (compareRows keys a b) := by
  rw [compareRows]
  cases compareVals (a.get i) (b.get i) <;> cases asc <;> rfl

/-- Rows are ordered by several such columns, in either direction. -/
theorem orders_rows
    (comparable : ∀ key ∈ keys, ∀ a ∈ rows, ∀ b ∈ rows, ComparableAt key.1 a b) :
    Orders rows (compareRows keys) := by
  induction keys with
  | nil => exact orders_const rows
  | cons key keys ih =>
    obtain ⟨i, asc⟩ := key
    obtain ⟨first, others⟩ := List.forall_mem_cons.mp comparable
    have column := orders_column first
    have rest := ih others
    cases asc with
    | true =>
      refine orders_congr (orders_then column rest) (fun a _ b _ => ?_)
      rw [compareRows_cons, if_pos rfl]
    | false =>
      refine orders_congr (orders_then (orders_swap column) rest) (fun a ha b hb => ?_)
      rw [compareRows_cons, if_neg Bool.false_ne_true]
      exact congrArg (Ordering.then · _)
        (column.eq_swap (a := ⟨b, hb⟩) (b := ⟨a, ha⟩)).symm

omit [LawfulFloat64 F] in
/-- What the sort does not put after a row precedes it. -/
theorem precedes_of_compareRows {a b : Row F}
    (comparable : ∀ key ∈ keys, ComparableAt key.1 a b) (h : compareRows keys a b ≠ .gt) :
    Precedes keys a b := by
  induction keys with
  | nil => trivial
  | cons key keys ih =>
    obtain ⟨i, asc⟩ := key
    obtain ⟨first, others⟩ := List.forall_mem_cons.mp comparable
    obtain ⟨v, w, ha, hb, hvw⟩ := first
    obtain ⟨order, horder⟩ := Option.isSome_iff_exists.mp hvw
    rw [compareRows_cons, compareVals_get ha hb, horder, Option.getD_some] at h
    refine ⟨v, w, ha, hb, ?_⟩
    rw [horder]
    cases order with
    | eq =>
      refine Or.inr ⟨rfl, ih others ?_⟩
      cases asc <;> exact h
    | lt =>
      cases asc with
      | true => exact Or.inl rfl
      | false => exact absurd rfl h
    | gt =>
      cases asc with
      | true => exact absurd rfl h
      | false => exact Or.inl rfl

omit [LawfulFloat64 F] in
theorem sort_nil (rows : List (Row F)) :
    rows.insertionSort (fun a b => compareRows [] a b ≠ .gt) = rows := by
  apply List.Pairwise.insertionSort_eq
  exact List.pairwise_of_forall (fun a b => nofun)

/-- With at least two rows, what is comparable pairwise is comparable to itself too. -/
theorem comparable_members (two : 2 ≤ rows.length) (pairwise : rows.Pairwise (ComparableAt i)) :
    ∀ a ∈ rows, ∀ b ∈ rows, ComparableAt i a b := by
  have symm : Std.Symm (ComparableAt (F := F) i) := ⟨fun a b ⟨v, w, ha, hb, h⟩ =>
    ⟨w, v, hb, ha, by rw [compare_swap v w, Option.isSome_map]; exact h⟩⟩
  have self {a b : Row F} (h : ComparableAt i a b) : ComparableAt i a a := by
    obtain ⟨v, w, ha, _, h⟩ := h
    exact ⟨v, v, ha, ha, by rw [compare_self h]; rfl⟩
  have each : ∀ a ∈ rows, ComparableAt i a a := by
    match rows, two, pairwise with
    | a :: b :: rest, _, pairwise =>
      obtain ⟨first, _⟩ := List.pairwise_cons.mp pairwise
      intro c hc
      rcases List.mem_cons.mp hc with rfl | hc
      · exact self (first b List.mem_cons_self)
      · exact self (symm.symm a c (first c hc))
  intro a ha b hb
  exact List.Pairwise.forall_of_forall each pairwise ha hb

/-- The sort of comparable rows. -/
theorem sorted_rows (pairwise : ∀ key ∈ keys, rows.Pairwise (ComparableAt key.1)) :
    (rows.insertionSort (fun a b => compareRows keys a b ≠ .gt)).Pairwise (Precedes keys) := by
  by_cases two : 2 ≤ rows.length
  · have comparable : ∀ key ∈ keys, ∀ a ∈ rows, ∀ b ∈ rows, ComparableAt key.1 a b :=
      fun key inside => comparable_members two (pairwise key inside)
    have sorted := pairwise_insertionSort (orders_rows comparable)
    refine sorted.imp_of_mem (fun {a b} ha hb h => ?_)
    rw [List.mem_insertionSort] at ha hb
    exact precedes_of_compareRows (fun key inside => comparable key inside a ha b hb) h
  · match rows, two with
    | [], _ => exact List.Pairwise.nil
    | [row], _ => exact List.pairwise_singleton _ row
    | _ :: _ :: _, two => exact absurd (by simp) two

end Comparisons

section Queries
variable [FloatText F] [SqlText] {q : Query} {whole plain : PlanNode F}

/-- A query is planned as the one without ORDER BY, sorted and then limited. -/
theorem plan_of_unordered (accepted : queryToPlan q = .ok whole)
    (h : queryToPlan (unordered q) = .ok plain) :
    whole = limitClause q.limit q.offset (orderClause q.orderBy plain) := by
  obtain ⟨sel, scan, input, groupBy, root, hbody, hscan, hinput, hgroup, hroot, rfl⟩ :=
    queryToPlan_eq_ok.mp accepted
  have same : queryToPlan (unordered q) = .ok root :=
    queryToPlan_eq_ok.mpr ⟨sel, scan, input, groupBy, root, hbody, hscan, hinput, hgroup, hroot,
      rfl⟩
  rw [Except.ok.inj (h.symm.trans same)]

omit [SqlText] in
/-- The ORDER BY columns are the named ones. -/
theorem orderColumns_of_aligned {schema : Schema} {orderBy : List OrderByExpr}
    {keys : List (Nat × Bool)} {outputs : List String} (outs : SortKeys outputs orderBy keys)
    (aligned : Aligned schema orderBy keys) :
    (orderColumns orderBy).mapM (fun c => do
      let i ← columnOr "ORDER BY column not found: " schema c.1
      return (i, c.2)) = .ok keys := by
  induction orderBy generalizing keys with
  | nil =>
    cases outs
    rfl
  | cons o orderBy ih =>
    cases outs with
    | cons first outs =>
      cases aligned with
      | cons stands aligned =>
        obtain ⟨id, hid, _, hasc⟩ := first
        obtain ⟨id', hid', named, hindex⟩ := stands
        cases hid.symm.trans hid'
        rename_i key keys
        have head : orderColumns (o :: orderBy) =
            (id.value, o.asc.getD true) :: orderColumns orderBy := by
          simp [orderColumns, hid, exprToGroupByCol, named]
        rw [head, List.mapM_cons, ih outs aligned]
        simp only [columnOr, hindex, ok_bind, ← hasc]
        rfl

variable [ValueDebug F]

/-- ORDER BY sorts the rows of the query without it, when each sort column has the same
position in the output and in the base table. -/
theorem order_by_sorts [LawfulFloat64 F] (s : SessionState F) {tm : TableMeta}
    {rows : List (Row F)} {keys : List (Nat × Bool)} (accepted : queryToPlan q = .ok whole)
    (plans : queryToPlan (unordered q) = .ok plain) (live : scanMeta s plain = .ok tm)
    (returns : outcome (executePlan plain s) = .ok (.rows rows))
    (outputs : SortKeys (outputColumns tm.schema plain) q.orderBy keys)
    (comparable : ∀ key ∈ keys, rows.Pairwise (ComparableAt key.1))
    (aligned : Aligned tm.schema q.orderBy keys) :
    ∃ plan sorted, whole = limitClause q.limit q.offset plan ∧
      outcome (executePlan plan s) = .ok (.rows sorted) ∧ sorted.Perm rows ∧
      sorted.Pairwise (Precedes keys) := by
  refine ⟨orderClause q.orderBy plain,
    rows.insertionSort (fun a b => compareRows keys a b ≠ .gt),
    plan_of_unordered accepted plans, ?_, List.perm_insertionSort _ rows,
    sorted_rows comparable⟩
  have known := orderColumns_of_aligned outputs aligned
  cases hrun : executePlan plain s with
  | error e s' =>
    rw [hrun] at returns
    cases returns
  | ok result s' =>
    rw [hrun] at returns
    cases returns
    have still := scanMeta_final live plain
    rw [hrun, final_ok, live] at still
    by_cases some_column : orderColumns q.orderBy ≠ []
    · rw [orderClause, if_pos some_column, executePlan_orderBy hrun still, orderRows, known]
      rfl
    · rw [not_ne_iff] at some_column
      rw [some_column] at known
      obtain rfl : keys = [] := (Except.ok.inj known).symm
      rw [orderClause, some_column, if_neg (fun h => h rfl), hrun, outcome_ok, sort_nil]

end Queries

section Misplaced

/-- Two columns whose values are in opposite orders. -/
def opposed : SessionState Float :=
  runPlans [.createTable "t" none [("a", .bigInt), ("b", .bigInt)],
    .insert "t" none [] [[.int64 1, .int64 2], [.int64 2, .int64 1]]] .new

def opposedMeta : TableMeta :=
  ⟨0, 0, "t", .new [⟨"a", .bigInt, true⟩, ⟨"b", .bigInt, true⟩], "row"⟩

/-- `SELECT column FROM t ORDER BY column`. -/
def byItself (column : String) (asc : Option Bool) : Query :=
  ⟨.select ⟨none, [.unnamedExpr (.identifier ⟨column, none⟩)], [⟨.table [⟨"t", none⟩], []⟩],
    none, .expressions [], none⟩, [⟨.identifier ⟨column, none⟩, asc⟩], none, none⟩

def byItselfPlain (column : String) : PlanNode Float := .project (.scan "t" none) [column]

/-- The first column is sorted downwards. -/
theorem order_by_sorts_opposed :
    ∃ plan sorted,
      .orderBy (byItselfPlain "a") [("a", false)] = limitClause none none plan ∧
      outcome (executePlan plan opposed) = .ok (.rows sorted) ∧
      sorted.Perm [.new [.int64 1], .new [.int64 2]] ∧
      sorted.Pairwise (Precedes [(0, false)]) := by
  have accepted : (queryToPlan (byItself "a" (some false)) : Except _ (PlanNode Float)) =
      .ok (.orderBy (byItselfPlain "a") [("a", false)]) := rfl
  have live : scanMeta opposed (byItselfPlain "a") = .ok opposedMeta := rfl
  refine order_by_sorts opposed accepted rfl live rfl
    (.cons ⟨⟨"a", none⟩, rfl, rfl, rfl⟩ .nil) ?_
    (.cons ⟨⟨"a", none⟩, rfl, by decide, rfl⟩ .nil)
  intro key inside
  rw [List.mem_singleton.mp inside]
  exact List.pairwise_pair.mpr ⟨.int64 1, .int64 2, rfl, rfl, rfl⟩

/-- Selected alone, the second column is not sorted: the sort reads a position that the
rows do not have. -/
theorem second_column_unsorted :
    ¬ ∀ (s : SessionState Float), Reachable s → ∀ (q : Query) (whole plain : PlanNode Float)
      (tm : TableMeta) (rows : List (Row Float)) (keys : List (Nat × Bool)),
      queryToPlan q = .ok whole → queryToPlan (unordered q) = .ok plain →
      scanMeta s plain = .ok tm → outcome (executePlan plain s) = .ok (.rows rows) →
      SortKeys (outputColumns tm.schema plain) q.orderBy keys →
      (∀ key ∈ keys, rows.Pairwise (ComparableAt key.1)) →
      ∃ plan sorted, whole = limitClause q.limit q.offset plan ∧
        outcome (executePlan plan s) = .ok (.rows sorted) ∧ sorted.Perm rows ∧
        sorted.Pairwise (Precedes keys) := by
  intro sorts
  have reachable : Reachable opposed := reachable_runPlans _ RunFrom.new
  have comparable : ∀ key ∈ [((0 : Nat), true)],
      [(.new [.int64 2] : Row Float), .new [.int64 1]].Pairwise (ComparableAt key.1) := by
    intro key inside
    rw [List.mem_singleton.mp inside]
    exact List.pairwise_pair.mpr ⟨.int64 2, .int64 1, rfl, rfl, rfl⟩
  obtain ⟨plan, sorted, same, returned, _, ordered⟩ := sorts opposed reachable
    (byItself "b" none) (.orderBy (byItselfPlain "b") [("b", true)]) (byItselfPlain "b")
    opposedMeta [.new [.int64 2], .new [.int64 1]] [(0, true)] rfl rfl rfl rfl
    (.cons ⟨⟨"b", none⟩, rfl, rfl, rfl⟩ .nil) comparable
  obtain rfl : plan = .orderBy (byItselfPlain "b") [("b", true)] := same.symm
  have unchanged : outcome (executePlan (.orderBy (byItselfPlain "b") [("b", true)]) opposed) =
      .ok (.rows [.new [.int64 2], .new [.int64 1]]) := rfl
  rw [unchanged] at returned
  cases returned
  obtain ⟨v, w, hv, hw, smaller⟩ := List.pairwise_pair.mp ordered
  cases hv
  cases hw
  rcases smaller with smaller | ⟨equal, _⟩
  · cases smaller
  · cases equal

end Misplaced

end SortedResults
