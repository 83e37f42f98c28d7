import RustafariDB.ConditionMeaning
import RustafariDB.FreshTables

/-!
# The name of a column

CREATE TABLE records a column under the text an identifier is displayed as, quotes
included. Every clause of a query takes the identifier without its quotes. The two texts
are the same just for an identifier that is written without quotes.
-/

namespace ColumnNames

open Floats Values Catalogs Plans Sessions Execution SqlSyntax SqlPlanning StatefulPrograms
open ConditionMeaning FreshTables

section Display

/-- The quotes the parser knows. -/
def quotes : List Char := ['"', '`', '\'', '[']

/-- An identifier of the parser, a bare word or in quotes. -/
def Written (id : Ident) : Prop := ∀ q, id.quoteStyle = some q → q ∈ quotes

/-- `Display` of an identifier puts the quotes back; quotes inside are escaped, which does not
make the text shorter. -/
class LawfulDisplay [SqlText] : Prop where
  unquoted : ∀ id : Ident, id.quoteStyle = none → SqlText.displayIdent id = id.value
  quoted : ∀ (id : Ident) (q : Char), id.quoteStyle = some q → q ∈ quotes →
    ∃ body close, (SqlText.displayIdent id).toList = q :: body ++ [close] ∧
      id.value.toList.length ≤ body.length

theorem displayIdent_eq_value_iff [SqlText] [LawfulDisplay] {id : Ident} (written : Written id) :
    SqlText.displayIdent id = id.value ↔ id.quoteStyle = none := by
  constructor
  · intro same
    cases style : id.quoteStyle with
    | none => rfl
    | some q =>
      obtain ⟨body, close, text, long⟩ := LawfulDisplay.quoted id q style (written q style)
      have lengths := congrArg List.length text
      rw [same, List.length_append, List.length_cons, List.length_singleton] at lengths
      omega
  · exact LawfulDisplay.unquoted id

end Display

section Names
variable {F : Type} [Float64 F] [FloatText F] [SqlText]

/-- The names under which the clauses of a query look for an identifier. -/
inductive ReadAs (F : Type) [Float64 F] [FloatText F] (id : Ident) : String → Prop where
  | left {name : String} {op : BinaryOperator} {right : Expr} {c : CmpOp} {v : Value F}
      (h : exprToFilter (.binaryOp (.identifier id) op right) = .ok (.cmp name c v)) :
      ReadAs F id name
  | right {name : String} {op : BinaryOperator} {literal : SqlValue} {c : CmpOp} {v : Value F}
      (h : exprToFilter (.binaryOp (.value literal) op (.identifier id)) = .ok (.cmp name c v)) :
      ReadAs F id name
  | projection {name : String} (h : itemAsColumn (.unnamedExpr (.identifier id)) = some name) :
      ReadAs F id name
  | groupBy {name : String} (h : exprToGroupByCol (.identifier id) = some name) : ReadAs F id name
  | orderBy {name : String} {direction : Option Bool} {ascending : Bool}
      (h : (name, ascending) ∈ orderColumns [⟨.identifier id, direction⟩]) : ReadAs F id name
  | aggregate {name : String}
      (h : columnFromArg (.unnamed (.expr (.identifier id))) = .ok name) : ReadAs F id name

/-- A CREATE TABLE that lists the identifier records the name in its place. -/
def RecordedAs (F : Type) [Float64 F] [FloatText F] (id : Ident) (name : String) : Prop :=
  ∀ tableName columns ifNotExists query table ns defs,
    astToPlan (.createTable tableName columns ifNotExists query) =
        .ok (.createTable table ns defs : PlanNode F) →
      ∀ (k : Nat) (column : ColumnDef), columns[k]? = some column → column.name = id →
        ∃ ty, defs[k]? = some (name, ty)

/-- The table a CREATE TABLE with the identifier among its columns leaves has a column of
the name. -/
def FoundAs (F : Type) [Float64 F] [FloatText F] (id : Ident) (name : String) : Prop :=
  ∀ tableName columns ifNotExists query table ns defs,
    astToPlan (.createTable tableName columns ifNotExists query) =
        .ok (.createTable table ns defs : PlanNode F) →
      (∃ column ∈ columns, column.name = id) →
        ∀ s : SessionState F, ∃ tm i, (createTable s ns table defs).tableMeta ns table = some tm ∧
          tm.schema.columnIndex name = some i

/-- What a later statement looks for is what CREATE TABLE recorded, and is found. -/
def NamesAgree (F : Type) [Float64 F] [FloatText F] (id : Ident) : Prop :=
  ∀ name, ReadAs F id name → RecordedAs F id name ∧ FoundAs F id name

omit [SqlText] in
/-- A comparison with the identifier on either side names it by its value. -/
theorem column_of_comparison {left right : Expr} {op : BinaryOperator} {name : String} {c : CmpOp}
    {v : Value F} (h : exprToFilter (.binaryOp left op right) = .ok (.cmp name c v)) :
    ∃ id lit, name = id.value ∧
      (ColumnFirst left right id lit ∨ LiteralFirst left right id lit) := by
  have named : ∀ {c' : CmpOp}, comparisonOp op = some c' →
      ∃ id lit, name = id.value ∧
        (ColumnFirst left right id lit ∨ LiteralFirst left right id lit) := by
    intro c' hop
    obtain ⟨id, lit, _, _, same, order⟩ := comparison_cases hop h
    cases same
    exact ⟨id, lit, rfl, order.imp_right And.left⟩
  cases op with
  | and | or =>
    rw [exprToFilter] at h
    obtain ⟨_, _, h⟩ := bind_eq_ok.mp h
    obtain ⟨_, _, h⟩ := bind_eq_ok.mp h
    cases h
  | eq | notEq | gt | lt | gtEq | ltEq => exact named rfl
  | other => cases h

omit [SqlText] in
/-- Every clause takes the value of an identifier. -/
theorem name_eq_value {id : Ident} {name : String} (read : ReadAs F id name) :
    name = id.value := by
  cases read with
  | left h =>
    obtain ⟨_, _, rfl, ⟨same, _⟩ | ⟨same, _⟩⟩ := column_of_comparison h
    · cases same
      rfl
    · cases same
  | right h =>
    obtain ⟨_, _, rfl, ⟨same, _⟩ | ⟨_, same⟩⟩ := column_of_comparison h
    · cases same
    · cases same
      rfl
  | projection h => exact (Option.some.inj h).symm
  | groupBy h => exact (Option.some.inj h).symm
  | orderBy h =>
    have listed := List.mem_of_mem_filter h
    exact congrArg Prod.fst (List.mem_singleton.mp listed)
  | aggregate h => exact (Except.ok.inj h).symm

omit [SqlText] in
theorem read_by_groupBy (id : Ident) : ReadAs F id id.value := .groupBy rfl

end Names

section Agreement
variable {F : Type} [Float64 F] [FloatText F] [SqlText] {id : Ident}

theorem recordedAs_displayIdent (id : Ident) : RecordedAs F id (SqlText.displayIdent id) := by
  rintro tableName columns ifNotExists query table ns defs planned k column listed rfl
  cases planned
  rw [List.getElem?_map, listed]
  exact ⟨_, rfl⟩

/-- A table with the identifier alone. -/
theorem eq_displayIdent_of_recordedAs {name : String} (recorded : RecordedAs F id name) :
    name = SqlText.displayIdent id := by
  obtain ⟨_, same⟩ := recorded [] [⟨id, .bigInt⟩] false none _ _ _ rfl 0 _ rfl rfl
  cases same
  rfl

theorem foundAs_displayIdent (id : Ident) : FoundAs F id (SqlText.displayIdent id) := by
  rintro tableName columns ifNotExists query table ns defs planned ⟨column, listed, rfl⟩ s
  cases planned
  have recorded : (⟨SqlText.displayIdent column.name, columnType column.dataType, true⟩ : Column) ∈
      (columns.map (fun c => (SqlText.displayIdent c.name, columnType c.dataType))).map
        (fun c => (⟨c.1, c.2, true⟩ : Column)) :=
    List.mem_map_of_mem (List.mem_map_of_mem listed)
  obtain ⟨i, found⟩ := nameIndex_isSome recorded
  refine ⟨_, i, tableMeta_created s _ _ _, ?_⟩
  rw [newMeta_schema]
  exact found

/-- A column is looked for under the name it was created with exactly when it is written
without quotes. -/
theorem column_names_agree_iff [LawfulDisplay] (written : Written id) :
    NamesAgree F id ↔ id.quoteStyle = none := by
  rw [← displayIdent_eq_value_iff written]
  constructor
  · intro agree
    exact (eq_displayIdent_of_recordedAs (agree _ (read_by_groupBy id)).1).symm
  · intro same name read
    obtain rfl := name_eq_value read
    rw [← same]
    exact ⟨recordedAs_displayIdent id, foundAs_displayIdent id⟩

end Agreement

section Quoted

/-- The quotes of the concrete texts stand around the value. -/
instance : LawfulDisplay where
  unquoted := by
    rintro ⟨value, style⟩ h
    cases h
    rfl
  quoted := by
    rintro ⟨value, style⟩ q h -
    cases h
    refine ⟨value.toList, q, ?_, Nat.le_refl _⟩
    change (q.toString ++ value ++ q.toString).toList = _
    simp [Char.toString]

theorem column_names_agree_for_word : NamesAgree Float ⟨"c", none⟩ :=
  (column_names_agree_iff (by rintro q ⟨⟩)).mpr rfl

/-- `CREATE TABLE t ("c" BIGINT)` and then `SELECT "c"`. -/
theorem quoted_column_renamed :
    ¬ ∀ id : Ident, Written id → NamesAgree Float id := by
  intro agree
  have written : Written ⟨"c", some '"'⟩ := by
    rintro q ⟨⟩
    exact List.mem_cons_self
  have recorded := (agree _ written "c" (.projection rfl)).1
  exact absurd (eq_displayIdent_of_recordedAs recorded) (by decide)

end Quoted

end ColumnNames
