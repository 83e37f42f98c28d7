/-!
# The parsed statements

What the planner reads of the `sqlparser` syntax tree, and beside it the parts of a
statement that it takes over without looking at them. Expression forms the planner has
no case for are `other`, with the expressions they contain.
-/

namespace SqlSyntax

structure Ident where
  value : String
  quoteStyle : Option Char
  deriving DecidableEq

abbrev ObjectName := List Ident

/-- A literal, with the text of a number as it was written. -/
inductive SqlValue where
  | number (digits : String)
  | singleQuotedString (s : String)
  | boolean (b : Bool)
  | null
  | unQuotedString (s : String)
  | other
  deriving DecidableEq

inductive BinaryOperator where
  | and
  | or
  | eq
  | notEq
  | gt
  | lt
  | gtEq
  | ltEq
  | other
  deriving DecidableEq

section Calls
variable (E : Type)

inductive FunctionArgExpr where
  | expr (e : E)
  | qualifiedWildcard (name : ObjectName)
  | wildcard

inductive FunctionArg where
  | unnamed (arg : FunctionArgExpr E)
  | named (name : Ident) (arg : FunctionArgExpr E)

/-- A call; `overWindow` holds the expressions of its window. -/
structure Function where
  name : ObjectName
  args : List (FunctionArg E)
  distinct : Bool
  filter : Option E
  overWindow : Option (List E)

end Calls

inductive Expr where
  | identifier (id : Ident)
  | value (v : SqlValue)
  | binaryOp (left : Expr) (op : BinaryOperator) (right : Expr)
  | nested (inner : Expr)
  | function (f : Function Expr)
  | other (operands : List Expr)

inductive SelectItem where
  | unnamedExpr (e : Expr)
  | exprWithAlias (e : Expr) (name : Ident)
  | qualifiedWildcard (name : ObjectName)
  | wildcard

inductive GroupByExpr where
  | all
  | expressions (exprs : List Expr)

/-- An ORDER BY item; without a direction it is ascending. -/
structure OrderByExpr where
  expr : Expr
  asc : Option Bool

inductive TableFactor where
  | table (name : ObjectName)
  | other

structure TableWithJoins where
  relation : TableFactor
  joins : List TableFactor

inductive Distinct where
  | distinct
  | on (exprs : List Expr)

structure Select where
  distinct : Option Distinct
  projection : List SelectItem
  fromItems : List TableWithJoins
  selection : Option Expr
  groupBy : GroupByExpr
  having : Option Expr

inductive SetExpr where
  | select (sel : Select)
  | values (rows : List (List Expr))
  | other

structure Query where
  body : SetExpr
  orderBy : List OrderByExpr
  limit : Option Expr
  offset : Option Expr

inductive DataType where
  | bigInt
  | doublePrecision
  | boolean
  | varchar
  | text
  | timestamp
  | date
  | blob
  | other
  deriving DecidableEq

structure ColumnDef where
  name : Ident
  dataType : DataType

inductive ObjectType where
  | table
  | other
  deriving DecidableEq

inductive Statement where
  | query (q : Query)
  | insert (tableName : ObjectName) (columns : List Ident) (source : Option Query)
  | createTable (name : ObjectName) (columns : List ColumnDef) (ifNotExists : Bool)
      (query : Option Query)
  | drop (objectType : ObjectType) (ifExists : Bool) (names : List ObjectName)
  | explainTable (tableName : ObjectName)
  | other

/-- A call occurs in an expression, also inside the arguments of another call. -/
inductive Calls : Expr → Function Expr → Prop where
  | self (f : Function Expr) : Calls (.function f) f
  | left {l r : Expr} {op : BinaryOperator} {f} (h : Calls l f) : Calls (.binaryOp l op r) f
  | right {l r : Expr} {op : BinaryOperator} {f} (h : Calls r f) : Calls (.binaryOp l op r) f
  | nested {e : Expr} {f} (h : Calls e f) : Calls (.nested e) f
  | arg {g f : Function Expr} {e : Expr} (inside : .unnamed (.expr e) ∈ g.args)
      (h : Calls e f) : Calls (.function g) f
  | namedArg {g f : Function Expr} {name : Ident} {e : Expr}
      (inside : .named name (.expr e) ∈ g.args) (h : Calls e f) : Calls (.function g) f
  | filter {g f : Function Expr} {e : Expr} (holds : g.filter = some e) (h : Calls e f) :
      Calls (.function g) f
  | window {g f : Function Expr} {es : List Expr} {e : Expr} (holds : g.overWindow = some es)
      (inside : e ∈ es) (h : Calls e f) : Calls (.function g) f
  | operand {es : List Expr} {e : Expr} {f} (inside : e ∈ es) (h : Calls e f) :
      Calls (.other es) f

end SqlSyntax
