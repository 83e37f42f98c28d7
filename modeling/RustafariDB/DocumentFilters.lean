import RustafariDB.Values

/-!
# Document filters

`filter.rs`: the filter DSL over JSON objects, its parser and its evaluation. An object
is the list of its entries in the order in which the parser meets them. The parser
takes one operator from an operator object, the first of a fixed order that is there.
-/

namespace DocumentFilters

open Values Floats

/-- A JSON number: an integer outside `i64` is still exact. -/
inductive JsonNumber (F : Type) where
  | posInt (n : Nat)
  | negInt (i : Int64)
  | float (x : F)

inductive Json (F : Type) where
  | null
  | bool (b : Bool)
  | number (n : JsonNumber F)
  | string (s : String)
  | array (items : List (Json F))
  | object (entries : List (String × Json F))

inductive FilterOp where
  | eq
  | ne
  | gt
  | gte
  | lt
  | lte
  | in_
  | nin
  deriving DecidableEq

mutual

/-- Top-level filter: AND of conditions (or single condition). -/
inductive DocFilter (F : Type) where
  | mk (conditions : List (FilterCondition F))

inductive FilterCondition (F : Type) where
  | cmp (field : String) (op : FilterOp) (value : Value F)
  | and (subs : List (DocFilter F))
  | or (subs : List (DocFilter F))
  | not (sub : DocFilter F)

end

section Parsing
variable {F : Type} [Float64 F]

/-- `as_i64`, and otherwise `as_f64`. -/
def numberToValue : JsonNumber F → Value F
  | .posInt n =>
    if n < 9223372036854775808 then .int64 (Int64.ofNat n) else .float64 (Float64.ofInt n)
  | .negInt i => .int64 i
  | .float x => .float64 x

mutual

/-- `json_to_value`. It never fails. -/
def jsonToValue : Json F → Value F
  | .null => .null
  | .bool b => .bool b
  | .number n => numberToValue n
  | .string s => .string s
  | .array items => .array (itemsToValue items)
  | .object entries => .document (entriesToValue entries)

def itemsToValue : List (Json F) → List (Value F)
  | [] => []
  | item :: rest => jsonToValue item :: itemsToValue rest

def entriesToValue : List (String × Json F) → List (String × Value F)
  | [] => []
  | (k, v) :: rest => (k, jsonToValue v) :: entriesToValue rest

end

/-- The operators of an operator object, in the order in which the parser tries them. -/
def operatorOrder : List (String × FilterOp) :=
  [("$eq", .eq), ("$ne", .ne), ("$gt", .gt), ("$gte", .gte), ("$lt", .lt), ("$lte", .lte),
    ("$in", .in_), ("$nin", .nin)]

/-- The operator taken from an operator object, with its operand. -/
def chosenOperator (entries : List (String × Json F)) : Option (FilterOp × Json F) :=
  operatorOrder.findSome? (fun o => (entries.lookup o.1).map (fun inner => (o.2, inner)))

/-- `{ field: value }` or `{ field: { $op: value } }`. -/
def fieldCondition (field : String) (v : Json F) : Except RustafariError (FilterCondition F) :=
  match v with
  | .object entries =>
    match chosenOperator entries with
    | some (op, inner) => .ok (.cmp field op (jsonToValue inner))
    | none => .error (.parse "unknown operator in field")
  | v => .ok (.cmp field .eq (jsonToValue v))

def isOperatorKey (k : String) : Bool := k.toList.head? == some '$'

mutual

/-- The entries of a filter object, each a condition. -/
def conditionsFromJson :
    List (String × Json F) → Except RustafariError (List (FilterCondition F))
  | [] => .ok []
  | (k, v) :: rest => do
    let c ← entryFromJson k v
    let cs ← conditionsFromJson rest
    return c :: cs

/-- One entry: a combination of filters, or a condition on a field. -/
def entryFromJson (k : String) (v : Json F) : Except RustafariError (FilterCondition F) :=
  if k = "$and" then
    match v with
    | .array items => (subFilters "$and element must be object" items).map .and
    | _ => .error (.parse "$and must be array")
  else if k = "$or" then
    match v with
    | .array items => (subFilters "$or element must be object" items).map .or
    | _ => .error (.parse "$or must be array")
  else if k = "$not" then
    match v with
    | .object entries => (conditionsFromJson entries).map (fun cs => .not (.mk cs))
    | _ => .error (.parse "$not must be object")
  else if isOperatorKey k then .error (.parse ("unknown operator " ++ k))
  else fieldCondition k v

/-- The elements of `$and` and `$or`. -/
def subFilters (message : String) :
    List (Json F) → Except RustafariError (List (DocFilter F))
  | [] => .ok []
  | .object entries :: rest => do
    let cs ← conditionsFromJson entries
    let subs ← subFilters message rest
    return .mk cs :: subs
  | _ :: _ => .error (.parse message)

end

def filterFromJson (obj : List (String × Json F)) : Except RustafariError (DocFilter F) :=
  (conditionsFromJson obj).map .mk

end Parsing

section Matching
variable {F : Type} [Float64 F]

protected def compare (a b : Value F) : Option Ordering :=
  match a, b with
  | .int64 x, .int64 y => some (Ord.compare x y)
  | .float64 x, .float64 y => Float64.partialCmp x y
  | .string x, .string y => some (Ord.compare x y)
  | _, _ => none

def cmpMatch (op : FilterOp) (fieldVal cond : Value F) : Bool :=
  match op with
  | .eq => Value.eq fieldVal cond
  | .ne => !Value.eq fieldVal cond
  | .gt => ((DocumentFilters.compare fieldVal cond).map (fun c => c == .gt)).getD false
  | .gte => ((DocumentFilters.compare fieldVal cond).map (fun c => c != .lt)).getD false
  | .lt => ((DocumentFilters.compare fieldVal cond).map (fun c => c == .lt)).getD false
  | .lte => ((DocumentFilters.compare fieldVal cond).map (fun c => c != .gt)).getD false
  | .in_ =>
    match cond with
    | .array items => items.any (fun v => Value.eq v fieldVal)
    | _ => false
  | .nin =>
    match cond with
    | .array items => !items.any (fun v => Value.eq v fieldVal)
    | _ => true

mutual

/-- Evaluate a filter against the fields of a row. -/
def matchesFilter (getField : String → Option (Value F)) : DocFilter F → Bool
  | .mk conditions => matchesAll getField conditions

/-- The loop over the conditions, which leaves at the first that fails. -/
def matchesAll (getField : String → Option (Value F)) : List (FilterCondition F) → Bool
  | [] => true
  | c :: rest => matchesCondition getField c && matchesAll getField rest

def matchesCondition (getField : String → Option (Value F)) : FilterCondition F → Bool
  | .cmp field op value =>
    match getField field with
    | none => false
    | some fv => cmpMatch op fv value
  | .and subs => matchesEvery getField subs
  | .or subs => matchesAny getField subs
  | .not sub => !matchesFilter getField sub

def matchesEvery (getField : String → Option (Value F)) : List (DocFilter F) → Bool
  | [] => true
  | f :: rest => matchesFilter getField f && matchesEvery getField rest

def matchesAny (getField : String → Option (Value F)) : List (DocFilter F) → Bool
  | [] => false
  | f :: rest => matchesFilter getField f || matchesAny getField rest

end

end Matching

end DocumentFilters
