import RustafariDB.Floats

/-!
# Cell values and rows

`Value` and `Row` of the core crate. A document is the entry list of its
ordered map, sorted by field name. `Value.eq` is the derived `==`: it follows
the float comparison, so it is neither reflexive at NaN nor injective at zero.
-/

namespace Values

open Floats

/-- A UTC instant: whole seconds since the epoch and nanoseconds within the second. -/
structure DateTime where
  secs : Int
  nanos : Nat
  deriving DecidableEq

/-- Milliseconds since the epoch, rounded down. -/
def DateTime.timestampMillis (ts : DateTime) : Int :=
  ts.secs * 1000 + ts.nanos / 1000000

/-- A calendar date, as days since the epoch. -/
structure NaiveDate where
  days : Int
  deriving DecidableEq

/-- Midnight UTC of the date. -/
def NaiveDate.midnight (d : NaiveDate) : DateTime := ⟨d.days * 86400, 0⟩

inductive Value (F : Type) where
  | null
  | bool (b : Bool)
  | int64 (i : Int64)
  | float64 (x : F)
  | string (s : String)
  | bytes (b : List UInt8)
  | timestamp (ts : DateTime)
  | date (d : NaiveDate)
  | document (fields : List (String × Value F))
  | array (items : List (Value F))
  | vector (xs : List Float32)

variable {F : Type}

def Value.isNull : Value F → Bool
  | .null => true
  | _ => false

mutual

/-- The derived equality of values. -/
def Value.eq [Float64 F] : Value F → Value F → Bool
  | .null, .null => true
  | .bool a, .bool b => a == b
  | .int64 a, .int64 b => a == b
  | .float64 a, .float64 b => Float64.beq a b
  | .string a, .string b => a == b
  | .bytes a, .bytes b => a == b
  | .timestamp a, .timestamp b => a == b
  | .date a, .date b => a == b
  | .document a, .document b => fieldsEq a b
  | .array a, .array b => itemsEq a b
  | .vector a, .vector b => a == b
  | _, _ => false

def fieldsEq [Float64 F] : List (String × Value F) → List (String × Value F) → Bool
  | [], [] => true
  | (k, v) :: a, (l, w) :: b => k == l && Value.eq v w && fieldsEq a b
  | _, _ => false

def itemsEq [Float64 F] : List (Value F) → List (Value F) → Bool
  | [], [] => true
  | v :: a, w :: b => Value.eq v w && itemsEq a b
  | _, _ => false

end

/-- A row is a list of values aligned with a schema. -/
structure Row (F : Type) where
  values : List (Value F)

namespace Row

def new (values : List (Value F)) : Row F := ⟨values⟩

def get (row : Row F) (index : Nat) : Option (Value F) := row.values[index]?

@[simp] theorem get_new (values : List (Value F)) (i : Nat) :
    (Row.new values).get i = values[i]? := rfl

end Row

/-- The derived `Debug` rendering of a value. -/
class ValueDebug (F : Type) where
  debug : Value F → String

/-- The rendering of Null, booleans, integers and strings without escapes. -/
def debugPlain : Value F → String
  | .null => "Null"
  | .bool b => "Bool(" ++ toString b ++ ")"
  | .int64 i => "Int64(" ++ toString i.toInt ++ ")"
  | .string s => "String(\"" ++ s ++ "\")"
  | _ => ""

/-- Concrete runs group by plain values only. -/
instance : ValueDebug Float := ⟨debugPlain⟩

instance : ValueDebug ExactFloat := ⟨debugPlain⟩

/-- The errors the modelled code returns, with their messages. -/
inductive RustafariError where
  | tableNotFound (name : String)
  | parse (message : String)
  | execution (message : String)
  | storage (message : String)
  | index (message : String)
  deriving DecidableEq

end Values
