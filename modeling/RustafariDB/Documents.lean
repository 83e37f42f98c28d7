import RustafariDB.OrderedMaps
import RustafariDB.DocumentFilters

/-!
# Documents

`lib.rs` of the document crate: the conversion of a document, a map ordered by field name,
to a row. Its `json_to_value` asks a number for an `i64` and then for an `f64`; the one of
the filters does the same in fewer branches.
-/

namespace Documents

open Std Floats Values DocumentFilters

variable {F : Type} [Float64 F]

section Conversion

omit [Float64 F] in
/-- `Number::as_i64`: an integer in range. -/
def asI64 : JsonNumber F → Option Int64
  | .posInt n => if n < 9223372036854775808 then some (Int64.ofNat n) else none
  | .negInt i => some i
  | .float _ => none

/-- `Number::as_f64`, which no number refuses. -/
def asF64 : JsonNumber F → Option F
  | .posInt n => some (Float64.ofInt n)
  | .negInt i => some (Float64.ofInt i.toInt)
  | .float x => some x

protected def numberToValue (n : JsonNumber F) : Value F :=
  match asI64 n with
  | some i => .int64 i
  | none =>
    match asF64 n with
    | some f => .float64 f
    | none => .float64 ((asF64 n).getD Float64.zero)

mutual

/-- `json_to_value`. It never fails. -/
protected def jsonToValue : Json F → Value F
  | .null => .null
  | .bool b => .bool b
  | .number n => Documents.numberToValue n
  | .string s => .string s
  | .array items => .array (Documents.itemsToValue items)
  | .object entries => .document (Documents.entriesToValue entries)

protected def itemsToValue : List (Json F) → List (Value F)
  | [] => []
  | item :: rest => Documents.jsonToValue item :: Documents.itemsToValue rest

protected def entriesToValue : List (String × Json F) → List (String × Value F)
  | [] => []
  | (k, v) :: rest => (k, Documents.jsonToValue v) :: Documents.entriesToValue rest

end

abbrev Document (F : Type) := ExtTreeMap String (Json F)

/-- The values of a document in the order of its map. -/
def docToRow (doc : Document F) : Row F :=
  .new (doc.toList.map (fun e => Documents.jsonToValue e.2))

/-- A document stored field by field, as a filter reads it. -/
def storedField (doc : Document F) (name : String) : Option (Value F) :=
  doc[name]?.map Documents.jsonToValue

end Conversion

section Agreement

theorem numberToValue_eq (n : JsonNumber F) :
    Documents.numberToValue n = DocumentFilters.numberToValue n := by
  cases n with
  | posInt n =>
    rw [Documents.numberToValue, asI64, DocumentFilters.numberToValue]
    by_cases small : n < 9223372036854775808
    · rw [if_pos small, if_pos small]
    · rw [if_neg small, if_neg small]
      rfl
  | negInt i => rfl
  | float x => rfl

mutual

/-- The two conversions agree on every JSON value. -/
theorem jsonToValue_eq : ∀ j : Json F, Documents.jsonToValue j = DocumentFilters.jsonToValue j
  | .null => rfl
  | .bool _ => rfl
  | .number n => numberToValue_eq n
  | .string _ => rfl
  | .array items => congrArg Value.array (itemsToValue_eq items)
  | .object entries => congrArg Value.document (entriesToValue_eq entries)

theorem itemsToValue_eq : ∀ items : List (Json F),
    Documents.itemsToValue items = DocumentFilters.itemsToValue items
  | [] => rfl
  | item :: rest => by
    rw [Documents.itemsToValue, DocumentFilters.itemsToValue, jsonToValue_eq item,
      itemsToValue_eq rest]

theorem entriesToValue_eq : ∀ entries : List (String × Json F),
    Documents.entriesToValue entries = DocumentFilters.entriesToValue entries
  | [] => rfl
  | (k, v) :: rest => by
    rw [Documents.entriesToValue, DocumentFilters.entriesToValue, jsonToValue_eq v,
      entriesToValue_eq rest]

end

end Agreement

end Documents
