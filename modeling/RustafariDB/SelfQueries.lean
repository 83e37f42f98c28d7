import RustafariDB.Documents
import RustafariDB.FilterSplits
import RustafariDB.OperatorObjects

/-!
# Queries for a stored field

A document stored field by field is found by the value of a field under `$eq`, and without
the operator if the value is not an object. The filter reads an object as an operator
object, and the object that is stored never satisfies its own operand: it contains it.
-/

namespace SelfQueries

open Floats Values DocumentFilters OperatorObjects FilterSplits Documents

variable {F : Type} [Float64 F]

section Numbers

/-- The numbers in a JSON value. -/
inductive NumberIn : Json F → JsonNumber F → Prop where
  | self (n : JsonNumber F) : NumberIn (.number n) n
  | item {items : List (Json F)} {item : Json F} {n : JsonNumber F} (inside : item ∈ items)
      (h : NumberIn item n) : NumberIn (.array items) n
  | field {entries : List (String × Json F)} {k : String} {v : Json F} {n : JsonNumber F}
      (inside : (k, v) ∈ entries) (h : NumberIn v n) : NumberIn (.object entries) n

/-- JSON has no text for NaN: every number equals itself. -/
def Numeric (d : Json F) : Prop :=
  ∀ n, NumberIn d n → ∀ x, asF64 n = some x → Float64.beq x x = true

theorem numberToValue_self {n : JsonNumber F}
    (numeric : ∀ x, asF64 n = some x → Float64.beq x x = true) :
    Value.eq (DocumentFilters.numberToValue n) (DocumentFilters.numberToValue n) = true := by
  cases n with
  | posInt n =>
    rw [DocumentFilters.numberToValue]
    by_cases small : n < 9223372036854775808
    · rw [if_pos small]
      exact beq_self_eq_true _
    · rw [if_neg small]
      exact numeric _ rfl
  | negInt i => exact beq_self_eq_true i
  | float x => exact numeric x rfl

mutual

/-- The value of JSON without NaN equals itself. -/
theorem jsonToValue_self : ∀ d : Json F, Numeric d →
    Value.eq (jsonToValue d) (jsonToValue d) = true
  | .null, _ => rfl
  | .bool b, _ => beq_self_eq_true b
  | .number n, numeric => numberToValue_self (numeric n (.self n))
  | .string s, _ => beq_self_eq_true s
  | .array items, numeric =>
    itemsToValue_self items (fun _ inside n h => numeric n (.item inside h))
  | .object entries, numeric =>
    entriesToValue_self entries (fun _ _ inside n h => numeric n (.field inside h))

theorem itemsToValue_self : ∀ items : List (Json F), (∀ item ∈ items, Numeric item) →
    itemsEq (itemsToValue items) (itemsToValue items) = true
  | [], _ => rfl
  | item :: rest, numeric => by
    obtain ⟨first, others⟩ := List.forall_mem_cons.mp numeric
    rw [itemsToValue, itemsEq, jsonToValue_self item first, itemsToValue_self rest others]
    rfl

theorem entriesToValue_self : ∀ entries : List (String × Json F),
    (∀ k v, (k, v) ∈ entries → Numeric v) →
      fieldsEq (entriesToValue entries) (entriesToValue entries) = true
  | [], _ => rfl
  | (k, v) :: rest, numeric => by
    rw [entriesToValue, fieldsEq, beq_self_eq_true, jsonToValue_self v (numeric k v
      List.mem_cons_self), entriesToValue_self rest (fun k' v' inside => numeric k' v'
      (List.mem_cons_of_mem _ inside))]
    rfl

end

end Numbers

section Depth

mutual

/-- How deep documents and arrays are nested in a value. -/
def depth : Value F → Nat
  | .document fields => fieldsDepth fields + 1
  | .array items => itemsDepth items + 1
  | _ => 0

def fieldsDepth : List (String × Value F) → Nat
  | [] => 0
  | (_, v) :: rest => max (depth v) (fieldsDepth rest)

def itemsDepth : List (Value F) → Nat
  | [] => 0
  | v :: rest => max (depth v) (itemsDepth rest)

end

mutual

/-- Equal values are nested equally deep. -/
theorem depth_eq : ∀ a b : Value F, Value.eq a b = true → depth a = depth b
  | .document xs, b, same => by
    cases b with
    | document ys => exact congrArg (· + 1) (fieldsDepth_eq xs ys same)
    | _ => cases same
  | .array xs, b, same => by
    cases b with
    | array ys => exact congrArg (· + 1) (itemsDepth_eq xs ys same)
    | _ => cases same
  | .null, b, same | .bool _, b, same | .int64 _, b, same | .float64 _, b, same
  | .string _, b, same | .bytes _, b, same | .timestamp _, b, same | .date _, b, same
  | .vector _, b, same => by
    cases b with
    | document | array => cases same
    | _ => rfl

theorem fieldsDepth_eq : ∀ xs ys : List (String × Value F), fieldsEq xs ys = true →
    fieldsDepth xs = fieldsDepth ys
  | [], [], _ => rfl
  | [], _ :: _, same => by cases same
  | (_, _) :: _, [], same => by cases same
  | (k, v) :: xs, (l, w) :: ys, same => by
    rw [fieldsEq, Bool.and_eq_true, Bool.and_eq_true] at same
    rw [fieldsDepth, fieldsDepth, depth_eq v w same.1.2, fieldsDepth_eq xs ys same.2]

theorem itemsDepth_eq : ∀ xs ys : List (Value F), itemsEq xs ys = true →
    itemsDepth xs = itemsDepth ys
  | [], [], _ => rfl
  | [], _ :: _, same => by cases same
  | _ :: _, [], same => by cases same
  | v :: xs, w :: ys, same => by
    rw [itemsEq, Bool.and_eq_true] at same
    rw [itemsDepth, itemsDepth, depth_eq v w same.1, itemsDepth_eq xs ys same.2]

end

omit [Float64 F] in
theorem depth_of_field {fields : List (String × Value F)} {k : String} {v : Value F}
    (inside : (k, v) ∈ fields) : depth v < depth (.document fields) := by
  induction fields with
  | nil => cases inside
  | cons e rest ih =>
    obtain ⟨l, w⟩ := e
    rw [depth, fieldsDepth]
    rcases List.mem_cons.mp inside with same | later
    · cases same
      omega
    · have below := ih later
      rw [depth] at below
      omega

omit [Float64 F] in
theorem depth_of_item {items : List (Value F)} {v : Value F} (inside : v ∈ items) :
    depth v < depth (.array items) := by
  induction items with
  | nil => cases inside
  | cons w rest ih =>
    rw [depth, itemsDepth]
    rcases List.mem_cons.mp inside with same | later
    · cases same
      omega
    · have below := ih later
      rw [depth] at below
      omega

theorem eq_false_of_depth {a b : Value F} (deeper : depth a ≠ depth b) : Value.eq a b = false :=
  Bool.eq_false_iff.mpr (fun same => deeper (depth_eq a b same))

/-- A document with a value in it passes `$ne` and `$nin` of that value and nothing else. -/
theorem cmpMatch_inner {op : FilterOp} {fields : List (String × Value F)} {k : String}
    {inner : Value F} (inside : (k, inner) ∈ fields) :
    cmpMatch op (.document fields) inner = true ↔ op = .ne ∨ op = .nin := by
  have outer := depth_of_field inside
  have differs : Value.eq (.document fields) inner = false := eq_false_of_depth (by omega)
  have unlisted (items : List (Value F)) (listed : inner = .array items) :
      items.any (fun v => Value.eq v (.document fields)) = false := by
    rw [List.any_eq_false]
    intro v member
    have below := depth_of_item member
    rw [← listed] at below
    exact Bool.eq_false_iff.mp (eq_false_of_depth (by omega))
  cases op with
  | eq => simp only [cmpMatch, differs, Bool.false_eq_true, reduceCtorEq, or_self]
  | ne => simp only [cmpMatch, differs, Bool.not_false, true_or]
  | gt | gte | lt | lte => exact iff_of_false Bool.false_ne_true (by decide)
  | in_ =>
    refine iff_of_false ?_ (by decide)
    cases inner with
    | array items =>
      rw [cmpMatch, unlisted items rfl]
      exact Bool.false_ne_true
    | _ => exact Bool.false_ne_true
  | nin =>
    refine iff_of_true ?_ (by decide)
    cases inner with
    | array items =>
      rw [cmpMatch, unlisted items rfl]
      rfl
    | _ => rfl

end Depth

section Queries
variable {doc : Document F} {k : String} {d : Json F}

/-- The object is accepted as a filter and matches the document. -/
def Found (doc : Document F) (obj : List (String × Json F)) : Prop :=
  ∃ f, filterFromJson obj = .ok f ∧ matchesFilter (storedField doc) f = true

theorem found_iff (named : isOperatorKey k = false) (v : Json F) :
    Found doc [(k, v)] ↔
      ∃ c, fieldCondition k v = .ok c ∧ matchesCondition (storedField doc) c = true := by
  rw [Found]
  simp only [← answer_eq_some, answer_single, entryFromJson_field named]
  cases fieldCondition k v with
  | error e =>
    refine iff_of_false ?_ ?_
    · rintro ⟨⟩
    · rintro ⟨_, ⟨⟩, _⟩
  | ok c =>
    constructor
    · intro h
      exact ⟨c, rfl, Option.some.inj h⟩
    · rintro ⟨_, ⟨⟩, holds⟩
      exact congrArg some holds

theorem holds_stored (stored : doc[k]? = some d) (op : FilterOp) (value : Value F) :
    matchesCondition (storedField doc) (.cmp k op value) = true ↔
      cmpMatch op (jsonToValue d) value = true := by
  have field : storedField doc k = some (jsonToValue d) := by
    rw [storedField, stored, Option.map_some, jsonToValue_eq]
  rw [matches_cmp]
  constructor
  · rintro ⟨fv, hfv, holds⟩
    cases field.symm.trans hfv
    exact holds
  · intro holds
    exact ⟨_, field, holds⟩

/-- A value that is not an object is compared with the stored one. -/
theorem found_plain (stored : doc[k]? = some d) (named : isOperatorKey k = false) {v : Json F}
    (plain : ∀ entries, v ≠ .object entries) :
    Found doc [(k, v)] ↔ Value.eq (jsonToValue d) (jsonToValue v) = true := by
  have parsed : fieldCondition k v = .ok (.cmp k .eq (jsonToValue v)) := by
    cases v with
    | object entries => exact absurd rfl (plain entries)
    | _ => rfl
  rw [found_iff named, parsed]
  constructor
  · rintro ⟨_, ⟨⟩, holds⟩
    exact (holds_stored stored _ _).mp holds
  · intro same
    exact ⟨_, rfl, (holds_stored stored .eq _).mpr same⟩

/-- An object is read as an operator with its operand. -/
theorem found_operator (stored : doc[k]? = some d) (named : isOperatorKey k = false)
    (entries : List (String × Json F)) :
    Found doc [(k, .object entries)] ↔ ∃ op inner, chosenOperator entries = some (op, inner) ∧
      cmpMatch op (jsonToValue d) (jsonToValue inner) = true := by
  rw [found_iff named, fieldCondition]
  cases chosenOperator entries with
  | none =>
    refine iff_of_false ?_ ?_
    · rintro ⟨_, ⟨⟩, _⟩
    · rintro ⟨_, _, ⟨⟩, _⟩
  | some taken =>
    constructor
    · rintro ⟨_, ⟨⟩, holds⟩
      exact ⟨taken.1, taken.2, rfl, (holds_stored stored _ _).mp holds⟩
    · rintro ⟨_, _, ⟨⟩, holds⟩
      exact ⟨_, rfl, (holds_stored stored _ _).mpr holds⟩

theorem mem_entriesToValue {entries : List (String × Json F)} {key : String} {inner : Json F}
    (listed : (key, inner) ∈ entries) : (key, jsonToValue inner) ∈ entriesToValue entries := by
  induction entries with
  | nil => cases listed
  | cons e rest ih =>
    obtain ⟨l, w⟩ := e
    rw [entriesToValue]
    rcases List.mem_cons.mp listed with same | later
    · cases same
      exact List.mem_cons_self
    · exact List.mem_cons_of_mem _ (ih later)

/-- The two conversions agree. A stored field is found by its value under `$eq`, and by its
value alone if that is not an object. An object alone is an operator object, and finds the
field that holds it exactly if the operator taken from it is `$ne` or `$nin`. -/
theorem document_finds_itself (doc : Document F) (k : String) (d : Json F)
    (stored : doc[k]? = some d) (numeric : Numeric d) (named : isOperatorKey k = false) :
    (∀ j : Json F, Documents.jsonToValue j = DocumentFilters.jsonToValue j) ∧
      Found doc [(k, .object [("$eq", d)])] ∧
      ((∀ entries, d ≠ .object entries) → Found doc [(k, d)]) ∧
      ∀ entries, d = .object entries → (Found doc [(k, d)] ↔
        ∃ op inner, chosenOperator entries = some (op, inner) ∧ (op = .ne ∨ op = .nin)) := by
  have same := jsonToValue_self d numeric
  refine ⟨jsonToValue_eq, ?_, ?_, ?_⟩
  · exact (found_operator stored named _).mpr ⟨.eq, d, rfl, same⟩
  · exact fun plain => (found_plain stored named plain).mpr same
  · rintro entries rfl
    have inner {op : FilterOp} {v : Json F} (chosen : chosenOperator entries = some (op, v)) :
        cmpMatch op (jsonToValue (.object entries)) (jsonToValue v) = true ↔
          op = .ne ∨ op = .nin := by
      obtain ⟨key, listed, _⟩ := chosen_listed chosen
      exact cmpMatch_inner (mem_entriesToValue listed)
    rw [found_operator stored named]
    constructor
    · rintro ⟨op, v, chosen, holds⟩
      exact ⟨op, v, chosen, (inner chosen).mp holds⟩
    · rintro ⟨op, v, chosen, negative⟩
      exact ⟨op, v, chosen, (inner chosen).mpr negative⟩

/-- An object with a field that is not an operator. -/
def innerObject : Json ExactFloat := .object [("b", .number (.posInt 1))]

theorem innerObject_numeric : Numeric innerObject := by
  rintro n inside x hx
  cases inside with
  | field listed h =>
    cases List.mem_singleton.mp listed
    cases h
    cases hx
    decide

theorem document_finds_itself_nested :
    Found ((∅ : Document ExactFloat).insert "a" innerObject)
      [("a", .object [("$eq", innerObject)])] :=
  (document_finds_itself _ "a" innerObject Std.ExtTreeMap.getElem?_insert_self
    innerObject_numeric rfl).2.1

/-- The object itself is no filter: `b` is not an operator. -/
theorem object_not_found :
    ¬ ∀ (doc : Document ExactFloat) (k : String) (d : Json ExactFloat), doc[k]? = some d →
      Numeric d → Found doc [(k, d)] := by
  intro found
  obtain ⟨f, parsed, _⟩ := found ((∅ : Document ExactFloat).insert "a" innerObject) "a" innerObject
    Std.ExtTreeMap.getElem?_insert_self innerObject_numeric
  have failed :
      filterFromJson [("a", innerObject)] = .error (.parse "unknown operator in field") := rfl
  cases failed.symm.trans parsed

end Queries

end SelfQueries
