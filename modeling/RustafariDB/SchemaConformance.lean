import RustafariDB.StoredRows

/-!
# When stored rows conform to their schema

INSERT takes its rows as they are: neither their number of values nor the variants of
the values are compared with the schema of the table.
-/

namespace SchemaConformance

open Values Catalogs Plans Floats Sessions Execution PlanEffects SessionInvariants StoredRows

variable {F : Type}

/-- Null, or the variant of the declared type. -/
def fits : ColumnType → Value F → Bool
  | _, .null => true
  | .bigInt, .int64 _ => true
  | .double, .float64 _ => true
  | .varchar _, .string _ => true
  | .text, .string _ => true
  | .boolean, .bool _ => true
  | .timestamp, .timestamp _ => true
  | .date, .date _ => true
  | .blob, .bytes _ => true
  | .document, .document _ => true
  | .array _, .array _ => true
  | .vector _, .vector _ => true
  | _, _ => false

/-- One value for each column, of its type. -/
def Conforms (schema : Schema) (row : Row F) : Prop :=
  List.Forall₂ (fun col v => fits col.dataType v = true) schema.columns row.values

/-- In every state of a run the stored rows conform to their schemas, exactly if every row
that an INSERT of the run stores does. -/
theorem rows_conform_iff [Float64 F] [ValueDebug F] (plans : List (PlanNode F)) :
    (∀ done, done <+: plans → AllRows Conforms (runPlans done .new)) ↔
      AllStoreOnly Conforms plans .new :=
  allRows_run sessionValid_new (allRows_new Conforms) plans

/-- A text in an integer column. -/
theorem untyped_row_stored : ¬ ∀ s : SessionState Float, Reachable s → AllRows Conforms s := by
  intro conforming
  have reachable : Reachable (runPlans [.createTable "t" none [("a", .bigInt)],
      .insert "t" none [] [[.string "x"]]] .new : SessionState Float) :=
    reachable_runPlans _ RunFrom.new
  have row := conforming _ reachable ⟨0, 0, "t", .new [⟨"a", .bigInt, true⟩], "row"⟩ rfl
    (.new [.string "x"]) List.mem_cons_self
  cases row with
  | cons fit _ => cases fit

end SchemaConformance
