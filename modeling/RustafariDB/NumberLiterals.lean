import Mathlib.Algebra.Order.Field.Rat
import Mathlib.Tactic.NormNum
import RustafariDB.SqlPlanning

/-!
# Numbers as they are written

A number token is digits with an optional point and an optional exponent. A literal with a
point is read as a float, any other as an `i64`, and a LIMIT or OFFSET as a `u64`; what the
reader does not accept becomes zero.
-/

namespace NumberLiterals

open Values Plans Floats SqlSyntax SqlPlanning

section Tokens

/-- The letter, an optional sign (`true` is minus) and at least one digit. -/
structure Exponent where
  capital : Bool
  sign : Option Bool
  digits : List (Fin 10)
  written : digits ≠ []

/-- A number as the tokenizer cuts it out: some digit stands before or after the point. -/
structure NumberToken where
  whole : List (Fin 10)
  fraction : Option (List (Fin 10))
  exponent : Option Exponent
  written : whole ++ fraction.getD [] ≠ []

def digitChar (d : Fin 10) : Char := Nat.digitChar d

def decimal (digits : List (Fin 10)) : Nat := digits.foldl (fun n d => 10 * n + d.val) 0

def signText : Option Bool → List Char
  | none => []
  | some true => ['-']
  | some false => ['+']

def Exponent.text (e : Exponent) : List Char :=
  (if e.capital then 'E' else 'e') :: (signText e.sign ++ e.digits.map digitChar)

def Exponent.power (e : Exponent) : Int :=
  match e.sign with
  | some true => -decimal e.digits
  | _ => decimal e.digits

namespace NumberToken

def pointText : Option (List (Fin 10)) → List Char
  | none => []
  | some digits => '.' :: digits.map digitChar

def text (tok : NumberToken) : String :=
  .ofList (tok.whole.map digitChar ++ (pointText tok.fraction ++
    (tok.exponent.map Exponent.text).getD []))

/-- The number that is written. -/
def value (tok : NumberToken) : ℚ :=
  decimal (tok.whole ++ tok.fraction.getD []) *
    10 ^ ((tok.exponent.map Exponent.power).getD 0 - (tok.fraction.getD []).length)

/-- Digits only. -/
def Plain (tok : NumberToken) : Prop := tok.fraction = none ∧ tok.exponent = none

end NumberToken

end Tokens

section Digits

theorem isDigit_digitChar : ∀ d : Fin 10, (digitChar d).isDigit = true := by decide

theorem toNat_digitChar : ∀ d : Fin 10, (digitChar d).toNat - '0'.toNat = d := by decide

theorem digitChar_ne : ∀ d : Fin 10, digitChar d ≠ '.' ∧ digitChar d ≠ '+' ∧ digitChar d ≠ '-' := by
  decide

theorem parseDigits_digits {digits : List (Fin 10)} (written : digits ≠ []) :
    parseDigits (digits.map digitChar) = some (decimal digits) := by
  have all : (digits.map digitChar).all Char.isDigit = true := by
    simp [isDigit_digitChar]
  have some_digit : (digits.map digitChar).isEmpty = false := by simpa using written
  rw [parseDigits, if_neg (by simp [all, some_digit]), decimal, List.foldl_map]
  simp only [toNat_digitChar]

/-- One character that is no digit is enough. -/
theorem parseDigits_of_mem {cs : List Char} {c : Char} (inside : c ∈ cs)
    (other : c.isDigit = false) : parseDigits cs = none := by
  have some_other : cs.all Char.isDigit = false := by
    refine Bool.eq_false_iff.mpr (fun all => ?_)
    rw [List.all_eq_true.mp all c inside] at other
    cases other
  rw [parseDigits, if_pos (by simp [some_other])]

variable {tok : NumberToken}

theorem toList_text (tok : NumberToken) :
    tok.text.toList = tok.whole.map digitChar ++ (NumberToken.pointText tok.fraction ++
      (tok.exponent.map Exponent.text).getD []) := String.toList_ofList

/-- A token begins with a digit or with its point. -/
theorem head_text (tok : NumberToken) : ∃ c cs, tok.text.toList = c :: cs ∧ c ≠ '+' ∧ c ≠ '-' := by
  rw [toList_text]
  cases hw : tok.whole with
  | cons d rest => exact ⟨digitChar d, _, rfl, (digitChar_ne d).2⟩
  | nil =>
    cases hf : tok.fraction with
    | some digits => exact ⟨'.', _, rfl, by decide⟩
    | none =>
      have written := tok.written
      rw [hw, hf] at written
      exact absurd rfl written

theorem dot_notMem_digits (digits : List (Fin 10)) : '.' ∉ digits.map digitChar := by
  intro inside
  obtain ⟨d, _, same⟩ := List.mem_map.mp inside
  exact (digitChar_ne d).1 same

theorem dot_notMem_sign (sign : Option Bool) : '.' ∉ signText sign := by
  rcases sign with - | (_ | _) <;> decide

theorem dot_ne_letter : ∀ capital : Bool, '.' ≠ if capital then 'E' else 'e' := by decide

theorem dot_notMem_exponent (e : Exponent) : '.' ∉ e.text := by
  intro inside
  rcases List.mem_cons.mp inside with letter | inside
  · exact dot_ne_letter e.capital letter
  rcases List.mem_append.mp inside with inside | inside
  · exact dot_notMem_sign e.sign inside
  · exact dot_notMem_digits e.digits inside

theorem dot_mem_text (tok : NumberToken) : '.' ∈ tok.text.toList ↔ tok.fraction ≠ none := by
  rw [toList_text]
  cases hf : tok.fraction with
  | some digits => simp [NumberToken.pointText]
  | none =>
    cases tok.exponent with
    | none => simp [NumberToken.pointText, dot_notMem_digits]
    | some e => simp [NumberToken.pointText, dot_notMem_digits, dot_notMem_exponent]

/-- Only the digits of a token without point and exponent can be read as digits. -/
theorem parseDigits_text (tok : NumberToken) :
    (tok.Plain ∧ parseDigits tok.text.toList = some (decimal tok.whole)) ∨
      (¬tok.Plain ∧ parseDigits tok.text.toList = none) := by
  cases hf : tok.fraction with
  | some digits =>
    refine Or.inr ⟨fun plain => ?_, parseDigits_of_mem (c := '.') ?_ rfl⟩
    · cases hf.symm.trans plain.1
    · exact (dot_mem_text tok).mpr (by rw [hf]; simp)
  | none =>
    cases he : tok.exponent with
    | none =>
      have written := tok.written
      rw [hf, Option.getD_none, List.append_nil] at written
      refine Or.inl ⟨⟨hf, he⟩, ?_⟩
      rw [toList_text, hf, he]
      simpa [NumberToken.pointText] using parseDigits_digits written
    | some e =>
      refine Or.inr ⟨fun plain => ?_,
        parseDigits_of_mem (c := if e.capital then 'E' else 'e') ?_ ?_⟩
      · cases he.symm.trans plain.2
      · rw [toList_text, he]
        simp [Exponent.text]
      · cases e.capital <;> rfl

end Digits

section Readers
variable {tok : NumberToken}

/-- Digits alone write a natural number. -/
theorem value_plain (plain : tok.Plain) : tok.value = (decimal tok.whole : ℚ) := by
  rw [NumberToken.value, plain.1, plain.2]
  simp

/-- `str::parse::<i64>` of a token, which has no sign. -/
theorem parseI64_text (tok : NumberToken) :
    parseI64 tok.text = (parseDigits tok.text.toList).bind (fun n =>
      if n < 9223372036854775808 then some (Int64.ofInt n) else none) := by
  obtain ⟨c, cs, letters, notPlus, notMinus⟩ := head_text tok
  rw [parseI64, letters]
  split
  · rename_i same
    exact absurd (List.cons.inj same).1 notMinus
  · rename_i same
    exact absurd (List.cons.inj same).1 notPlus
  · rfl

theorem parseU64_text (tok : NumberToken) :
    parseU64 tok.text = (parseDigits tok.text.toList).bind (fun n =>
      if n ≤ u64Max then some n else none) := by
  obtain ⟨c, cs, letters, notPlus, -⟩ := head_text tok
  rw [parseU64, letters]
  split
  · rename_i same
    exact absurd (List.cons.inj same).1 notPlus
  · rfl

/-- An `i64` is read exactly or not at all. -/
theorem parseI64_exact (tok : NumberToken) :
    (tok.Plain ∧ tok.value < 9223372036854775808 ∧
      ∃ i, parseI64 tok.text = some i ∧ (i.toInt : ℚ) = tok.value) ∨
    (¬(tok.Plain ∧ tok.value < 9223372036854775808) ∧ parseI64 tok.text = none) := by
  rw [parseI64_text]
  rcases parseDigits_text tok with ⟨plain, digits⟩ | ⟨other, none⟩
  · rw [digits, Option.bind_some, value_plain plain]
    by_cases small : decimal tok.whole < 9223372036854775808
    · refine Or.inl ⟨plain, by exact_mod_cast small, _, if_pos small, ?_⟩
      rw [Int64.toInt_ofInt_of_le (by omega) (by omega)]
      rfl
    · refine Or.inr ⟨fun fits => small (by exact_mod_cast fits.2), if_neg small⟩
  · exact Or.inr ⟨fun fits => other fits.1, by rw [none]; rfl⟩

theorem parseU64_exact (tok : NumberToken) :
    (tok.Plain ∧ tok.value ≤ u64Max ∧ ∃ n : Nat, parseU64 tok.text = some n ∧ n = tok.value) ∨
    (¬(tok.Plain ∧ tok.value ≤ u64Max) ∧ parseU64 tok.text = none) := by
  rw [parseU64_text]
  rcases parseDigits_text tok with ⟨plain, digits⟩ | ⟨other, none⟩
  · rw [digits, Option.bind_some, value_plain plain]
    by_cases small : decimal tok.whole ≤ u64Max
    · exact Or.inl ⟨plain, by exact_mod_cast small, _, if_pos small, rfl⟩
    · exact Or.inr ⟨fun fits => small (by exact_mod_cast fits.2), if_neg small⟩
  · exact Or.inr ⟨fun fits => other fits.1, by rw [none]; rfl⟩

end Readers

section Literals
variable {F : Type} [Float64 F] [FloatText F]

/-- An integer that is the number written, a float that is read from its text, or an error. -/
def Reads (tok : NumberToken) : Except RustafariError (Value F) → Prop
  | .error _ => True
  | .ok (.int64 i) => (i.toInt : ℚ) = tok.value
  | .ok (.float64 x) => FloatText.parseF64 tok.text = some x
  | .ok _ => False

theorem reads_pointed {tok : NumberToken} (pointed : tok.fraction ≠ none) :
    Reads tok (exprToValue (.value (.number tok.text)) : Except _ (Value F)) ↔
      (FloatText.parseF64 tok.text : Option F).isSome := by
  rw [exprToValue, literalValue, if_pos ((dot_mem_text tok).mpr pointed), Reads]
  cases (FloatText.parseF64 tok.text : Option F) <;> simp

theorem reads_unpointed {tok : NumberToken} (unpointed : tok.fraction = none) :
    Reads tok (exprToValue (.value (.number tok.text)) : Except _ (Value F)) ↔
      tok.Plain ∧ tok.value < 9223372036854775808 ∨ tok.value = 0 := by
  have noDot : '.' ∉ tok.text.toList := fun inside => (dot_mem_text tok).mp inside unpointed
  rw [exprToValue, literalValue, if_neg noDot, Reads]
  rcases parseI64_exact tok with ⟨plain, small, i, parsed, exact_value⟩ | ⟨misfit, parsed⟩
  · rw [parsed, Option.getD_some]
    exact iff_of_true exact_value (Or.inl ⟨plain, small⟩)
  · rw [parsed, Option.getD_none, or_iff_right misfit, eq_comm]
    simp

/-- A number literal is read as it is written exactly when, with a point, its text is a float
and, without one, it is digits of an `i64` or writes zero. A LIMIT or OFFSET is the number
written exactly when that is digits of a `u64` or writes zero. -/
theorem number_literals_iff (tok : NumberToken) :
    (Reads tok (exprToValue (.value (.number tok.text)) : Except _ (Value F)) ↔
      tok.fraction ≠ none ∧ (FloatText.parseF64 tok.text : Option F).isSome ∨
      tok.fraction = none ∧
        (tok.Plain ∧ tok.value < 9223372036854775808 ∨ tok.value = 0)) ∧
    ((parseLimit (.value (.number tok.text)) : ℚ) = tok.value ↔
      tok.Plain ∧ tok.value ≤ u64Max ∨ tok.value = 0) := by
  constructor
  · by_cases unpointed : tok.fraction = none
    · rw [reads_unpointed unpointed]
      simp [unpointed]
    · rw [reads_pointed unpointed]
      simp [unpointed]
  · rw [parseLimit]
    rcases parseU64_exact tok with ⟨plain, small, n, parsed, exact_value⟩ | ⟨misfit, parsed⟩
    · rw [parsed, Option.getD_some]
      exact iff_of_true exact_value (Or.inl ⟨plain, small⟩)
    · rw [parsed, Option.getD_none, or_iff_right misfit, eq_comm]
      simp

/-- `1e5` -/
def hundredThousand : NumberToken where
  whole := [1]
  fraction := none
  exponent := some ⟨false, none, [5], List.cons_ne_nil 5 []⟩
  written := List.cons_ne_nil 1 []

/-- `1e5` is read as 0. -/
theorem exponent_becomes_zero :
    ¬∀ tok : NumberToken,
      Reads tok (exprToValue (.value (.number tok.text)) : Except _ (Value Float)) ∧
        (parseLimit (.value (.number tok.text)) : ℚ) = tok.value := by
  intro reads
  have limit := (reads hundredThousand).2
  have zero : parseLimit (.value (.number hundredThousand.text)) = 0 := by decide
  rw [zero] at limit
  norm_num [NumberToken.value, hundredThousand, decimal, Exponent.power] at limit

end Literals

end NumberLiterals
