import Mathlib.Data.Option.NAry
import RustafariDB.OperatorObjects

/-!
# Filters entry by entry

A filter object has an answer for a document if it is accepted. The answers of objects
multiply: that of an object is the conjunction of those of its entries, and it has one if
they all have. So the entries can stand in any order, and in parts under `$and`.
-/

namespace FilterSplits

open Floats Values DocumentFilters StatefulPrograms

variable {F : Type} [Float64 F]

section Answers

/-- What a filter object says of a document, if it is accepted. -/
def answer (getField : String → Option (Value F)) (obj : List (String × Json F)) : Option Bool :=
  (filterFromJson obj).toOption.map (matchesFilter getField)

/-- An element of `$and` and `$or`. -/
def elementAnswer (getField : String → Option (Value F)) : Json F → Option Bool
  | .object sub => answer getField sub
  | _ => none

variable {getField : String → Option (Value F)}

theorem answer_eq_some {obj : List (String × Json F)} {b : Bool} :
    answer getField obj = some b ↔
      ∃ f, filterFromJson obj = .ok f ∧ matchesFilter getField f = b := by
  rw [answer]
  cases filterFromJson obj with
  | error e => exact ⟨nofun, fun ⟨_, failed, _⟩ => nomatch failed⟩
  | ok f =>
    constructor
    · intro h
      exact ⟨f, rfl, Option.some.inj h⟩
    · rintro ⟨_, ⟨⟩, rfl⟩
      rfl

theorem isSome_answer (getField : String → Option (Value F)) {obj : List (String × Json F)} :
    (answer getField obj).isSome = true ↔ ∃ f, filterFromJson obj = .ok f := by
  rw [Option.isSome_iff_exists]
  simp only [answer_eq_some]
  exact ⟨fun ⟨_, f, hf, _⟩ => ⟨f, hf⟩, fun ⟨f, hf⟩ => ⟨_, f, hf, rfl⟩⟩

theorem answer_eq (obj : List (String × Json F)) :
    answer getField obj = (conditionsFromJson obj).toOption.map (matchesAll getField) := by
  rw [answer, filterFromJson]
  cases conditionsFromJson obj <;> rfl

/-- The loop of the parser and the loop of the evaluation, in one step. -/
theorem answer_cons (k : String) (v : Json F) (rest : List (String × Json F)) :
    answer getField ((k, v) :: rest) =
      Option.map₂ and ((entryFromJson k v).toOption.map (matchesCondition getField))
        (answer getField rest) := by
  rw [answer_eq, answer_eq, conditionsFromJson]
  cases entryFromJson k v with
  | error e => rfl
  | ok c =>
    cases conditionsFromJson rest with
    | error e => rfl
    | ok cs => rfl

theorem answer_nil : answer getField ([] : List (String × Json F)) = some true := rfl

theorem and_true (a : Option Bool) : Option.map₂ and a (some true) = a := by
  cases a with
  | none => rfl
  | some b => exact congrArg some (Bool.and_true b)

theorem true_and (a : Option Bool) : Option.map₂ and (some true) a = a := by
  cases a with
  | none => rfl
  | some b => rfl

theorem answer_single (k : String) (v : Json F) :
    answer getField [(k, v)] = (entryFromJson k v).toOption.map (matchesCondition getField) := by
  rw [answer_cons, answer_nil, and_true]

theorem answer_append (xs ys : List (String × Json F)) :
    answer getField (xs ++ ys) = Option.map₂ and (answer getField xs) (answer getField ys) := by
  induction xs with
  | nil => exact (true_and _).symm
  | cons e xs ih =>
    obtain ⟨k, v⟩ := e
    rw [List.cons_append, answer_cons, ih, answer_cons, Option.map₂_assoc Bool.and_assoc]

theorem answer_perm {xs ys : List (String × Json F)} (h : xs.Perm ys) :
    answer getField xs = answer getField ys := by
  induction h with
  | nil => rfl
  | cons e _ ih => rw [answer_cons, answer_cons, ih]
  | swap e e' rest =>
    rw [answer_cons, answer_cons, answer_cons, answer_cons,
      Option.map₂_left_comm Bool.and_left_comm]
  | trans _ _ ih ih' => exact ih.trans ih'

end Answers

section Operators
variable {getField : String → Option (Value F)}

theorem entryFromJson_and (items : List (Json F)) : entryFromJson "$and" (.array items) =
    (subFilters "$and element must be object" items).map .and := by
  unfold entryFromJson
  rw [if_pos rfl]

theorem entryFromJson_or (items : List (Json F)) : entryFromJson "$or" (.array items) =
    (subFilters "$or element must be object" items).map .or := by
  unfold entryFromJson
  rw [if_neg (by decide), if_pos rfl]

theorem entryFromJson_not (sub : List (String × Json F)) : entryFromJson "$not" (.object sub) =
    (conditionsFromJson sub).map (fun cs => .not (.mk cs)) := by
  unfold entryFromJson
  rw [if_neg (by decide), if_neg (by decide), if_pos rfl]

/-- The elements of an array are read and then evaluated in a loop, or answered one by one. -/
theorem answer_elements (message : String) {eval : List (DocFilter F) → Bool}
    {op : Bool → Bool → Bool}
    (step : ∀ f rest, eval (f :: rest) = op (matchesFilter getField f) (eval rest))
    (items : List (Json F)) : (subFilters message items).toOption.map eval =
      items.foldr (fun item => Option.map₂ op (elementAnswer getField item)) (some (eval [])) := by
  induction items with
  | nil => rfl
  | cons item rest ih =>
    rw [List.foldr_cons, ← ih]
    cases item with
    | object sub =>
      rw [subFilters, elementAnswer, answer_eq]
      cases conditionsFromJson sub with
      | error e => rfl
      | ok cs =>
        cases subFilters message rest with
        | error e => rfl
        | ok subs => exact congrArg some (step (.mk cs) subs)
    | _ => rfl

theorem answer_and (items : List (Json F)) :
    answer getField [("$and", .array items)] =
      items.foldr (fun item => Option.map₂ and (elementAnswer getField item)) (some true) := by
  have elements : (subFilters "$and element must be object" items).toOption.map
      (matchesEvery getField) = _ := answer_elements _ (fun _ _ => rfl) items
  rw [answer_single, entryFromJson_and]
  refine Eq.trans ?_ elements
  cases subFilters "$and element must be object" items <;> rfl

theorem answer_or (items : List (Json F)) :
    answer getField [("$or", .array items)] =
      items.foldr (fun item => Option.map₂ or (elementAnswer getField item)) (some false) := by
  have elements : (subFilters "$or element must be object" items).toOption.map
      (matchesAny getField) = _ := answer_elements _ (fun _ _ => rfl) items
  rw [answer_single, entryFromJson_or]
  refine Eq.trans ?_ elements
  cases subFilters "$or element must be object" items <;> rfl

theorem answer_not (sub : List (String × Json F)) :
    answer getField [("$not", .object sub)] = (answer getField sub).map not := by
  rw [answer_single, entryFromJson_not, answer_eq]
  cases conditionsFromJson sub <;> rfl

/-- The parts of an object under `$and` say what the object says. -/
theorem answer_split (parts : List (List (String × Json F))) :
    answer getField [("$and", .array (parts.map .object))] = answer getField parts.flatten := by
  rw [answer_and]
  induction parts with
  | nil => rfl
  | cons part parts ih =>
    rw [List.map_cons, List.foldr_cons, ih, elementAnswer, List.flatten_cons, answer_append]

end Operators

section Rearrangement

/-- The entries of an object in another order, in parts under `$and`, or under `$not` twice,
at any depth. -/
inductive Rearranged : List (String × Json F) → List (String × Json F) → Prop where
  | perm {obj obj' : List (String × Json F)} (h : obj.Perm obj') : Rearranged obj obj'
  | split (parts : List (List (String × Json F))) :
      Rearranged parts.flatten [("$and", .array (parts.map .object))]
  | notNot (obj : List (String × Json F)) :
      Rearranged obj [("$not", .object [("$not", .object obj)])]
  | beside {obj obj' : List (String × Json F)} (h : Rearranged obj obj')
      (rest : List (String × Json F)) : Rearranged (obj ++ rest) (obj' ++ rest)
  | inAnd {sub sub' : List (String × Json F)} (h : Rearranged sub sub')
      (before after : List (Json F)) :
      Rearranged [("$and", .array (before ++ .object sub :: after))]
        [("$and", .array (before ++ .object sub' :: after))]
  | inOr {sub sub' : List (String × Json F)} (h : Rearranged sub sub')
      (before after : List (Json F)) :
      Rearranged [("$or", .array (before ++ .object sub :: after))]
        [("$or", .array (before ++ .object sub' :: after))]
  | inNot {sub sub' : List (String × Json F)} (h : Rearranged sub sub') :
      Rearranged [("$not", .object sub)] [("$not", .object sub')]
  | symm {obj obj' : List (String × Json F)} (h : Rearranged obj obj') : Rearranged obj' obj
  | trans {obj obj' obj'' : List (String × Json F)} (h : Rearranged obj obj')
      (h' : Rearranged obj' obj'') : Rearranged obj obj''

theorem answer_rearranged {obj obj' : List (String × Json F)} (h : Rearranged obj obj')
    (getField : String → Option (Value F)) : answer getField obj = answer getField obj' := by
  induction h with
  | perm h => exact answer_perm h
  | split parts => exact (answer_split parts).symm
  | notNot obj =>
    rw [answer_not, answer_not, Option.map_map]
    cases answer getField obj with
    | none => rfl
    | some b => exact congrArg some (Bool.not_not b).symm
  | beside _ rest ih => rw [answer_append, answer_append, ih]
  | inAnd _ before after ih =>
    rw [answer_and, answer_and, List.foldr_append, List.foldr_append, List.foldr_cons,
      List.foldr_cons, elementAnswer, elementAnswer, ih]
  | inOr _ before after ih =>
    rw [answer_or, answer_or, List.foldr_append, List.foldr_append, List.foldr_cons,
      List.foldr_cons, elementAnswer, elementAnswer, ih]
  | inNot _ ih => rw [answer_not, answer_not, ih]
  | symm _ ih => exact ih.symm
  | trans _ _ ih ih' => exact ih.trans ih'

/-- An object has an answer if its entries do, and then it is their conjunction. -/
theorem answer_entries (getField : String → Option (Value F)) (obj : List (String × Json F)) :
    ((answer getField obj).isSome = true ↔
        ∀ e ∈ obj, (answer getField [e]).isSome = true) ∧
      ∀ b, answer getField obj = some b →
        (b = true ↔ ∀ e ∈ obj, answer getField [e] = some true) := by
  induction obj with
  | nil =>
    refine ⟨iff_of_true rfl (List.forall_mem_nil _), ?_⟩
    rintro _ ⟨⟩
    exact iff_of_true rfl (List.forall_mem_nil _)
  | cons e rest ih =>
    have both : answer getField (e :: rest) =
        Option.map₂ and (answer getField [e]) (answer getField rest) := answer_append [e] rest
    obtain ⟨accepted, value⟩ := ih
    rw [both]
    simp only [List.forall_mem_cons]
    cases first : answer getField [e] with
    | none =>
      refine ⟨iff_of_false ?_ (fun all => ?_), ?_⟩
      · rw [Option.map₂_none_left]
        exact Bool.false_ne_true
      · cases all.1
      · rintro _ ⟨⟩
    | some a =>
      cases others : answer getField rest with
      | none =>
        rw [others] at accepted
        refine ⟨iff_of_false Bool.false_ne_true (fun all => ?_), ?_⟩
        · cases accepted.mpr all.2
        · rintro _ ⟨⟩
      | some c =>
        rw [others] at accepted
        refine ⟨iff_of_true rfl ⟨rfl, accepted.mp rfl⟩, ?_⟩
        rintro _ ⟨⟩
        rw [Bool.and_eq_true, value c others, Option.some.injEq]

/-- A filter object is accepted if each entry alone is, and matches what they all match. It
keeps its meaning in another order, in parts under `$and` and under `$not` twice, at any
depth. -/
theorem filter_distributes (obj : List (String × Json F)) :
    ((∃ f, filterFromJson obj = .ok f) ↔ ∀ e ∈ obj, ∃ g, filterFromJson [e] = .ok g) ∧
      (∀ f, filterFromJson obj = .ok f → ∀ getField, (matchesFilter getField f = true ↔
        ∀ e ∈ obj, ∃ g, filterFromJson [e] = .ok g ∧ matchesFilter getField g = true)) ∧
      ∀ obj', Rearranged obj obj' →
        ((∃ f, filterFromJson obj = .ok f) ↔ ∃ f', filterFromJson obj' = .ok f') ∧
          ∀ f f', filterFromJson obj = .ok f → filterFromJson obj' = .ok f' →
            ∀ getField, matchesFilter getField f = matchesFilter getField f' := by
  refine ⟨?_, ?_, ?_⟩
  · have accepted := (answer_entries (fun _ => none) obj).1
    simpa only [isSome_answer] using accepted
  · intro f hf getField
    have value := (answer_entries getField obj).2 _ (answer_eq_some.mpr ⟨f, hf, rfl⟩)
    simpa only [answer_eq_some] using value
  · intro obj' rearranged
    refine ⟨?_, ?_⟩
    · rw [← isSome_answer (fun _ => none), ← isSome_answer (fun _ => none),
        answer_rearranged rearranged]
    · intro f f' hf hf' getField
      have same := answer_rearranged rearranged getField
      rw [answer_eq_some.mpr ⟨f, hf, rfl⟩, answer_eq_some.mpr ⟨f', hf', rfl⟩] at same
      exact Option.some.inj same

end Rearrangement

end FilterSplits
