import RustafariDB.DocumentFilters
import RustafariDB.StatefulPrograms

/-!
# What a filter object means

The meaning of a filter object is given on the object itself: all entries hold, and a
field satisfies every operator of its operator object. The parser keeps one operator
of such an object, so its filters have this meaning when the kept operator implies
the others.
-/

namespace OperatorObjects

open Floats Values DocumentFilters StatefulPrograms

variable {F : Type} [Float64 F]

section Meaning

def operatorOf (k : String) : Option FilterOp := operatorOrder.lookup k

/-- A value satisfies every operator that is listed. -/
def SatisfiesAll (fv : Value F) (entries : List (String × Json F)) : Prop :=
  ∀ e ∈ entries, ∃ op, operatorOf e.1 = some op ∧ cmpMatch op fv (jsonToValue e.2) = true

/-- A field is there and equals the value, or satisfies the operator object. -/
def FieldHolds (getField : String → Option (Value F)) (k : String) (v : Json F) : Prop :=
  ∃ fv, getField k = some fv ∧
    match v with
    | .object entries => SatisfiesAll fv entries
    | v => cmpMatch .eq fv (jsonToValue v) = true

mutual

/-- Every entry of the object holds. -/
def Holds (getField : String → Option (Value F)) : List (String × Json F) → Prop
  | [] => True
  | (k, v) :: rest => EntryHolds getField k v ∧ Holds getField rest

def EntryHolds (getField : String → Option (Value F)) (k : String) (v : Json F) : Prop :=
  if k = "$and" then
    match v with
    | .array items => EveryHolds getField items
    | _ => False
  else if k = "$or" then
    match v with
    | .array items => SomeHolds getField items
    | _ => False
  else if k = "$not" then
    match v with
    | .object entries => ¬ Holds getField entries
    | _ => False
  else FieldHolds getField k v

def EveryHolds (getField : String → Option (Value F)) : List (Json F) → Prop
  | [] => True
  | .object entries :: rest => Holds getField entries ∧ EveryHolds getField rest
  | _ :: _ => False

def SomeHolds (getField : String → Option (Value F)) : List (Json F) → Prop
  | [] => False
  | .object entries :: rest => Holds getField entries ∨ SomeHolds getField rest
  | _ :: _ => False

end

end Meaning

section Depth
variable {obj sub : List (String × Json F)} {k : String} {v : Json F}

/-- The filter objects directly under `$and`, `$or` and `$not`. -/
inductive Under : List (String × Json F) → List (String × Json F) → Prop where
  | and {obj sub : List (String × Json F)} {items : List (Json F)}
      (inside : ("$and", .array items) ∈ obj) (element : .object sub ∈ items) : Under obj sub
  | or {obj sub : List (String × Json F)} {items : List (Json F)}
      (inside : ("$or", .array items) ∈ obj) (element : .object sub ∈ items) : Under obj sub
  | not {obj sub : List (String × Json F)} (inside : ("$not", .object sub) ∈ obj) : Under obj sub

/-- An entry of the object or of a filter object at any depth in it. -/
inductive EntryIn : List (String × Json F) → String → Json F → Prop where
  | here {obj : List (String × Json F)} {k : String} {v : Json F} (inside : (k, v) ∈ obj) :
      EntryIn obj k v
  | deeper {obj sub : List (String × Json F)} {k : String} {v : Json F} (under : Under obj sub)
      (h : EntryIn sub k v) : EntryIn obj k v

/-- The object, one of its entries alone, or such a part of an object in it. -/
inductive PartOf : List (String × Json F) → List (String × Json F) → Prop where
  | self (obj : List (String × Json F)) : PartOf obj obj
  | entry {obj : List (String × Json F)} {k : String} {v : Json F} (inside : (k, v) ∈ obj) :
      PartOf obj [(k, v)]
  | deeper {obj sub part : List (String × Json F)} (under : Under obj sub)
      (h : PartOf sub part) : PartOf obj part

/-- Every operator object in the filter, at any depth, has known operators only. -/
def Recognised (obj : List (String × Json F)) : Prop :=
  ∀ k entries, EntryIn obj k (.object entries) → isOperatorKey k = false →
    ∀ e ∈ entries, (operatorOf e.1).isSome = true

/-- If the object is accepted, its operators are known and the filter has its meaning. -/
def ParsedRight (obj : List (String × Json F)) : Prop :=
  ∀ f, filterFromJson obj = .ok f →
    Recognised obj ∧ ∀ getField, matchesFilter getField f = true ↔ Holds getField obj

/-- Beside the operator the parser takes, an operator object, at any depth, has known
operators only, and these are implied by the one taken. -/
def OneOperatorDecides (obj : List (String × Json F)) : Prop :=
  ∀ k entries op inner, EntryIn obj k (.object entries) → isOperatorKey k = false →
    chosenOperator entries = some (op, inner) →
      (∀ e ∈ entries, (operatorOf e.1).isSome = true) ∧
        ∀ fv, cmpMatch op fv (jsonToValue inner) = true → SatisfiesAll fv entries

omit [Float64 F] in
theorem entryIn_of_partOf (part : PartOf obj sub) (h : EntryIn sub k v) : EntryIn obj k v := by
  induction part with
  | self => exact h
  | entry inside =>
    cases h with
    | here single =>
      cases List.mem_singleton.mp single
      exact .here inside
    | deeper under h =>
      refine .deeper ?_ h
      cases under with
      | and single element => exact .and (List.mem_singleton.mp single ▸ inside) element
      | or single element => exact .or (List.mem_singleton.mp single ▸ inside) element
      | not single => exact .not (List.mem_singleton.mp single ▸ inside)
  | deeper under _ ih => exact .deeper under (ih h)

theorem decides_part (decides : OneOperatorDecides obj) (part : PartOf obj sub) :
    OneOperatorDecides sub :=
  fun k entries op inner h => decides k entries op inner (entryIn_of_partOf part h)

omit [Float64 F] in
theorem partOf_of_entryIn (h : EntryIn obj k v) : PartOf obj [(k, v)] := by
  induction h with
  | here inside => exact .entry inside
  | deeper under _ ih => exact .deeper under ih

end Depth

section Parser
variable {k : String} {v : Json F}

/-- What an accepted entry was parsed to. -/
theorem entry_cases {c : FilterCondition F} (h : entryFromJson k v = .ok c) :
    (k = "$and" ∧ ∃ items subs, v = .array items ∧
      subFilters "$and element must be object" items = .ok subs ∧ c = .and subs) ∨
    (k = "$or" ∧ ∃ items subs, v = .array items ∧
      subFilters "$or element must be object" items = .ok subs ∧ c = .or subs) ∨
    (k = "$not" ∧ ∃ entries cs, v = .object entries ∧
      conditionsFromJson entries = .ok cs ∧ c = .not (.mk cs)) ∨
    (isOperatorKey k = false ∧ fieldCondition k v = .ok c) := by
  unfold entryFromJson at h
  by_cases hand : k = "$and"
  · rw [if_pos hand] at h
    cases v with
    | array items =>
      obtain ⟨subs, hsubs, rfl⟩ := map_eq_ok.mp h
      exact Or.inl ⟨hand, items, subs, rfl, hsubs, rfl⟩
    | _ => cases h
  · rw [if_neg hand] at h
    by_cases hor : k = "$or"
    · rw [if_pos hor] at h
      cases v with
      | array items =>
        obtain ⟨subs, hsubs, rfl⟩ := map_eq_ok.mp h
        exact Or.inr (Or.inl ⟨hor, items, subs, rfl, hsubs, rfl⟩)
      | _ => cases h
    · rw [if_neg hor] at h
      by_cases hnot : k = "$not"
      · rw [if_pos hnot] at h
        cases v with
        | object entries =>
          obtain ⟨cs, hcs, rfl⟩ := map_eq_ok.mp h
          exact Or.inr (Or.inr (Or.inl ⟨hnot, entries, cs, rfl, hcs, rfl⟩))
        | _ => cases h
      · rw [if_neg hnot] at h
        by_cases operator : isOperatorKey k = true
        · rw [if_pos operator] at h
          cases h
        · rw [if_neg operator] at h
          exact Or.inr (Or.inr (Or.inr ⟨Bool.eq_false_iff.mpr operator, h⟩))

theorem operatorOf_order : ∀ o ∈ operatorOrder, operatorOf o.1 = some o.2 := by decide

omit [Float64 F] in
/-- The operator taken is one of those listed. -/
theorem chosen_listed {entries : List (String × Json F)} {op : FilterOp} {inner : Json F}
    (h : chosenOperator entries = some (op, inner)) :
    ∃ key, (key, inner) ∈ entries ∧ operatorOf key = some op := by
  obtain ⟨o, tried, found⟩ := List.exists_of_findSome?_eq_some h
  obtain ⟨inner', hlookup, same⟩ := Option.map_eq_some_iff.mp found
  cases same
  obtain ⟨before, after, listed, _⟩ := List.lookup_eq_some_iff.mp hlookup
  refine ⟨o.1, ?_, operatorOf_order o tried⟩
  rw [listed]
  exact List.mem_append_right _ List.mem_cons_self

theorem matches_cmp (getField : String → Option (Value F)) (k : String) (op : FilterOp)
    (value : Value F) : matchesCondition getField (.cmp k op value) = true ↔
      ∃ fv, getField k = some fv ∧ cmpMatch op fv value = true := by
  rw [matchesCondition]
  cases getField k with
  | none => exact ⟨nofun, fun ⟨_, absent, _⟩ => nomatch absent⟩
  | some fv => exact ⟨fun h => ⟨fv, rfl, h⟩, fun ⟨_, same, h⟩ => Option.some.inj same ▸ h⟩

/-- A field entry has its meaning exactly if the operator taken implies those listed. -/
theorem field_holds_iff {c : FilterCondition F} (h : fieldCondition k v = .ok c) :
    (∀ getField, matchesCondition getField c = true ↔ FieldHolds getField k v) ↔
      ∀ entries op inner, v = .object entries → chosenOperator entries = some (op, inner) →
        ∀ fv, cmpMatch op fv (jsonToValue inner) = true → SatisfiesAll fv entries := by
  cases v with
  | object entries =>
    rw [fieldCondition] at h
    cases chosen : chosenOperator entries with
    | none =>
      rw [chosen] at h
      cases h
    | some taken =>
      obtain ⟨op, inner⟩ := taken
      rw [chosen] at h
      cases h
      obtain ⟨key, listed, known⟩ := chosen_listed chosen
      constructor
      · rintro right _ _ _ ⟨⟩ same fv satisfied
        cases chosen.symm.trans same
        obtain ⟨fv', hfv, all⟩ :=
          (right (fun _ => some fv)).mp ((matches_cmp _ k op _).mpr ⟨fv, rfl, satisfied⟩)
        exact Option.some.inj hfv ▸ all
      · intro implied getField
        rw [matches_cmp]
        constructor
        · rintro ⟨fv, hfv, satisfied⟩
          exact ⟨fv, hfv, implied entries op inner rfl chosen fv satisfied⟩
        · rintro ⟨fv, hfv, all⟩
          obtain ⟨op', known', satisfied⟩ := all (key, inner) listed
          cases known.symm.trans known'
          exact ⟨fv, hfv, satisfied⟩
  | _ =>
    cases h
    exact ⟨nofun, fun _ getField => matches_cmp getField k .eq _⟩

end Parser

section Meanings
variable {getField : String → Option (Value F)} {obj : List (String × Json F)}

/-- An object whose parts are implied by the operator taken, under a longer one. -/
theorem decides_rest {k : String} {v : Json F} {rest : List (String × Json F)}
    (decides : OneOperatorDecides ((k, v) :: rest)) : OneOperatorDecides rest := by
  intro k' entries op inner h
  refine decides k' entries op inner ?_
  cases h with
  | here inside => exact .here (List.mem_cons_of_mem _ inside)
  | deeper under h =>
    refine .deeper ?_ h
    cases under with
    | and inside element => exact .and (List.mem_cons_of_mem _ inside) element
    | or inside element => exact .or (List.mem_cons_of_mem _ inside) element
    | not inside => exact .not (List.mem_cons_of_mem _ inside)

/-- The entries that the parser rejects have no meaning to compare. -/
theorem entryHolds_field {k : String} {v : Json F} (field : isOperatorKey k = false) :
    EntryHolds getField k v = FieldHolds getField k v := by
  have other {key : String} (operator : isOperatorKey key = true) : k ≠ key := by
    rintro rfl
    rw [field] at operator
    cases operator
  unfold EntryHolds
  rw [if_neg (other (by decide)), if_neg (other (by decide)), if_neg (other (by decide))]

theorem field_holds {k : String} {v : Json F} {c : FilterCondition F}
    (decides : OneOperatorDecides [(k, v)]) (field : isOperatorKey k = false)
    (h : fieldCondition k v = .ok c) :
    matchesCondition getField c = true ↔ EntryHolds getField k v := by
  rw [entryHolds_field field]
  refine (field_holds_iff h).mpr (fun entries op inner hv chosen => ?_) getField
  subst hv
  exact (decides k entries op inner (.here List.mem_cons_self) field chosen).2

/-- What is decided in an entry is decided in the filter objects under it. -/
theorem decides_under {obj sub : List (String × Json F)} (decides : OneOperatorDecides obj)
    (under : Under obj sub) : OneOperatorDecides sub :=
  decides_part decides (.deeper under (.self sub))

theorem scalar_holds {k : String} {v : Json F} {c : FilterCondition F}
    (decides : OneOperatorDecides [(k, v)]) (h : entryFromJson k v = .ok c)
    (noArray : ∀ items, v ≠ .array items) (noObject : ∀ entries, v ≠ .object entries) :
    matchesCondition getField c = true ↔ EntryHolds getField k v := by
  rcases entry_cases h with ⟨_, items, _, hv, _⟩ | ⟨_, items, _, hv, _⟩ |
    ⟨_, entries, _, hv, _⟩ | ⟨field, h⟩
  · exact absurd hv (noArray items)
  · exact absurd hv (noArray items)
  · exact absurd hv (noObject entries)
  · exact field_holds decides field h

mutual

theorem conditions_hold : ∀ (obj : List (String × Json F)) (cs : List (FilterCondition F)),
    OneOperatorDecides obj → conditionsFromJson obj = .ok cs →
      (matchesAll getField cs = true ↔ Holds getField obj)
  | [], cs, _, h => by
    cases h
    exact iff_of_true rfl trivial
  | (k, v) :: rest, cs, decides, h => by
    rw [conditionsFromJson] at h
    obtain ⟨c, hc, h⟩ := bind_eq_ok.mp h
    obtain ⟨cs', hcs, h⟩ := bind_eq_ok.mp h
    cases h
    rw [matchesAll, Bool.and_eq_true, Holds, conditions_hold rest cs' (decides_rest decides) hcs,
      entry_holds k v c (decides_part decides (.entry List.mem_cons_self)) hc]

theorem entry_holds : ∀ (k : String) (v : Json F) (c : FilterCondition F),
    OneOperatorDecides [(k, v)] → entryFromJson k v = .ok c →
      (matchesCondition getField c = true ↔ EntryHolds getField k v)
  | k, .array items, c, decides, h => by
    rcases entry_cases h with ⟨rfl, _, subs, ⟨⟩, hsubs, rfl⟩ | ⟨rfl, _, subs, ⟨⟩, hsubs, rfl⟩ |
      ⟨_, _, _, ⟨⟩, _⟩ | ⟨field, h⟩
    · have inner := every_holds _ items subs (fun sub element =>
        decides_under decides (.and List.mem_cons_self element)) hsubs
      rw [matchesCondition, inner]
      unfold EntryHolds
      rw [if_pos rfl]
    · have inner := some_holds _ items subs (fun sub element =>
        decides_under decides (.or List.mem_cons_self element)) hsubs
      rw [matchesCondition, inner]
      unfold EntryHolds
      rw [if_neg (by decide), if_pos rfl]
    · exact field_holds decides field h
  | k, .object entries, c, decides, h => by
    rcases entry_cases h with ⟨_, _, _, ⟨⟩, _⟩ | ⟨_, _, _, ⟨⟩, _⟩ |
      ⟨rfl, _, cs, ⟨⟩, hcs, rfl⟩ | ⟨field, h⟩
    · have inner := conditions_hold entries cs (decides_under decides (.not List.mem_cons_self)) hcs
      rw [matchesCondition, matchesFilter, Bool.not_eq_true', ← Bool.not_eq_true, inner]
      unfold EntryHolds
      rw [if_neg (by decide), if_neg (by decide), if_pos rfl]
    · exact field_holds decides field h
  | k, .null, _, decides, h => scalar_holds decides h nofun nofun
  | k, .bool _, _, decides, h => scalar_holds decides h nofun nofun
  | k, .number _, _, decides, h => scalar_holds decides h nofun nofun
  | k, .string _, _, decides, h => scalar_holds decides h nofun nofun

theorem every_holds : ∀ (message : String) (items : List (Json F)) (subs : List (DocFilter F)),
    (∀ sub, .object sub ∈ items → OneOperatorDecides sub) → subFilters message items = .ok subs →
      (matchesEvery getField subs = true ↔ EveryHolds getField items)
  | _, [], _, _, h => by
    cases h
    exact iff_of_true rfl trivial
  | message, .object entries :: rest, _, decides, h => by
    rw [subFilters] at h
    obtain ⟨cs, hcs, h⟩ := bind_eq_ok.mp h
    obtain ⟨subs, hsubs, h⟩ := bind_eq_ok.mp h
    cases h
    rw [matchesEvery, Bool.and_eq_true, EveryHolds, matchesFilter,
      conditions_hold entries cs (decides entries List.mem_cons_self) hcs,
      every_holds message rest subs (fun sub inside => decides sub (List.mem_cons_of_mem _ inside))
        hsubs]
  | _, .null :: _, _, _, h => nomatch h
  | _, .bool _ :: _, _, _, h => nomatch h
  | _, .number _ :: _, _, _, h => nomatch h
  | _, .string _ :: _, _, _, h => nomatch h
  | _, .array _ :: _, _, _, h => nomatch h

theorem some_holds : ∀ (message : String) (items : List (Json F)) (subs : List (DocFilter F)),
    (∀ sub, .object sub ∈ items → OneOperatorDecides sub) → subFilters message items = .ok subs →
      (matchesAny getField subs = true ↔ SomeHolds getField items)
  | _, [], _, _, h => by
    cases h
    exact iff_of_false Bool.false_ne_true id
  | message, .object entries :: rest, _, decides, h => by
    rw [subFilters] at h
    obtain ⟨cs, hcs, h⟩ := bind_eq_ok.mp h
    obtain ⟨subs, hsubs, h⟩ := bind_eq_ok.mp h
    cases h
    rw [matchesAny, Bool.or_eq_true, SomeHolds, matchesFilter,
      conditions_hold entries cs (decides entries List.mem_cons_self) hcs,
      some_holds message rest subs (fun sub inside => decides sub (List.mem_cons_of_mem _ inside))
        hsubs]
  | _, .null :: _, _, _, h => nomatch h
  | _, .bool _ :: _, _, _, h => nomatch h
  | _, .number _ :: _, _, _, h => nomatch h
  | _, .string _ :: _, _, _, h => nomatch h
  | _, .array _ :: _, _, _, h => nomatch h

end

theorem entryFromJson_field {k : String} {v : Json F} (field : isOperatorKey k = false) :
    entryFromJson k v = fieldCondition k v := by
  have other {key : String} (operator : isOperatorKey key = true) : k ≠ key := by
    rintro rfl
    rw [field] at operator
    cases operator
  unfold entryFromJson
  rw [if_neg (other (by decide)), if_neg (other (by decide)), if_neg (other (by decide)),
    if_neg (Bool.eq_false_iff.mp field)]

theorem accepted_here {obj : List (String × Json F)} {cs : List (FilterCondition F)}
    (h : conditionsFromJson obj = .ok cs) {k : String} {v : Json F} (inside : (k, v) ∈ obj) :
    ∃ c, entryFromJson k v = .ok c := by
  induction obj generalizing cs with
  | nil => cases inside
  | cons e rest ih =>
    obtain ⟨k', v'⟩ := e
    rw [conditionsFromJson] at h
    obtain ⟨c, hc, h⟩ := bind_eq_ok.mp h
    obtain ⟨cs', hcs, _⟩ := bind_eq_ok.mp h
    rcases List.mem_cons.mp inside with same | later
    · cases same
      exact ⟨c, hc⟩
    · exact ih hcs later

theorem accepted_element {message : String} {items : List (Json F)} {subs : List (DocFilter F)}
    (h : subFilters message items = .ok subs) {sub : List (String × Json F)}
    (element : .object sub ∈ items) : ∃ cs, conditionsFromJson sub = .ok cs := by
  induction items generalizing subs with
  | nil => cases element
  | cons item rest ih =>
    cases item with
    | object entries =>
      rw [subFilters] at h
      obtain ⟨cs, hcs, h⟩ := bind_eq_ok.mp h
      obtain ⟨subs', hsubs, _⟩ := bind_eq_ok.mp h
      rcases List.mem_cons.mp element with same | later
      · cases same
        exact ⟨cs, hcs⟩
      · exact ih hsubs later
    | _ => cases h

/-- An accepted object has accepted filter objects under it. -/
theorem accepted_under {obj sub : List (String × Json F)} {cs : List (FilterCondition F)}
    (h : conditionsFromJson obj = .ok cs) (under : Under obj sub) :
    ∃ cs', conditionsFromJson sub = .ok cs' := by
  cases under with
  | and inside element =>
    obtain ⟨c, hc⟩ := accepted_here h inside
    obtain ⟨subs, hsubs, _⟩ := map_eq_ok.mp hc
    exact accepted_element hsubs element
  | or inside element =>
    obtain ⟨c, hc⟩ := accepted_here h inside
    obtain ⟨subs, hsubs, _⟩ := map_eq_ok.mp hc
    exact accepted_element hsubs element
  | not inside =>
    obtain ⟨c, hc⟩ := accepted_here h inside
    obtain ⟨cs', hcs, _⟩ := map_eq_ok.mp hc
    exact ⟨cs', hcs⟩

/-- In an accepted object every operator object has an operator that is taken. -/
theorem chosen_of_accepted {obj : List (String × Json F)} {cs : List (FilterCondition F)}
    (h : conditionsFromJson obj = .ok cs) {k : String} {entries : List (String × Json F)}
    (field : isOperatorKey k = false) (inside : EntryIn obj k (.object entries)) :
    ∃ op inner, chosenOperator entries = some (op, inner) := by
  generalize hv : Json.object entries = v at inside
  induction inside generalizing cs with
  | here inside =>
    subst hv
    obtain ⟨c, hc⟩ := accepted_here h inside
    rw [entryFromJson_field field, fieldCondition] at hc
    cases chosen : chosenOperator entries with
    | none =>
      rw [chosen] at hc
      cases hc
    | some taken => exact ⟨taken.1, taken.2, rfl⟩
  | deeper under _ ih =>
    obtain ⟨cs', hcs⟩ := accepted_under h under
    exact ih hcs field hv

/-- A filter object and all its parts are parsed to their meaning exactly when in every
operator object the operator taken implies the others, and all are known. -/
theorem operators_conjoined_iff (obj : List (String × Json F)) :
    (∀ part, PartOf obj part → ParsedRight part) ↔ OneOperatorDecides obj := by
  constructor
  · intro right k entries op inner inside field chosen
    have parsed : fieldCondition k (.object entries) = .ok (.cmp k op (jsonToValue inner)) := by
      rw [fieldCondition, chosen]
    have accepted : filterFromJson [(k, .object entries)] =
        .ok (.mk [.cmp k op (jsonToValue inner)]) := by
      rw [filterFromJson, conditionsFromJson, entryFromJson_field field, parsed]
      rfl
    obtain ⟨known, means⟩ := right _ (partOf_of_entryIn inside) _ accepted
    refine ⟨known k entries (.here List.mem_cons_self) field, ?_⟩
    refine (field_holds_iff parsed).mp (fun getField => ?_) entries op inner rfl chosen
    have single := means getField
    rw [matchesFilter, matchesAll, matchesAll, Bool.and_true, Holds, Holds, and_true,
      entryHolds_field field] at single
    exact single
  · intro decides part inside f h
    have decided := decides_part decides inside
    obtain ⟨cs, hcs, rfl⟩ := map_eq_ok.mp h
    refine ⟨fun k entries within field => ?_, fun getField => conditions_hold part cs decided hcs⟩
    obtain ⟨op, inner, chosen⟩ := chosen_of_accepted hcs field within
    exact (decided k entries op inner within field chosen).1

end Meanings

section Dropped

/-- `{ age: { $gte: 21, $lt: 30 } }`. -/
def ageRange : List (String × Json Float) :=
  [("age", .object [("$gte", .number (.posInt 21)), ("$lt", .number (.posInt 30))])]

/-- A document of age 40 is in the range from 21 to 30. -/
theorem upper_bound_dropped : ¬ ∀ obj : List (String × Json Float), ParsedRight obj := by
  intro right
  obtain ⟨_, means⟩ := right ageRange (.mk [.cmp "age" .gte (.int64 21)]) rfl
  have matched : matchesFilter (fun _ => some (.int64 40))
      (.mk [.cmp "age" .gte (.int64 21)] : DocFilter Float) = true := by decide
  obtain ⟨⟨fv, hfv, all⟩, _⟩ := (means (fun _ => some (.int64 40))).mp matched
  cases hfv
  obtain ⟨op, known, below⟩ := all ("$lt", .number (.posInt 30)) (by simp)
  cases known
  exact absurd below (by decide)

end Dropped

end OperatorObjects
