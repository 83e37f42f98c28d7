import Mathlib.Data.List.Sort
import RustafariDB.OrderedMaps

/-!
# Maps to lists

Several values under one key, in the order they came. A key whose last value is withdrawn
disappears, so a map without empty lists is known by the values under its keys.
-/

namespace Multimaps

open Std

universe u v
variable {α : Type u} {β : Type v} [Ord α] [TransOrd α] [LawfulEqOrd α]

/-- The values filed under a key. -/
def under (m : ExtTreeMap α (List β)) (k : α) : List β := m[k]?.getD []

/-- File one more value under a key. -/
def push (m : ExtTreeMap α (List β)) (k : α) (v : β) : ExtTreeMap α (List β) :=
  m.insert k (under m k ++ [v])

/-- Withdraw every copy of a value from a key, and the key with its last value. -/
def withdraw [DecidableEq β] (v : β) (m : ExtTreeMap α (List β)) (k : α) :
    ExtTreeMap α (List β) :=
  match m[k]? with
  | some vs =>
    if (vs.filter (· ≠ v)).isEmpty then m.erase k else m.insert k (vs.filter (· ≠ v))
  | none => m

/-- No key is left with no values. -/
def Tight (m : ExtTreeMap α (List β)) : Prop := ∀ k : α, m[k]? ≠ some []

/-- The values of a key replaced, and the key gone if none are left. -/
def refile (m : ExtTreeMap α (List β)) (k : α) (vs : List β) : ExtTreeMap α (List β) :=
  if vs.isEmpty then m.erase k else m.insert k vs

variable {m : ExtTreeMap α (List β)} {k k' : α} {v w : β}

section Replacing
variable [DecidableEq α]

theorem under_refile (vs : List β) :
    under (refile m k vs) k' = if k = k' then vs else under m k' := by
  rw [refile]
  by_cases empty : vs.isEmpty = true
  · rw [if_pos empty, under, ExtTreeMap.getElem?_erase]
    by_cases same : k = k'
    · rw [if_pos (LawfulEqCmp.compare_eq_iff_eq.mpr same), if_pos same, List.isEmpty_iff.mp empty]
      rfl
    · rw [if_neg (fun h => same (LawfulEqCmp.compare_eq_iff_eq.mp h)), if_neg same, under]
  · rw [if_neg empty, under, ExtTreeMap.getElem?_insert]
    by_cases same : k = k'
    · rw [if_pos (LawfulEqCmp.compare_eq_iff_eq.mpr same), if_pos same, Option.getD_some]
    · rw [if_neg (fun h => same (LawfulEqCmp.compare_eq_iff_eq.mp h)), if_neg same, under]

omit [LawfulEqOrd α] [DecidableEq α] in
theorem tight_refile (tight : Tight m) (vs : List β) : Tight (refile m k vs) := by
  intro k'
  rw [refile]
  by_cases empty : vs.isEmpty = true
  · rw [if_pos empty, ExtTreeMap.getElem?_erase]
    by_cases same : compare k k' = .eq
    · rw [if_pos same]
      rintro ⟨⟩
    · rw [if_neg same]
      exact tight k'
  · rw [if_neg empty, ExtTreeMap.getElem?_insert]
    by_cases same : compare k k' = .eq
    · rw [if_pos same]
      intro none
      exact empty (List.isEmpty_iff.mpr (Option.some.inj none))
    · rw [if_neg same]
      exact tight k'

omit [DecidableEq α] in
/-- Without empty lists the values under the keys are all there is. -/
theorem ext_under {m' : ExtTreeMap α (List β)} (tight : Tight m) (tight' : Tight m')
    (same : ∀ k, under m k = under m' k) : m = m' := by
  refine ExtTreeMap.ext_getElem? (fun {k} => ?_)
  have here := same k
  rw [under, under] at here
  cases found : m[k]? with
  | none =>
    cases found' : m'[k]? with
    | none => rfl
    | some vs =>
      rw [found, found'] at here
      exact absurd (found'.trans (congrArg some here.symm)) (tight' k)
  | some vs =>
    cases found' : m'[k]? with
    | none =>
      rw [found, found'] at here
      exact absurd (found.trans (congrArg some here)) (tight k)
    | some vs' =>
      rw [found, found'] at here
      exact congrArg some here

omit [LawfulEqOrd α] [DecidableEq α] in
/-- A lookup in a map without empty lists. -/
theorem getElem?_of_tight (tight : Tight m) (k : α) :
    m[k]? = if under m k = [] then none else some (under m k) := by
  have filed := tight k
  rw [under]
  cases found : m[k]? with
  | none => rfl
  | some vs =>
    have some_value : (some vs).getD [] ≠ [] := by
      rintro rfl
      exact filed found
    rw [if_neg some_value]
    rfl

theorem refile_under (tight : Tight m) (k : α) : refile m k (under m k) = m := by
  refine ext_under (tight_refile tight _) tight (fun k' => ?_)
  rw [under_refile]
  by_cases same : k = k'
  · rw [if_pos same, same]
  · rw [if_neg same]

omit [LawfulEqOrd α] [DecidableEq α] in
theorem tight_empty : Tight (∅ : ExtTreeMap α (List β)) := by
  intro k
  rw [ExtTreeMap.getElem?_empty]
  rintro ⟨⟩

end Replacing

section Values
variable [DecidableEq α]

omit [LawfulEqOrd α] [DecidableEq α] in
theorem push_eq : push m k v = refile m k (under m k ++ [v]) := by
  rw [push, refile, if_neg (by simp)]

omit [DecidableEq α] in
theorem withdraw_eq [DecidableEq β] :
    withdraw v m k = refile m k ((under m k).filter (· ≠ v)) := by
  rw [withdraw, under]
  cases found : m[k]? with
  | none => exact (ExtTreeMap.ext_getElem? (fun {k'} => by
      rw [refile, if_pos (by rfl), ExtTreeMap.getElem?_erase]
      by_cases same : compare k k' = .eq
      · rw [if_pos same, ← LawfulEqCmp.compare_eq_iff_eq.mp same, found]
      · rw [if_neg same])).symm
  | some vs => rfl

theorem under_push : under (push m k v) k' =
    if k = k' then under m k ++ [v] else under m k' := by
  rw [push_eq, under_refile]

theorem under_withdraw [DecidableEq β] : under (withdraw v m k) k' =
    if k = k' then (under m k).filter (· ≠ v) else under m k' := by
  rw [withdraw_eq, under_refile]

omit [LawfulEqOrd α] [DecidableEq α] in
theorem tight_push (tight : Tight m) : Tight (push m k v) := by
  rw [push_eq]
  exact tight_refile tight _

omit [DecidableEq α] in
theorem tight_withdraw [DecidableEq β] (tight : Tight m) : Tight (withdraw v m k) := by
  rw [withdraw_eq]
  exact tight_refile tight _

/-- File a value under several keys, one after another: once for each time a key is listed. -/
theorem under_pushes (keys : List α) (v : β) (k : α) :
    under (keys.foldl (fun m k => push m k v) m) k =
      under m k ++ List.replicate (keys.count k) v := by
  induction keys generalizing m with
  | nil => simp
  | cons key keys ih =>
    rw [List.foldl_cons, ih, under_push, List.count_cons]
    by_cases same : key = k
    · subst same
      rw [if_pos rfl, List.append_assoc, if_pos (beq_self_eq_true key), List.replicate_succ]
      rfl
    · rw [if_neg same, if_neg (by simpa using same), Nat.add_zero]

/-- Withdraw a value from several keys, one after another. -/
theorem under_withdrawals [DecidableEq β] (keys : List α) (v : β) (k : α) :
    under (keys.foldl (withdraw v) m) k =
      if k ∈ keys then (under m k).filter (· ≠ v) else under m k := by
  induction keys generalizing m with
  | nil => rfl
  | cons key keys ih =>
    rw [List.foldl_cons, ih, under_withdraw]
    by_cases same : key = k
    · subst same
      rw [if_pos rfl, if_pos List.mem_cons_self, List.filter_filter]
      simp
    · rw [if_neg same]
      simp only [List.mem_cons, Ne.symm same, false_or]

omit [LawfulEqOrd α] [DecidableEq α] in
theorem tight_pushes (tight : Tight m) (keys : List α) (v : β) :
    Tight (keys.foldl (fun m k => push m k v) m) :=
  List.foldlRecOn keys _ tight (fun _ tight _ _ => tight_push tight)

omit [DecidableEq α] in
theorem tight_withdrawals [DecidableEq β] (tight : Tight m) (keys : List α) (v : β) :
    Tight (keys.foldl (withdraw v) m) :=
  List.foldlRecOn keys _ tight (fun _ tight _ _ => tight_withdraw tight)

theorem mem_under_pushes (keys : List α) (v : β) :
    w ∈ under (keys.foldl (fun m k => push m k v) m) k ↔
      w ∈ under m k ∨ (k ∈ keys ∧ w = v) := by
  rw [under_pushes, List.mem_append, List.mem_replicate, Nat.ne_zero_iff_zero_lt,
    List.count_pos_iff]

theorem mem_under_withdrawals [DecidableEq β] (keys : List α) (v : β) :
    w ∈ under (keys.foldl (withdraw v) m) k ↔
      w ∈ under m k ∧ ¬ (k ∈ keys ∧ w = v) := by
  rw [under_withdrawals]
  by_cases listed : k ∈ keys
  · rw [if_pos listed, List.mem_filter, decide_eq_true_iff]
    simp only [listed, true_and]
  · rw [if_neg listed]
    simp only [listed, false_and, not_false_eq_true, and_true]

end Values

section Pairs
variable [DecidableEq α] {pairs : List (α × β)}

/-- The values paired with a key, in their order. -/
def paired (pairs : List (α × β)) (k : α) : List β :=
  (pairs.filter (fun p => p.1 = k)).map Prod.snd

omit [Ord α] [TransOrd α] [LawfulEqOrd α] in
theorem mem_paired : v ∈ paired pairs k ↔ (k, v) ∈ pairs := by
  rw [paired, List.mem_map]
  constructor
  · rintro ⟨⟨k', v'⟩, kept, rfl⟩
    obtain ⟨listed, same⟩ := List.mem_filter.mp kept
    rw [← of_decide_eq_true same]
    exact listed
  · intro listed
    exact ⟨(k, v), List.mem_filter.mpr ⟨listed, decide_eq_true rfl⟩, rfl⟩

omit [Ord α] [TransOrd α] [LawfulEqOrd α] in
theorem paired_cons (p : α × β) :
    paired (p :: pairs) k = if p.1 = k then p.2 :: paired pairs k else paired pairs k := by
  rw [paired, List.filter_cons]
  by_cases same : p.1 = k
  · rw [if_pos (decide_eq_true same), if_pos same]
    rfl
  · rw [if_neg (fun h => same (of_decide_eq_true h)), if_neg same]
    rfl

omit [Ord α] [TransOrd α] [LawfulEqOrd α] in
theorem paired_append (k' : α) :
    paired (pairs ++ [(k, v)]) k' =
      if k = k' then paired pairs k ++ [v] else paired pairs k' := by
  have split : paired (pairs ++ [(k, v)]) k' = paired pairs k' ++ paired [(k, v)] k' := by
    rw [paired, List.filter_append, List.map_append, paired, paired]
  rw [split, paired_cons]
  by_cases same : k = k'
  · subst same
    rw [if_pos rfl, if_pos rfl]
    rfl
  · rw [if_neg same, if_neg same]
    exact List.append_nil _

omit [Ord α] [TransOrd α] [LawfulEqOrd α] in
/-- The first copy of a pair is the first copy of its value under its key. -/
theorem paired_erase [BEq α] [LawfulBEq α] [BEq β] [LawfulBEq β] (k' : α) :
    paired (pairs.erase (k, v)) k' =
      if k = k' then (paired pairs k).erase v else paired pairs k' := by
  induction pairs with
  | nil => by_cases same : k = k' <;> simp [same, paired]
  | cons p pairs ih =>
    obtain ⟨a, b⟩ := p
    by_cases first : (a, b) = (k, v)
    · cases first
      rw [List.erase_cons_head, paired_cons, paired_cons, if_pos rfl]
      by_cases same : k = k'
      · rw [if_pos same, List.erase_cons_head, same]
      · rw [if_neg same, if_neg same]
    · rw [List.erase_cons_tail (by simpa using first), paired_cons, ih, paired_cons, paired_cons]
      by_cases same : k = k'
      · subst same
        rw [if_pos rfl, if_pos rfl]
        by_cases here : a = k
        · have other : b ≠ v := fun same => first (by rw [here, same])
          rw [if_pos here, if_pos here, List.erase_cons_tail (by simpa using other)]
        · rw [if_neg here, if_neg here]
      · rw [if_neg same, if_neg same]

/-- The map files the pairs and has no empty list. -/
structure Files (m : ExtTreeMap α (List β)) (pairs : List (α × β)) : Prop where
  tight : Tight m
  under : ∀ k, under m k = paired pairs k

omit [LawfulEqOrd α] in
theorem files_empty : Files (∅ : ExtTreeMap α (List β)) [] where
  tight := tight_empty
  under k := by
    rw [Multimaps.under, ExtTreeMap.getElem?_empty]
    rfl

theorem files_push (files : Files m pairs) (k : α) (v : β) :
    Files (push m k v) (pairs ++ [(k, v)]) where
  tight := tight_push files.tight
  under k' := by rw [under_push, paired_append, files.under, files.under]

/-- The first copy of a value is taken from a key. -/
theorem files_erase [BEq α] [LawfulBEq α] [BEq β] [LawfulBEq β] (files : Files m pairs)
    (k : α) (v : β) :
    Files (refile m k ((under m k).erase v)) (pairs.erase (k, v)) where
  tight := tight_refile files.tight _
  under k' := by rw [under_refile, paired_erase, files.under, files.under]

omit [LawfulEqOrd α] in
/-- The keys of a map that files pairs are the keys of the pairs. -/
theorem files_key_iff (files : Files m pairs) :
    (∃ vs, m[k]? = some vs) ↔ paired pairs k ≠ [] := by
  rw [← files.under, getElem?_of_tight files.tight]
  by_cases empty : under m k = []
  · simp [empty]
  · simp [empty]

end Pairs

end Multimaps
