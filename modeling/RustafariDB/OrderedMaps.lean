import Mathlib.Data.List.Sort
import Mathlib.Data.List.Perm.Basic
import Mathlib.Data.List.Induction

/-!
# Ordered maps and their key intervals

Finite maps are `Std.ExtTreeMap`: equality is equality of lookups. An ordered
map is read through `entriesWhere`, the entries whose key satisfies a test, in
increasing key order. Every statement about an interval is derived from the
membership of entries and from strict sortedness; nothing here depends on the
shape of the tree.
-/

namespace OrderedMaps

open Std

universe u v w

-- Pairs are ordered lexicographically, as Rust orders its tuples.
attribute [instance] lexOrd

section Intervals
variable {α : Type u} {β : Type v} [Ord α] [TransOrd α] [LawfulEqOrd α]

/-- Strictly increasing keys. -/
def KeySorted (entries : List (α × β)) : Prop :=
  entries.Pairwise (fun a b => compare a.1 b.1 = .lt)

omit [LawfulEqOrd α] in
theorem keySorted_nodup {entries : List (α × β)} (h : KeySorted entries) : entries.Nodup := by
  refine h.imp ?_
  rintro a b hab rfl
  exact OrientedCmp.not_lt_of_lt hab hab

omit [LawfulEqOrd α] in
/-- Two strictly sorted entry lists with the same members are the same list. -/
theorem keySorted_ext {xs ys : List (α × β)} (hx : KeySorted xs) (hy : KeySorted ys)
    (same : ∀ e, e ∈ xs ↔ e ∈ ys) : xs = ys := by
  refine List.Perm.eq_of_pairwise (fun a b _ _ hab hba => ?_) hx hy ?_
  · exact False.elim (OrientedCmp.not_lt_of_lt hab hba)
  · exact (List.perm_ext_iff_of_nodup (keySorted_nodup hx) (keySorted_nodup hy)).mpr same

/-- The entries of the map whose key passes the test, in key order. -/
def entriesWhere (p : α → Bool) (m : ExtTreeMap α β) : List (α × β) :=
  m.toList.filter (fun e => p e.1)

variable {p : α → Bool} {m : ExtTreeMap α β}

theorem mem_entriesWhere {e : α × β} :
    e ∈ entriesWhere p m ↔ m[e.1]? = some e.2 ∧ p e.1 = true := by
  rw [entriesWhere, List.mem_filter, ← ExtTreeMap.mem_toList_iff_getElem?_eq_some]

omit [LawfulEqOrd α] in
theorem entriesWhere_sorted (p : α → Bool) (m : ExtTreeMap α β) :
    KeySorted (entriesWhere p m) :=
  m.ordered_keys_toList.filter _

/-- A new key above every visible key goes to the end of the interval. -/
theorem entriesWhere_insert_last (k : α) (v : β) (inside : p k = true)
    (above : ∀ e ∈ entriesWhere p m, compare e.1 k = .lt) :
    entriesWhere p (m.insert k v) = entriesWhere p m ++ [(k, v)] := by
  refine keySorted_ext (entriesWhere_sorted p _) ?_ ?_
  · refine List.pairwise_append.mpr ⟨entriesWhere_sorted p m, by simp, ?_⟩
    intro a ha b hb
    rw [List.mem_singleton.mp hb]
    exact above a ha
  · rintro ⟨a, b⟩
    rw [List.mem_append, List.mem_singleton, mem_entriesWhere, mem_entriesWhere,
      ExtTreeMap.getElem?_insert]
    by_cases hk : k = a
    · subst hk
      have fresh : m[k]? ≠ some b := by
        intro hb
        have hlt := above (k, b) (mem_entriesWhere.mpr ⟨hb, inside⟩)
        exact OrientedCmp.not_lt_of_lt hlt hlt
      simp [inside, fresh, eq_comm]
    · simp [hk, Ne.symm hk]

theorem entriesWhere_congr {m' : ExtTreeMap α β}
    (same : ∀ k, p k = true → m'[k]? = m[k]?) : entriesWhere p m' = entriesWhere p m := by
  refine keySorted_ext (entriesWhere_sorted p _) (entriesWhere_sorted p _) ?_
  intro e
  rw [mem_entriesWhere, mem_entriesWhere]
  constructor <;> rintro ⟨he, hp⟩
  · exact ⟨(same _ hp) ▸ he, hp⟩
  · exact ⟨(same _ hp).symm ▸ he, hp⟩

theorem entriesWhere_eq_nil (none : ∀ k, p k = true → m[k]? = none) :
    entriesWhere p m = [] := by
  refine List.eq_nil_iff_forall_not_mem.mpr ?_
  intro e he
  obtain ⟨hv, hp⟩ := mem_entriesWhere.mp he
  rw [none e.1 hp] at hv
  cases hv

/-- Remove a list of keys one after another. -/
def eraseAll (m : ExtTreeMap α β) (keys : List α) : ExtTreeMap α β :=
  keys.foldl (fun m k => m.erase k) m

theorem getElem?_eraseAll [DecidableEq α] (m : ExtTreeMap α β) (keys : List α) (a : α) :
    (eraseAll m keys)[a]? = if a ∈ keys then none else m[a]? := by
  induction keys generalizing m with
  | nil => simp [eraseAll]
  | cons k keys ih =>
    have step : eraseAll m (k :: keys) = eraseAll (m.erase k) keys := rfl
    rw [step, ih, ExtTreeMap.getElem?_erase]
    by_cases ha : a ∈ keys
    · simp [ha]
    · by_cases hk : k = a
      · simp [hk]
      · simp [ha, hk, Ne.symm hk]

end Intervals

section Collecting
variable {α : Type u} {β : Type v} {γ : Type w} [Ord α] [TransOrd α] [LawfulEqOrd α]
variable {key : γ → α} {val : γ → β} {xs : List γ} {k : α} {v : β}

/-- The map of a list of entries; a later entry replaces an earlier one of its key. -/
def collect (key : γ → α) (val : γ → β) (xs : List γ) : ExtTreeMap α β :=
  xs.foldl (fun m x => m.insert (key x) (val x)) ∅

omit [LawfulEqOrd α] in
theorem collect_append_singleton (x : γ) :
    collect key val (xs ++ [x]) = (collect key val xs).insert (key x) (val x) := by
  rw [collect, List.foldl_append]
  rfl

omit [LawfulEqOrd α] in
/-- The entry that was collected last decides. -/
theorem getElem?_collect_last (x : γ) :
    (collect key val (xs ++ [x]))[key x]? = some (val x) := by
  rw [collect_append_singleton, ExtTreeMap.getElem?_insert_self]

theorem exists_of_getElem?_collect (h : (collect key val xs)[k]? = some v) :
    ∃ x ∈ xs, key x = k ∧ val x = v := by
  induction xs using List.reverseRecOn with
  | nil =>
    rw [collect, List.foldl_nil, ExtTreeMap.getElem?_empty] at h
    cases h
  | append_singleton xs x ih =>
    rw [collect_append_singleton, ExtTreeMap.getElem?_insert] at h
    by_cases hx : key x = k
    · rw [if_pos (by simpa using hx)] at h
      exact ⟨x, by simp, hx, Option.some.inj h⟩
    · rw [if_neg (by simpa using hx)] at h
      obtain ⟨y, hy, found⟩ := ih h
      exact ⟨y, List.mem_append_left _ hy, found⟩

theorem isSome_getElem?_collect (key : γ → α) (val : γ → β) {x : γ} (hx : x ∈ xs) :
    ∃ v, (collect key val xs)[key x]? = some v := by
  induction xs using List.reverseRecOn with
  | nil => cases hx
  | append_singleton xs y ih =>
    rw [collect_append_singleton, ExtTreeMap.getElem?_insert]
    by_cases hk : key y = key x
    · exact ⟨val y, if_pos (by simpa using hk)⟩
    · rw [if_neg (by simpa using hk)]
      rcases List.mem_append.mp hx with hx | hx
      · exact ih hx
      · rw [List.mem_singleton.mp hx] at hk
        exact False.elim (hk rfl)

/-- When keys are not shared, the map holds exactly the listed entries. -/
theorem getElem?_collect_iff (unique : ∀ x ∈ xs, ∀ y ∈ xs, key x = key y → x = y) :
    (collect key val xs)[k]? = some v ↔ ∃ x ∈ xs, key x = k ∧ val x = v := by
  constructor
  · exact exists_of_getElem?_collect
  · rintro ⟨x, hx, rfl, rfl⟩
    obtain ⟨w, hw⟩ := isSome_getElem?_collect key val hx
    obtain ⟨y, hy, hkey, rfl⟩ := exists_of_getElem?_collect hw
    rw [hw, unique y hy x hx hkey]

end Collecting

end OrderedMaps
