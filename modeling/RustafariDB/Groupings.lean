import Mathlib.Algebra.Ring.Nat
import RustafariDB.ListBuckets
import RustafariDB.OrderedMaps
import RustafariDB.StatefulPrograms

/-!
# Grouping a list in an ordered map

Every element joins the group of its key, and the first one labels the group. The
map holds for each key that occurs the elements with that key in their order; read
one after another, the groups are the list up to order.
-/

namespace Groupings

open Std ListBuckets StatefulPrograms

universe u v w
variable {α : Type u} {κ : Type v} {τ : Type w} [Ord κ] [TransOrd κ] [LawfulEqOrd κ]

/-- The loop body: an element goes to the end of the group of its key. -/
def join (key : α → κ) (label : α → τ) (groups : ExtTreeMap κ (τ × List α)) (x : α) :
    ExtTreeMap κ (τ × List α) :=
  let group := groups[key x]?.getD (label x, [])
  groups.insert (key x) (group.1, group.2 ++ [x])

def grouped (key : α → κ) (label : α → τ) (xs : List α) : ExtTreeMap κ (τ × List α) :=
  xs.foldl (join key label) ∅

/-- A group of these members, if there are any. -/
def labelled (label : α → τ) : List α → Option (τ × List α)
  | [] => none
  | x :: members => some (label x, x :: members)

variable [DecidableEq κ] {key : α → κ} {label : α → τ} {xs : List α}

theorem labelled_snd {members : List α} {g : τ × List α} (h : labelled label members = some g) :
    g.2 = members ∧ members ≠ [] := by
  cases members with
  | nil => cases h
  | cons x members =>
    cases h
    exact ⟨rfl, List.cons_ne_nil x members⟩

theorem labelled_append (members : List α) (x : α) :
    labelled label (members ++ [x]) =
      some (((labelled label members).getD (label x, [])).1,
        ((labelled label members).getD (label x, [])).2 ++ [x]) := by
  cases members <;> rfl

/-- The group of a key has the elements with that key, in their order. -/
theorem getElem?_grouped (key : α → κ) (label : α → τ) (xs : List α) (k : κ) :
    (grouped key label xs)[k]? = labelled label (xs.filter (fun x => key x = k)) := by
  induction xs using List.reverseRecOn with
  | nil => exact ExtTreeMap.getElem?_empty
  | append_singleton xs x ih =>
    have step : grouped key label (xs ++ [x]) = join key label (grouped key label xs) x := by
      rw [grouped, List.foldl_append]
      rfl
    rw [step, join, ExtTreeMap.getElem?_insert, List.filter_append]
    by_cases hk : key x = k
    · subst hk
      rw [if_pos (by simp), ih, List.filter_singleton, decide_eq_true rfl]
      exact (labelled_append _ x).symm
    · rw [if_neg (by simpa using hk), ih, List.filter_singleton, decide_eq_false hk]
      exact congrArg (labelled label) (List.append_nil _).symm

theorem mem_toList_grouped {k : κ} {g : τ × List α} :
    (k, g) ∈ (grouped key label xs).toList ↔
      labelled label (xs.filter (fun x => key x = k)) = some g := by
  rw [ExtTreeMap.mem_toList_iff_getElem?_eq_some, getElem?_grouped]

/-- The first element with its key. -/
def Leads (key : α → κ) (xs : List α) (x : α) : Prop :=
  xs.find? (fun y => key y = key x) = some x

/-- There is a group under a key just if an element with it comes first. -/
theorem mem_grouped_iff {k : κ} {g : τ × List α} :
    (k, g) ∈ (grouped key label xs).toList ↔
      ∃ x, Leads key xs x ∧ key x = k ∧ g = (label x, xs.filter (fun y => key y = k)) := by
  rw [mem_toList_grouped]
  constructor
  · intro found
    cases members : xs.filter (fun y => key y = k) with
    | nil =>
      rw [members] at found
      cases found
    | cons x rest =>
      rw [members] at found
      cases found
      have same : key x = k :=
        of_decide_eq_true (List.mem_filter.mp (members ▸ List.mem_cons_self : x ∈ _)).2
      subst same
      refine ⟨x, ?_, rfl, rfl⟩
      rw [Leads, ← List.head?_filter, members]
      rfl
  · rintro ⟨x, first, rfl, rfl⟩
    rw [Leads, ← List.head?_filter] at first
    obtain ⟨rest, members⟩ := List.head?_eq_some_iff.mp first
    rw [members]
    rfl

/-- A group is labelled by its first element and holds the elements with that key. -/
theorem group_members {k : κ} {g : τ × List α} (inside : (k, g) ∈ (grouped key label xs).toList) :
    ∃ x ∈ xs, key x = k ∧ g.1 = label x ∧ g.2 = xs.filter (fun y => key y = k) := by
  obtain ⟨x, first, same, rfl⟩ := mem_grouped_iff.mp inside
  exact ⟨x, List.mem_of_find?_eq_some first, same, rfl, rfl⟩

theorem exists_group (key : α → κ) (label : α → τ) {x : α} (inside : x ∈ xs) :
    ∃ g, (key x, g) ∈ (grouped key label xs).toList := by
  have member : x ∈ xs.filter (fun y => key y = key x) := List.mem_filter.mpr ⟨inside, by simp⟩
  obtain ⟨y, rest, members⟩ := List.exists_cons_of_ne_nil (List.ne_nil_of_mem member)
  exact ⟨(label y, y :: rest), mem_toList_grouped.mpr (by rw [members]; rfl)⟩

/-- Each group is that of a first element, and each first element has its group. -/
theorem mem_groups_iff {g : τ × List α} :
    g ∈ (grouped key label xs).toList.map Prod.snd ↔
      ∃ x, Leads key xs x ∧ g = (label x, xs.filter (fun y => key y = key x)) := by
  constructor
  · intro listed
    obtain ⟨⟨k, g⟩, inside, rfl⟩ := List.mem_map.mp listed
    obtain ⟨x, first, rfl, rfl⟩ := mem_grouped_iff.mp inside
    exact ⟨x, first, rfl⟩
  · rintro ⟨x, first, rfl⟩
    exact List.mem_map.mpr ⟨(key x, _), mem_grouped_iff.mpr ⟨x, first, rfl, rfl⟩, rfl⟩

omit [LawfulEqOrd κ] [DecidableEq κ] in
theorem nodup_keys_grouped (key : α → κ) (label : α → τ) (xs : List α) :
    ((grouped key label xs).toList.map Prod.fst).Nodup := by
  rw [ExtTreeMap.map_fst_toList_eq_keys]
  exact ExtTreeMap.nodup_keys

/-- Each key that occurs has one element that comes first with it. -/
structure Leaders (key : α → κ) (xs firsts : List α) : Prop where
  distinct : (firsts.map key).Nodup
  first : ∀ x, x ∈ firsts ↔ Leads key xs x

/-- The groups are those of the first elements, one for each of them. -/
theorem exists_leaders {α κ τ : Type u} [Ord κ] [TransOrd κ] [LawfulEqOrd κ] [DecidableEq κ]
    (key : α → κ) (label : α → τ) (xs : List α) :
    ∃ firsts, Leaders key xs firsts ∧ (grouped key label xs).toList.map Prod.snd =
      firsts.map (fun x => (label x, xs.filter (fun y => key y = key x))) := by
  have each : ∀ e ∈ (grouped key label xs).toList, ∃ x, Leads key xs x ∧ key x = e.1 ∧
      e.2 = (label x, xs.filter (fun y => key y = e.1)) := fun e => mem_grouped_iff.mp
  obtain ⟨firsts, led⟩ := forall₂_of_exists each
  have keys : firsts.map key = (grouped key label xs).toList.map Prod.fst := by
    refine List.forall₂_eq_eq_eq ▸ ?_
    exact List.forall₂_map_left_iff.mpr (List.forall₂_map_right_iff.mpr
      (led.flip.imp (fun x e h => h.2.1)))
  refine ⟨firsts, ⟨?_, fun x => ⟨fun listed => ?_, fun leads => ?_⟩⟩, ?_⟩
  · rw [keys]
    exact nodup_keys_grouped key label xs
  · obtain ⟨e, _, leads, _⟩ := exists_of_forall₂ led.flip x listed
    exact leads
  · have inside : (key x, label x, xs.filter (fun y => key y = key x)) ∈
        (grouped key label xs).toList := mem_grouped_iff.mpr ⟨x, leads, rfl, rfl⟩
    obtain ⟨y, listed, leads', same, _⟩ := exists_of_forall₂ led _ inside
    have same : key y = key x := same
    rw [Leads, same] at leads'
    rw [Leads, leads'] at leads
    rw [← Option.some.inj leads]
    exact listed
  · refine List.forall₂_eq_eq_eq ▸ ?_
    refine List.forall₂_map_left_iff.mpr (List.forall₂_map_right_iff.mpr (led.imp ?_))
    rintro e x ⟨_, same, members⟩
    rw [members, same]

/-- Read one after another, the groups hold every element once. -/
theorem grouped_perm (key : α → κ) (label : α → τ) (xs : List α) :
    ((grouped key label xs).toList.flatMap (fun e => e.2.2)).Perm xs := by
  have members : (grouped key label xs).toList.flatMap (fun e => e.2.2) =
      ((grouped key label xs).toList.map Prod.fst).flatMap
        (bucket (fun x => some (key x)) xs) := by
    rw [List.flatMap_map]
    refine List.flatMap_congr (fun e inside => ?_)
    rw [(labelled_snd (mem_toList_grouped.mp inside)).1, bucket]
    simp only [Option.some.injEq]
  rw [members]
  refine (flatMap_bucket_perm _ xs _ (nodup_keys_grouped key label xs)).trans (List.Perm.of_eq ?_)
  refine List.filter_eq_self.mpr (fun x inside => ?_)
  obtain ⟨g, listed⟩ := exists_group key label inside
  exact List.any_eq_true.mpr ⟨key x, List.mem_map.mpr ⟨(key x, g), listed, rfl⟩, by simp⟩

/-- What is counted group by group adds up to the count of the whole. -/
theorem sum_countP_grouped (p : α → Bool) :
    ((grouped key label xs).toList.map (fun e => e.2.2.countP p)).sum = xs.countP p := by
  rw [← (grouped_perm key label xs).countP_eq, List.countP_flatMap]
  rfl

section Labels
variable (faithful : ∀ x ∈ xs, ∀ y ∈ xs, key x = key y ↔ label x = label y)
include faithful

/-- Keys that tell the labels apart give each label one group. -/
theorem nodup_labels : ((grouped key label xs).toList.map (fun e => e.2.1)).Nodup := by
  apply List.Nodup.map_on
  · rintro ⟨k, g⟩ inside ⟨k', g'⟩ inside' same
    obtain ⟨x, hx, rfl, hg, members⟩ := group_members inside
    obtain ⟨y, hy, rfl, hg', members'⟩ := group_members inside'
    have keys : key x = key y := (faithful x hx y hy).mpr (hg.symm.trans (same.trans hg'))
    have groups : g = g' := Prod.ext same (by rw [members, members', keys])
    rw [keys, groups]
  · exact (nodup_keys_grouped key label xs).of_map

theorem mem_labels {t : τ} :
    t ∈ (grouped key label xs).toList.map (fun e => e.2.1) ↔ ∃ x ∈ xs, label x = t := by
  constructor
  · intro listed
    obtain ⟨⟨k, g⟩, inside, rfl⟩ := List.mem_map.mp listed
    obtain ⟨x, hx, -, hg, -⟩ := group_members inside
    exact ⟨x, hx, hg.symm⟩
  · rintro ⟨x, hx, rfl⟩
    obtain ⟨g, inside⟩ := exists_group key label hx
    obtain ⟨y, hy, same, hg, -⟩ := group_members inside
    exact List.mem_map.mpr ⟨(key x, g), inside, hg.trans ((faithful y hy x hx).mp same)⟩

/-- The group of a label holds the elements with that label, in their order. -/
theorem group_of_label [DecidableEq τ] {k : κ} {g : τ × List α}
    (inside : (k, g) ∈ (grouped key label xs).toList) :
    g.2 = xs.filter (fun x => label x = g.1) := by
  obtain ⟨x, hx, rfl, hg, members⟩ := group_members inside
  rw [members, hg]
  refine List.filter_congr (fun y hy => ?_)
  exact decide_eq_decide.mpr (faithful y hy x hx)

end Labels

end Groupings
