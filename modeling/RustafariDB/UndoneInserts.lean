import RustafariDB.SearchedTexts

/-!
# Inserts that are undone

An index with one row more than another stays ahead by that row through all calls on other
rows: the postings differ in the copies of the row and the recorded terms in its entry. A
deletion of the row takes the difference away.
-/

namespace UndoneInserts

open Std Multimaps InvertedIndexing SearchedTexts

section Ahead
variable {ix ix' : InvertedIndex} {rowId : Nat} {terms : List String}

def rowOf : Call → Nat
  | .insert rowId _ => rowId
  | .delete rowId => rowId

/-- The second index has a row with terms beside the content of the first. -/
structure Ahead (rowId : Nat) (terms : List String) (ix ix' : InvertedIndex) : Prop where
  posted : ∀ t, (under ix'.index t).filter (· ≠ rowId) = under ix.index t
  unlisted : ∀ t, t ∉ terms → rowId ∉ under ix'.index t
  recorded : ix'.docTerms[rowId]? = some terms
  unrecorded : ix.docTerms[rowId]? = none
  others : ∀ r, r ≠ rowId → ix'.docTerms[r]? = ix.docTerms[r]?

variable [UnicodeText]

theorem tight_apply (tight : Tight ix.index) (call : Call) : Tight (call.apply ix).index := by
  cases call with
  | insert r text => exact tight_pushes tight (tokenize text) r
  | delete r =>
    rw [Call.apply, InvertedIndex.delete]
    cases ix.docTerms[r]? with
    | none => exact tight
    | some terms => exact tight_withdrawals tight terms r

/-- No call leaves an empty posting list. -/
theorem tight_calls (tight : Tight ix.index) (calls : List Call) :
    Tight (calls.foldl Call.apply ix).index := by
  induction calls generalizing ix with
  | nil => exact tight
  | cons call calls ih => exact ih (tight_apply tight call)

theorem ahead_insert (text : String) (unposted : ∀ t, ¬ ix.Posted t rowId)
    (unrecorded : ix.docTerms[rowId]? = none) :
    Ahead rowId (tokenize text) ix (ix.insert rowId text) where
  posted t := by
    rw [InvertedIndex.under_insert, List.filter_append, List.filter_replicate, if_neg (by simp),
      List.append_nil]
    exact List.filter_eq_self.mpr (fun x inside => decide_eq_true (fun same =>
      unposted t (same ▸ inside)))
  unlisted t absent := by
    rw [InvertedIndex.under_insert, List.count_eq_zero.mpr absent, List.replicate_zero,
      List.append_nil]
    exact unposted t
  recorded := by rw [InvertedIndex.docTerms_insert, if_pos rfl]
  unrecorded := unrecorded
  others r other := by rw [InvertedIndex.docTerms_insert, if_neg (Ne.symm other)]

/-- An insert of another row is appended on both sides. -/
theorem ahead_insert_other (ahead : Ahead rowId terms ix ix') {r : Nat} (other : r ≠ rowId)
    (text : String) : Ahead rowId terms (ix.insert r text) (ix'.insert r text) where
  posted t := by
    rw [InvertedIndex.under_insert, InvertedIndex.under_insert, List.filter_append,
      ahead.posted, List.filter_replicate, if_pos (decide_eq_true other)]
  unlisted t absent := by
    rw [InvertedIndex.under_insert, List.mem_append]
    rintro (before | new)
    · exact ahead.unlisted t absent before
    · exact other (List.eq_of_mem_replicate new).symm
  recorded := by rw [InvertedIndex.docTerms_insert, if_neg other, ahead.recorded]
  unrecorded := by rw [InvertedIndex.docTerms_insert, if_neg other, ahead.unrecorded]
  others r' differ := by
    rw [InvertedIndex.docTerms_insert, InvertedIndex.docTerms_insert, ahead.others r' differ]

omit [UnicodeText] in
/-- A deletion of another row withdraws it from the same lists on both sides. -/
theorem ahead_delete_other (ahead : Ahead rowId terms ix ix') {r : Nat} (other : r ≠ rowId) :
    Ahead rowId terms (ix.delete r) (ix'.delete r) where
  posted t := by
    rw [InvertedIndex.under_delete, InvertedIndex.under_delete, ahead.others r other]
    by_cases listed : t ∈ ix.docTerms[r]?.getD []
    · rw [if_pos listed, if_pos listed, ← ahead.posted t, List.filter_comm]
    · rw [if_neg listed, if_neg listed, ahead.posted t]
  unlisted t absent := by
    rw [InvertedIndex.under_delete]
    by_cases listed : t ∈ ix'.docTerms[r]?.getD []
    · rw [if_pos listed]
      exact fun kept => ahead.unlisted t absent (List.mem_of_mem_filter kept)
    · rw [if_neg listed]
      exact ahead.unlisted t absent
  recorded := by rw [InvertedIndex.docTerms_delete, if_neg other, ahead.recorded]
  unrecorded := by rw [InvertedIndex.docTerms_delete, if_neg other, ahead.unrecorded]
  others r' differ := by
    rw [InvertedIndex.docTerms_delete, InvertedIndex.docTerms_delete, ahead.others r' differ]

theorem ahead_calls (ahead : Ahead rowId terms ix ix') {calls : List Call}
    (others : ∀ call ∈ calls, rowOf call ≠ rowId) :
    Ahead rowId terms (calls.foldl Call.apply ix) (calls.foldl Call.apply ix') := by
  induction calls generalizing ix ix' with
  | nil => exact ahead
  | cons call calls ih =>
    obtain ⟨first, later⟩ := List.forall_mem_cons.mp others
    cases call with
    | insert r text => exact ih (ahead_insert_other ahead first text) later
    | delete r => exact ih (ahead_delete_other ahead first) later

omit [UnicodeText] in
/-- Deleting the row leaves what the other index has. -/
theorem delete_of_ahead (ahead : Ahead rowId terms ix ix') (tight : Tight ix.index)
    (tight' : Tight (ix'.delete rowId).index) : ix'.delete rowId = ix := by
  have index : (ix'.delete rowId).index = ix.index := by
    refine ext_under tight' tight (fun t => ?_)
    rw [InvertedIndex.under_delete, ahead.recorded, Option.getD_some]
    by_cases listed : t ∈ terms
    · rw [if_pos listed, ahead.posted t]
    · rw [if_neg listed, ← ahead.posted t, eq_comm]
      exact List.filter_eq_self.mpr (fun x inside => decide_eq_true (fun same =>
        ahead.unlisted t listed (same ▸ inside)))
  have docTerms : (ix'.delete rowId).docTerms = ix.docTerms := by
    refine ExtTreeMap.ext_getElem? (fun {r} => ?_)
    rw [InvertedIndex.docTerms_delete]
    by_cases same : rowId = r
    · rw [if_pos same, ← same, ahead.unrecorded]
    · rw [if_neg same, ahead.others r (Ne.symm same)]
  exact congrArg₂ InvertedIndex.mk index docTerms

end Ahead

section Undone
variable [UnicodeText]

/-- In every reachable index, an insert of a row that is nowhere in it is undone by a deletion of
the row, whatever calls on other rows come between: they do what they would have done alone, and
no list is left empty. -/
theorem delete_undoes_insert (calls : List Call) (rowId : Nat) (text : String)
    (between : List Call) (unposted : ∀ t, ¬ (runCalls calls).Posted t rowId)
    (unrecorded : (runCalls calls).docTerms[rowId]? = none)
    (others : ∀ call ∈ between, rowOf call ≠ rowId) :
    (between.foldl Call.apply ((runCalls calls).insert rowId text)).delete rowId =
        between.foldl Call.apply (runCalls calls) ∧
      Tight (between.foldl Call.apply (runCalls calls)).index := by
  have reached : Tight (runCalls calls).index := tight_calls tight_empty calls
  have ahead := ahead_calls (ahead_insert text unposted unrecorded) others
  have tight := tight_calls reached between
  have inserted : Tight ((runCalls calls).insert rowId text).index :=
    tight_apply reached (.insert rowId text)
  exact ⟨delete_of_ahead ahead tight (tight_apply (tight_calls inserted between) (.delete rowId)),
    tight⟩

end Undone

/-- The row shares a term with one that is deleted between and one that comes between. -/
theorem delete_undoes_insert_shared :
    ((([.delete 2, .insert 3 "c"] : List Call).foldl Call.apply
      ((runCalls [.insert 2 "a b"]).insert 1 "b c b")).delete 1) =
        ([.delete 2, .insert 3 "c"] : List Call).foldl Call.apply
          (runCalls [.insert 2 "a b"]) := by
  refine (delete_undoes_insert [.insert 2 "a b"] 1 "b c b" [.delete 2, .insert 3 "c"] ?_ ?_ ?_).1
  · intro t posted
    rcases (InvertedIndex.posted_insert "a b").mp posted with before | ⟨_, same⟩
    · exact InvertedIndex.not_posted_new before
    · cases same
  · rfl
  · refine List.forall_mem_cons.mpr ⟨by decide, List.forall_mem_singleton.mpr (by decide)⟩

end UndoneInserts
