import Mathlib.Data.List.Nodup
import RustafariDB.Multimaps

/-!
# The full-text index

`inverted.rs`: postings from terms to row ids, one for each occurrence, and the terms of
each row for deletion. A search counts occurrences in a hash map and sorts what comes out
of it, so ties are in any order. The letters are those of the standard library's Unicode
tables, which are a parameter.
-/

namespace InvertedIndexing

open Std OrderedMaps Multimaps

/-- `str::to_lowercase`, `char::is_whitespace` and `char::is_alphanumeric`. Lowercasing leaves
a text alone that is made of characters of a lowercased text. -/
class UnicodeText where
  toLowercase : String → String
  isWhitespace : Char → Bool
  isAlphanumeric : Char → Bool
  lowercase_stable : ∀ text word : String,
    (∀ c ∈ word.toList, c ∈ (toLowercase text).toList) → toLowercase word = word

section Tokens
variable [UnicodeText]

open UnicodeText

/-- `split_whitespace`: the runs between whitespace characters. -/
def splitWhitespace (text : String) : List (List Char) :=
  (text.toList.splitOnP isWhitespace).filter (· ≠ [])

def tokenize (text : String) : List String :=
  ((splitWhitespace (toLowercase text)).map
    (fun word => String.ofList (word.filter isAlphanumeric))).filter (· ≠ "")

omit [UnicodeText] in
/-- A run holds characters of the list that are no separators. -/
theorem mem_of_mem_splitOnP {α : Type} {p : α → Bool} {xs : List α} {run : List α}
    (inside : run ∈ xs.splitOnP p) : ∀ x ∈ run, x ∈ xs ∧ p x = false := by
  induction xs generalizing run with
  | nil =>
    rw [List.splitOnP_nil, List.mem_singleton] at inside
    subst inside
    simp
  | cons y xs ih =>
    rw [List.splitOnP_cons_eq_if_modifyHead] at inside
    split at inside
    · rcases List.mem_cons.mp inside with rfl | later
      · simp
      · exact fun x hx => ⟨List.mem_cons_of_mem y (ih later x hx).1, (ih later x hx).2⟩
    · rename_i notSep
      obtain ⟨first, rest, split⟩ := List.exists_cons_of_ne_nil (List.splitOnP_ne_nil p xs)
      rw [split] at ih inside
      have kept : ∀ x ∈ first, x ∈ y :: xs ∧ p x = false := fun x hx =>
        ⟨List.mem_cons_of_mem y (ih List.mem_cons_self x hx).1, (ih List.mem_cons_self x hx).2⟩
      rcases List.mem_cons.mp inside with rfl | later
      · refine List.forall_mem_cons.mpr ⟨⟨List.mem_cons_self, ?_⟩, kept⟩
        exact Bool.eq_false_iff.mpr notSep
      · exact fun x hx => ⟨List.mem_cons_of_mem y (ih (List.mem_cons_of_mem _ later) x hx).1,
          (ih (List.mem_cons_of_mem _ later) x hx).2⟩

/-- A token is one of its own tokens, and the only one. -/
theorem tokenize_token {text token : String} (inside : token ∈ tokenize text) :
    tokenize token = [token] := by
  obtain ⟨made, nonempty⟩ := List.mem_filter.mp inside
  obtain ⟨word, listed, rfl⟩ := List.mem_map.mp made
  have run := mem_of_mem_splitOnP (List.mem_filter.mp listed).1
  have chars : ∀ c ∈ word.filter isAlphanumeric, c ∈ (toLowercase text).toList ∧
      isWhitespace c = false := fun c hc => run c (List.mem_filter.mp hc).1
  have lower : toLowercase (String.ofList (word.filter isAlphanumeric)) =
      String.ofList (word.filter isAlphanumeric) := by
    apply lowercase_stable text
    intro c hc
    rw [String.toList_ofList] at hc
    exact (chars c hc).1
  have words : splitWhitespace (String.ofList (word.filter isAlphanumeric)) =
      [word.filter isAlphanumeric] := by
    have one := List.splitOnP_eq_singleton (fun c hc => (chars c hc).2)
    have some_char : word.filter isAlphanumeric ≠ [] := by
      intro empty
      rw [empty] at nonempty
      exact absurd nonempty (by decide)
    rw [splitWhitespace, String.toList_ofList, one, List.filter_singleton]
    simp [some_char]
  have letters : (word.filter isAlphanumeric).filter isAlphanumeric =
      word.filter isAlphanumeric :=
    List.filter_eq_self.mpr (fun c hc => (List.mem_filter.mp hc).2)
  rw [tokenize, lower, words, List.map_singleton, letters]
  exact List.filter_eq_self.mpr (List.forall_mem_singleton.mpr nonempty)

end Tokens

/-- Postings by term, with one entry for each occurrence, and terms by row. -/
structure InvertedIndex where
  index : ExtTreeMap String (List Nat)
  docTerms : ExtTreeMap Nat (List String)

namespace InvertedIndex

def new : InvertedIndex := ⟨∅, ∅⟩

def insert [UnicodeText] (ix : InvertedIndex) (rowId : Nat) (text : String) : InvertedIndex :=
  let terms := tokenize text
  { index := terms.foldl (fun index t => push index t rowId) ix.index
    docTerms := ix.docTerms.insert rowId terms }

def delete (ix : InvertedIndex) (rowId : Nat) : InvertedIndex :=
  match ix.docTerms[rowId]? with
  | some terms =>
    { index := terms.foldl (withdraw rowId) ix.index
      docTerms := ix.docTerms.erase rowId }
  | none => ix

/-- The loop over the postings of the terms; a count is a `u32`. -/
def counts (ix : InvertedIndex) (terms : List String) : ExtTreeMap Nat UInt32 :=
  terms.foldl (fun counts t =>
    (under ix.index t).foldl (fun counts rowId =>
      counts.insert rowId (counts[rowId]?.getD 0 + 1)) counts) ∅

/-- Sort by descending count, cut off and forget the counts. -/
def ranked (out : List (Nat × UInt32)) (topK : Nat) : List Nat :=
  ((out.insertionSort (fun a b => b.2 ≤ a.2)).take topK).map Prod.fst

/-- The results `search` may return, one for each iteration order of its hash map. -/
def Search [UnicodeText] (ix : InvertedIndex) (query : String) (topK : Nat)
    (found : List Nat) : Prop :=
  match tokenize query with
  | [] => found = []
  | terms => ∃ out, out.Perm (ix.counts terms).toList ∧ found = ranked out topK

end InvertedIndex

section Postings
variable {ix : InvertedIndex} {t : String} {rowId r : Nat}

/-- The row is posted under the term. -/
def InvertedIndex.Posted (ix : InvertedIndex) (t : String) (rowId : Nat) : Prop :=
  rowId ∈ under ix.index t

namespace InvertedIndex

theorem not_posted_new : ¬ (new : InvertedIndex).Posted t rowId := by
  simp [Posted, new, under]

theorem posted_insert [UnicodeText] (text : String) :
    (ix.insert r text).Posted t rowId ↔
      ix.Posted t rowId ∨ (t ∈ tokenize text ∧ rowId = r) :=
  mem_under_pushes (tokenize text) r

/-- An insert adds the row once for each occurrence of a term. -/
theorem under_insert [UnicodeText] (text : String) (t : String) :
    under (ix.insert r text).index t =
      under ix.index t ++ List.replicate ((tokenize text).count t) r :=
  under_pushes (tokenize text) r t

theorem docTerms_insert [UnicodeText] (text : String) :
    (ix.insert r text).docTerms[rowId]? =
      if r = rowId then some (tokenize text) else ix.docTerms[rowId]? := by
  simp only [insert, ExtTreeMap.getElem?_insert, LawfulEqCmp.compare_eq_iff_eq]

/-- A deletion withdraws the row from the terms it is recorded with. -/
theorem posted_delete : (ix.delete r).Posted t rowId ↔
    ix.Posted t rowId ∧ ¬ (t ∈ ix.docTerms[r]?.getD [] ∧ rowId = r) := by
  rw [delete]
  cases found : ix.docTerms[r]? with
  | none => simp
  | some terms => exact mem_under_withdrawals terms r

/-- A deletion takes the row from the postings of its recorded terms. -/
theorem under_delete (t : String) : under (ix.delete r).index t =
    if t ∈ ix.docTerms[r]?.getD [] then (under ix.index t).filter (· ≠ r)
    else under ix.index t := by
  rw [delete]
  cases found : ix.docTerms[r]? with
  | none => rfl
  | some terms => exact under_withdrawals terms r t

theorem docTerms_delete : (ix.delete r).docTerms[rowId]? =
    if r = rowId then none else ix.docTerms[rowId]? := by
  rw [delete]
  cases found : ix.docTerms[r]? with
  | none =>
    simp only
    split
    · rename_i same
      rw [← same, found]
    · rfl
  | some terms => simp only [ExtTreeMap.getElem?_erase, LawfulEqCmp.compare_eq_iff_eq]

end InvertedIndex

end Postings

section Searching
variable {ix : InvertedIndex}

namespace InvertedIndex

/-- Counting keeps the rows counted so far and adds those of the list. -/
theorem mem_count_each (ids : List Nat) (counts : ExtTreeMap Nat UInt32) (rowId : Nat) :
    rowId ∈ ids.foldl (fun counts rowId =>
        counts.insert rowId (counts[rowId]?.getD 0 + 1)) counts ↔
      rowId ∈ counts ∨ rowId ∈ ids := by
  induction ids generalizing counts with
  | nil => simp
  | cons id ids ih =>
    rw [List.foldl_cons, ih, ExtTreeMap.mem_insert, List.mem_cons]
    simp only [LawfulEqCmp.compare_eq_iff_eq, eq_comm (a := id)]
    tauto

/-- The counted rows are those posted under one of the terms. -/
theorem mem_counts (terms : List String) (rowId : Nat) :
    rowId ∈ ix.counts terms ↔ ∃ t ∈ terms, ix.Posted t rowId := by
  have counted (start : ExtTreeMap Nat UInt32) :
      rowId ∈ terms.foldl (fun counts t => (under ix.index t).foldl (fun counts rowId =>
          counts.insert rowId (counts[rowId]?.getD 0 + 1)) counts) start ↔
        rowId ∈ start ∨ ∃ t ∈ terms, ix.Posted t rowId := by
    induction terms generalizing start with
    | nil => simp
    | cons t terms ih =>
      rw [List.foldl_cons, ih, mem_count_each, List.exists_mem_cons_iff, or_assoc]
      rfl
  rw [counts, counted]
  simp

/-- Ranking all entries of a map lists its keys once each. -/
theorem ranked_keys {m : ExtTreeMap Nat UInt32} {out : List (Nat × UInt32)}
    (order : out.Perm m.toList) (topK : Nat) :
    (ranked out topK).Nodup ∧ (∀ rowId ∈ ranked out topK, rowId ∈ m) ∧
      (m.keys.length ≤ topK → ∀ rowId ∈ m, rowId ∈ ranked out topK) := by
  have sorted : ((out.insertionSort (fun a b => b.2 ≤ a.2)).map Prod.fst).Perm m.keys := by
    rw [← ExtTreeMap.map_fst_toList_eq_keys]
    exact ((List.perm_insertionSort _ out).trans order).map Prod.fst
  have cut : ranked out topK =
      ((out.insertionSort (fun a b => b.2 ≤ a.2)).map Prod.fst).take topK := by
    rw [ranked, List.map_take]
  rw [cut]
  refine ⟨?_, ?_, ?_⟩
  · exact (sorted.nodup_iff.mpr ExtTreeMap.nodup_keys).sublist (List.take_sublist topK _)
  · intro rowId inside
    exact ExtTreeMap.mem_keys.mp (sorted.mem_iff.mp (List.mem_of_mem_take inside))
  · intro enough rowId inside
    rw [List.take_of_length_le (by rw [sorted.length_eq]; exact enough)]
    exact sorted.mem_iff.mpr (ExtTreeMap.mem_keys.mpr inside)

variable [UnicodeText] {query : String} {topK : Nat} {found : List Nat}

/-- The row is posted under a term of the query. -/
def Hit (ix : InvertedIndex) (query : String) (rowId : Nat) : Prop :=
  ∃ t ∈ tokenize query, ix.Posted t rowId

/-- The rows a search may return are the hits, each at most once, and all of them when there
is room for as many. -/
theorem search_spec (searched : ix.Search query topK found) :
    found.Nodup ∧ (∀ rowId ∈ found, ix.Hit query rowId) ∧
      ∀ rows : List Nat, rows.Nodup → (∀ rowId, ix.Hit query rowId → rowId ∈ rows) →
        rows.length ≤ topK → ∀ rowId, ix.Hit query rowId → rowId ∈ found := by
  rw [Search] at searched
  split at searched
  · rename_i none
    subst searched
    refine ⟨List.nodup_nil, ?_, ?_⟩
    · intro rowId inside
      cases inside
    · rintro rows _ _ _ rowId ⟨t, inside, _⟩
      rw [none] at inside
      cases inside
  · obtain ⟨out, order, rfl⟩ := searched
    obtain ⟨nodup, sound, complete⟩ := ranked_keys order topK
    refine ⟨nodup, fun rowId inside => (mem_counts _ rowId).mp (sound rowId inside), ?_⟩
    intro rows distinct listed room rowId hit
    refine complete ?_ rowId ((mem_counts _ rowId).mpr hit)
    refine Nat.le_trans (List.Subperm.length_le ?_) room
    refine List.subperm_of_subset ExtTreeMap.nodup_keys (fun key inside => ?_)
    exact listed key ((mem_counts _ key).mp (ExtTreeMap.mem_keys.mp inside))

/-- Some search with enough room returns every hit. -/
theorem exists_search (ix : InvertedIndex) (query : String) :
    ∃ topK found, ix.Search query topK found ∧ ∀ rowId, ix.Hit query rowId → rowId ∈ found := by
  refine ⟨(ix.counts (tokenize query)).keys.length, ?_⟩
  cases terms : tokenize query with
  | nil =>
    refine ⟨[], by rw [Search, terms], ?_⟩
    rintro rowId ⟨t, inside, _⟩
    rw [terms] at inside
    cases inside
  | cons t rest =>
    have order := List.Perm.refl (ix.counts (t :: rest)).toList
    refine ⟨ranked (ix.counts (t :: rest)).toList (ix.counts (t :: rest)).keys.length, ?_, ?_⟩
    · rw [Search, terms]
      exact ⟨_, order, rfl⟩
    · intro rowId hit
      rw [Hit, terms] at hit
      exact (ranked_keys order _).2.2 (Nat.le_refl _) rowId ((mem_counts _ rowId).mpr hit)

end InvertedIndex

end Searching

end InvertedIndexing
