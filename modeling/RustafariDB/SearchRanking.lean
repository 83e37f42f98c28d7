import Mathlib.Algebra.Order.Ring.Nat
import RustafariDB.SearchedTexts
import RustafariDB.TopRanks

/-!
# The order of search results

A search counts postings, one for each occurrence of a term in a text, and counts a token
as often as the query has it. Its results are meant to be in the order of the number of
terms that match. The two orders agree as far as no row that is returned has more
occurrences and fewer terms than another.
-/

namespace SearchRanking

open Std Multimaps InvertedIndexing SearchedTexts TopRanks

section Ranks
variable [UnicodeText]

/-- A row is inserted only while it has no text. -/
def InsertedOnce (calls : List Call) : Prop :=
  ∀ done rowId text, done ++ [.insert rowId text] <+: calls → currentText done rowId = none

/-- The tokens of the current text. -/
def tokensOf (calls : List Call) (rowId : Nat) : List String :=
  ((currentText calls rowId).map tokenize).getD []

/-- The occurrences of the tokens of the query in the text, as a `u32`. -/
def occurrences (calls : List Call) (query : String) (rowId : Nat) : Nat :=
  ((tokenize query).map (fun t => (tokensOf calls rowId).count t)).sum % 4294967296

/-- How many different tokens of the query the text has. -/
def matchingTerms (calls : List Call) (query : String) (rowId : Nat) : Nat :=
  ((tokenize query).dedup.filter (· ∈ tokensOf calls rowId)).length

/-- Whatever a search returns descends by the number of matching terms, and no row that it
leaves out has more of them than one it returns. -/
def RanksByTerms (calls : List Call) (query : String) (topK : Nat) : Prop :=
  ∀ found, (runCalls calls).Search query topK found →
    found.Pairwise (fun a b => matchingTerms calls query b ≤ matchingTerms calls query a) ∧
      ∀ a ∈ found, ∀ b, Matches calls query b → b ∉ found →
        ¬ matchingTerms calls query a < matchingTerms calls query b

/-- A row that fewer than `topK` others exceed in occurrences has at least the terms of every
row that does not exceed it. -/
def OccurrencesFollowTerms (calls : List Call) (query : String) (topK : Nat) : Prop :=
  ∀ a, Matches calls query a →
    (∀ above : List Nat, above.Nodup → (∀ b ∈ above, Matches calls query b ∧
      occurrences calls query a < occurrences calls query b) → above.length < topK) →
        ∀ b, Matches calls query b → occurrences calls query b ≤ occurrences calls query a →
          matchingTerms calls query b ≤ matchingTerms calls query a

end Ranks

section Postings
variable [UnicodeText] {calls : List Call}

omit [UnicodeText] in
theorem once_begun {done : List Call} (once : InsertedOnce calls) (begun : done <+: calls) :
    InsertedOnce done :=
  fun before rowId text shorter => once before rowId text (shorter.trans begun)

theorem keeps_of_once (once : InsertedOnce calls) : KeepsTokens calls := by
  intro done rowId text begun old current
  rw [once done rowId text begun] at current
  cases current

theorem tokensOf_concat (calls : List Call) (call : Call) (rowId : Nat) :
    tokensOf (calls ++ [call]) rowId =
      ((call.textAfter rowId (currentText calls rowId)).map tokenize).getD [] := by
  rw [tokensOf, currentText_concat]

/-- A row is posted under a term as often as the term occurs in its text. -/
theorem count_posted (once : InsertedOnce calls) (t : String) (rowId : Nat) :
    (under (runCalls calls).index t).count rowId = (tokensOf calls rowId).count t := by
  induction calls using List.reverseRecOn with
  | nil => simp [runCalls, tokensOf, currentText, InvertedIndex.new, under]
  | append_singleton calls call ih =>
    have before := ih (once_begun once (List.prefix_append calls [call]))
    rw [runCalls_concat, tokensOf_concat]
    cases call with
    | insert r text =>
      rw [Call.apply, InvertedIndex.under_insert, List.count_append, before, Call.textAfter]
      by_cases same : r = rowId
      · subst same
        have absent := once calls r text (List.prefix_refl _)
        rw [if_pos rfl, List.count_replicate_self, tokensOf, absent]
        simp
      · rw [if_neg same, List.count_replicate, if_neg (by simpa using same), Nat.add_zero,
          tokensOf]
    | delete r =>
      rw [Call.apply, InvertedIndex.under_delete, docTerms_eq, ← tokensOf, Call.textAfter]
      by_cases same : r = rowId
      · subst same
        rw [if_pos rfl, Option.map_none, Option.getD_none, List.count_nil, List.count_eq_zero]
        by_cases listed : t ∈ tokensOf calls r
        · rw [if_pos listed, List.mem_filter]
          exact fun kept => of_decide_eq_true kept.2 rfl
        · rw [if_neg listed, ← List.count_eq_zero, before, List.count_eq_zero]
          exact listed
      · have counted : ((under (runCalls calls).index t).filter (· ≠ r)).count rowId =
            (under (runCalls calls).index t).count rowId :=
          List.count_filter (decide_eq_true (Ne.symm same))
        rw [if_neg same, ← tokensOf, ← before]
        by_cases listed : t ∈ tokensOf calls r
        · rw [if_pos listed, counted]
        · rw [if_neg listed]

end Postings

section Counts
variable {ix : InvertedIndex}

/-- The inner loop of the count adds the copies of a row. -/
theorem count_each (ids : List Nat) (counts : ExtTreeMap Nat UInt32) (rowId : Nat) :
    (ids.foldl (fun counts rowId =>
        counts.insert rowId (counts[rowId]?.getD 0 + 1)) counts)[rowId]?.getD 0 =
      counts[rowId]?.getD 0 + UInt32.ofNat (ids.count rowId) := by
  induction ids generalizing counts with
  | nil => exact (UInt32.add_zero _).symm
  | cons id ids ih =>
    rw [List.foldl_cons, ih, ExtTreeMap.getElem?_insert, List.count_cons]
    by_cases same : id = rowId
    · subst same
      rw [if_pos (LawfulEqCmp.compare_eq_iff_eq.mpr rfl), if_pos (beq_self_eq_true id),
        Option.getD_some, UInt32.add_assoc, UInt32.ofNat_add, UInt32.add_comm 1]
      rfl
    · rw [if_neg (fun h => same (LawfulEqCmp.compare_eq_iff_eq.mp h)), if_neg (by simpa using same),
        Nat.add_zero]

theorem counts_getD (ix : InvertedIndex) (terms : List String) (rowId : Nat) :
    (ix.counts terms)[rowId]?.getD 0 =
      UInt32.ofNat (terms.map (fun t => (under ix.index t).count rowId)).sum := by
  have counted (start : ExtTreeMap Nat UInt32) :
      (terms.foldl (fun counts t => (under ix.index t).foldl (fun counts rowId =>
          counts.insert rowId (counts[rowId]?.getD 0 + 1)) counts) start)[rowId]?.getD 0 =
        start[rowId]?.getD 0 +
          UInt32.ofNat (terms.map (fun t => (under ix.index t).count rowId)).sum := by
    induction terms generalizing start with
    | nil => exact (UInt32.add_zero _).symm
    | cons t terms ih =>
      rw [List.foldl_cons, ih, count_each, List.map_cons, List.sum_cons, UInt32.ofNat_add,
        UInt32.add_assoc]
  rw [InvertedIndex.counts, counted]
  simp

end Counts

section Searches
variable [UnicodeText] {calls : List Call} {query : String} {topK : Nat}

/-- The rows that are counted, in some order. -/
def counted (calls : List Call) (query : String) : List Nat :=
  ((runCalls calls).counts (tokenize query)).keys

theorem mem_counted (once : InsertedOnce calls) {rowId : Nat} :
    rowId ∈ counted calls query ↔ Matches calls query rowId := by
  rw [counted, ExtTreeMap.mem_keys, InvertedIndex.mem_counts,
    ← hit_iff_matches (keeps_of_once once)]
  rfl

/-- The count of an entry is the number of occurrences. -/
theorem entry_count (once : InsertedOnce calls) {e : Nat × UInt32}
    (listed : e ∈ ((runCalls calls).counts (tokenize query)).toList) :
    e.2.toNat = occurrences calls query e.1 := by
  have found := ExtTreeMap.mem_toList_iff_getElem?_eq_some.mp listed
  have value := counts_getD (runCalls calls) (tokenize query) e.1
  rw [found, Option.getD_some] at value
  rw [value, UInt32.toNat_ofNat', occurrences]
  simp only [count_posted once]

omit [UnicodeText] in
/-- Entries sorted by their counts are rows sorted by what is counted. -/
theorem ranked_eq_top {weight : Nat → Nat} {out : List (Nat × UInt32)}
    (each : ∀ e ∈ out, e.2.toNat = weight e.1) :
    InvertedIndex.ranked out topK = top weight topK (out.map Prod.fst) := by
  rw [InvertedIndex.ranked, top, List.map_take]
  congr 1
  refine List.map_insertionSort _ _ Prod.fst out (fun a ha b hb => ?_)
  rw [UInt32.le_iff_toNat_le, each a ha, each b hb]

theorem search_iff_ranked {ix : InvertedIndex} {found : List Nat} :
    ix.Search query topK found ↔ ∃ out, out.Perm (ix.counts (tokenize query)).toList ∧
      found = InvertedIndex.ranked out topK := by
  rw [InvertedIndex.Search]
  cases tokenize query with
  | nil =>
    have none : (ix.counts []).toList = [] := rfl
    have cut : InvertedIndex.ranked [] topK = [] := by
      rw [InvertedIndex.ranked, List.insertionSort_nil, List.take_nil, List.map_nil]
    rw [none]
    constructor
    · rintro rfl
      exact ⟨[], List.Perm.refl _, cut.symm⟩
    · rintro ⟨out, order, rfl⟩
      rw [List.Perm.eq_nil order]
      exact cut
  | cons t rest => exact Iff.rfl

/-- A search sorts the matching rows, in any order, by their occurrences. -/
theorem search_iff (once : InsertedOnce calls) {found : List Nat} :
    (runCalls calls).Search query topK found ↔
      ∃ rows : List Nat, rows.Perm (counted calls query) ∧
        found = top (occurrences calls query) topK rows := by
  have keys : ((runCalls calls).counts (tokenize query)).toList.map Prod.fst =
      counted calls query := ExtTreeMap.map_fst_toList_eq_keys
  rw [search_iff_ranked]
  constructor
  · rintro ⟨out, order, rfl⟩
    refine ⟨out.map Prod.fst, keys ▸ order.map Prod.fst, ranked_eq_top (fun e listed => ?_)⟩
    exact entry_count once (order.subset listed)
  · rintro ⟨rows, order, rfl⟩
    let entry (rowId : Nat) : Nat × UInt32 :=
      (rowId, ((runCalls calls).counts (tokenize query))[rowId]?.getD 0)
    have same : (counted calls query).map entry =
        ((runCalls calls).counts (tokenize query)).toList := by
      rw [← keys, List.map_map]
      refine (List.map_congr_left (fun e listed => ?_)).trans (List.map_id _)
      have found := ExtTreeMap.mem_toList_iff_getElem?_eq_some.mp listed
      change (e.1, _) = e
      rw [found, Option.getD_some]
    have perm : (rows.map entry).Perm ((runCalls calls).counts (tokenize query)).toList :=
      same ▸ order.map entry
    refine ⟨rows.map entry, perm, ?_⟩
    rw [ranked_eq_top (fun e listed => entry_count once (perm.subset listed)), List.map_map]
    exact congrArg _ (List.map_id rows).symm

/-- In every history that inserts a row only while it has no text, the results of a query are
ranked by matching terms exactly if the occurrences follow the terms as far as `topK` goes. -/
theorem ranking_counts_terms_iff (once : InsertedOnce calls) (query : String) (topK : Nat) :
    RanksByTerms calls query topK ↔ OccurrencesFollowTerms calls query topK := by
  have ranked : (∀ out : List Nat, out.Perm (counted calls query) →
      Respects (matchingTerms calls query) (counted calls query)
        (top (occurrences calls query) topK out)) ↔ _ := respects_iff ExtTreeMap.nodup_keys
  have matching (rowId : Nat) : rowId ∈ counted calls query ↔ Matches calls query rowId :=
    mem_counted once
  constructor
  · intro ranks a ha leads b hb lighter
    refine ranked.mp (fun rows order => ?_) a ((matching a).mpr ha) (fun above nodup higher => ?_) b
      ((matching b).mpr hb) lighter
    · obtain ⟨descending, omitted⟩ := ranks _ ((search_iff once).mpr ⟨rows, order, rfl⟩)
      exact ⟨descending, fun a kept b inside cut =>
        Nat.not_lt.mp (omitted a kept b ((matching b).mp inside) cut)⟩
    · exact leads above nodup
        (fun c inside => (higher c inside).imp_left (matching c).mp)
  · intro follow found searched
    obtain ⟨rows, order, rfl⟩ := (search_iff once).mp searched
    have agree : ∀ a ∈ counted calls query,
        Leads (occurrences calls query) topK (counted calls query) a →
          ∀ b ∈ counted calls query, occurrences calls query b ≤ occurrences calls query a →
            matchingTerms calls query b ≤ matchingTerms calls query a := by
      intro a here leads b there lighter
      refine follow a ((matching a).mp here) (fun above nodup higher => ?_) b
        ((matching b).mp there) lighter
      exact leads above nodup (fun c inside => (higher c inside).imp_left (matching c).mpr)
    obtain ⟨descending, omitted⟩ := ranked.mpr agree rows order
    exact ⟨descending, fun a kept b there cut =>
      Nat.not_lt.mpr (omitted a kept b ((matching b).mpr there) cut)⟩

end Searches

section Repetitions

/-- Two rows, the second inserted after the first. -/
theorem once_pair {r r' : Nat} {text text' : String} (differ : r ≠ r') :
    InsertedOnce [.insert r text, .insert r' text'] := by
  rintro done rowId inserted ⟨rest, same⟩
  cases done with
  | nil => rfl
  | cons first done =>
    cases done with
    | nil =>
      obtain ⟨rfl, second⟩ := List.cons.inj same
      obtain ⟨rfl, _⟩ := Call.insert.inj (List.cons.inj second).1
      exact if_neg differ
    | cons second done =>
      have long := congrArg List.length same
      simp at long

theorem ranking_counts_terms_once : RanksByTerms [.insert 1 "a b", .insert 2 "b"] "a b" 2 := by
  have rows (r : Nat) (matching : Matches [.insert 1 "a b", .insert 2 "b"] "a b" r) :
      r = 1 ∨ r = 2 := by
    obtain ⟨text, current, _⟩ := matching
    have current : (if 2 = r then some "b" else if 1 = r then some "a b" else none) =
      some text := current
    by_cases second : 2 = r
    · exact Or.inr second.symm
    · rw [if_neg second] at current
      by_cases first : 1 = r
      · exact Or.inl first.symm
      · rw [if_neg first] at current
        cases current
  refine (ranking_counts_terms_iff (once_pair (by decide)) "a b" 2).mpr ?_
  intro a ha _ b hb lighter
  rcases rows a ha with rfl | rfl
  · rcases rows b hb with rfl | rfl <;> decide
  · rcases rows b hb with rfl | rfl
    · exact absurd lighter (by decide)
    · exact Nat.le_refl _

/-- Three times `a` comes before `a` and `b`. -/
theorem repetition_comes_first : ¬ ∀ (calls : List Call) (query : String) (topK : Nat),
    InsertedOnce calls → RanksByTerms calls query topK := by
  intro ranks
  have searched : (runCalls [.insert 1 "a a a", .insert 2 "a b"]).Search "a b" 2 [1, 2] :=
    ⟨[(1, 3), (2, 2)], List.Perm.refl _, rfl⟩
  have ordered := (ranks _ "a b" 2 (once_pair (by decide)) _ searched).1
  exact absurd (List.pairwise_pair.mp ordered) (by decide)

end Repetitions

end SearchRanking
