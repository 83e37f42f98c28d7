import RustafariDB.InvertedIndexing

/-!
# Full-text search and the current texts

A row has the text it was last inserted with, until it is deleted. The postings cover the
current texts in every history. They hold more as soon as a row is inserted again with a
text that lacks a token of its current one: the old posting is recorded nowhere else, and
neither a later insert nor a deletion withdraws it.
-/

namespace SearchedTexts

open Std Multimaps InvertedIndexing

inductive Call where
  | insert (rowId : Nat) (text : String)
  | delete (rowId : Nat)

section Histories
variable [UnicodeText]

def Call.apply (ix : InvertedIndex) : Call → InvertedIndex
  | .insert rowId text => ix.insert rowId text
  | .delete rowId => ix.delete rowId

/-- The index after a sequence of calls. -/
def runCalls (calls : List Call) : InvertedIndex := calls.foldl Call.apply .new

omit [UnicodeText] in
/-- The text a row has after one more call. -/
def Call.textAfter (rowId : Nat) (current : Option String) : Call → Option String
  | .insert r text => if r = rowId then some text else current
  | .delete r => if r = rowId then none else current

/-- The text a row was most recently inserted with, unless it was deleted since. -/
def currentText (calls : List Call) (rowId : Nat) : Option String :=
  calls.foldl (Call.textAfter rowId) none

/-- The current text of the row shares a token with the query. -/
def Matches (calls : List Call) (query : String) (rowId : Nat) : Prop :=
  ∃ text, currentText calls rowId = some text ∧ ∃ t ∈ tokenize query, t ∈ tokenize text

/-- Whatever a search returns are matching rows, each at most once, and all of them when there
is room for as many. -/
def ReflectsTexts (calls : List Call) : Prop :=
  ∀ query topK found, (runCalls calls).Search query topK found →
    (∀ rowId ∈ found, Matches calls query rowId) ∧ found.Nodup ∧
      ∀ rows : List Nat, rows.Nodup → (∀ rowId, rowId ∈ rows ↔ Matches calls query rowId) →
        rows.length ≤ topK → ∀ rowId ∈ rows, rowId ∈ found

/-- A row is inserted again only with a text that keeps the tokens of its current one. -/
def KeepsTokens (calls : List Call) : Prop :=
  ∀ done rowId text, done ++ [.insert rowId text] <+: calls →
    ∀ old, currentText done rowId = some old → ∀ t ∈ tokenize old, t ∈ tokenize text

end Histories

section Invariants
variable [UnicodeText] {calls : List Call} {rowId : Nat}

theorem runCalls_concat (calls : List Call) (call : Call) :
    runCalls (calls ++ [call]) = call.apply (runCalls calls) := by
  rw [runCalls, List.foldl_append]
  rfl

omit [UnicodeText] in
theorem currentText_concat (calls : List Call) (call : Call) (rowId : Nat) :
    currentText (calls ++ [call]) rowId = call.textAfter rowId (currentText calls rowId) := by
  rw [currentText, List.foldl_append]
  rfl

/-- The recorded terms are those of the current text. -/
theorem docTerms_eq (calls : List Call) (rowId : Nat) :
    (runCalls calls).docTerms[rowId]? = (currentText calls rowId).map tokenize := by
  induction calls using List.reverseRecOn with
  | nil => simp [runCalls, currentText, InvertedIndex.new]
  | append_singleton calls call ih =>
    rw [runCalls_concat, currentText_concat]
    cases call with
    | insert r text =>
      rw [Call.apply, InvertedIndex.docTerms_insert, Call.textAfter, ih]
      split <;> rfl
    | delete r =>
      rw [Call.apply, InvertedIndex.docTerms_delete, Call.textAfter, ih]
      split <;> rfl

/-- Every row is posted under the tokens of its current text. -/
theorem posted_of_current {text t : String} (current : currentText calls rowId = some text)
    (inside : t ∈ tokenize text) : (runCalls calls).Posted t rowId := by
  induction calls using List.reverseRecOn with
  | nil => cases current
  | append_singleton calls call ih =>
    rw [currentText_concat] at current
    rw [runCalls_concat]
    cases call with
    | insert r text' =>
      rw [Call.textAfter] at current
      refine (InvertedIndex.posted_insert text').mpr ?_
      split at current
      · rename_i same
        obtain rfl := Option.some.inj current
        exact Or.inr ⟨inside, same.symm⟩
      · exact Or.inl (ih current)
    | delete r =>
      rw [Call.textAfter] at current
      refine InvertedIndex.posted_delete.mpr ?_
      split at current
      · cases current
      · rename_i other
        exact ⟨ih current, fun withdrawn => other withdrawn.2.symm⟩

theorem keepsTokens_begun {done : List Call} (keeps : KeepsTokens calls)
    (begun : done <+: calls) : KeepsTokens done :=
  fun before rowId text shorter => keeps before rowId text (shorter.trans begun)

/-- As long as tokens are kept, a row is posted under the tokens of its current text only. -/
theorem current_of_posted (keeps : KeepsTokens calls) {t : String}
    (posted : (runCalls calls).Posted t rowId) :
    ∃ text, currentText calls rowId = some text ∧ t ∈ tokenize text := by
  induction calls using List.reverseRecOn with
  | nil => exact False.elim (InvertedIndex.not_posted_new posted)
  | append_singleton calls call ih =>
    have before := ih (keepsTokens_begun keeps (List.prefix_append calls [call]))
    rw [runCalls_concat] at posted
    rw [currentText_concat]
    cases call with
    | insert r text =>
      rw [Call.textAfter]
      rcases (InvertedIndex.posted_insert text).mp posted with older | ⟨inside, rfl⟩
      · obtain ⟨old, current, listed⟩ := before older
        split
        · rename_i same
          subst same
          exact ⟨text, rfl, keeps calls r text (List.prefix_refl _) old current t listed⟩
        · exact ⟨old, current, listed⟩
      · exact ⟨text, if_pos rfl, inside⟩
    | delete r =>
      obtain ⟨older, kept⟩ := InvertedIndex.posted_delete.mp posted
      obtain ⟨old, current, listed⟩ := before older
      rw [Call.textAfter, if_neg]
      · exact ⟨old, current, listed⟩
      · rintro rfl
        refine kept ⟨?_, rfl⟩
        rw [docTerms_eq, current]
        exact listed

/-- The hits of a query are the matching rows. -/
theorem hit_iff_matches (keeps : KeepsTokens calls) (query : String) (rowId : Nat) :
    (runCalls calls).Hit query rowId ↔ Matches calls query rowId := by
  constructor
  · rintro ⟨t, asked, posted⟩
    obtain ⟨text, current, inside⟩ := current_of_posted keeps posted
    exact ⟨text, current, t, asked, inside⟩
  · rintro ⟨text, current, t, asked, inside⟩
    exact ⟨t, asked, posted_of_current current inside⟩

theorem reflects_of_keeps (keeps : KeepsTokens calls) : ReflectsTexts calls := by
  intro query topK found searched
  obtain ⟨nodup, sound, complete⟩ := InvertedIndex.search_spec searched
  have hit := hit_iff_matches keeps query
  refine ⟨fun rowId inside => (hit rowId).mp (sound rowId inside), nodup, ?_⟩
  intro rows distinct listed room rowId inside
  refine complete rows distinct ?_ room rowId ((hit rowId).mpr ((listed rowId).mp inside))
  exact fun r hitting => (listed r).mpr ((hit r).mp hitting)

/-- A token that an insert drops still finds the row. -/
theorem keeps_of_reflects
    (reflects : ∀ done, done <+: calls → ReflectsTexts done) : KeepsTokens calls := by
  intro done rowId text begun old current t inside
  have posted : (runCalls (done ++ [.insert rowId text])).Posted t rowId := by
    rw [runCalls_concat]
    exact (InvertedIndex.posted_insert text).mpr (Or.inl (posted_of_current current inside))
  have alone := tokenize_token inside
  have hit : (runCalls (done ++ [.insert rowId text])).Hit t rowId :=
    ⟨t, by rw [alone]; exact List.mem_singleton.mpr rfl, posted⟩
  obtain ⟨topK, found, searched, all⟩ :=
    InvertedIndex.exists_search (runCalls (done ++ [.insert rowId text])) t
  obtain ⟨text', now, t', asked, listed⟩ :=
    (reflects _ begun t topK found searched).1 rowId (all rowId hit)
  rw [currentText_concat, Call.textAfter, if_pos rfl] at now
  obtain rfl := Option.some.inj now
  rw [alone, List.mem_singleton] at asked
  rwa [← asked]

/-- Search reflects the current texts in every state of a run exactly when no row is inserted
again with a text that lacks a token of its current one. -/
theorem search_reflects_iff (calls : List Call) :
    (∀ done, done <+: calls → ReflectsTexts done) ↔ KeepsTokens calls :=
  ⟨keeps_of_reflects, fun keeps _ begun => reflects_of_keeps (keepsTokens_begun keeps begun)⟩

end Invariants

section Examples

theorem toLower_toLower (c : Char) : c.toLower.toLower = c.toLower := by
  by_cases upper : c.val ≥ 'A'.val ∧ c.val ≤ 'Z'.val
  · have lowered : c.toLower.val = c.val + ('a'.val - 'A'.val) :=
      congrArg Char.val (dif_pos upper)
    have above : ¬ (c.toLower.val ≥ 'A'.val ∧ c.toLower.val ≤ 'Z'.val) := by
      rw [lowered]
      obtain ⟨low, high⟩ := upper
      simp only [ge_iff_le, UInt32.le_iff_toNat_le, UInt32.toNat_add] at *
      have a : 'A'.val.toNat = 65 := rfl
      have z : 'Z'.val.toNat = 90 := rfl
      have d : ('a'.val - 'A'.val).toNat = 32 := rfl
      omega
    exact dif_neg above
  · have same : c.toLower = c := dif_neg upper
    rw [same, same]

/-- The tables of ASCII. -/
instance asciiText : UnicodeText where
  toLowercase text := String.ofList (text.toList.map Char.toLower)
  isWhitespace := Char.isWhitespace
  isAlphanumeric := Char.isAlphanum
  lowercase_stable text word inside := by
    have lowered : word.toList.map Char.toLower = word.toList := by
      refine (List.map_congr_left (fun c hc => ?_)).trans (List.map_id _)
      obtain ⟨d, _, rfl⟩ := List.mem_map.mp (String.toList_ofList ▸ inside c hc)
      exact toLower_toLower d
    rw [lowered, String.ofList_toList]

/-- A row inserted twice and then deleted is found by its first text. -/
theorem deleted_row_is_found : ¬ ∀ calls : List Call, ReflectsTexts calls := by
  intro reflects
  have searched : (runCalls [.insert 1 "a", .insert 1 "b", .delete 1]).Search "a" 1 [1] :=
    ⟨[(1, 1)], List.Perm.refl _, rfl⟩
  obtain ⟨text, current, _⟩ :=
    (reflects [.insert 1 "a", .insert 1 "b", .delete 1] "a" 1 [1] searched).1 1
      (List.mem_singleton.mpr rfl)
  cases current

end Examples

end SearchedTexts
