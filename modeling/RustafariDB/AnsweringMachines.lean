import Mathlib.Data.List.Basic

/-!
# Machines that answer

A machine takes a question in a state, answers it and moves on. Machines whose states
stay related give the same answers for ever. And if no question of one kind changes what
a view shows, and what the others make of the view depends on the view alone, then the
questions of the first kind can be left out of a run.
-/

namespace AnsweringMachines

universe u v w x
variable {ι : Type u} {ο : Type v} {σ τ : Type w} {ν : Type x}

abbrev Machine (ι : Type u) (ο : Type v) (σ : Type w) := ι → σ → ο × σ

/-- The state after some questions. -/
def after (m : Machine ι ο σ) (questions : List ι) (s : σ) : σ :=
  questions.foldl (fun s i => (m i s).2) s

/-- The answers to some questions, in order. -/
def answers (m : Machine ι ο σ) : List ι → σ → List ο
  | [], _ => []
  | i :: questions, s => (m i s).1 :: answers m questions (m i s).2

theorem after_cons (m : Machine ι ο σ) (i : ι) (questions : List ι) (s : σ) :
    after m (i :: questions) s = after m questions (m i s).2 := rfl

theorem after_append (m : Machine ι ο σ) (first second : List ι) (s : σ) :
    after m (first ++ second) s = after m second (after m first s) :=
  List.foldl_append

section Refinement
variable {R : σ → τ → Prop} {m : Machine ι ο σ} {n : Machine ι ο τ} {may : ι → τ → Prop}

/-- Every question of a run may be asked where it comes. -/
def Permitted (may : ι → τ → Prop) (n : Machine ι ο τ) : List ι → τ → Prop
  | [], _ => True
  | i :: questions, t => may i t ∧ Permitted may n questions (n i t).2

/-- Related states answer alike what may be asked, and stay related. -/
def RefinesWhere (may : ι → τ → Prop) (R : σ → τ → Prop) (m : Machine ι ο σ)
    (n : Machine ι ο τ) : Prop :=
  ∀ i s t, may i t → R s t → (n i t).1 = (m i s).1 ∧ R (m i s).2 (n i t).2

/-- Related states answer alike and stay related. -/
def Refines (R : σ → τ → Prop) (m : Machine ι ο σ) (n : Machine ι ο τ) : Prop :=
  ∀ i s t, R s t → (n i t).1 = (m i s).1 ∧ R (m i s).2 (n i t).2

theorem refinesWhere_run (refines : RefinesWhere may R m n) (questions : List ι) {s : σ} {t : τ}
    (permitted : Permitted may n questions t) (related : R s t) :
    answers n questions t = answers m questions s ∧
      R (after m questions s) (after n questions t) := by
  induction questions generalizing s t with
  | nil => exact ⟨rfl, related⟩
  | cons i questions ih =>
    obtain ⟨answer, next⟩ := refines i s t permitted.1 related
    obtain ⟨rest, last⟩ := ih permitted.2 next
    refine ⟨?_, last⟩
    rw [answers, answers, answer, rest]

theorem permitted_always (n : Machine ι ο τ) (questions : List ι) (t : τ) :
    Permitted (fun _ _ => True) n questions t := by
  induction questions generalizing t with
  | nil => exact trivial
  | cons i questions ih => exact ⟨trivial, ih _⟩

theorem refines_run (refines : Refines R m n) (questions : List ι) {s : σ} {t : τ}
    (related : R s t) : answers n questions t = answers m questions s ∧
      R (after m questions s) (after n questions t) :=
  refinesWhere_run (fun i s t _ => refines i s t) questions (permitted_always n questions t) related

end Refinement

section Failures
variable {ε : Type v} {R : σ → τ → Prop}
variable {m : Machine ι (Except ε ο) σ} {n : Machine ι (Except ε ο) τ}

/-- Ask questions until one fails. -/
def untilFailure (m : Machine ι (Except ε ο) σ) : List ι → σ → Except ε Unit × σ
  | [], s => (.ok (), s)
  | i :: questions, s =>
    match (m i s).1 with
    | .ok _ => untilFailure m questions (m i s).2
    | .error e => (.error e, (m i s).2)

/-- Related states fail alike and stay related. -/
theorem refines_untilFailure (refines : Refines R m n) (questions : List ι) {s : σ} {t : τ}
    (related : R s t) : (untilFailure n questions t).1 = (untilFailure m questions s).1 ∧
      R (untilFailure m questions s).2 (untilFailure n questions t).2 := by
  induction questions generalizing s t with
  | nil => exact ⟨rfl, related⟩
  | cons i questions ih =>
    obtain ⟨answer, next⟩ := refines i s t related
    simp only [untilFailure, answer]
    cases (m i s).1 with
    | ok _ => exact ih next
    | error e => exact ⟨rfl, next⟩

end Failures

section Views
variable {m : Machine ι ο σ} {relevant : ι → Bool} {view : σ → ν}

/-- Irrelevant questions leave the view, and relevant ones go by the view. -/
structure Unwinds (m : Machine ι ο σ) (relevant : ι → Bool) (view : σ → ν) : Prop where
  kept : ∀ i s, relevant i = false → view (m i s).2 = view s
  moved : ∀ i s s', relevant i = true → view s = view s' → view (m i s).2 = view (m i s').2

/-- A view after a run is the view after its relevant questions. -/
theorem view_after_filter (unwinds : Unwinds m relevant view) (questions : List ι) {s s' : σ}
    (same : view s = view s') :
    view (after m questions s) = view (after m (questions.filter relevant) s') := by
  induction questions generalizing s s' with
  | nil => exact same
  | cons i questions ih =>
    rw [after_cons]
    cases known : relevant i with
    | false =>
      rw [List.filter_cons_of_neg (by simp [known])]
      exact ih ((unwinds.kept i s known).trans same)
    | true =>
      rw [List.filter_cons_of_pos known, after_cons]
      exact ih (unwinds.moved i s s' known same)

/-- The questions of a run with their answers. -/
def transcript (m : Machine ι ο σ) (questions : List ι) (s : σ) : List (ι × ο) :=
  questions.zip (answers m questions s)

theorem transcript_cons (m : Machine ι ο σ) (i : ι) (questions : List ι) (s : σ) :
    transcript m (i :: questions) s = (i, (m i s).1) :: transcript m questions (m i s).2 := rfl

/-- The relevant part of a transcript is the transcript of the relevant questions, when they
are answered by what the view shows. -/
theorem transcript_filter (unwinds : Unwinds m relevant view)
    (shown : ∀ i s s', relevant i = true → view s = view s' → (m i s).1 = (m i s').1)
    (questions : List ι) {s s' : σ} (same : view s = view s') :
    (transcript m questions s).filter (fun e => relevant e.1) =
      transcript m (questions.filter relevant) s' := by
  induction questions generalizing s s' with
  | nil => rfl
  | cons i questions ih =>
    rw [transcript_cons]
    cases known : relevant i with
    | false =>
      rw [List.filter_cons_of_neg (by simp [known]), List.filter_cons_of_neg (by simp [known])]
      exact ih ((unwinds.kept i s known).trans same)
    | true =>
      rw [List.filter_cons_of_pos (by simp [known]), List.filter_cons_of_pos known,
        transcript_cons, shown i s s' known same]
      exact congrArg _ (ih (unwinds.moved i s s' known same))

end Views

end AnsweringMachines
