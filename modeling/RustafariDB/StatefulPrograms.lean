import Mathlib.Data.List.Forall2
import Mathlib.Logic.Relation
import Mathlib.Order.Defs.Unbundled

/-!
# Programs whose state survives a failure

A stateful fallible program is an `EStateM`: a failure carries the state at the
point where it happened, as it does for code that mutates shared containers and
returns early. `final` forgets the answer and `outcome` forgets the state. The
rules say how the state moves along a preorder through sequencing and loops.
-/

namespace StatefulPrograms

universe u v
variable {ε σ α β γ : Type u}

/-- The state a run ends in, whether or not it succeeds. -/
def final : EStateM.Result ε σ α → σ
  | .ok _ s => s
  | .error _ s => s

/-- The answer of a run. -/
def outcome : EStateM.Result ε σ α → Except ε α
  | .ok a _ => .ok a
  | .error e _ => .error e

def succeeds : EStateM.Result ε σ α → Bool
  | .ok _ _ => true
  | .error _ _ => false

/-- Run a pure fallible computation without touching the state. -/
def runExcept (x : Except ε α) : EStateM ε σ α := fun s =>
  match x with
  | .ok a => .ok a s
  | .error e => .error e s

section Rules

theorem ok_bind (a : α) (f : α → Except ε β) : (Except.ok a >>= f) = f a := rfl

theorem not_ok_of_error (e : ε) : ¬ ∃ a : α, (Except.error e : Except ε α) = .ok a := by
  rintro ⟨a, h⟩
  cases h

theorem error_bind (e : ε) (f : α → Except ε β) : (Except.error e >>= f) = .error e := rfl

@[simp] theorem final_ok (a : α) (s : σ) : final (.ok a s : EStateM.Result ε σ α) = s := rfl

@[simp] theorem final_error (e : ε) (s : σ) :
    final (.error e s : EStateM.Result ε σ α) = s := rfl

@[simp] theorem outcome_ok (a : α) (s : σ) :
    outcome (.ok a s : EStateM.Result ε σ α) = .ok a := rfl

@[simp] theorem pure_run (a : α) (s : σ) : (pure a : EStateM ε σ α) s = .ok a s := rfl

@[simp] theorem get_run (s : σ) : (get : EStateM ε σ σ) s = .ok s s := rfl

@[simp] theorem set_run (s' s : σ) : (set s' : EStateM ε σ PUnit) s = .ok ⟨⟩ s' := rfl

@[simp] theorem modify_run (f : σ → σ) (s : σ) :
    (modify f : EStateM ε σ PUnit) s = .ok ⟨⟩ (f s) := rfl

theorem bind_run (m : EStateM ε σ α) (f : α → EStateM ε σ β) (s : σ) :
    (m >>= f) s = match m s with
      | .ok a s' => f a s'
      | .error e s' => .error e s' := rfl

@[simp] theorem runExcept_ok_run (a : α) (s : σ) :
    (runExcept (.ok a) : EStateM ε σ α) s = .ok a s := rfl

@[simp] theorem runExcept_error_run (e : ε) (s : σ) :
    (runExcept (.error e) : EStateM ε σ α) s = .error e s := rfl

@[simp] theorem final_runExcept (x : Except ε α) (s : σ) :
    final ((runExcept x : EStateM ε σ α) s) = s := by
  cases x <;> rfl

@[simp] theorem outcome_runExcept (x : Except ε α) (s : σ) :
    outcome ((runExcept x : EStateM ε σ α) s) = x := by
  cases x <;> rfl

theorem final_bind_of_ok {m : EStateM ε σ α} {f : α → EStateM ε σ β} {s s' : σ} {a : α}
    (h : m s = .ok a s') : final ((m >>= f) s) = final (f a s') := by
  rw [bind_run, h]

theorem final_bind_of_error {m : EStateM ε σ α} {f : α → EStateM ε σ β} {s s' : σ} {e : ε}
    (h : m s = .error e s') : final ((m >>= f) s) = s' := by
  rw [bind_run, h]
  rfl

/-- What stops the first run stops the sequence. -/
theorem outcome_bind_of_error {m : EStateM ε σ α} {f : α → EStateM ε σ β} {s : σ} {e : ε}
    (h : outcome (m s) = .error e) : outcome ((m >>= f) s) = .error e := by
  rw [bind_run]
  cases run : m s with
  | ok a t =>
    rw [run] at h
    cases h
  | error e' t =>
    rw [run] at h
    cases h
    rfl

/-- Runs that never move the state. -/
def ReadOnly (m : EStateM ε σ α) : Prop := ∀ s, final (m s) = s

theorem readOnly_pure (a : α) : ReadOnly (pure a : EStateM ε σ α) := fun _ => rfl

theorem readOnly_throw (e : ε) : ReadOnly (throw e : EStateM ε σ α) := fun _ => rfl

theorem readOnly_get : ReadOnly (get : EStateM ε σ σ) := fun _ => rfl

theorem readOnly_runExcept (x : Except ε α) : ReadOnly (runExcept x : EStateM ε σ α) :=
  final_runExcept x

/-- A read-only continuation leaves the state of the first run. -/
theorem final_bind_readOnly {m : EStateM ε σ α} {f : α → EStateM ε σ β}
    (still : ∀ a, ReadOnly (f a)) (s : σ) : final ((m >>= f) s) = final (m s) := by
  cases h : m s with
  | ok a s' => rw [final_bind_of_ok h, still a s', final_ok]
  | error e s' => rw [final_bind_of_error h, final_error]

theorem readOnly_bind {m : EStateM ε σ α} {f : α → EStateM ε σ β}
    (first : ReadOnly m) (still : ∀ a, ReadOnly (f a)) : ReadOnly (m >>= f) := by
  intro s
  rw [final_bind_readOnly still, first s]

/-- A program that amounts to a pure computation goes on from its answer. -/
theorem bind_runExcept {m : EStateM ε σ α} {x : Except ε α} {s s' : σ}
    (run : m s = runExcept x s') {f : α → EStateM ε σ β} {g : α → Except ε β}
    (rest : ∀ a, f a s' = runExcept (g a) s') : (m >>= f) s = runExcept (x >>= g) s' := by
  rw [bind_run, run]
  cases x with
  | error e => rfl
  | ok a => exact rest a

theorem mapM_runExcept {f : α → EStateM ε σ β} {g : α → Except ε β} {xs : List α} {s : σ}
    (each : ∀ x ∈ xs, f x s = runExcept (g x) s) : xs.mapM f s = runExcept (xs.mapM g) s := by
  induction xs with
  | nil => rfl
  | cons x xs ih =>
    obtain ⟨first, others⟩ := List.forall_mem_cons.mp each
    rw [List.mapM_cons, List.mapM_cons]
    refine bind_runExcept first (fun y => ?_)
    exact bind_runExcept (ih others) (fun ys => rfl)

variable {R : σ → σ → Prop} [IsPreorder σ R]

theorem bind_moves {m : EStateM ε σ α} {f : α → EStateM ε σ β} {s : σ}
    (first : R s (final (m s))) (rest : ∀ a s', m s = .ok a s' → R s' (final (f a s'))) :
    R s (final ((m >>= f) s)) := by
  cases h : m s with
  | ok a s' =>
    rw [h] at first
    rw [final_bind_of_ok h]
    exact Trans.trans first (rest a s' h)
  | error e s' =>
    rw [h] at first
    rw [final_bind_of_error h]
    exact first

theorem mapM_moves {f : α → EStateM ε σ β} (xs : List α)
    (each : ∀ x ∈ xs, ∀ s, R s (final (f x s))) (s : σ) : R s (final (xs.mapM f s)) := by
  induction xs generalizing s with
  | nil => exact refl s
  | cons x xs ih =>
    rw [List.mapM_cons]
    refine bind_moves (each x List.mem_cons_self s) (fun b s' _ => ?_)
    refine bind_moves (ih (fun y hy => each y (List.mem_cons_of_mem x hy)) s') ?_
    intro bs s'' _
    exact refl s''

end Rules

section Answers
variable {s s' : σ}

theorem pure_eq_ok {a b : α} : (pure a : EStateM ε σ α) s = .ok b s' ↔ a = b ∧ s = s' := by
  rw [pure_run, EStateM.Result.ok.injEq]

theorem get_eq_ok {t : σ} : (get : EStateM ε σ σ) s = .ok t s' ↔ s = t ∧ s = s' := by
  rw [get_run, EStateM.Result.ok.injEq]

theorem runExcept_eq_ok {x : Except ε α} {a : α} :
    runExcept x s = .ok a s' ↔ x = .ok a ∧ s = s' := by
  cases x <;> simp

/-- A sequence succeeds when both parts do, the second from where the first ended. -/
theorem bind_run_eq_ok {m : EStateM ε σ α} {f : α → EStateM ε σ β} {b : β} :
    (m >>= f) s = .ok b s' ↔ ∃ a s₁, m s = .ok a s₁ ∧ f a s₁ = .ok b s' := by
  rw [bind_run]
  cases m s with
  | ok a s₁ => simp
  | error e s₁ => simp

/-- A traversal by read-only steps succeeds with the results of its steps. -/
theorem mapM_run_eq_ok {m : α → EStateM ε σ β} (still : ∀ a, ReadOnly (m a)) {xs : List α}
    {ys : List β} : xs.mapM m s = .ok ys s' ↔
      List.Forall₂ (fun x y => m x s = .ok y s) xs ys ∧ s = s' := by
  induction xs generalizing ys with
  | nil => rw [List.mapM_nil, pure_eq_ok, List.forall₂_nil_left_iff, eq_comm]
  | cons x xs ih =>
    rw [List.mapM_cons, bind_run_eq_ok]
    constructor
    · rintro ⟨y, s₁, hy, rest⟩
      obtain rfl : s = s₁ := by simpa [hy] using (still x s).symm
      obtain ⟨ys', s₂, hys, same⟩ := bind_run_eq_ok.mp rest
      obtain ⟨rfl, rfl⟩ := pure_eq_ok.mp same
      obtain ⟨each, rfl⟩ := ih.mp hys
      exact ⟨.cons hy each, rfl⟩
    · rintro ⟨each, rfl⟩
      cases each with
      | cons hy each =>
        exact ⟨_, s, hy, bind_run_eq_ok.mpr ⟨_, s, ih.mpr ⟨each, rfl⟩, rfl⟩⟩

end Answers

section Traversals
variable {f : α → Except ε β}

theorem bind_eq_ok {x : Except ε α} {y : β} :
    (x >>= f) = .ok y ↔ ∃ a, x = .ok a ∧ f a = .ok y := by
  cases x with
  | error e => exact ⟨nofun, fun ⟨_, failed, _⟩ => nomatch failed⟩
  | ok a => exact ⟨fun h => ⟨a, rfl, h⟩, fun ⟨_, same, h⟩ => Except.ok.inj same ▸ h⟩

theorem map_eq_ok {x : Except ε α} {g : α → β} {y : β} :
    x.map g = .ok y ↔ ∃ a, x = .ok a ∧ g a = y := by
  cases x with
  | error e => exact ⟨nofun, fun ⟨_, failed, _⟩ => nomatch failed⟩
  | ok a => exact ⟨fun h => ⟨a, rfl, Except.ok.inj h⟩, fun ⟨_, same, h⟩ =>
      congrArg Except.ok (Except.ok.inj same ▸ h)⟩

/-- A traversal succeeds with the results of its steps. -/
theorem mapM_eq_ok {xs : List α} {ys : List β} :
    xs.mapM f = .ok ys ↔ List.Forall₂ (fun x y => f x = .ok y) xs ys := by
  induction xs generalizing ys with
  | nil =>
    rw [List.mapM_nil, List.forall₂_nil_left_iff]
    exact ⟨fun h => (Except.ok.inj h).symm, fun h => h ▸ rfl⟩
  | cons x xs ih =>
    simp only [List.mapM_cons, bind_eq_ok, List.forall₂_cons_left_iff, ih]
    constructor
    · rintro ⟨y, hy, rest, hrest, same⟩
      exact ⟨y, rest, hy, hrest, (Except.ok.inj same).symm⟩
    · rintro ⟨y, rest, hy, hrest, rfl⟩
      exact ⟨y, hy, rest, hrest, rfl⟩

/-- A traversal that can stop without an answer. -/
theorem mapM_eq_some {g : α → Option β} {xs : List α} {ys : List β} :
    xs.mapM g = some ys ↔ List.Forall₂ (fun x y => g x = some y) xs ys := by
  induction xs generalizing ys with
  | nil =>
    rw [List.mapM_nil, List.forall₂_nil_left_iff]
    exact ⟨fun h => (Option.some.inj h).symm, fun h => h ▸ rfl⟩
  | cons x xs ih =>
    simp only [List.mapM_cons, Option.bind_eq_bind, Option.bind_eq_some_iff,
      List.forall₂_cons_left_iff, ih]
    constructor
    · rintro ⟨y, hy, rest, hrest, same⟩
      exact ⟨y, rest, hy, hrest, (Option.some.inj same).symm⟩
    · rintro ⟨y, rest, hy, hrest, rfl⟩
      exact ⟨y, hy, rest, hrest, rfl⟩

theorem exists_of_forall₂ {R : α → β → Prop} {xs : List α} {ys : List β}
    (h : List.Forall₂ R xs ys) : ∀ x ∈ xs, ∃ y ∈ ys, R x y := by
  induction h with
  | nil => nofun
  | cons head _ ih =>
    refine List.forall_mem_cons.mpr ⟨⟨_, List.mem_cons_self, head⟩, fun x inside => ?_⟩
    obtain ⟨y, listed, hy⟩ := ih x inside
    exact ⟨y, List.mem_cons_of_mem _ listed, hy⟩

theorem forall₂_of_exists {R : α → β → Prop} {xs : List α} (each : ∀ x ∈ xs, ∃ y, R x y) :
    ∃ ys, List.Forall₂ R xs ys := by
  induction xs with
  | nil => exact ⟨[], .nil⟩
  | cons x xs ih =>
    obtain ⟨⟨y, hy⟩, rest⟩ := List.forall_mem_cons.mp each
    obtain ⟨ys, hys⟩ := ih rest
    exact ⟨y :: ys, .cons hy hys⟩

theorem forall₂_comp {R : α → β → Prop} {S : β → γ → Prop} {T : α → γ → Prop} {xs : List α}
    {ys : List β} {zs : List γ} (first : List.Forall₂ R xs ys) (second : List.Forall₂ S ys zs)
    (step : ∀ x y z, R x y → S y z → T x z) : List.Forall₂ T xs zs := by
  induction first generalizing zs with
  | nil =>
    cases second
    exact .nil
  | cons head _ ih =>
    cases second with
    | cons head' rest => exact .cons (step _ _ _ head head') (ih rest)

/-- Relations that agree on the elements of a list relate it to the same lists. -/
theorem forall₂_congr {R S : α → β → Prop} {xs : List α} {ys : List β}
    (agree : ∀ x ∈ xs, ∀ y, R x y ↔ S x y) : List.Forall₂ R xs ys ↔ List.Forall₂ S xs ys := by
  constructor
  · intro h
    have both := (List.forall₂_and_left xs ys).mpr ⟨agree, h⟩
    exact both.imp (fun _ y both => (both.1 y).mp both.2)
  · intro h
    have both := (List.forall₂_and_left xs ys).mpr ⟨agree, h⟩
    exact both.imp (fun _ y both => (both.1 y).mpr both.2)

/-- What stops a sequence stops its first step or a later one. -/
theorem bind_eq_error {x : Except ε α} {g : α → Except ε β} {e : ε} :
    x >>= g = .error e ↔ x = .error e ∨ ∃ a, x = .ok a ∧ g a = .error e := by
  cases x with
  | error e' =>
    rw [error_bind, Except.error.injEq, Except.error.injEq]
    exact ⟨Or.inl, fun h => h.elim id (fun ⟨_, found, _⟩ => by cases found)⟩
  | ok a =>
    rw [ok_bind]
    exact ⟨fun h => Or.inr ⟨a, rfl, h⟩,
      fun h => h.elim (fun failed => by cases failed) (fun ⟨_, same, h⟩ => by cases same; exact h)⟩

/-- What stops a traversal stops one of its steps. -/
theorem mapM_error {xs : List α} {e : ε} (h : xs.mapM f = .error e) :
    ∃ x ∈ xs, f x = .error e := by
  induction xs with
  | nil => cases h
  | cons x xs ih =>
    rw [List.mapM_cons, bind_eq_error] at h
    rcases h with here | ⟨y, _, later⟩
    · exact ⟨x, List.mem_cons_self, here⟩
    · rcases bind_eq_error.mp later with further | ⟨ys, _, never⟩
      · obtain ⟨x', inside, failed⟩ := ih further
        exact ⟨x', List.mem_cons_of_mem _ inside, failed⟩
      · cases never

theorem map_eq_error {x : Except ε α} {g : α → β} {e : ε} :
    x.map g = .error e ↔ x = .error e := by
  cases x <;> simp [Except.map]

theorem mapM_ok_iff {xs : List α} :
    (∃ ys, xs.mapM f = .ok ys) ↔ ∀ x ∈ xs, ∃ y, f x = .ok y := by
  simp only [mapM_eq_ok]
  constructor
  · rintro ⟨ys, h⟩ x inside
    obtain ⟨y, _, hy⟩ := exists_of_forall₂ h x inside
    exact ⟨y, hy⟩
  · exact forall₂_of_exists

theorem mapM_of_forall {g : α → β} {xs : List α} (each : ∀ x ∈ xs, f x = .ok (g x)) :
    xs.mapM f = .ok (xs.map g) :=
  mapM_eq_ok.mpr (List.forall₂_map_right_iff.mpr (List.forall₂_same.mpr each))

end Traversals

section Lockstep
variable {R : σ → σ → Prop}

/-- From related states two programs give the same answer and end in related states. -/
def Lockstep (R : σ → σ → Prop) (m m' : EStateM ε σ α) : Prop :=
  ∀ s s', R s s' → outcome (m' s') = outcome (m s) ∧ R (final (m s)) (final (m' s'))

theorem lockstep_pure (a : α) : Lockstep R (pure a : EStateM ε σ α) (pure a) :=
  fun _ _ related => ⟨rfl, related⟩

theorem lockstep_throw (e : ε) : Lockstep R (throw e : EStateM ε σ α) (throw e) :=
  fun _ _ related => ⟨rfl, related⟩

theorem lockstep_runExcept (x : Except ε α) :
    Lockstep R (runExcept x : EStateM ε σ α) (runExcept x) := by
  intro s s' related
  rw [outcome_runExcept, outcome_runExcept, final_runExcept, final_runExcept]
  exact ⟨rfl, related⟩

theorem lockstep_bind {m m' : EStateM ε σ α} {f f' : α → EStateM ε σ β}
    (first : Lockstep R m m') (rest : ∀ a, Lockstep R (f a) (f' a)) :
    Lockstep R (m >>= f) (m' >>= f') := by
  intro s s' related
  obtain ⟨answer, after⟩ := first s s' related
  rw [bind_run, bind_run]
  cases h : m s with
  | ok a s₁ =>
    cases h' : m' s' with
    | ok a' s₁' =>
      rw [h, h'] at answer after
      obtain rfl := Except.ok.inj answer
      exact rest a' s₁ s₁' after
    | error e' s₁' =>
      rw [h, h'] at answer
      cases answer
  | error e s₁ =>
    cases h' : m' s' with
    | ok a' s₁' =>
      rw [h, h'] at answer
      cases answer
    | error e' s₁' =>
      rw [h, h'] at answer after
      obtain rfl := Except.error.inj answer
      exact ⟨rfl, after⟩

/-- Programs that read the state first may differ by what they read. -/
theorem lockstep_get_bind {f f' : σ → EStateM ε σ β}
    (rest : ∀ s s', R s s' → Lockstep R (f s) (f' s')) :
    Lockstep R (get >>= f) (get >>= f') :=
  fun s s' related => rest s s' related s s' related

theorem lockstep_modify {f f' : σ → σ} (moved : ∀ s s', R s s' → R (f s) (f' s')) :
    Lockstep R (modify f : EStateM ε σ PUnit) (modify f') :=
  fun s s' related => ⟨rfl, moved s s' related⟩

theorem lockstep_mapM {f f' : α → EStateM ε σ β} (xs : List α)
    (each : ∀ x ∈ xs, Lockstep R (f x) (f' x)) : Lockstep R (xs.mapM f) (xs.mapM f') := by
  induction xs with
  | nil => exact lockstep_pure []
  | cons x xs ih =>
    rw [List.mapM_cons, List.mapM_cons]
    refine lockstep_bind (each x List.mem_cons_self) (fun y => ?_)
    refine lockstep_bind (ih (fun z inside => each z (List.mem_cons_of_mem x inside))) ?_
    exact fun ys => lockstep_pure (y :: ys)

end Lockstep

end StatefulPrograms
