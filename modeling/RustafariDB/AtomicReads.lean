import RustafariDB.Interleavings

/-!
# Reading while others write

The programs of a pool keep a contract: an invariant of the state, and a relation between a
state and those that come later. A program that only reads may then learn what it reads at one
operation or at many. When all that it learns later was settled at one moment, it answers what
it would have answered at that moment.
-/

namespace AtomicReads

open StatefulPrograms Interleavings Program

variable {Op σ ε α β : Type} {Answer : Op → Type}

/-- What every program of a pool keeps. -/
structure Contract (σ : Type) where
  inv : σ → Prop
  grows : σ → σ → Prop
  refl : ∀ s, grows s s
  trans : ∀ {s s' s''}, grows s s' → grows s' s'' → grows s s''

/-- The second state may be the one some time after the first. -/
structure Contract.Later (C : Contract σ) (s s' : σ) : Prop where
  inv : C.inv s'
  grows : C.grows s s'

variable {C : Contract σ} {act : (op : Op) → σ → Answer op × σ}

theorem later_refl {s : σ} (inv : C.inv s) : C.Later s s := ⟨inv, C.refl s⟩

theorem later_trans {s s' s'' : σ} (first : C.Later s s') (second : C.Later s' s'') :
    C.Later s s'' := ⟨second.inv, C.trans first.grows second.grows⟩

section Keeping

/-- From the state on, whatever the others do, the operations of the program keep the
contract. -/
def Minds (C : Contract σ) (act : (op : Op) → σ → Answer op × σ) :
    Program Answer ε α → σ → Prop
  | .done _, _ => True
  | .call op next, s => ∀ s', C.Later s s' →
      C.Later s' (act op s').2 ∧ Minds C act (next (act op s').1) (act op s').2

theorem minds_later {m : Program Answer ε α} {s s' : σ} (minds : Minds C act m s)
    (later : C.Later s s') : Minds C act m s' := by
  cases m with
  | done result => exact trivial
  | call op next => exact fun s'' onward => minds s'' (later_trans later onward)

theorem minds_bind {m : Program Answer ε α} {f : α → Program Answer ε β} {s : σ}
    (inv : C.inv s) (first : Minds C act m s)
    (rest : ∀ a s', C.Later s s' → Minds C act (f a) s') : Minds C act (m >>= f) s := by
  induction m generalizing s with
  | done result =>
    cases result with
    | ok a => exact rest a s (later_refl inv)
    | error e => exact trivial
  | call op next ih =>
    intro s' later
    obtain ⟨kept, onward⟩ := first s' later
    refine ⟨kept, ih _ kept.inv onward (fun a s'' after => ?_)⟩
    exact rest a s'' (later_trans later (later_trans kept after))

theorem minds_perform_bind {op : Op} {f : Answer op → Program Answer ε α} {s : σ}
    (step : ∀ s', C.Later s s' →
      C.Later s' (act op s').2 ∧ Minds C act (f (act op s').1) (act op s').2) :
    Minds C act (perform op >>= f) s := step

/-- The operations of a program all meet a condition, whatever they answer. -/
def Only (ok : Op → Prop) : Program Answer ε α → Prop
  | .done _ => True
  | .call op next => ok op ∧ ∀ answer, Only ok (next answer)

theorem only_bind {ok : Op → Prop} {m : Program Answer ε α} {f : α → Program Answer ε β}
    (first : Only ok m) (rest : ∀ a, Only ok (f a)) : Only ok (m >>= f) := by
  induction m with
  | done result =>
    cases result with
    | ok a => exact rest a
    | error e => exact trivial
  | call op next ih => exact ⟨first.1, fun answer => ih answer (first.2 answer)⟩

theorem only_perform_bind {ok : Op → Prop} {op : Op} {f : Answer op → Program Answer ε α}
    (first : ok op) (rest : ∀ answer, Only ok (f answer)) : Only ok (perform op >>= f) :=
  ⟨first, rest⟩

theorem only_mapM {ok : Op → Prop} {f : α → Program Answer ε β} (xs : List α)
    (each : ∀ x ∈ xs, Only ok (f x)) : Only ok (xs.mapM f) := by
  induction xs with
  | nil => exact trivial
  | cons x xs ih =>
    obtain ⟨head, tail⟩ := List.forall_mem_cons.mp each
    rw [List.mapM_cons]
    exact only_bind head (fun y => only_bind (ih tail) (fun ys => trivial))

theorem only_mono {ok ok' : Op → Prop} (weaker : ∀ op, ok op → ok' op) {m : Program Answer ε α}
    (only : Only ok m) : Only ok' m := by
  induction m with
  | done result => exact trivial
  | call op next ih => exact ⟨weaker op only.1, fun answer => ih answer (only.2 answer)⟩

/-- Operations that keep the contract in every state need no attention. -/
theorem minds_of_only {ok : Op → Prop}
    (kept : ∀ op, ok op → ∀ s, C.inv s → C.Later s (act op s).2) {m : Program Answer ε α}
    (only : Only ok m) (s : σ) : Minds C act m s := by
  induction m generalizing s with
  | done result => exact trivial
  | call op next ih =>
    exact fun s' later => ⟨kept op only.1 s' later.inv, ih _ (only.2 _) _⟩

end Keeping

section Pools
variable {starts : Program Answer ε α → Prop}
variable {meets : Nat → List (Nat × Op) → σ → Op → List (Program Answer ε α) → Prop}
variable {p p' : Pool Answer σ ε α}

/-- A pool whose programs keep the contract. -/
structure Mindful (C : Contract σ) (act : (op : Op) → σ → Answer op × σ)
    (p : Pool Answer σ ε α) : Prop where
  inv : C.inv p.state
  threads : ∀ m ∈ p.threads, Minds C act m p.state

theorem mindful_step (ready : ∀ m, starts m → ∀ s, C.inv s → Minds C act m s)
    (mindful : Mindful C act p) (step : Step act starts meets p p') :
    Mindful C act p' ∧ C.Later p.state p'.state := by
  cases step with
  | start p h =>
    refine ⟨⟨mindful.inv, ?_⟩, later_refl mindful.inv⟩
    refine List.forall_mem_append.mpr ⟨mindful.threads, ?_⟩
    exact List.forall_mem_singleton.mpr (ready _ h _ mindful.inv)
  | call s history before after op next allowed =>
    obtain ⟨earlier, own⟩ := List.forall_mem_append.mp mindful.threads
    obtain ⟨here, later⟩ := List.forall_mem_cons.mp own
    obtain ⟨kept, onward⟩ := here s (later_refl mindful.inv)
    refine ⟨⟨kept.inv, ?_⟩, kept⟩
    refine List.forall_mem_append.mpr ⟨fun m inside => minds_later (earlier m inside) kept, ?_⟩
    exact List.forall_mem_cons.mpr ⟨onward, fun m inside => minds_later (later m inside) kept⟩

theorem mindful_run (ready : ∀ m, starts m → ∀ s, C.inv s → Minds C act m s)
    (mindful : Mindful C act p) (run : Run act starts meets p p') :
    Mindful C act p' ∧ C.Later p.state p'.state := by
  induction run with
  | refl => exact ⟨mindful, later_refl mindful.inv⟩
  | tail _ step ih =>
    obtain ⟨mindful', later⟩ := mindful_step ready ih.1 step
    exact ⟨mindful', later_trans ih.2 later⟩

end Pools

section Reading
variable {s s' : σ} {x : Except ε α} {m : Program Answer ε α}

/-- What a program answers when nothing interrupts it. -/
def answerOf (act : (op : Op) → σ → Answer op × σ) (m : Program Answer ε α) (s : σ) :
    Except ε α := outcome (alone act m s)

/-- The program only reads, and its result is settled. -/
def Fixed (C : Contract σ) (act : (op : Op) → σ → Answer op × σ) (x : Except ε α) :
    Program Answer ε α → σ → Prop
  | .done result, _ => result = x
  | .call op next, s => ∀ s', C.Later s s' →
      (act op s').2 = s' ∧ Fixed C act x (next (act op s').1) s'

/-- The program only reads, and there will be a moment that settles its result: the one that
the specification gives for the state of that moment. -/
def Reads (C : Contract σ) (act : (op : Op) → σ → Answer op × σ) (spec : σ → Except ε α) :
    Program Answer ε α → σ → Prop
  | .done result, s => result = spec s
  | .call op next, s => Fixed C act (spec s) (.call op next) s ∨ ∀ s', C.Later s s' →
      (act op s').2 = s' ∧ Reads C act spec (next (act op s').1) s'

theorem fixed_later (fixed : Fixed C act x m s) (later : C.Later s s') : Fixed C act x m s' := by
  cases m with
  | done result => exact fixed
  | call op next => exact fun s'' onward => fixed s'' (later_trans later onward)

theorem alone_of_fixed (inv : C.inv s) (fixed : Fixed C act x m s) :
    alone act m s = runExcept x s := by
  induction m with
  | done result =>
    obtain rfl : result = x := fixed
    rfl
  | call op next ih =>
    obtain ⟨still, onward⟩ := fixed s (later_refl inv)
    change alone act (next (act op s).1) (act op s).2 = _
    rw [still]
    exact ih _ onward

theorem answerOf_of_fixed (inv : C.inv s) (fixed : Fixed C act x m s) : answerOf act m s = x := by
  rw [answerOf, alone_of_fixed inv fixed, outcome_runExcept]

theorem fixed_bind {f : α → Program Answer ε β} {y : α → Except ε β}
    (inv : C.inv s) (first : Fixed C act x m s)
    (rest : ∀ a, x = .ok a → Fixed C act (y a) (f a) s) :
    Fixed C act (x >>= y) (m >>= f) s := by
  induction m generalizing s with
  | done result =>
    obtain rfl : result = x := first
    cases result with
    | ok a => exact rest a rfl
    | error e => exact rfl
  | call op next ih =>
    intro s' later
    obtain ⟨still, onward⟩ := first s' later
    exact ⟨still, ih _ later.inv onward (fun a same => fixed_later (rest a same) later)⟩

theorem reads_of_fixed {spec : σ → Except ε α} (fixed : Fixed C act (spec s) m s) :
    Reads C act spec m s := by
  cases m with
  | done result => exact fixed
  | call op next => exact Or.inl fixed

theorem alone_of_reads {spec : σ → Except ε α} (inv : C.inv s) (reads : Reads C act spec m s) :
    alone act m s = runExcept (spec s) s := by
  induction m with
  | done result =>
    obtain rfl : result = spec s := reads
    rfl
  | call op next ih =>
    rcases reads with fixed | open'
    · exact alone_of_fixed inv fixed
    · obtain ⟨still, onward⟩ := open' s (later_refl inv)
      change alone act (next (act op s).1) (act op s).2 = _
      rw [still]
      exact ih _ onward

theorem reads_congr {spec spec' : σ → Except ε α} (inv : C.inv s)
    (same : ∀ s', C.Later s s' → spec' s' = spec s') (reads : Reads C act spec m s) :
    Reads C act spec' m s := by
  induction m generalizing s with
  | done result => exact reads.trans (same s (later_refl inv)).symm
  | call op next ih =>
    rcases reads with fixed | open'
    · rw [← same s (later_refl inv)] at fixed
      exact Or.inl fixed
    · refine Or.inr (fun s' later => ?_)
      obtain ⟨still, onward⟩ := open' s' later
      exact ⟨still, ih _ later.inv (fun s'' after => same s'' (later_trans later after)) onward⟩

/-- What is settled comes first. -/
theorem reads_bind_of_fixed {f : α → Program Answer ε β} {y : α → σ → Except ε β}
    (inv : C.inv s) (first : Fixed C act x m s)
    (rest : ∀ a, x = .ok a → ∀ s', C.Later s s' → Reads C act (y a) (f a) s') :
    Reads C act (fun s' => x >>= fun a => y a s') (m >>= f) s := by
  induction m generalizing s with
  | done result =>
    obtain rfl : result = x := first
    cases result with
    | ok a => exact rest a rfl s (later_refl inv)
    | error e => exact rfl
  | call op next ih =>
    refine Or.inr (fun s' later => ?_)
    obtain ⟨still, onward⟩ := first s' later
    refine ⟨still, ih _ later.inv onward (fun a same s'' after => ?_)⟩
    exact rest a same s'' (later_trans later after)

/-- What follows a moment of reading was settled at that moment. -/
theorem reads_bind {spec : σ → Except ε α} {f : α → Program Answer ε β}
    {y : α → σ → Except ε β} (inv : C.inv s) (first : Reads C act spec m s)
    (rest : ∀ s₀, C.Later s s₀ → ∀ a, spec s₀ = .ok a → Fixed C act (y a s₀) (f a) s₀) :
    Reads C act (fun s' => spec s' >>= fun a => y a s') (m >>= f) s := by
  induction m generalizing s with
  | done result =>
    obtain rfl : result = spec s := first
    exact reads_of_fixed (fixed_bind inv rfl (rest s (later_refl inv)))
  | call op next ih =>
    rcases first with fixed | open'
    · exact reads_of_fixed (fixed_bind inv fixed (rest s (later_refl inv)))
    · refine Or.inr (fun s' later => ?_)
      obtain ⟨still, onward⟩ := open' s' later
      refine ⟨still, ih _ later.inv onward (fun s₀ after => ?_)⟩
      exact rest s₀ (later_trans later after)

end Reading

section Rules
variable {s s' : σ} {m : Program Answer ε α} {f : α → Program Answer ε β}

/-- The program only reads, and nothing that the others do can change its result any more. -/
def Settled (C : Contract σ) (act : (op : Op) → σ → Answer op × σ) (m : Program Answer ε α)
    (s : σ) : Prop := ∃ x, Fixed C act x m s

/-- The program only reads, and answers what it answers at one moment from now on. -/
def Atomic (C : Contract σ) (act : (op : Op) → σ → Answer op × σ) (m : Program Answer ε α)
    (s : σ) : Prop := ∀ s', C.Later s s' → Reads C act (answerOf act m) m s'

theorem settled_done (result : Except ε α) :
    Settled C act (.done result : Program Answer ε α) s := ⟨result, rfl⟩

theorem settled_perform {op : Op} {a : Answer op}
    (still : ∀ s', C.Later s s' → act op s' = (a, s')) :
    Settled C act (perform op : Program Answer ε (Answer op)) s := by
  refine ⟨.ok a, fun s' later => ?_⟩
  rw [still s' later]
  exact ⟨rfl, rfl⟩

theorem settled_bind (inv : C.inv s) (first : Settled C act m s)
    (rest : ∀ a, answerOf act m s = .ok a → Settled C act (f a) s) :
    Settled C act (m >>= f) s := by
  obtain ⟨x, fixed⟩ := first
  rw [answerOf_of_fixed inv fixed] at rest
  cases x with
  | error e => exact ⟨.error e, fixed_bind (y := fun _ => .error e) inv fixed nofun⟩
  | ok a =>
    obtain ⟨y, onward⟩ := rest a rfl
    refine ⟨y, fixed_bind (y := fun _ => y) inv fixed (fun b same => ?_)⟩
    cases same
    exact onward

theorem settled_mapM {f : α → Program Answer ε β} (inv : C.inv s) (xs : List α)
    (each : ∀ x ∈ xs, Settled C act (f x) s) : Settled C act (xs.mapM f) s := by
  induction xs with
  | nil => exact settled_done _
  | cons x xs ih =>
    obtain ⟨head, tail⟩ := List.forall_mem_cons.mp each
    rw [List.mapM_cons]
    refine settled_bind inv head (fun y _ => ?_)
    exact settled_bind inv (ih tail) (fun ys _ => settled_done _)

/-- One specification for all later states is what the program answers in them. -/
theorem atomic_of_reads {spec : σ → Except ε α}
    (reads : ∀ s', C.Later s s' → Reads C act spec m s') : Atomic C act m s := by
  intro s' later
  refine reads_congr later.inv (fun s'' after => ?_) (reads s' later)
  have alone := alone_of_reads after.inv (reads s'' (later_trans later after))
  rw [answerOf, alone, outcome_runExcept]

theorem atomic_perform {op : Op} (still : ∀ s', C.Later s s' → (act op s').2 = s') :
    Atomic C act (perform op : Program Answer ε (Answer op)) s := by
  have reads (s' : σ) (later : C.Later s s') :
      Reads C act (fun s' => .ok (act op s').1) (perform op : Program Answer ε (Answer op)) s' :=
    Or.inr (fun s'' after => ⟨still s'' (later_trans later after), rfl⟩)
  exact atomic_of_reads reads

/-- What is settled may come before the moment. -/
theorem atomic_after (inv : C.inv s) (first : Settled C act m s)
    (rest : ∀ a, answerOf act m s = .ok a → Atomic C act (f a) s) :
    Atomic C act (m >>= f) s := by
  obtain ⟨x, fixed⟩ := first
  rw [answerOf_of_fixed inv fixed] at rest
  have reads (s' : σ) (later : C.Later s s') :
      Reads C act (fun s' => x >>= fun a => answerOf act (f a) s') (m >>= f) s' :=
    reads_bind_of_fixed later.inv (fixed_later fixed later)
      (fun a same s'' after => rest a same s'' (later_trans later after))
  exact atomic_of_reads reads

/-- What is settled by the moment may come after it. -/
theorem atomic_bind (first : Atomic C act m s)
    (rest : ∀ s', C.Later s s' → ∀ a, answerOf act m s' = .ok a → Settled C act (f a) s') :
    Atomic C act (m >>= f) s := by
  have reads (s' : σ) (later : C.Later s s') : Reads C act
      (fun s' => answerOf act m s' >>= fun a => answerOf act (f a) s') (m >>= f) s' := by
    refine reads_bind later.inv (first s' later) (fun s₀ after a same => ?_)
    obtain ⟨x, fixed⟩ := rest s₀ (later_trans later after) a same
    rwa [answerOf_of_fixed after.inv fixed]
  exact atomic_of_reads reads

end Rules

section Positions
variable {starts : Program Answer ε α → Prop}
variable {meets : Nat → List (Nat × Op) → σ → Op → List (Program Answer ε α) → Prop}

/-- What a step is for the program at one position: another program starts, another performs
an operation, or it performs its own. -/
inductive Seen (act : (op : Op) → σ → Answer op × σ) (i : Nat) (m : Program Answer ε α)
    (p p' : Pool Answer σ ε α) : Prop
  | started (here : p'.threads[i]? = some m) (state : p'.state = p.state)
      (history : p'.history = p.history)
  | other (j : Nat) (op : Op) (apart : j ≠ i) (here : p'.threads[i]? = some m)
      (state : p'.state = (act op p.state).2) (history : p'.history = p.history ++ [(j, op)])
  | own (op : Op) (next : Answer op → Program Answer ε α) (about : m = .call op next)
      (here : p'.threads[i]? = some (next (act op p.state).1))
      (state : p'.state = (act op p.state).2) (history : p'.history = p.history ++ [(i, op)])

theorem seen_of_step {p p' : Pool Answer σ ε α} {i : Nat} {m : Program Answer ε α}
    (here : p.threads[i]? = some m) (step : Step act starts meets p p') : Seen act i m p p' := by
  cases step with
  | start p h =>
    refine .started ?_ rfl rfl
    obtain ⟨inside, _⟩ := List.getElem?_eq_some_iff.mp here
    rw [List.getElem?_append_left inside]
    exact here
  | call s history left right op next allowed =>
    rcases Nat.lt_trichotomy i left.length with low | same | high
    · refine .other _ op (Nat.ne_of_gt low) ?_ rfl rfl
      rw [← here, List.getElem?_append_left low, List.getElem?_append_left low]
    · subst same
      simp only [List.getElem?_append_right (Nat.le_refl _), Nat.sub_self,
        List.getElem?_cons_zero, Option.some.injEq] at here
      exact .own op next here.symm (by simp) rfl rfl
    · refine .other _ op (Nat.ne_of_lt high) ?_ rfl rfl
      obtain ⟨k, rfl⟩ := Nat.exists_eq_add_of_lt high
      rw [← here]
      simp only [Nat.add_assoc, List.getElem?_append_right (Nat.le_add_right _ _),
        Nat.add_sub_cancel_left, List.getElem?_cons_succ]

/-- A program that has returned stays as it is. -/
theorem done_stays {p p' : Pool Answer σ ε α} {i : Nat} {result : Except ε α}
    (here : p.threads[i]? = some (.done result)) (run : Run act starts meets p p') :
    p'.threads[i]? = some (.done result) := by
  induction run with
  | refl => exact here
  | tail _ step ih =>
    cases seen_of_step ih step with
    | started still _ _ => exact still
    | other _ _ _ still _ _ => exact still
    | own op next about _ _ _ => cases about

/-- Programs whose operations all meet a condition perform no others. -/
theorem only_step {ok : Op → Prop} {p p' : Pool Answer σ ε α}
    (ready : ∀ m, starts m → Only ok m) (only : ∀ m ∈ p.threads, Only ok m)
    (step : Step act starts meets p p') : (∀ m ∈ p'.threads, Only ok m) ∧
      ((p'.state = p.state ∧ p'.history = p.history) ∨ ∃ i op, ok op ∧
        p'.state = (act op p.state).2 ∧ p'.history = p.history ++ [(i, op)]) := by
  cases step with
  | start p h =>
    refine ⟨List.forall_mem_append.mpr ⟨only, ?_⟩, Or.inl ⟨rfl, rfl⟩⟩
    exact List.forall_mem_singleton.mpr (ready _ h)
  | call s history left right op next allowed =>
    obtain ⟨before, rest⟩ := List.forall_mem_append.mp only
    obtain ⟨here, after⟩ := List.forall_mem_cons.mp rest
    refine ⟨List.forall_mem_append.mpr ⟨before, ?_⟩, Or.inr ⟨_, op, here.1, rfl, rfl⟩⟩
    exact List.forall_mem_cons.mpr ⟨here.2 _, after⟩

end Positions

section Moments
variable {starts : Program Answer ε α → Prop}
variable {meets : Nat → List (Nat × Op) → σ → Op → List (Program Answer ε α) → Prop}
variable {p₀ p p' : Pool Answer σ ε α} {spec : σ → Except ε α} {i : Nat}

/-- The program at a position has its result settled by a moment of the run, or waits since a
moment of the run for one that settles it. -/
def Awaits (C : Contract σ) (act : (op : Op) → σ → Answer op × σ)
    (starts : Program Answer ε α → Prop)
    (meets : Nat → List (Nat × Op) → σ → Op → List (Program Answer ε α) → Prop)
    (spec : σ → Except ε α) (p₀ p : Pool Answer σ ε α) (i : Nat) : Prop :=
  ∃ m q, p.threads[i]? = some m ∧ Run act starts meets p₀ q ∧ Run act starts meets q p ∧
    C.Later q.state p.state ∧ (Fixed C act (spec q.state) m p.state ∨ Reads C act spec m q.state)

theorem awaits_step (ready : ∀ m, starts m → ∀ s, C.inv s → Minds C act m s)
    (mindful : Mindful C act p) (awaits : Awaits C act starts meets spec p₀ p i)
    (step : Step act starts meets p p') : Awaits C act starts meets spec p₀ p' i := by
  obtain ⟨m, q, here, before, between, later, state⟩ := awaits
  have onward := (mindful_step ready mindful step).2
  have after : Run act starts meets q p' := between.tail step
  have idle (same : p'.threads[i]? = some m) : Awaits C act starts meets spec p₀ p' i :=
    ⟨m, q, same, before, after, later_trans later onward,
      state.imp (fun fixed => fixed_later fixed onward) id⟩
  cases seen_of_step here step with
  | started here' _ _ => exact idle here'
  | other _ _ _ here' _ _ => exact idle here'
  | own op next about here' moved _ =>
    subst about
    -- the moment is past, or it is now or still to come
    have performed : (∃ q, Run act starts meets p₀ q ∧ Run act starts meets q p ∧
        C.Later q.state p.state ∧ Fixed C act (spec q.state) (.call op next) p.state) ∨
          (act op p.state).2 = p.state ∧ Reads C act spec (next (act op p.state).1) p.state := by
      rcases state with fixed | fixed | open'
      · exact Or.inl ⟨q, before, between, later, fixed⟩
      · exact Or.inl ⟨q, before, between, later, fixed_later fixed later⟩
      · exact Or.inr (open' p.state later)
    rcases performed with ⟨q, before, between, later, fixed⟩ | ⟨still, reads⟩
    · obtain ⟨still, rest⟩ := fixed p.state (later_refl mindful.inv)
      rw [still] at moved
      exact ⟨_, q, here', before, between.tail step, moved ▸ later, Or.inl (moved ▸ rest)⟩
    · rw [still] at moved
      exact ⟨_, p', here', before.trans after, .refl, later_refl onward.inv,
        Or.inr (moved ▸ reads)⟩

/-- A program that reads answers what it answers alone at one moment of the run. -/
theorem answer_of_moment (ready : ∀ m, starts m → ∀ s, C.inv s → Minds C act m s)
    (mindful : Mindful C act p₀) {m : Program Answer ε α} (asked : p₀.threads[i]? = some m)
    (atomic : Atomic C act m p₀.state) (run : Run act starts meets p₀ p)
    {result : Except ε α} (answered : p.threads[i]? = some (.done result)) :
    ∃ q, Run act starts meets p₀ q ∧ Run act starts meets q p ∧
      result = answerOf act m q.state := by
  have awaits : Mindful C act p ∧ Awaits C act starts meets (answerOf act m) p₀ p i := by
    clear answered
    induction run with
    | refl =>
      have now := later_refl mindful.inv
      exact ⟨mindful, m, p₀, asked, .refl, .refl, now, Or.inr (atomic _ now)⟩
    | tail _ step ih =>
      exact ⟨(mindful_step ready ih.1 step).1, awaits_step ready ih.1 ih.2 step⟩
  obtain ⟨_, m', q, here, before, after, _, state⟩ := awaits
  rw [answered] at here
  obtain rfl := Option.some.inj here
  exact ⟨q, before, after, state.elim id id⟩

end Moments

end AtomicReads
