import RustafariDB.AtomicReads

/-!
# What interleaved programs have done so far

Some operations of a program are events. Where the events of each program are known
beforehand, the history of a pool has for each of its programs the first of them, in their
order, and all of them once it has returned.
-/

namespace EmittedEvents

open Interleavings Program AtomicReads

variable {Op σ ε α β E : Type} {Answer : Op → Type} {event : Op → Option E}
variable {may : (op : Op) → Answer op → Prop}

section Programs

/-- Whatever the program may be answered, its events are the first of the list, and the whole
list where it returns without an error. -/
def Emits (event : Op → Option E) (may : (op : Op) → Answer op → Prop) :
    List E → Program Answer ε α → Prop
  | es, .done result => (∃ a, result = .ok a) → es = []
  | es, .call op next => match event op with
    | none => ∀ answer, may op answer → Emits event may es (next answer)
    | some e => ∃ rest, es = e :: rest ∧
        ∀ answer, may op answer → Emits event may rest (next answer)

theorem emits_bind {first rest : List E} {m : Program Answer ε α} {f : α → Program Answer ε β}
    (own : Emits event may first m) (others : ∀ a, Emits event may rest (f a)) :
    Emits event may (first ++ rest) (m >>= f) := by
  induction m generalizing first with
  | done result =>
    cases result with
    | ok a =>
      rw [own ⟨a, rfl⟩]
      exact others a
    | error e => exact fun ⟨_, failed⟩ => by cases failed
  | call op next ih =>
    change Emits event may (first ++ rest) (.call op (fun answer => next answer >>= f))
    rw [Emits] at own ⊢
    cases here : event op with
    | none =>
      rw [here] at own
      exact fun answer sound => ih answer (own answer sound)
    | some e =>
      rw [here] at own
      obtain ⟨later, rfl, onward⟩ := own
      exact ⟨later ++ rest, rfl, fun answer sound => ih answer (onward answer sound)⟩

/-- A program without events. -/
theorem emits_nothing {m : Program Answer ε α} (only : Only (fun op => event op = none) m) :
    Emits event may [] m := by
  induction m with
  | done result => exact fun _ => rfl
  | call op next ih =>
    rw [Emits, only.1]
    exact fun answer _ => ih answer (only.2 answer)

theorem emits_perform_bind {op : Op} {e : E} (here : event op = some e) {es : List E}
    {f : Answer op → Program Answer ε α}
    (rest : ∀ answer, may op answer → Emits event may es (f answer)) :
    Emits event may (e :: es) (perform op >>= f) := by
  change Emits event may (e :: es) (.call op f)
  rw [Emits, here]
  exact ⟨es, rfl, rest⟩

end Programs

section Histories

/-- The events of a history, in order. -/
def events (event : Op → Option E) (history : List (Nat × Op)) : List (Nat × E) :=
  history.filterMap (fun entry => (event entry.2).map (fun e => (entry.1, e)))

/-- The events of one program. -/
def own (i : Nat) (log : List (Nat × E)) : List E :=
  (log.filter (fun entry => entry.1 = i)).map Prod.snd

theorem events_append (history : List (Nat × Op)) (i : Nat) (op : Op) :
    events event (history ++ [(i, op)]) =
      events event history ++ ((event op).map (fun e => (i, e))).toList := by
  rw [events, List.filterMap_append, ← events]
  cases here : event op <;> simp [here]

theorem own_append (i j : Nat) (log : List (Nat × E)) (e : Option E) :
    own i (log ++ (e.map (fun e => (j, e))).toList) =
      own i log ++ (if j = i then e.toList else []) := by
  rw [own, List.filter_append, List.map_append, ← own]
  cases e with
  | none => simp
  | some e => by_cases same : j = i <;> simp [same]

end Histories

section Pools
variable {act : (op : Op) → σ → Answer op × σ} {starts : Program Answer ε α → Prop}
variable {meets : Nat → List (Nat × Op) → σ → Op → List (Program Answer ε α) → Prop}
variable {p₀ p p' : Pool Answer σ ε α} {i : Nat} {es : List E}

/-- The program at a position has emitted the first events of a list and will emit the
others. -/
def Emitting (event : Op → Option E) (may : (op : Op) → Answer op → Prop) (i : Nat)
    (es : List E) (p : Pool Answer σ ε α) : Prop :=
  ∃ m rest, p.threads[i]? = some m ∧ es = own i (events event p.history) ++ rest ∧
    Emits event may rest m

theorem emitting_step (sound : ∀ op, may op (act op p.state).1)
    (emitting : Emitting event may i es p) (step : Step act starts meets p p') :
    Emitting event may i es p' := by
  obtain ⟨m, rest, here, split, emits⟩ := emitting
  cases seen_of_step here step with
  | started here' _ history => exact ⟨m, rest, here', history.symm ▸ split, emits⟩
  | other j op apart here' _ history =>
    refine ⟨m, rest, here', ?_, emits⟩
    rwa [history, events_append, own_append, if_neg apart, List.append_nil]
  | own op next about here' _ history =>
    subst about
    rw [Emits] at emits
    rw [Emitting, history, events_append, own_append, if_pos rfl]
    cases e : event op with
    | none =>
      rw [e] at emits
      refine ⟨_, rest, here', ?_, emits _ (sound op)⟩
      rwa [Option.toList_none, List.append_nil]
    | some e' =>
      rw [e] at emits
      obtain ⟨later, rfl, onward⟩ := emits
      refine ⟨_, later, here', ?_, onward _ (sound op)⟩
      rwa [Option.toList_some, List.append_assoc, List.singleton_append]

/-- A run has the first events of each of its programs, and all of those of a program that has
returned an answer. -/
theorem own_events_of_run {s : σ} {ms : List (Program Answer ε α)} {m : Program Answer ε α}
    (listed : ms[i]? = some m) (emits : Emits event may es m)
    (sound : ∀ q : Pool Answer σ ε α, Run act starts meets ⟨s, ms, []⟩ q →
      ∀ op, may op (act op q.state).1)
    (run : Run act starts meets ⟨s, ms, []⟩ p) :
    own i (events event p.history) <+: es ∧
      ∀ a, p.threads[i]? = some (.done (.ok a)) → own i (events event p.history) = es := by
  have emitting : Emitting event may i es p := by
    induction run with
    | refl => exact ⟨m, es, listed, rfl, emits⟩
    | tail run step ih => exact emitting_step (sound _ run) ih step
  obtain ⟨m', rest, here, rfl, onward⟩ := emitting
  refine ⟨List.prefix_append _ _, fun a returned => ?_⟩
  rw [returned] at here
  obtain rfl := Option.some.inj here
  rw [onward ⟨a, rfl⟩, List.append_nil]

/-- No event is of a program that is not there. -/
theorem position_of_event {s : σ} {ms : List (Program Answer ε α)}
    (run : Run act (fun _ => False) meets ⟨s, ms, []⟩ p) :
    p.threads.length = ms.length ∧ ∀ e ∈ events event p.history, e.1 < ms.length := by
  induction run with
  | refl => exact ⟨rfl, nofun⟩
  | tail _ step ih =>
    obtain ⟨same, within⟩ := ih
    cases step with
    | start p h => cases h
    | call s history left right op next allowed =>
      simp only [List.length_append, List.length_cons] at same ⊢
      refine ⟨same, fun e inside => ?_⟩
      rw [events_append] at inside
      rcases List.mem_append.mp inside with before | now
      · exact within e before
      · obtain ⟨e', _, rfl⟩ := Option.map_eq_some_iff.mp (Option.mem_toList.mp now)
        change left.length < ms.length
        omega

end Pools

end EmittedEvents
