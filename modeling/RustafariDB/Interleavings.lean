import Mathlib.Algebra.BigOperators.Group.List.Basic
import RustafariDB.StatefulPrograms

/-!
# Interleaved programs

A program performs atomic operations on a shared state and returns an answer or an error.
A pool is the state with any number of programs at work; one step starts a program or performs
the next operation of one of them, so a run is any interleaving.

Programs are verified one at a time. Each holds a share of a ghost quantity, and the invariant
speaks of the state and the sum of all shares. A program keeps the invariant when each of its
operations does, whatever the others hold, and then every pool of such programs keeps it.
-/

namespace Interleavings

open StatefulPrograms

inductive Program {Op : Type} (Answer : Op → Type) (ε α : Type) where
  | done (result : Except ε α)
  | call (op : Op) (next : Answer op → Program Answer ε α)

variable {Op σ ε α β : Type} {Answer : Op → Type}

namespace Program

protected def bind : Program Answer ε α → (α → Program Answer ε β) → Program Answer ε β
  | done (.ok a), f => f a
  | done (.error e), _ => done (.error e)
  | call op next, f => call op (fun answer => (next answer).bind f)

instance : Monad (Program Answer ε) where
  pure a := done (.ok a)
  bind := Program.bind

instance : LawfulMonad (Program Answer ε) := by
  refine LawfulMonad.mk' (Program Answer ε) ?_ (fun _ _ => rfl) ?_
  · intro α p
    induction p with
    | done result => cases result <;> rfl
    | call op next ih => exact congrArg (call op) (funext ih)
  · intro α β γ p f g
    induction p with
    | done result => cases result <;> rfl
    | call op next ih => exact congrArg (call op) (funext ih)

/-- One operation as a program. -/
def perform (op : Op) : Program Answer ε (Answer op) := call op pure

/-- The operation a program is about to perform. -/
def nextOp : Program Answer ε α → Option Op
  | done _ => none
  | call op _ => some op

/-- The answer of a program that has returned one. -/
def returned : Program Answer ε α → Option α
  | done (.ok a) => some a
  | _ => none

/-- A program that ends with the answer or the error of another, as its answer. -/
def attempt : Program Answer ε α → Program Answer ε (Except ε α)
  | done result => done (.ok result)
  | call op next => call op (fun answer => attempt (next answer))

/-- Run a program without interruption. -/
def alone (act : (op : Op) → σ → Answer op × σ) : Program Answer ε α → EStateM ε σ α
  | done result => runExcept result
  | call op next => fun s => alone act (next (act op s).1) (act op s).2

section Alone
variable {act : (op : Op) → σ → Answer op × σ}

theorem alone_bind (p : Program Answer ε α) (f : α → Program Answer ε β) :
    alone act (p >>= f) = alone act p >>= fun a => alone act (f a) := by
  induction p with
  | done result => cases result <;> rfl
  | call op next ih =>
    funext s
    exact congrFun (ih (act op s).1) (act op s).2

theorem alone_attempt (p : Program Answer ε α) (s : σ) :
    alone act (attempt p) s = match alone act p s with
      | .ok a s' => .ok (.ok a) s'
      | .error e s' => .ok (.error e) s' := by
  induction p generalizing s with
  | done result => cases result <;> rfl
  | call op next ih => exact ih (act op s).1 (act op s).2

theorem alone_perform_bind {op : Op} {s s' : σ} {answer : Answer op}
    (h : act op s = (answer, s')) (f : Answer op → Program Answer ε β) :
    alone act (perform op >>= f) s = alone act (f answer) s' := by
  change alone act (f (act op s).1) (act op s).2 = _
  rw [h]

theorem alone_mapM (f : α → Program Answer ε β) (xs : List α) :
    alone act (xs.mapM f) = xs.mapM (fun x => alone act (f x)) := by
  induction xs with
  | nil => rfl
  | cons x xs ih =>
    rw [List.mapM_cons, List.mapM_cons, alone_bind]
    refine congrArg (alone act (f x) >>= ·) (funext (fun y => ?_))
    rw [alone_bind, ih]
    rfl

end Alone

end Program

open Program

section Pools

/-- The shared state, the programs at work, and the operations performed so far with the
program that performed them. -/
structure Pool {Op : Type} (Answer : Op → Type) (σ ε α : Type) where
  state : σ
  threads : List (Program Answer ε α)
  history : List (Nat × Op)

/-- One step of a pool. An operation is performed where `meets` allows it in view of the
other programs at work, with its own position; with `True` there, every interleaving is a run. -/
inductive Step (act : (op : Op) → σ → Answer op × σ) (starts : Program Answer ε α → Prop)
    (meets : Nat → List (Nat × Op) → σ → Op → List (Program Answer ε α) → Prop) :
    Pool Answer σ ε α → Pool Answer σ ε α → Prop
  | start (p : Pool Answer σ ε α) {program : Program Answer ε α} (h : starts program) :
      Step act starts meets p { p with threads := p.threads ++ [program] }
  | call (s : σ) (history : List (Nat × Op)) (before after : List (Program Answer ε α))
      (op : Op) (next : Answer op → Program Answer ε α)
      (allowed : meets before.length history s op (before ++ after)) :
      Step act starts meets ⟨s, before ++ .call op next :: after, history⟩
        ⟨(act op s).2, before ++ next (act op s).1 :: after, history ++ [(before.length, op)]⟩

abbrev Run (act : (op : Op) → σ → Answer op × σ) (starts : Program Answer ε α → Prop)
    (meets : Nat → List (Nat × Op) → σ → Op → List (Program Answer ε α) → Prop) :
    Pool Answer σ ε α → Pool Answer σ ε α → Prop :=
  Relation.ReflTransGen (Step act starts meets)

/-- Every interleaving. -/
def always (_ : Nat) (_ : List (Nat × Op)) (_ : σ) (_ : Op)
    (_ : List (Program Answer ε α)) : Prop := True

instance (i : Nat) (history : List (Nat × Op)) (s : σ) (op : Op)
    (others : List (Program Answer ε α)) : Decidable (always i history s op others) :=
  inferInstanceAs (Decidable True)

/-- No program is at work. -/
def Pool.Quiet (p : Pool Answer σ ε α) : Prop := ∀ m ∈ p.threads, ∃ result, m = .done result

theorem quiet_of_nextOp {p : Pool Answer σ ε α}
    (h : p.threads.all (fun m => m.nextOp.isNone) = true) : p.Quiet := by
  intro m running
  have finished := List.all_eq_true.mp h m running
  cases m with
  | done result => exact ⟨result, rfl⟩
  | call op next => cases finished

/-- Every program has returned an answer. -/
def Pool.Succeeded (p : Pool Answer σ ε α) : Prop := ∀ m ∈ p.threads, ∃ a, m = .done (.ok a)

variable {act : (op : Op) → σ → Answer op × σ} {starts : Program Answer ε α → Prop}
variable {meets : Nat → List (Nat × Op) → σ → Op → List (Program Answer ε α) → Prop}

theorem run_starts {ms : List (Program Answer ε α)} (each : ∀ m ∈ ms, starts m)
    (p : Pool Answer σ ε α) :
    Run act starts meets p { p with threads := p.threads ++ ms } := by
  induction ms generalizing p with
  | nil => rw [List.append_nil]
  | cons m ms ih =>
    obtain ⟨head, rest⟩ := List.forall_mem_cons.mp each
    refine .head (Step.start p head) ?_
    have onward := ih rest { p with threads := p.threads ++ [m] }
    rwa [List.append_assoc] at onward

section Schedules
variable [∀ i history s op others, Decidable (meets i history s op others)]

/-- Let the program at a position perform its next operation. -/
def turn (act : (op : Op) → σ → Answer op × σ)
    (meets : Nat → List (Nat × Op) → σ → Op → List (Program Answer ε α) → Prop)
    [∀ i history s op others, Decidable (meets i history s op others)]
    (p : Pool Answer σ ε α) (i : Nat) : Option (Pool Answer σ ε α) :=
  match p.threads[i]? with
  | some (.call op next) =>
    if meets i p.history p.state op (p.threads.take i ++ p.threads.drop (i + 1)) then
      some ⟨(act op p.state).2,
        p.threads.take i ++ next (act op p.state).1 :: p.threads.drop (i + 1),
        p.history ++ [(i, op)]⟩
    else none
  | _ => none

/-- Let programs take turns. -/
def turns (act : (op : Op) → σ → Answer op × σ)
    (meets : Nat → List (Nat × Op) → σ → Op → List (Program Answer ε α) → Prop)
    [∀ i history s op others, Decidable (meets i history s op others)] :
    List Nat → Pool Answer σ ε α → Option (Pool Answer σ ε α)
  | [], p => some p
  | i :: is, p => (turn act meets p i).bind (turns act meets is)

theorem step_of_turn {p p' : Pool Answer σ ε α} {i : Nat} (h : turn act meets p i = some p') :
    Step act starts meets p p' := by
  rw [turn] at h
  split at h
  · rename_i op next found
    split at h
    · rename_i allowed
      cases h
      obtain ⟨inside, here⟩ := List.getElem?_eq_some_iff.mp found
      have place : (p.threads.take i).length = i := by
        rw [List.length_take]
        omega
      have split_here : p.threads =
          p.threads.take i ++ .call op next :: p.threads.drop (i + 1) := by
        rw [← here, List.getElem_cons_drop, List.take_append_drop]
      have placed : meets (p.threads.take i).length p.history p.state op
          (p.threads.take i ++ p.threads.drop (i + 1)) := by rwa [place]
      have step : Step act starts meets _ _ := Step.call p.state p.history (p.threads.take i)
        (p.threads.drop (i + 1)) op next placed
      rwa [← split_here, place] at step
    · cases h
  · cases h

theorem run_of_turns (is : List Nat) {p p' : Pool Answer σ ε α}
    (h : turns act meets is p = some p') : Run act starts meets p p' := by
  induction is generalizing p with
  | nil =>
    cases h
    exact .refl
  | cons i is ih =>
    obtain ⟨p₁, first, rest⟩ := Option.bind_eq_some_iff.mp h
    exact .head (step_of_turn first) (ih rest)

/-- Programs begun at once and then scheduled. -/
theorem run_of_schedule {ms : List (Program Answer ε α)} (each : ∀ m ∈ ms, starts m)
    (is : List Nat) {s : σ} {p : Pool Answer σ ε α}
    (h : turns act meets is ⟨s, ms, []⟩ = some p) : Run act starts meets ⟨s, [], []⟩ p :=
  (run_starts each ⟨s, [], []⟩).trans (run_of_turns is h)

end Schedules

end Pools

section Shares
variable {G : Type} [AddCommMonoid G]

/-- What the programs of a pool rely on: an invariant of history, state and the sum of the
shares; what an operation may assume of the shares of the others; and what a share tells
about the next operation of its owner. -/
structure Protocol (Op σ G : Type) where
  inv : List (Nat × Op) → σ → G → Prop
  allows : Nat → List (Nat × Op) → σ → Op → G → Prop
  shows : Option Op → G → Prop

/-- From its share the program keeps the invariant at every operation and returns with a
share that meets the postcondition. -/
def Keeps (act : (op : Op) → σ → Answer op × σ) (P : Protocol Op σ G) (i : Nat)
    (post : Except ε α → G → Prop) : Program Answer ε α → G → Prop
  | .done result, g => post result g
  | .call op next, g => P.shows (some op) g ∧
      ∀ history s rest, P.inv history s (g + rest) → P.allows i history s op rest →
        ∃ g', P.inv (history ++ [(i, op)]) (act op s).2 (g' + rest) ∧
          Keeps act P i post (next (act op s).1) g'

variable {act : (op : Op) → σ → Answer op × σ} {P : Protocol Op σ G} {i : Nat}

theorem keeps_done {post : Except ε α → G → Prop} {result : Except ε α} {g : G}
    (h : post result g) : Keeps act P i post (.done result : Program Answer ε α) g := h

theorem keeps_pure {post : Except ε α → G → Prop} {a : α} {g : G}
    (h : post (.ok a) g) : Keeps act P i post (pure a : Program Answer ε α) g := h

theorem keeps_mono {post post' : Except ε α → G → Prop}
    (weaker : ∀ result g, post result g → post' result g) {p : Program Answer ε α} {g : G}
    (h : Keeps act P i post p g) : Keeps act P i post' p g := by
  induction p generalizing g with
  | done result => exact weaker result g h
  | call op next ih =>
    refine ⟨h.1, fun history s rest before allowed => ?_⟩
    obtain ⟨g', after, onward⟩ := h.2 history s rest before allowed
    exact ⟨g', after, ih _ onward⟩

theorem keeps_bind {middle : Except ε α → G → Prop} {post : Except ε β → G → Prop}
    {p : Program Answer ε α} {f : α → Program Answer ε β} {g : G}
    (first : Keeps act P i middle p g)
    (rest : ∀ a g', middle (.ok a) g' → Keeps act P i post (f a) g')
    (failed : ∀ e g', middle (.error e) g' → post (.error e) g') :
    Keeps act P i post (p >>= f) g := by
  induction p generalizing g with
  | done result =>
    cases result with
    | ok a => exact rest a g first
    | error e => exact failed e g first
  | call op next ih =>
    refine ⟨first.1, fun history s others before allowed => ?_⟩
    obtain ⟨g', after, onward⟩ := first.2 history s others before allowed
    exact ⟨g', after, ih _ onward⟩

theorem keeps_map {f : α → β} {post : Except ε β → G → Prop} {p : Program Answer ε α} {g : G}
    (h : Keeps act P i (fun result g => post (result.map f) g) p g) :
    Keeps act P i post (f <$> p) g := by
  rw [← bind_pure_comp]
  exact keeps_bind h (fun a g met => keeps_pure met) (fun e g met => met)

theorem keeps_attempt {post : Except ε (Except ε α) → G → Prop} {p : Program Answer ε α} {g : G}
    (h : Keeps act P i (fun result g => post (.ok result) g) p g) :
    Keeps act P i post p.attempt g := by
  induction p generalizing g with
  | done result => exact h
  | call op next ih =>
    refine ⟨h.1, fun history s rest before allowed => ?_⟩
    obtain ⟨g', after, onward⟩ := h.2 history s rest before allowed
    exact ⟨g', after, ih _ onward⟩

/-- A program kept a protocol also where operations are performed under more conditions. -/
theorem keeps_of_allows {allows : Nat → List (Nat × Op) → σ → Op → G → Prop}
    (fewer : ∀ history s op g, allows i history s op g → P.allows i history s op g)
    {post : Except ε α → G → Prop} {p : Program Answer ε α} {g : G}
    (h : Keeps act P i post p g) : Keeps act { P with allows := allows } i post p g := by
  induction p generalizing g with
  | done result => exact h
  | call op next ih =>
    refine ⟨h.1, fun history s rest before allowed => ?_⟩
    obtain ⟨g', after, onward⟩ := h.2 history s rest before (fewer history s op rest allowed)
    exact ⟨g', after, ih _ onward⟩

/-- The rule for one operation and what follows it. -/
theorem keeps_perform_bind {post : Except ε α → G → Prop} {op : Op}
    {f : Answer op → Program Answer ε α} {g : G} (shown : P.shows (some op) g)
    (step : ∀ history s rest, P.inv history s (g + rest) → P.allows i history s op rest →
      ∃ g', P.inv (history ++ [(i, op)]) (act op s).2 (g' + rest) ∧
        Keeps act P i post (f (act op s).1) g') :
    Keeps act P i post (Program.perform op >>= f) g := ⟨shown, step⟩

/-- A loop whose rounds move the share along a preorder. What a round has learnt of its share
stays true of later ones. -/
theorem keeps_mapM (grows : G → G → Prop) [IsPreorder G grows] {f : α → Program Answer ε β}
    {Q : α → β → G → Prop} (stays : ∀ x y g g', grows g g' → Q x y g → Q x y g') {g₀ g : G}
    (reached : grows g₀ g) (xs : List α)
    (each : ∀ x ∈ xs, ∀ g, grows g₀ g →
      Keeps act P i (fun result g' => grows g g' ∧ ∀ y, result = .ok y → Q x y g') (f x) g) :
    Keeps act P i (fun result g' => grows g g' ∧
        ∀ ys, result = .ok ys → List.Forall₂ (fun x y => Q x y g') xs ys) (xs.mapM f) g := by
  induction xs generalizing g with
  | nil =>
    refine ⟨refl g, fun ys h => ?_⟩
    cases h
    exact .nil
  | cons x xs ih =>
    obtain ⟨head, tail⟩ := List.forall_mem_cons.mp each
    rw [List.mapM_cons]
    refine keeps_bind (head g reached) ?_ (fun e g' h => ⟨h.1, fun ys failed => by cases failed⟩)
    rintro y g₁ ⟨first, hy⟩
    have onward := ih (Trans.trans reached first) tail
    refine keeps_bind onward ?_ (fun e g' h =>
      ⟨Trans.trans first h.1, fun ys failed => by cases failed⟩)
    rintro ys g₂ ⟨rest, hys⟩
    refine keeps_pure ⟨Trans.trans first rest, fun zs h => ?_⟩
    cases h
    exact .cons (stays x y g₁ g₂ rest (hy y rfl)) (hys ys rfl)

/-- What a program shows holds of its share at any time, also after its return. -/
def Settles (act : (op : Op) → σ → Answer op × σ) (P : Protocol Op σ G) (i : Nat)
    (post : Except ε α → G → Prop) : Program Answer ε α → G → Prop :=
  Keeps act P i (fun result g => P.shows none g ∧ post result g)

theorem shows_of_settles {post : Except ε α → G → Prop} {p : Program Answer ε α} {g : G}
    (h : Settles act P i post p g) : P.shows p.nextOp g := by
  cases p with
  | done result => exact h.1
  | call op next => exact h.1

/-- A pool in which every program has a share and a postcondition to meet. -/
structure Certified (act : (op : Op) → σ → Answer op × σ) (P : Protocol Op σ G)
    (certs : List ((Except ε α → G → Prop) × G)) (p : Pool Answer σ ε α) : Prop where
  inv : P.inv p.history p.state (certs.map Prod.snd).sum
  threads : List.Forall₂ (fun cert m => Settles act P m.2 cert.1 m.1 cert.2) certs
    p.threads.zipIdx

/-- The condition on steps gives an operation all that it assumes of the others. -/
def Covers (meets : Nat → List (Nat × Op) → σ → Op → List (Program Answer ε α) → Prop)
    (P : Protocol Op σ G) : Prop :=
  ∀ i history s op others shares, meets i history s op others →
    List.Forall₂ (fun g m => P.shows (nextOp m) g) shares others →
      P.allows i history s op shares.sum

variable {meets : Nat → List (Nat × Op) → σ → Op → List (Program Answer ε α) → Prop}

/-- A protocol that assumes nothing of the others is kept in every interleaving. -/
theorem covers_of_allows (free : ∀ i history s op g, P.allows i history s op g) :
    Covers meets P := fun i history s op _ shares _ _ => free i history s op shares.sum

theorem forall₂_append_cons {γ δ : Type} {R : γ → δ → Prop} {xs : List γ} {before after : List δ}
    {y : δ} (h : List.Forall₂ R xs (before ++ y :: after)) :
    ∃ left x right, xs = left ++ x :: right ∧ List.Forall₂ R left before ∧ R x y ∧
      List.Forall₂ R right after := by
  induction before generalizing xs with
  | nil =>
    obtain ⟨x, right, here, later, rfl⟩ := List.forall₂_cons_right_iff.mp h
    exact ⟨[], x, right, rfl, .nil, here, later⟩
  | cons z before ih =>
    obtain ⟨w, rest, first, later, rfl⟩ := List.forall₂_cons_right_iff.mp h
    obtain ⟨left, x, right, rfl, earlier, here, later⟩ := ih later
    exact ⟨w :: left, x, right, rfl, .cons first earlier, here, later⟩

theorem sum_around {γ : Type} (left right : List (γ × G)) (x : γ × G) :
    ((left ++ x :: right).map Prod.snd).sum = x.2 + ((left ++ right).map Prod.snd).sum := by
  simp only [List.map_append, List.map_cons, List.sum_append, List.sum_cons]
  exact add_left_comm _ _ _

variable {starts : Program Answer ε α → Prop}
variable {base : Except ε α → G → Prop} {p p' : Pool Answer σ ε α}
variable {certs : List ((Except ε α → G → Prop) × G)}

/-- A step changes the share of one program, or adds a program without one. -/
theorem certified_step (covers : Covers meets P)
    (ready : ∀ i m, starts m → Settles act P i base m 0) (cert : Certified act P certs p)
    (step : Step act starts meets p p') :
    ∃ certs' k, Certified act P certs' p' ∧
      certs'.map Prod.fst = certs.map Prod.fst ++ List.replicate k base := by
  cases step with
  | start p h =>
    refine ⟨certs ++ [(base, 0)], 1, ⟨?_, ?_⟩, by simp⟩
    · simpa using cert.inv
    · rw [List.zipIdx_append]
      exact List.rel_append cert.threads (.cons (ready _ _ h) .nil)
  | call s history before after op next allowed =>
    have threads := cert.threads
    rw [List.zipIdx_append, List.zipIdx_cons] at threads
    obtain ⟨left, ⟨post, g⟩, right, rfl, earlier, here, later⟩ := forall₂_append_cons threads
    have shown : List.Forall₂ (fun cert m => P.shows (nextOp m) cert.2) (left ++ right)
        (before ++ after) := by
      have all : List.Forall₂ (fun cert m => P.shows (nextOp m.1) cert.2) (left ++ right)
          (before.zipIdx ++ after.zipIdx (0 + before.length + 1)) :=
        (List.rel_append earlier later).imp (fun _ _ => shows_of_settles)
      have threads_only : (before.zipIdx ++ after.zipIdx (0 + before.length + 1)).map Prod.fst =
          before ++ after := by simp
      rw [← threads_only]
      exact List.forall₂_map_right_iff.mpr all
    have assumed := covers before.length history s op (before ++ after)
      ((left ++ right).map Prod.snd) allowed (List.forall₂_map_left_iff.mpr shown)
    have inv := cert.inv
    rw [sum_around] at inv
    obtain ⟨g', after_inv, onward⟩ := here.2 history s _ inv (by simpa using assumed)
    refine ⟨left ++ (post, g') :: right, 0, ⟨?_, ?_⟩, by simp⟩
    · rw [sum_around]
      simpa using after_inv
    · rw [List.zipIdx_append, List.zipIdx_cons]
      exact List.rel_append earlier (.cons onward later)

theorem certified_run (covers : Covers meets P)
    (ready : ∀ i m, starts m → Settles act P i base m 0) (cert : Certified act P certs p)
    (run : Run act starts meets p p') :
    ∃ certs' k, Certified act P certs' p' ∧
      certs'.map Prod.fst = certs.map Prod.fst ++ List.replicate k base := by
  induction run with
  | refl => exact ⟨certs, 0, cert, by simp⟩
  | tail _ step ih =>
    obtain ⟨certs₁, k, cert₁, kept₁⟩ := ih
    obtain ⟨certs₂, l, cert₂, kept₂⟩ := certified_step covers ready cert₁ step
    refine ⟨certs₂, k + l, cert₂, ?_⟩
    rw [kept₂, kept₁, List.append_assoc, List.replicate_append_replicate]

/-- Every pool that grows from a state alone is certified with the common postcondition. -/
theorem certified_of_run (covers : Covers meets P)
    (ready : ∀ i m, starts m → Settles act P i base m 0) {s : σ} (initial : P.inv [] s 0)
    (run : Run act starts meets ⟨s, [], []⟩ p) :
    ∃ certs k, Certified act P certs p ∧ certs.map Prod.fst = List.replicate k base := by
  have alone : Certified act P [] (⟨s, [], []⟩ : Pool Answer σ ε α) := ⟨initial, .nil⟩
  exact certified_run covers ready alone run

/-- The program at a position meets the postcondition listed there. -/
theorem settles_of_certified (cert : Certified act P certs p) {n : Nat} {m : Program Answer ε α}
    {post : Except ε α → G → Prop} (listed : (certs.map Prod.fst)[n]? = some post)
    (running : p.threads[n]? = some m) :
    ∃ g, (post, g) ∈ certs ∧ Settles act P n post m g := by
  rw [List.getElem?_map] at listed
  obtain ⟨⟨post', g⟩, found, rfl⟩ := Option.map_eq_some_iff.mp listed
  obtain ⟨inside, here⟩ := List.getElem?_eq_some_iff.mp found
  obtain ⟨at_work, there⟩ := List.getElem?_eq_some_iff.mp running
  refine ⟨g, List.mem_of_getElem? found, ?_⟩
  have settled := cert.threads.get inside (by simpa using at_work)
  simpa [here, there] using settled

/-- Programs that each meet a postcondition of their own from a share of their own. -/
theorem settled_all {ι : Type} {post : ι → Except ε α → G → Prop} {share : ι → G}
    {program : ι → Program Answer ε α} {xs : List ι}
    (each : ∀ x ∈ xs, ∀ i, Settles act P i (post x) (program x) (share x)) (n : Nat) :
    List.Forall₂ (fun cert m => Settles act P m.2 cert.1 m.1 cert.2)
      (xs.map (fun x => (post x, share x))) ((xs.map program).zipIdx n) := by
  induction xs generalizing n with
  | nil => exact .nil
  | cons x xs ih =>
    obtain ⟨first, others⟩ := List.forall_mem_cons.mp each
    exact .cons (first n) (ih others (n + 1))

/-- Programs that have returned, each with a postcondition of its own and none besides: the
results and the shares meet the postconditions. -/
theorem outcomes_of_settled {ι : Type} {post : ι → Except ε α → G → Prop} {xs : List ι} {n k : Nat}
    {threads : List (Program Answer ε α)}
    (settled : List.Forall₂ (fun cert m => Settles act P m.2 cert.1 m.1 cert.2) certs
      (threads.zipIdx n))
    (quiet : ∀ m ∈ threads, ∃ result, m = .done result)
    (posts : certs.map Prod.fst = xs.map post ++ List.replicate k (fun _ _ => False)) :
    ∃ outcomes : List (ι × Except ε α × G), outcomes.map Prod.fst = xs ∧
      threads = outcomes.map (fun o => .done o.2.1) ∧
        certs.map Prod.snd = outcomes.map (fun o => o.2.2) ∧
        ∀ o ∈ outcomes, post o.1 o.2.1 o.2.2 := by
  induction xs generalizing certs threads n with
  | nil =>
    cases certs with
    | nil =>
      have none := List.forall₂_nil_left_iff.mp settled
      exact ⟨[], rfl, List.zipIdx_eq_nil_iff.mp none, rfl, nofun⟩
    | cons cert certs =>
      -- a program besides would have returned with what cannot hold
      obtain ⟨⟨m, i⟩, rest, here, _, split⟩ := List.forall₂_cons_left_iff.mp settled
      have running : m ∈ threads := List.fst_mem_of_mem_zipIdx (split ▸ List.mem_cons_self)
      obtain ⟨result, rfl⟩ := quiet m running
      have listed : cert.1 ∈ (cert :: certs).map Prod.fst := List.mem_cons_self
      rw [posts] at listed
      have impossible : cert.1 = fun _ _ => False := List.eq_of_mem_replicate listed
      have met : cert.1 result cert.2 := here.2
      rw [impossible] at met
      cases met
  | cons x xs ih =>
    cases certs with
    | nil => cases posts
    | cons cert certs =>
      obtain ⟨first, others⟩ := List.cons.inj posts
      cases threads with
      | nil => cases settled
      | cons m threads =>
        rw [List.zipIdx_cons] at settled
        obtain ⟨here, later⟩ := List.forall₂_cons.mp settled
        obtain ⟨⟨result, rfl⟩, resting⟩ := List.forall_mem_cons.mp quiet
        obtain ⟨outcomes, names, rfl, shares, met⟩ := ih later resting others
        have own : post x result cert.2 := first ▸ here.2
        refine ⟨(x, result, cert.2) :: outcomes, ?_, rfl, ?_, List.forall_mem_cons.mpr ⟨own, met⟩⟩
        · rw [List.map_cons, names]
        · rw [List.map_cons, List.map_cons, shares]

/-- Where every program has returned with nothing of a part in its hands, none of it is left. -/
theorem sum_eq_zero {H : Type} [AddCommMonoid H] (part : G →+ H) (cert : Certified act P certs p)
    {k : Nat} (posts : certs.map Prod.fst = List.replicate k base)
    (returned : ∀ m ∈ p.threads, ∃ result, m = .done result ∧
      ∀ g, base result g → part g = 0) :
    part (certs.map Prod.snd).sum = 0 := by
  rw [map_list_sum, List.map_map]
  refine List.sum_eq_zero (fun h inside => ?_)
  obtain ⟨cert', listed, rfl⟩ := List.mem_map.mp inside
  have common : cert'.1 = base := by
    have replicated := List.mem_map_of_mem (f := Prod.fst) listed
    rw [posts] at replicated
    exact List.eq_of_mem_replicate replicated
  obtain ⟨⟨m, i⟩, running, settled⟩ := exists_of_forall₂ cert.threads cert' listed
  obtain ⟨result, rfl, empty⟩ := returned m (List.fst_mem_of_mem_zipIdx running)
  have post : cert'.1 result cert'.2 := settled.2
  rw [common] at post
  exact empty _ post

end Shares

end Interleavings
