import Mathlib.Data.Multiset.Bind
import RustafariDB.OwnedStatements
import RustafariDB.Transcripts

/-!
# Sessions on different tables

The sessions of a server share one state and hold its locks for single sections only. When
no two of them use the same table and none creates or drops one, any interleaving of their
sections answers each as if it were alone, and leaves what is left when they come one after
another.
-/

namespace SeparateSessions

open Std Catalogs Values Plans Floats Sessions StatefulPrograms Interleavings LockSections
open Execution (Stop ExecutionResult executePlan)
open CatalogInvariants SessionInvariants FreshTables AnsweringMachines SqlPlanning SqlExecution
open NamedTables hiding act
open NamedTableRefinement TableIsolation CatalogListings Transcripts OwnedTables OwnedStatements

/-- A session on one table, with the texts it sends. -/
structure Client where
  ns : String
  table : String
  texts : List String

section Servers
variable {F : Type} [Float64 F] [FloatText F] [SqlText] [SqlParser]

variable (F) in
/-- The text is a statement on the table that does not create or drop it, or none at all. -/
def uses (ns table sql : String) : Bool :=
  match (sqlToPlan sql : Except RustafariError (PlanNode F)) with
  | .ok p => decide (place p = (ns, table)) && !defines p
  | .error _ => true

variable [ValueDebug F]

/-- `SqlExecutor::execute`, one lock section after the other. -/
def executeTask (sql : String) : Task F (ExecutionResult F) := do
  let plan ← orReturn (sqlToPlan sql)
  statement plan

/-- A session that sends its texts one after another and goes on after errors. -/
def sends : List String → Task F (List (Except Stop (ExecutionResult F)))
  | [] => pure []
  | sql :: texts => do
    let answer ← (executeTask sql).attempt
    let answers ← sends texts
    return answer :: answers

/-- Sessions at work on one state. -/
abbrev ServerPool (F : Type) : Type :=
  @Pool (LockSection F) Answer (SessionState F) Stop (List (Except Stop (ExecutionResult F)))

/-- The sessions are about to start. -/
abbrev serving (s : SessionState F) (clients : List Client) : ServerPool F :=
  ⟨s, clients.map (fun c => sends c.texts), []⟩

theorem alone_executeTask (sql : String) (s : SessionState F) :
    Program.alone act (executeTask sql) s = execute sql s := by
  rw [execute_run, executeTask]
  cases (sqlToPlan sql : Except RustafariError (PlanNode F)) with
  | error e => rfl
  | ok p => exact congrFun (alone_statement p) s

/-- A session that is not interrupted gets the answers of a session that executes texts. -/
theorem alone_sends (texts : List String) (s : SessionState F) :
    Program.alone act (sends texts) s = .ok (answers session texts s) (after session texts s) := by
  induction texts generalizing s with
  | nil => rfl
  | cons sql texts ih =>
    have first : Program.alone act (executeTask sql).attempt s =
        .ok (session sql s).1 (session sql s).2 := by
      rw [Program.alone_attempt, alone_executeTask, session]
      cases execute sql s <;> rfl
    rw [sends, Program.alone_bind, bind_run, first]
    change Program.alone act (sends texts >>= fun answers => pure ((session sql s).1 :: answers))
      (session sql s).2 = _
    rw [Program.alone_bind, bind_run, ih]
    rfl

section Sessions
variable {start σ : SessionState F} {tm : TableMeta} {t : Table F} {d : Database F} {i : Nat}
variable {ns table : String}

/-- What a session on its own table returns: the answers of the database, with the table in
its hands as the database has it then. -/
def Served (start : SessionState F) (d : Database F) (ns table : String) (texts : List String)
    (result : Except Stop (List (Except Stop (ExecutionResult F)))) (g : Owned F) : Prop :=
  result = .ok (answers database texts d) ∧ ∃ tm t σ,
    start.catalog.getTable ns table = some tm ∧
      (after database texts d).tables ns table = some t ∧
        g = {(tm.id, σ)} ∧ Shows start tm t σ

theorem keeps_executeTask {sql : String} (allowed : uses F ns table sql = true)
    (live : start.catalog.getTable ns table = some tm) (found : d.tables ns table = some t)
    (shows : Shows start tm t σ) : ∃ t', (database sql d).2.tables ns table = some t' ∧
      Keeps act (ownership start) i (Ends start tm t' (database sql d).1) (executeTask sql)
        {(tm.id, σ)} := by
  rw [executeTask]
  cases planned : (sqlToPlan sql : Except RustafariError (PlanNode F)) with
  | error e =>
    rw [database_of_error planned]
    exact ⟨t, found, keeps_done (ends_picture shows)⟩
  | ok p =>
    simp only [uses, planned, Bool.and_eq_true, decide_eq_true_eq, Bool.not_eq_true'] at allowed
    obtain ⟨own, data⟩ := allowed
    obtain ⟨t', left, keeps⟩ :=
      keeps_statement (i := i) (planned_of_sql planned) data own live shows
    rw [database_of_ok planned, tables_execute, if_pos own, answer_execute, own, found]
    exact ⟨t', left, keeps⟩

theorem keeps_sends (texts : List String) (allowed : ∀ sql ∈ texts, uses F ns table sql = true)
    (live : start.catalog.getTable ns table = some tm) (found : d.tables ns table = some t)
    (shows : Shows start tm t σ) :
    Keeps act (ownership start) i (Served start d ns table texts) (sends texts) {(tm.id, σ)} := by
  induction texts generalizing d t σ with
  | nil => exact keeps_pure ⟨rfl, tm, t, σ, live, found, rfl, shows⟩
  | cons sql texts ih =>
    obtain ⟨first, others⟩ := List.forall_mem_cons.mp allowed
    obtain ⟨t', left, keeps⟩ := keeps_executeTask (i := i) first live found shows
    have head : Keeps act (ownership start) i
        (fun result g => result = .ok (database sql d).1 ∧
          ∃ σ, g = {(tm.id, σ)} ∧ Shows start tm t' σ)
        (executeTask sql).attempt {(tm.id, σ)} :=
      keeps_attempt (keeps_mono (fun result g ended => ⟨congrArg _ ended.1, ended.2⟩) keeps)
    refine keeps_bind head ?_ ?_
    · rintro answer g ⟨returned, σ', rfl, shows'⟩
      cases returned
      refine keeps_bind (ih others left shows') ?_ ?_
      · rintro rest g ⟨answered, served⟩
        cases answered
        exact keeps_pure ⟨rfl, served⟩
      · rintro e g ⟨failed, _⟩
        cases failed
    · rintro e g ⟨failed, _⟩
      cases failed

end Sessions

section Databases
variable {ns table : String} {d d' : Database F}

theorem database_elsewhere {sql : String} (allowed : uses F ns table sql = true)
    (d : Database F) (ns' table' : String) : (database sql d).2.namespaces = d.namespaces ∧
      ((ns, table) ≠ (ns', table') →
        (database sql d).2.tables ns' table' = d.tables ns' table') := by
  cases planned : (sqlToPlan sql : Except RustafariError (PlanNode F)) with
  | error e =>
    rw [database_of_error planned]
    exact ⟨rfl, fun _ => rfl⟩
  | ok p =>
    simp only [uses, planned, Bool.and_eq_true, decide_eq_true_eq, Bool.not_eq_true'] at allowed
    obtain ⟨own, data⟩ := allowed
    rw [database_of_ok planned, tables_execute, own]
    refine ⟨?_, fun other => if_neg other⟩
    cases p with
    | createTable => cases data
    | _ => rfl

theorem after_elsewhere (texts : List String) (allowed : ∀ sql ∈ texts, uses F ns table sql = true)
    (d : Database F) (ns' table' : String) : (after database texts d).namespaces = d.namespaces ∧
      ((ns, table) ≠ (ns', table') →
        (after database texts d).tables ns' table' = d.tables ns' table') := by
  induction texts generalizing d with
  | nil => exact ⟨rfl, fun _ => rfl⟩
  | cons sql texts ih =>
    obtain ⟨first, others⟩ := List.forall_mem_cons.mp allowed
    obtain ⟨spaces, entry⟩ := ih others (database sql d).2
    obtain ⟨spaces', entry'⟩ := database_elsewhere first d ns' table'
    exact ⟨spaces.trans spaces', fun other => (entry other).trans (entry' other)⟩

/-- What texts leave under a name goes by what was there. -/
theorem after_of_same (texts : List String) (same : d.tables ns table = d'.tables ns table) :
    (after database texts d).tables ns table = (after database texts d').tables ns table :=
  (entry_after_filter texts same).trans (entry_after_filter texts rfl).symm

end Databases

section Clients
variable {clients : List Client} {d : Database F}

omit [ValueDebug F] in
variable (F) in
/-- The statements of each session are on its own table. -/
def Keep (clients : List Client) : Prop :=
  ∀ c ∈ clients, ∀ sql ∈ c.texts, uses F c.ns c.table sql = true

omit [ValueDebug F] in
instance (clients : List Client) : Decidable (Keep F clients) :=
  inferInstanceAs (Decidable (∀ c ∈ clients, ∀ sql ∈ c.texts, uses F c.ns c.table sql = true))

/-- The table that a session works on. -/
abbrev Client.place (c : Client) : String × String := (c.ns, c.table)

/-- The texts of the sessions one after another. -/
abbrev inTurn (clients : List Client) : List String := clients.flatMap Client.texts

theorem after_clients_elsewhere (keep : Keep F clients) (ns table : String) (d : Database F) :
    (after database (inTurn clients) d).namespaces = d.namespaces ∧
      ((∀ c ∈ clients, c.place ≠ (ns, table)) →
        (after database (inTurn clients) d).tables ns table = d.tables ns table) := by
  induction clients generalizing d with
  | nil => exact ⟨rfl, fun _ => rfl⟩
  | cons c clients ih =>
    obtain ⟨first, others⟩ := List.forall_mem_cons.mp keep
    obtain ⟨spaces, entry⟩ := ih others (after database c.texts d)
    obtain ⟨spaces', entry'⟩ := after_elsewhere c.texts first d ns table
    rw [inTurn, List.flatMap_cons, after_append]
    refine ⟨spaces.trans spaces', fun free => ?_⟩
    obtain ⟨other, apart⟩ := List.forall_mem_cons.mp free
    exact (entry apart).trans (entry' other)

/-- One after another, the sessions leave under each name what its own session leaves. -/
theorem after_clients_own (keep : Keep F clients) (apart : (clients.map Client.place).Nodup)
    (d : Database F) :
    ∀ c ∈ clients, (after database (inTurn clients) d).tables c.ns c.table =
      (after database c.texts d).tables c.ns c.table := by
  induction clients generalizing d with
  | nil => nofun
  | cons c clients ih =>
    obtain ⟨first, others⟩ := List.forall_mem_cons.mp keep
    rw [List.map_cons, List.nodup_cons] at apart
    have distinct : ∀ c' ∈ clients, c'.place ≠ c.place := fun c' inside same =>
      apart.1 (same ▸ List.mem_map_of_mem inside)
    rw [inTurn, List.flatMap_cons]
    simp only [after_append]
    refine List.forall_mem_cons.mpr ⟨(after_clients_elsewhere others _ _ _).2 distinct, ?_⟩
    intro c' inside
    have before := (after_elsewhere c.texts first d _ _).2 (distinct c' inside).symm
    exact (ih others apart.2 _ c' inside).trans (after_of_same c'.texts before)

end Clients

section Runs
variable {clients : List Client} {d : Database F} {s s' : SessionState F} {g : Owned F}

/-- The id of the table of a session. -/
def tableId (s : SessionState F) (c : Client) : Nat :=
  ((s.catalog.getTable c.ns c.table).map TableMeta.id).getD 0

omit [Float64 F] [FloatText F] [SqlText] [SqlParser] [ValueDebug F] in
theorem tableId_of_live {c : Client} {tm : TableMeta}
    (live : s.catalog.getTable c.ns c.table = some tm) : tableId s c = tm.id := by
  rw [tableId, live]
  rfl

omit [Float64 F] [FloatText F] [SqlText] [SqlParser] [ValueDebug F] in
theorem sum_singletons {ι H : Type} (f : ι → H) (xs : List ι) :
    (xs.map (fun x => ({f x} : Multiset H))).sum = ↑(xs.map f) := by
  have sum := Multiset.sum_map_singleton (↑(xs.map f) : Multiset H)
  rwa [Multiset.map_coe, Multiset.sum_coe, List.map_map] at sum

omit [Float64 F] [FloatText F] [SqlText] [SqlParser] [ValueDebug F] in
theorem place_of_tableId (unique : UniqueIds s.catalog) {c c' : Client} {tm tm' : TableMeta}
    (live : s.catalog.getTable c.ns c.table = some tm)
    (live' : s.catalog.getTable c'.ns c'.table = some tm') (same : tm.id = tm'.id) :
    c.place = c'.place := by
  obtain ⟨ns, table⟩ := getTable_inj unique live live' same
  exact Prod.ext ns table

omit [FloatText F] [SqlText] [SqlParser] [ValueDebug F] in
/-- At the start each session owns its table as it is. -/
theorem keeping_start (represents : Represents d s)
    (present : ∀ c ∈ clients, (s.catalog.getTable c.ns c.table).isSome)
    (apart : (clients.map Client.place).Nodup) :
    Keeping s s (clients.map (fun c => ({(tableId s c, s)} : Owned F))).sum := by
  rw [sum_singletons]
  refine ⟨rfl, represents.freshRows, ?_, ?_, fun t _ => agree_refl t s⟩
  · rw [Multiset.map_coe, List.map_map, Multiset.coe_nodup]
    refine List.Nodup.map_on ?_ apart.of_map
    intro c inside c' inside' same
    obtain ⟨tm, live⟩ := Option.isSome_iff_exists.mp (present c inside)
    obtain ⟨tm', live'⟩ := Option.isSome_iff_exists.mp (present c' inside')
    simp only [Function.comp_apply, tableId_of_live live, tableId_of_live live'] at same
    have places := place_of_tableId represents.catalog.toUniqueIds live live' same
    exact List.inj_on_of_nodup_map apart inside inside' places
  · intro e inside
    obtain ⟨c, _, rfl⟩ := List.mem_map.mp (Multiset.mem_coe.mp inside)
    exact agree_refl _ s

/-- When each session has its table in its hands, the state holds what they leave in turn. -/
theorem represents_keeping (represents : Represents d s) (keep : Keep F clients)
    (apart : (clients.map Client.place).Nodup) (keeping : Keeping s s' g)
    (own : ∀ c ∈ clients, ∃ tm t σ, s.catalog.getTable c.ns c.table = some tm ∧
      (after database c.texts d).tables c.ns c.table = some t ∧ (tm.id, σ) ∈ g ∧
        Shows s tm t σ)
    (only : ∀ e ∈ g, ∃ c ∈ clients, ∃ tm, s.catalog.getTable c.ns c.table = some tm ∧
      e.1 = tm.id) :
    Represents (after database (inTurn clients) d) s' := by
  have unique := represents.catalog.toUniqueIds
  -- an id that no session owns holds what it held
  have free {i : Nat} (other : ∀ c ∈ clients, ∀ tm,
      s.catalog.getTable c.ns c.table = some tm → i ≠ tm.id) : TableViews.SameContent i s s' := by
    refine sameContent_of_agree (keeping.untouched i (fun inside => ?_))
    obtain ⟨e, owned, rfl⟩ := Multiset.mem_map.mp inside
    obtain ⟨c, listed, tm, live, same⟩ := only e owned
    exact other c listed tm live same
  constructor
  · rw [keeping.catalog]
    exact represents.catalog
  · exact keeping.fresh
  · rw [keeping.catalog]
    intro i above
    refine unused_of_sameContent (represents.unused i above) (free (fun c _ tm live => ?_))
    have below := bound_lt represents.catalog (bound_of_getTable live)
    omega
  · intro ns
    rw [(after_clients_elsewhere keep ns "" d).1, keeping.catalog]
    exact represents.namespaces ns
  · intro ns table
    rw [keeping.catalog]
    by_cases used : ∃ c ∈ clients, c.place = (ns, table)
    · obtain ⟨c, listed, rfl, rfl⟩ := used
      obtain ⟨tm, t, σ, live, left, owned, shows⟩ := own c listed
      rw [after_clients_own keep apart d c listed, live, left]
      have agree := keeping.owned _ owned
      exact .some (holds_of_sameContent (sameContent_of_agree agree) shows.holds)
    · have others : ∀ c ∈ clients, c.place ≠ (ns, table) := fun c listed same =>
        used ⟨c, listed, same⟩
      rw [(after_clients_elsewhere keep ns table d).2 others]
      refine rel_imp (represents.tables ns table) (fun tm t live holds => ?_)
      refine holds_of_sameContent (free (fun c listed tm' live' same => ?_)) holds
      obtain ⟨rfl, rfl⟩ := getTable_inj unique live live' same
      exact others c listed rfl

omit [FloatText F] [SqlText] [SqlParser] [ValueDebug F] in
theorem held_of_live (represents : Represents d s) {ns table : String} {tm : TableMeta}
    (live : s.catalog.getTable ns table = some tm) :
    ∃ t, d.tables ns table = some t ∧ Holds s tm t := by
  rcases rel_cases (represents.tables ns table) with ⟨unbound, _⟩ | ⟨tm', t, live', found, holds⟩
  · rw [live] at unbound
    cases unbound
  · rw [live] at live'
    cases live'
    exact ⟨t, found, holds⟩

/-- Any interleaving of sessions on different tables that has come to rest. -/
theorem interleaved_sessions (represents : Represents d s) (keep : Keep F clients)
    (present : ∀ c ∈ clients, (s.catalog.getTable c.ns c.table).isSome)
    (apart : (clients.map Client.place).Nodup)
    {pool : ServerPool F} (run : Run act (fun _ => False) always (serving s clients) pool)
    (quiet : pool.Quiet) :
    pool.threads = clients.map (fun c => .done (.ok (answers database c.texts d))) ∧
      Represents (after database (inTurn clients) d) pool.state := by
  have start : Certified act (ownership s)
      (clients.map (fun c => (Served s d c.ns c.table c.texts, {(tableId s c, s)})))
      (serving s clients) := by
    constructor
    · rw [List.map_map]
      exact keeping_start represents present apart
    · refine settled_all (fun c inside i => ?_) 0
      obtain ⟨tm, live⟩ := Option.isSome_iff_exists.mp (present c inside)
      obtain ⟨t, found, holds⟩ := held_of_live represents live
      rw [tableId_of_live live]
      refine keeps_mono (fun _ _ served => ⟨trivial, served⟩) ?_
      exact keeps_sends c.texts (keep c inside) live found ⟨rfl, represents.freshRows, holds⟩
  obtain ⟨certs, k, cert, posts⟩ := certified_run
    (covers_of_allows (fun _ _ _ _ _ => trivial)) (fun _ _ impossible => impossible.elim) start run
  rw [List.map_map] at posts
  obtain ⟨outcomes, names, threads, shares, met⟩ := outcomes_of_settled cert.threads quiet posts
  have keeping : Keeping s pool.state (outcomes.map (fun o => o.2.2)).sum := shares ▸ cert.inv
  constructor
  · rw [threads, ← names, List.map_map]
    exact List.map_congr_left (fun o inside => congrArg Program.done (met o inside).1)
  · have hands {e : Nat × SessionState F} : e ∈ (outcomes.map (fun o => o.2.2)).sum ↔
        ∃ o ∈ outcomes, e ∈ o.2.2 := by
      rw [← Multiset.sum_coe, ← Multiset.join, Multiset.mem_join]
      simp only [Multiset.mem_coe, List.mem_map, exists_exists_and_eq_and]
    refine represents_keeping represents keep apart keeping ?_ ?_
    · intro c listed
      rw [← names] at listed
      obtain ⟨o, inside, rfl⟩ := List.mem_map.mp listed
      obtain ⟨_, tm, t, σ, live, left, owns, shows⟩ := met o inside
      exact ⟨tm, t, σ, live, left, hands.mpr ⟨o, inside, by simp [owns]⟩, shows⟩
    · intro e owned
      obtain ⟨o, inside, mine⟩ := hands.mp owned
      obtain ⟨_, tm, t, σ, live, left, owns, shows⟩ := met o inside
      rw [owns, Multiset.mem_singleton] at mine
      exact ⟨o.1, names ▸ List.mem_map_of_mem inside, tm, live, congrArg Prod.fst mine⟩

/-- Sessions that keep to different tables of a server answer as if each were alone, whatever
the order of their sections, and leave a state that nothing tells from the one they leave
one after another. -/
theorem sessions_on_different_tables (before : List String) (keep : Keep F clients)
    (present : ∀ c ∈ clients,
      ((after (session (F := F)) before .new).catalog.getTable c.ns c.table).isSome)
    (apart : (clients.map Client.place).Nodup)
    {pool : ServerPool F}
    (run : Run act (fun _ => False) always (serving (after session before .new) clients) pool)
    (quiet : pool.Quiet) :
    pool.threads =
        clients.map (fun c => .done (.ok (answers session c.texts (after session before .new)))) ∧
      Indistinguishable pool.state (after session (before ++ inTurn clients) .new) := by
  have represents := (refines_run (session_refines (F := F)) before represents_new).2
  obtain ⟨threads, left⟩ := interleaved_sessions represents keep present apart run quiet
  constructor
  · rw [threads]
    refine List.map_congr_left (fun c _ => ?_)
    rw [(refines_run (session_refines (F := F)) c.texts represents).1]
  · have inTurn := (refines_run (session_refines (F := F)) (inTurn clients) represents).2
    rw [after_append]
    exact indistinguishable_of_represents left inTurn

end Runs

end Servers

section Concrete

/-- One session inserts a row and counts, the other inserts two rows. -/
def writers : List Client :=
  [⟨"public", "a", ["insert into a values ( 1 )", "select count(*) from a"]⟩,
    ⟨"public", "b", ["insert into b values ( 2 ) , ( 3 )", "describe b"]⟩]

def tables : List String := ["create table a (id bigint)", "create table b (id bigint)"]

/-- The sessions take turns, the second one first. -/
def inAlternation : List Nat := (List.replicate 10 [1, 0]).flatten

theorem writers_run : ∃ pool,
    turns act always inAlternation
      (serving (F := Float) (after session tables .new) writers) = some pool ∧
    pool.threads = writers.map (fun c =>
      .done (.ok (answers session c.texts (after session tables .new)))) ∧
    Indistinguishable pool.state (after session (tables ++ inTurn writers) .new) := by
  have resting : (turns act always inAlternation
      (serving (F := Float) (after session tables .new) writers)).any
    (fun pool => pool.threads.all (fun m => m.nextOp.isNone)) = true := by
    decide +kernel
  obtain ⟨pool, reached, still⟩ := (Option.any_eq_true _ _).mp resting
  have run : Run act (fun _ => False) always _ pool := run_of_turns _ reached
  exact ⟨pool, reached, sessions_on_different_tables tables (by decide) (by decide) (by decide) run
    (quiet_of_nextOp still)⟩

end Concrete

end SeparateSessions
