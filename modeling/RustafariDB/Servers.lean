import Mathlib.Data.List.DropRight
import RustafariDB.AnsweringMachines
import RustafariDB.SqlExecution

/-!
# The server binary

`main.rs`: a process loads the catalog from a file, executes what it is given, and saves
the catalog after every success. Rows are in memory only. Any number of shells and single
queries may use one file in turn. A shell may be killed between two lines, a read or a
write of the file may fail, and a process killed in the middle of a write is one whose
write fails and that is then killed. What is printed is recorded as the value it is
printed from; log lines and the history of the line editor are left out.

The code is the same over anything that executes texts and has its catalog saved, so it
is written over such an engine.
-/

namespace Servers

open Catalogs Values Plans Floats Sessions Execution StatefulPrograms SqlPlanning SqlExecution
open AnsweringMachines

section Lines

/-- `char::is_whitespace`: the Unicode property White_Space. -/
def isWhitespace (c : Char) : Bool :=
  let n := c.toNat
  (0x9 ≤ n && n ≤ 0xD) || n == 0x20 || n == 0x85 || n == 0xA0 || n == 0x1680 ||
    (0x2000 ≤ n && n ≤ 0x200A) || n == 0x2028 || n == 0x2029 || n == 0x202F || n == 0x205F ||
    n == 0x3000

def trim (text : List Char) : List Char :=
  (text.dropWhile isWhitespace).rdropWhile isWhitespace

def trimEndMatches (c : Char) (text : List Char) : List Char := text.rdropWhile (· == c)

def eqIgnoreAsciiCase (text word : List Char) : Bool :=
  text.map Char.toLower == word.map Char.toLower

def stripPrefix (start text : List Char) : Option (List Char) :=
  if start.isPrefixOf text then some (text.drop start.length) else none

/-- What a line asks of the shell. -/
inductive Input where
  | skip
  | leave
  | help
  | showDatabases
  | showTables
  | sql (text : String)
  deriving DecidableEq

/-- The text that is executed for a line. Only lower case is rewritten. -/
def rewritten (line lineLower : List Char) : List Char :=
  match (stripPrefix "describe table ".toList lineLower).or
    (stripPrefix "desc table ".toList lineLower) with
  | some rest => "DESCRIBE ".toList ++ trim (trimEndMatches ';' rest)
  | none => line

/-- What `run_shell` makes of a line. -/
def readInput (text : String) : Input :=
  let line := trim text.toList
  if line.isEmpty then .skip
  else if eqIgnoreAsciiCase line "exit".toList || eqIgnoreAsciiCase line "quit".toList then .leave
  else
    let lineLower := trim (trimEndMatches ';' line)
    if eqIgnoreAsciiCase lineLower "help".toList then .help
    else if eqIgnoreAsciiCase lineLower "show databases".toList then .showDatabases
    else if eqIgnoreAsciiCase lineLower "show tables".toList then .showTables
    else .sql (String.ofList (rewritten line lineLower))

example : readInput "  desc table t ;; " = .sql "DESCRIBE t" := by decide

end Lines

section Files

/-- The catalog file: absent, not the JSON of a snapshot, or with some content. -/
inductive CatalogFile (α : Type) where
  | missing
  | damaged
  | written (content : α)

/-- An order in which a process walks the maps of its catalog. -/
structure MapOrder where
  snapshot : Catalog → CatalogSnapshot
  lists : ∀ c : Catalog, c.ToSnapshot (snapshot c)

/-- How a save ends: before the file was opened, while it was written, or well. -/
inductive Save where
  | unchanged
  | truncated
  | complete (order : MapOrder)

def Save.fails : Save → Bool
  | .complete _ => false
  | _ => true

end Files

section Processes

inductive Printed (F : Type) where
  | nothing
  | welcome
  | help
  | databases (names : List String)
  | tables (names : List String)
  | result (r : ExecutionResult F) (notPersisted : Bool)
  | error (e : RustafariError)
  | panicked

/-- What the server is built on. -/
structure Engine (F σ α : Type) where
  new : σ
  execute : Machine String (Except Stop (ExecutionResult F)) σ
  listDatabases : σ → List String
  listTables : Option String → σ → List String
  toSnapshot : MapOrder → σ → α
  loadSnapshot : α → σ

/-- One thing that happens: a shell is started, given a line or killed, or a single query is
run. A shell started under the number of another takes its place. -/
inductive Event where
  | shell (process : Nat) (readable : Bool)
  | line (process : Nat) (text : String) (save : Save)
  | kill (process : Nat)
  | query (sql : String) (readable : Bool) (save : Save)

/-- The file, and the states of the shells that run. -/
structure Host (σ α : Type) where
  file : CatalogFile α
  shells : Nat → Option σ

variable {F σ α : Type}

namespace Host

/-- A directory without a catalog file, and no process. -/
def empty : Host σ α := ⟨.missing, fun _ => none⟩

def set (h : Host σ α) (process : Nat) (state : Option σ) : Host σ α :=
  { h with shells := fun other => if process = other then state else h.shells other }

end Host

namespace Engine
variable (e : Engine F σ α)

/-- `load_catalog` as `main` calls it: where it fails, the state is left new. -/
def loadCatalog (readable : Bool) : CatalogFile α → σ
  | .written snap => if readable then e.loadSnapshot snap else e.new
  | _ => e.new

def saveCatalog (s : σ) (save : Save) (file : CatalogFile α) : CatalogFile α :=
  match save with
  | .unchanged => file
  | .truncated => .damaged
  | .complete order => .written (e.toSnapshot order s)

/-- Execute a text, and save the catalog unless that failed. After a panic the process is
gone. -/
def executeAndSave (sql : String) (save : Save) (s : σ) (file : CatalogFile α) :
    Printed F × Option σ × CatalogFile α :=
  match e.execute sql s with
  | (.ok r, s') => (.result r save.fails, some s', e.saveCatalog s' save file)
  | (.error (.error err), s') => (.error err, some s', file)
  | (.error .panicked, _) => (.panicked, none, file)

/-- The body of the loop of `run_shell`. -/
def runLine (text : String) (save : Save) (s : σ) (file : CatalogFile α) :
    Printed F × Option σ × CatalogFile α :=
  match readInput text with
  | .skip => (.nothing, some s, file)
  | .leave => (.nothing, none, file)
  | .help => (.help, some s, file)
  | .showDatabases => (.databases (e.listDatabases s), some s, file)
  | .showTables => (.tables (e.listTables none s), some s, file)
  | .sql sql => e.executeAndSave sql save s file

def main : Machine Event (Printed F) (Host σ α)
  | .shell process readable, h =>
    (.welcome, h.set process (some (e.loadCatalog readable h.file)))
  | .line process text save, h =>
    match h.shells process with
    | none => (.nothing, h)
    | some s =>
      let (printed, s', file) := e.runLine text save s h.file
      (printed, { h.set process s' with file := file })
  | .kill process, h => (.nothing, h.set process none)
  | .query sql readable save, h =>
    let (printed, _, file) := e.executeAndSave sql save (e.loadCatalog readable h.file) h.file
    (printed, { h with file := file })

/-- The text that is executed at an event, and the state it is executed in. -/
def asked : Event → Host σ α → Option (String × σ)
  | .line process text _, h =>
    (h.shells process).bind (fun s =>
      match readInput text with
      | .sql sql => some (sql, s)
      | _ => none)
  | .query sql readable _, h => some (sql, e.loadCatalog readable h.file)
  | _, _ => none

end Engine

/-- The server as it is: sessions, and snapshots as they come back from JSON. -/
def sessions [Float64 F] [FloatText F] [SqlText] [SqlParser] [ValueDebug F] :
    Engine F (SessionState F) CatalogSnapshot where
  new := .new
  execute := fun sql s => (outcome (execute sql s), final (execute sql s))
  listDatabases := SessionState.listDatabases
  listTables := fun ns s => s.listTables ns
  toSnapshot := fun order s => (order.snapshot s.catalog).throughJson
  loadSnapshot := fun snap => { SessionState.new with catalog := Catalog.new.loadSnapshot snap }

end Processes

section Refinement
variable {F σ α σ' α' : Type}

/-- Related states answer alike, list alike, and have related successors and reloads. -/
structure Corresponds (may : String → σ' → Prop) (R : σ → σ' → Prop) (e : Engine F σ α)
    (e' : Engine F σ' α') : Prop where
  new : R e.new e'.new
  execute : ∀ sql s t, may sql t → R s t →
    (e'.execute sql t).1 = (e.execute sql s).1 ∧ R (e.execute sql s).2 (e'.execute sql t).2
  listDatabases : ∀ s t, R s t → e'.listDatabases t = e.listDatabases s
  listTables : ∀ ns s t, R s t → e'.listTables ns t = e.listTables ns s
  reload : ∀ order s t, R s t →
    R (e.loadSnapshot (e.toSnapshot order s)) (e'.loadSnapshot (e'.toSnapshot order t))

/-- Both files are absent, both are damaged, or they were written from related states. -/
inductive SameFile (R : σ → σ' → Prop) (e : Engine F σ α) (e' : Engine F σ' α') :
    CatalogFile α → CatalogFile α' → Prop where
  | missing : SameFile R e e' .missing .missing
  | damaged : SameFile R e e' .damaged .damaged
  | written (order : MapOrder) {s : σ} {t : σ'} (related : R s t) :
      SameFile R e e' (.written (e.toSnapshot order s)) (.written (e'.toSnapshot order t))

structure SameHost (R : σ → σ' → Prop) (e : Engine F σ α) (e' : Engine F σ' α')
    (h : Host σ α) (h' : Host σ' α') : Prop where
  file : SameFile R e e' h.file h'.file
  shells : ∀ process, Option.Rel R (h.shells process) (h'.shells process)

variable {may : String → σ' → Prop} {R : σ → σ' → Prop} {e : Engine F σ α} {e' : Engine F σ' α'}
variable {h : Host σ α} {h' : Host σ' α'} {file : CatalogFile α} {file' : CatalogFile α'}
variable {s : σ} {t : σ'}

theorem sameHost_empty : SameHost R e e' .empty .empty := ⟨.missing, fun _ => .none⟩

theorem sameHost_set (same : SameHost R e e' h h') (process : Nat) {state : Option σ}
    {state' : Option σ'} (related : Option.Rel R state state') :
    SameHost R e e' (h.set process state) (h'.set process state') := by
  refine ⟨same.file, fun other => ?_⟩
  simp only [Host.set]
  split
  · exact related
  · exact same.shells other

theorem related_loadCatalog (corresponds : Corresponds may R e e')
    (same : SameFile R e e' file file') (readable : Bool) :
    R (e.loadCatalog readable file) (e'.loadCatalog readable file') := by
  cases same with
  | missing => exact corresponds.new
  | damaged => exact corresponds.new
  | written order related =>
    cases readable with
    | false => exact corresponds.new
    | true => exact corresponds.reload order _ _ related

theorem sameFile_saveCatalog (same : SameFile R e e' file file') (related : R s t) (save : Save) :
    SameFile R e e' (e.saveCatalog s save file) (e'.saveCatalog t save file') := by
  cases save with
  | unchanged => exact same
  | truncated => exact .damaged
  | complete order => exact .written order related

/-- Both print the same, and leave related states and the same file. -/
structure SameOutcome (R : σ → σ' → Prop) (e : Engine F σ α) (e' : Engine F σ' α')
    (out : Printed F × Option σ × CatalogFile α)
    (out' : Printed F × Option σ' × CatalogFile α') : Prop where
  printed : out'.1 = out.1
  state : Option.Rel R out.2.1 out'.2.1
  file : SameFile R e e' out.2.2 out'.2.2

theorem sameOutcome_execute (corresponds : Corresponds may R e e') {sql : String}
    (permitted : may sql t) (save : Save) (related : R s t) (same : SameFile R e e' file file') :
    SameOutcome R e e' (e.executeAndSave sql save s file)
      (e'.executeAndSave sql save t file') := by
  obtain ⟨answer, next⟩ := corresponds.execute sql s t permitted related
  rw [Engine.executeAndSave, Engine.executeAndSave]
  revert answer next
  rcases e.execute sql s with ⟨answer, s'⟩
  rcases e'.execute sql t with ⟨answer', t'⟩
  rintro rfl next
  rcases answer' with (err | _) | r
  · exact ⟨rfl, .some next, same⟩
  · exact ⟨rfl, .none, same⟩
  · exact ⟨rfl, .some next, sameFile_saveCatalog same next save⟩

/-- Servers over corresponding engines print the same. -/
theorem main_refines (corresponds : Corresponds may R e e') :
    RefinesWhere (fun event h' => ∀ sql t, e'.asked event h' = some (sql, t) → may sql t)
      (SameHost R e e') e.main e'.main := by
  intro event h h' permitted same
  cases event with
  | shell process readable =>
    exact ⟨rfl, sameHost_set same process (.some (related_loadCatalog corresponds same.file _))⟩
  | kill process => exact ⟨rfl, sameHost_set same process .none⟩
  | query sql readable save =>
    have related := related_loadCatalog corresponds same.file readable
    have out := sameOutcome_execute corresponds (permitted sql _ rfl) save related same.file
    exact ⟨out.printed, out.file, same.shells⟩
  | line process text save =>
    simp only [Engine.main]
    simp only [Engine.asked] at permitted
    have shell := same.shells process
    revert shell permitted
    rcases h.shells process with _ | s <;> rcases h'.shells process with _ | t
    · exact fun _ _ => ⟨rfl, same⟩
    · exact fun _ shell => nomatch shell
    · exact fun _ shell => nomatch shell
    · intro permitted shell
      obtain ⟨related⟩ := shell
      have out : SameOutcome R e e' (e.runLine text save s h.file)
          (e'.runLine text save t h'.file) := by
        rw [Engine.runLine, Engine.runLine]
        cases asked : readInput text with
        | skip => exact ⟨rfl, .some related, same.file⟩
        | leave => exact ⟨rfl, .none, same.file⟩
        | help => exact ⟨rfl, .some related, same.file⟩
        | showDatabases =>
          exact ⟨congrArg _ (corresponds.listDatabases s t related), .some related, same.file⟩
        | showTables =>
          exact ⟨congrArg _ (corresponds.listTables none s t related), .some related, same.file⟩
        | sql sql =>
          refine sameOutcome_execute corresponds (permitted sql t ?_) save related same.file
          simp [asked]
      exact ⟨out.printed, out.file, (sameHost_set same process out.state).shells⟩

end Refinement

end Servers
