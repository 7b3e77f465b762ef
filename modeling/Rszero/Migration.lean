import Mathlib.Data.List.Sort
import Mathlib.Data.String.Basic
import Rszero.CallProgram
import Rszero.Error

/-!
# Database migrations

`Migrator` as programs that call the file system and the database. A call of `conn.execute` is one
atomic batch, which takes effect or fails; the SQL of a migration acts on the tables of the
application, and the record of its version in `schema_migrations` is a batch of its own. Rows are
kept in the order of their insertion. Rust compares strings by their bytes in UTF-8, which is the
order of their characters; the order of a query is that of the database's collation.
-/

namespace Rszero.Migration

inductive Batch
  | up (version sql : String)
  | down (version sql : String)
  deriving DecidableEq

/-- `table` is `schema_migrations`, if it has been created; `version` is its primary key. -/
structure Database where
  table : Option (List String)
  log : List Batch
  nodup : (table.getD []).Nodup

def Database.empty : Database := ⟨none, [], List.nodup_nil⟩

def Database.applied (db : Database) : List String := db.table.getD []

def Database.execute (db : Database) (batch : Batch) : Database :=
  { db with log := db.log ++ [batch] }

/-- `CREATE TABLE IF NOT EXISTS schema_migrations` -/
def Database.createTable (db : Database) : Database := ⟨some db.applied, db.log, db.nodup⟩

def Database.insert (db : Database) (version : String) (h : version ∉ db.applied) : Database where
  table := some (db.applied ++ [version])
  log := db.log
  nodup := by
    refine List.nodup_append.2 ⟨db.nodup, List.nodup_singleton _, ?_⟩
    rintro v hv _ hw rfl
    exact h (List.mem_singleton.1 hw ▸ hv)

def Database.delete (db : Database) (version : String) : Database where
  table := some (db.applied.filter (· ≠ version))
  log := db.log
  nodup := db.nodup.filter _

/-- The files in the order in which the directory hands them out, with their contents. -/
structure Directory where
  files : List (String × String)
  nodup : (files.map Prod.fst).Nodup

def Directory.names (dir : Directory) : List String := dir.files.map Prod.fst

/-- The order by which the database sorts texts. -/
structure Collation where
  le : String → String → Bool
  total : ∀ a b, le a b || le b a
  trans : ∀ a b c, le a b → le b c → le a c
  antisymm : ∀ a b, le a b → le b a → a = b

def Collation.sort (collation : Collation) (rows : List String) : List String :=
  rows.insertionSort (fun a b => collation.le a b)

def Collation.binary : Collation where
  le a b := a ≤ b
  total a b := by simpa using le_total a b
  trans a b c hab hbc :=
    decide_eq_true (le_trans (of_decide_eq_true hab) (of_decide_eq_true hbc))
  antisymm a b hab hba := le_antisymm (of_decide_eq_true hab) (of_decide_eq_true hba)

inductive MigrationCall
  | dirExists
  | createTable
  | selectVersions
  | readDir
  | fileExists (name : String)
  | readFile (name : String)
  | apply (version sql : String)
  | insertVersion (version : String)
  | rollBack (version sql : String)
  | deleteVersion (version : String)
  deriving DecidableEq

/-- An error of the file system or of the database is known by its text. -/
abbrev MigrationCall.Answer : MigrationCall → Type
  | .dirExists | .fileExists _ => Bool
  | .selectVersions | .readDir => Except String (List String)
  | .readFile _ => Except String String
  | .createTable | .apply .. | .insertVersion _ | .rollBack .. | .deleteVersion _ =>
      Except String Unit

abbrev Program (α : Type) := CallProgram MigrationCall.Answer (Except RszeroError α)

def fail {α : Type} (message : String) : Program α := .done (.error (.database message none))

/-- `name.ends_with(".sql") && !name.starts_with("DOWN_")` -/
def isMigration (name : String) : Bool :=
  ".sql".toList.isSuffixOf name.toList && !"DOWN_".toList.isPrefixOf name.toList

/-- `sort_by(|a, b| a.name.cmp(&b.name))` -/
def sortByName (names : List String) : List String := names.insertionSort (· ≤ ·)

def getMigrationFiles (names : List String) : List String := sortByName (names.filter isMigration)

def applyMigration (version sql : String) : Program Unit :=
  .call (.apply version sql) fun
    | .error e => fail s!"failed to apply migration {version}: {e}"
    | .ok () => .call (.insertVersion version) fun
        | .error e => fail s!"failed to record migration: {e}"
        | .ok () => .done (.ok ())

def applyPending (applied : List String) : List String → Program Unit
  | [] => .done (.ok ())
  | name :: names =>
      if name ∈ applied then applyPending applied names
      else .call (.readFile name) fun
        | .error e => fail s!"failed to read migration {name}: {e}"
        | .ok content => (applyMigration name content).bind fun
            | .error e => .done (.error e)
            | .ok () => applyPending applied names

def run : Program Unit :=
  .call .dirExists fun
    | false => .done (.ok ())
    | true => .call .createTable fun
        | .error e => fail s!"failed to create migrations table: {e}"
        | .ok () => .call .selectVersions fun
            | .error e => fail s!"failed to query migrations: {e}"
            | .ok applied => .call .readDir fun
                | .error e => fail s!"failed to read migration dir: {e}"
                | .ok names => applyPending applied (sortByName (getMigrationFiles names))

def downFile (version : String) : String := "DOWN_" ++ version

def rollBackLast (last : String) : Program Unit :=
  .call (.fileExists (downFile last)) fun
    | false => .done (.ok ())
    | true => .call (.readFile (downFile last)) fun
        | .error e => fail s!"failed to read rollback file: {e}"
        | .ok content => .call (.rollBack last content) fun
            | .error e => fail s!"rollback failed: {e}"
            | .ok () => .call (.deleteVersion last) fun
                | .error e => fail s!"failed to remove migration record: {e}"
                | .ok () => .done (.ok ())

def rollback : Program Unit :=
  .call .selectVersions fun
    | .error e => fail s!"failed to query migrations: {e}"
    | .ok applied => match applied.getLast? with
        | none => .done (.ok ())
        | some last => rollBackLast last

def pending : Program (List String) :=
  .call .dirExists fun
    | false => .done (.ok [])
    | true => .call .selectVersions fun
        | .error e => fail s!"failed to query migrations: {e}"
        | .ok applied => .call .readDir fun
            | .error e => fail s!"failed to read migration dir: {e}"
            | .ok names => .done (.ok ((getMigrationFiles names).filter (· ∉ applied)))

structure State where
  dir : Option Directory
  db : Database

/-- A call that fails, with this error, changes nothing. -/
def answered {α : Type} (fault : Option String) (s : State) (ans : Except String α) (s' : State) :
    Except String α × State :=
  match fault with
  | some e => (.error e, s)
  | none => (ans, s')

def noTable : String := "relation \"schema_migrations\" does not exist"

def noFile : String := "No such file or directory (os error 2)"

def duplicateVersion : String :=
  "duplicate key value violates unique constraint \"schema_migrations_pkey\""

def perform (collation : Collation) (s : State) (fault : Option String) :
    (op : MigrationCall) → op.Answer × State
  | .dirExists => (s.dir.isSome, s)
  | .createTable => answered fault s (.ok ()) { s with db := s.db.createTable }
  | .selectVersions => answered fault s (match s.db.table with
      | none => .error noTable
      | some rows => .ok (collation.sort rows)) s
  | .readDir => answered fault s (match s.dir with
      | none => .error noFile
      | some dir => .ok dir.names) s
  | .fileExists name => (s.dir.any (fun dir => name ∈ dir.names), s)
  | .readFile name => answered fault s (match s.dir.bind (fun dir => dir.files.lookup name) with
      | none => .error noFile
      | some content => .ok content) s
  | .apply version sql => answered fault s (.ok ()) { s with db := s.db.execute (.up version sql) }
  | .insertVersion version =>
      if s.db.table.isNone then answered fault s (.error noTable) s
      else if h : version ∉ s.db.applied then
        answered fault s (.ok ()) { s with db := s.db.insert version h }
      else answered fault s (.error duplicateVersion) s
  | .rollBack version sql =>
      answered fault s (.ok ()) { s with db := s.db.execute (.down version sql) }
  | .deleteVersion version =>
      if s.db.table.isNone then answered fault s (.error noTable) s
      else answered fault s (.ok ()) { s with db := s.db.delete version }

/-- What a program of a single runner returns, with the state it leaves; `faults` says which of its
calls fail. -/
def alone {α : Type} (collation : Collation) (faults : MigrationCall → Option String) (s : State)
    (p : Program α) : Option (Except RszeroError α) × State :=
  p.eval (fun s op => perform collation s (faults op) op) s

def Batch.perform (versions : List String) : Batch → List String
  | .up version _ => versions ++ [version]
  | .down version _ => versions.filter (· ≠ version)

/-- The migrations that are applied and not rolled back, the one applied last at the end. -/
def inEffect (log : List Batch) : List String := log.foldl Batch.perform []

theorem inEffect_append_up (log : List Batch) (version sql : String) :
    inEffect (log ++ [.up version sql]) = inEffect log ++ [version] := by
  simp [inEffect, Batch.perform]

theorem inEffect_append_down (log : List Batch) (version sql : String) :
    inEffect (log ++ [.down version sql]) = (inEffect log).filter (· ≠ version) := by
  simp [inEffect, Batch.perform]

end Rszero.Migration
