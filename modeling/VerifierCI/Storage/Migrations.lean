import Mathlib.Data.List.Sort
import VerifierCI.Python.IntParse
import VerifierCI.Python.Paths
import VerifierCI.Storage.Schema

/-! # Schema migrations

Migration files are read in the order of their names and numbered by what
stands before the first underscore. The loop stops at the first unapplied
version above the target, and the version it reports is the one it applied
last. Both agree with the numbers exactly as long as the names of the unapplied
files sort like their versions and no version is filled in later.
-/

namespace VerifierCI

open Python Relational

universe uContent

/-! ## Files -/

structure MigrationFile where
  name : String
  bytes : List UInt8
deriving DecidableEq, Repr

/-- Does `*.sql` match the name? -/
def MigrationFile.IsSql (file : MigrationFile) : Prop :=
  ['.', 's', 'q', 'l'] <:+ file.name.toList

instance (file : MigrationFile) : Decidable file.IsSql :=
  inferInstanceAs (Decidable (_ <:+ _))

/-- `int(file_path.stem.split("_")[0])`. -/
def MigrationFile.version? (file : MigrationFile) : Option Int :=
  intOfText? ((split '_' (stem file.name.toList)).headD [])

/-- `file_path.read_text(encoding="utf-8")`. -/
def MigrationFile.readText? (file : MigrationFile) : Option (List Char) :=
  Python.readText? file.bytes

/-- `sorted(migrations_dir.glob("*.sql"))`. -/
def migrationFiles (files : List MigrationFile) : List MigrationFile :=
  (files.filter (·.IsSql)).insertionSort fun a b => a.name ≤ b.name

/-! ## The database and the connection -/

/-- A row of `schema_migrations`. -/
structure MigrationRow where
  version : Int
  appliedAt : String
  checksum : String
deriving DecidableEq, Repr

/-- What the database stores: its record of migrations, and `Content`, which
is everything the scripts create. -/
structure MigrationDb (Content : Type uContent) where
  schemaMigrations : Table MigrationRow.version
  content : Content

/-- A connection sees its own uncommitted writes. Inside a transaction it keeps
the database as it was at `BEGIN`. -/
structure Connection (Content : Type uContent) where
  db : MigrationDb Content
  saved : Option (MigrationDb Content)

/-- The hash, SQLite and the clock. -/
structure MigrationEnv (Content : Type uContent) where
  sha256 : List UInt8 → Digest
  executescript : List Char → Connection Content → Except Exc Unit × Connection Content
  /-- `PRAGMA foreign_key_check`, each violation as the list of them prints it. -/
  foreignKeyCheck : MigrationDb Content → List String
  /-- The backup of a database file; a database in memory has none and needs none. -/
  backupDatabase : MigrationDb Content → Except Exc Unit
  now : MigrationDb Content → String

/-- An element of `pending`. -/
structure PendingMigration where
  version : Int
  file : MigrationFile
  content : List Char
  checksum : String
deriving DecidableEq, Repr

variable {Content : Type uContent} (env : MigrationEnv Content)

def MigrationEnv.checksum (content : List Char) : String :=
  (env.sha256 (content.flatMap String.utf8EncodeChar)).text

/-- `max(applied.keys()) if applied else 0`. -/
def latestVersion (applied : Table MigrationRow.version) : Int :=
  (applied.rows.map MigrationRow.version).max?.getD 0

/-! ## Collecting -/

/-- Is the version within `target_version`? -/
def Within (target : Option Int) (version : Int) : Prop :=
  ∀ bound ∈ target, version ≤ bound

instance (target : Option Int) (version : Int) : Decidable (Within target version) :=
  inferInstanceAs (Decidable (∀ bound ∈ target, _))

def checksumMismatch (version : Int) (name recorded current : String) : Except Exc α :=
  raiseWith .identityConflict
    s!"Migration {version} ({name}) checksum mismatch: recorded {recorded}, current {current}"

def collectPending (target : Option Int) (applied : Table MigrationRow.version) :
    List MigrationFile → Except Exc (List PendingMigration)
  | [] => .ok []
  | file :: rest =>
      match file.version? with
      | none => collectPending target applied rest
      | some version =>
          match file.readText? with
          | none => .error .unicodeDecodeError
          | some content =>
              match applied.find? version with
              | some row =>
                  if env.checksum content ≠ row.checksum then
                    checksumMismatch version file.name row.checksum (env.checksum content)
                  else collectPending target applied rest
              | none =>
                  -- `break`: files with greater names are not looked at
                  if ¬ Within target version then .ok []
                  else do
                    let pending ← collectPending target applied rest
                    .ok (⟨version, file, content, env.checksum content⟩ :: pending)

/-! ## Applying -/

/-- `ROLLBACK`, where a transaction is open. -/
def Connection.rollback (conn : Connection Content) : Connection Content :=
  match conn.saved with
  | none => conn
  | some db => ⟨db, none⟩

def Connection.commit (conn : Connection Content) : Except Exc Unit × Connection Content :=
  match conn.saved with
  | none => (.error .operationalError, conn)
  | some _ => (.ok (), { conn with saved := none })

def migrationScript (content : List Char) : List Char :=
  "BEGIN IMMEDIATE;\n".toList ++ content ++ ['\n']

def foreignKeyViolations (place : String) (violations : List String) : Exc :=
  .verifierCI .validationError s!"Foreign key violations detected {place}: {violations}"
    .databaseError

def recordMigration (migration : PendingMigration) (appliedAt : String)
    (conn : Connection Content) : Except Exc Unit × Connection Content :=
  let violations := env.foreignKeyCheck conn.db
  if violations ≠ [] then
    (.error (foreignKeyViolations s!"in migration {migration.version}" violations), conn)
  else
    match bindInteger (some migration.version) with
    | .error exc => (.error exc, conn)
    | .ok () =>
        match conn.db.schemaMigrations.insert?
            ⟨migration.version, appliedAt, migration.checksum⟩ with
        | none => (.error .integrityError, conn)
        | some table => Connection.commit { conn with db.schemaMigrations := table }

/-- The body of the loop over `pending`. -/
def applyMigration (migration : PendingMigration) (conn : Connection Content) :
    Except Exc Unit × Connection Content :=
  let appliedAt := env.now conn.db
  match env.executescript (migrationScript migration.content) conn with
  | (.error exc, conn) => (.error exc, conn.rollback)
  | (.ok (), conn) =>
      match recordMigration env migration appliedAt conn with
      | (.error exc, conn) => (.error exc, conn.rollback)
      | (.ok (), conn) => (.ok (), conn)

/-- The loop over `pending`, with the running `latest_version`. -/
def applyPending : List PendingMigration → Int → Connection Content →
    Except Exc Int × Connection Content
  | [], latest, conn => (.ok latest, conn)
  | migration :: rest, _, conn =>
      match applyMigration env migration conn with
      | (.error exc, conn) => (.error exc, conn)
      | (.ok (), conn) => applyPending rest migration.version conn

/-- `migrate(conn, target_version=…, migrations_dir=…, backup=…)`; `none` is a
directory that does not exist. -/
def migrate (target : Option Int) (migrationsDir : Option (List MigrationFile)) (backup : Bool)
    (conn : Connection Content) : Except Exc Int × Connection Content :=
  match migrationsDir with
  | none => (.ok (latestVersion conn.db.schemaMigrations), conn)
  | some files =>
      match collectPending env target conn.db.schemaMigrations (migrationFiles files) with
      | .error exc => (.error exc, conn)
      | .ok [] => (.ok (latestVersion conn.db.schemaMigrations), conn)
      | .ok pending =>
          match if backup then env.backupDatabase conn.db else .ok () with
          | .error exc => (.error exc, conn)
          | .ok () =>
              match applyPending env pending (latestVersion conn.db.schemaMigrations) conn with
              | (.error exc, conn) => (.error exc, conn)
              | (.ok latest, conn) =>
                  let violations := env.foreignKeyCheck conn.db
                  if violations ≠ [] then
                    (.error (foreignKeyViolations "after migrations" violations), conn)
                  else (.ok latest, conn)

end VerifierCI
