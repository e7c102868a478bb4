import VerifierCI.Storage.MigrationOrder
import VerifierCI.Transition.Run

/-! # Interrupted migrations

A migration commits together with its record or not at all. However often a call
fails or its process is killed, the database on disk holds a prefix of the
migrations, and the call that goes through leaves the database one undisturbed
call would have left.
-/

namespace VerifierCI

open Python Relational Transition

universe uContent

variable {Content : Type uContent}

/-! ## Processes that migrate -/

/-- What is on disk. An open transaction is not. -/
def Connection.durable (conn : Connection Content) : MigrationDb Content :=
  conn.saved.getD conn.db

/-- A process that opens the database to migrate it. The scripts may fail in one process and
go through in another. -/
structure MigrationProcess (Content : Type uContent) where
  env : MigrationEnv Content
  target : Option Int
  backup : Bool
  /-- How many migrations had committed when it was killed, if it was. -/
  killed : Option Nat

/-- A call of `migrate` up to so many commits. -/
def migrateUpTo (env : MigrationEnv Content) (target : Option Int) (files : List MigrationFile)
    (backup : Bool) (count : Nat) (conn : Connection Content) : Connection Content :=
  match collectPending env target conn.db.schemaMigrations (migrationFiles files) with
  | .error _ => conn
  | .ok pending =>
      match if backup then env.backupDatabase conn.db else .ok () with
      | .error _ => conn
      | .ok () =>
          (applyPending env (pending.take count) (latestVersion conn.db.schemaMigrations) conn).2

/-- What the call returned, if it did, and what the process left on disk. -/
def MigrationProcess.migrate (process : MigrationProcess Content) (files : List MigrationFile)
    (db : MigrationDb Content) : Option (Except Exc Int) × MigrationDb Content :=
  match process.killed with
  | none =>
      let (result, conn) :=
        VerifierCI.migrate process.env process.target (some files) process.backup ⟨db, none⟩
      (some result, conn.durable)
  | some count =>
      -- a script that was running when the process died is not on disk
      (none, (migrateUpTo process.env process.target files process.backup count ⟨db, none⟩).durable)

/-- Scripts leave their transaction open and the record of migrations alone: one that succeeds
has its effect, and one that fails has none on disk. -/
def MigrationEnv.Transactional (env : MigrationEnv Content)
    (effect : List Char → Content → Content) : Prop :=
  ∀ content db,
    env.executescript (migrationScript content) ⟨db, none⟩ =
        (.ok (), ⟨{ db with content := effect content db.content }, some db⟩) ∨
      ∃ exc conn, env.executescript (migrationScript content) ⟨db, none⟩ = (.error exc, conn) ∧
        conn.durable = db

/-- The migrations have been applied in this order, and recorded. -/
structure Migrated (effect : List Char → Content → Content) (done : List PendingMigration)
    (start db : MigrationDb Content) : Prop where
  content : db.content =
    done.foldl (fun content migration => effect migration.content content) start.content
  record : ∃ rows, db.schemaMigrations.rows = start.schemaMigrations.rows ++ rows ∧
    rows.map (fun row => (row.version, row.checksum)) =
      done.map fun migration => (migration.version, migration.checksum)

section Calls

variable {env : MigrationEnv Content} {effect : List Char → Content → Content}
  {start middle db : MigrationDb Content} {done later : List PendingMigration}

theorem Migrated.refl (db : MigrationDb Content) : Migrated effect [] db db where
  content := rfl
  record := ⟨[], (List.append_nil _).symm, rfl⟩

/-- Migrations that were applied one behind the other were applied as one list. -/
theorem Migrated.append (first : Migrated effect done start middle)
    (second : Migrated effect later middle db) : Migrated effect (done ++ later) start db where
  content := by rw [second.content, first.content, List.foldl_append]
  record := by
    obtain ⟨rows, hrows, hmap⟩ := first.record
    obtain ⟨rows', hrows', hmap'⟩ := second.record
    refine ⟨rows ++ rows', ?_, ?_⟩
    · rw [hrows', hrows, List.append_assoc]
    · rw [List.map_append, List.map_append, hmap, hmap']

theorem rollback_eq (conn : Connection Content) : conn.rollback = ⟨conn.durable, none⟩ := by
  obtain ⟨db, saved⟩ := conn
  cases saved <;> rfl

/-- A migration is rolled back, or committed with its record. -/
theorem applyMigration_cases (henv : env.Transactional effect) (migration : PendingMigration)
    (db : MigrationDb Content) :
    (∃ exc, applyMigration env migration ⟨db, none⟩ = (.error exc, ⟨db, none⟩)) ∨
      ∃ after, applyMigration env migration ⟨db, none⟩ = (.ok (), ⟨after, none⟩) ∧
        Migrated effect [migration] db after := by
  rcases henv migration.content db with hscript | ⟨exc, conn, hscript, hdurable⟩
  · by_cases hviolations :
        env.foreignKeyCheck { db with content := effect migration.content db.content } = []
    · simp only [applyMigration, hscript, recordMigration, hviolations, ne_eq, not_true_eq_false,
        if_false]
      cases bindInteger (some migration.version) with
      | error exc => exact Or.inl ⟨exc, rfl⟩
      | ok _ =>
          cases hinsert : db.schemaMigrations.insert?
              ⟨migration.version, env.now db, migration.checksum⟩ with
          | none => exact Or.inl ⟨.integrityError, rfl⟩
          | some table =>
              refine Or.inr ⟨⟨table, effect migration.content db.content⟩, rfl, rfl, ?_⟩
              exact ⟨_, (Table.insert?_eq_some_iff.mp hinsert).2, rfl⟩
    · simp only [applyMigration, hscript, recordMigration, ne_eq, hviolations, not_false_eq_true,
        if_true]
      exact Or.inl ⟨_, rfl⟩
  · refine Or.inl ⟨exc, ?_⟩
    simp only [applyMigration, hscript, rollback_eq, hdurable]

/-- The loop applies its migrations up to the first that fails. -/
theorem applyPending_cases (henv : env.Transactional effect) (pending : List PendingMigration)
    (latest : Int) (db : MigrationDb Content) :
    ∃ done rest after, pending = done ++ rest ∧
      (applyPending env pending latest ⟨db, none⟩).2 = ⟨after, none⟩ ∧
      Migrated effect done db after ∧
      ∀ version, (applyPending env pending latest ⟨db, none⟩).1 = .ok version → rest = [] := by
  induction pending generalizing latest db with
  | nil => exact ⟨[], [], db, rfl, rfl, .refl db, fun _ _ => rfl⟩
  | cons migration rest ih =>
      rcases applyMigration_cases henv migration db with
        ⟨exc, hfails⟩ | ⟨after, happlies, hmigrated⟩
      · refine ⟨[], migration :: rest, db, rfl, ?_, .refl db, ?_⟩
        · rw [applyPending, hfails]
        · intro version hok
          rw [applyPending, hfails] at hok
          cases hok
      · obtain ⟨done, left, final, hsplit, hconn, hdone, hall⟩ := ih migration.version after
        refine ⟨migration :: done, left, final, ?_, ?_, hmigrated.append hdone, ?_⟩
        · rw [hsplit, List.cons_append]
        · rw [applyPending, happlies]
          exact hconn
        · rw [applyPending, happlies]
          exact hall

end Calls

/-! ## What is left to apply -/

section Remaining

variable {env env' : MigrationEnv Content} {effect : List Char → Content → Content}
  {target : Option Int} {files : List MigrationFile} {start db : MigrationDb Content}
  {done rest : List PendingMigration}

theorem pending?_congr (hsha256 : env'.sha256 = env.sha256) : env'.pending? = env.pending? := by
  funext file
  simp only [MigrationEnv.pending?, MigrationEnv.checksum, hsha256]

theorem collected_congr (hsha256 : env'.sha256 = env.sha256) :
    collected env' target = collected env target := by
  funext applied files
  rw [collected, collected, pending?_congr hsha256]

theorem NumberedDirectory.congr (hsha256 : env'.sha256 = env.sha256)
    (h : NumberedDirectory env db.schemaMigrations files) :
    NumberedDirectory env' db.schemaMigrations files := by
  refine ⟨h.distinct, ?_⟩
  simpa only [MigrationEnv.checksum, hsha256] using h.readable

theorem collected_none (applied : Table MigrationRow.version) (files : List MigrationFile) :
    collected env none applied files = (files.filterMap env.pending?).filter fun migration =>
      applied.find? migration.version = none := by
  rw [collected, List.takeWhile_eq_self_iff]
  simp [Within]

/-- A target only ends the loop early. -/
theorem collected_prefix_untargeted (target : Option Int) (applied : Table MigrationRow.version)
    (files : List MigrationFile) :
    collected env target applied files <+: collected env none applied files := by
  rw [collected_none]
  exact List.takeWhile_prefix _

/-- A version has a record if it had one before or was applied since. -/
theorem Migrated.find?_eq_none_iff (h : Migrated effect done start db) (version : Int) :
    db.schemaMigrations.find? version = none ↔
      start.schemaMigrations.find? version = none ∧
        version ∉ done.map PendingMigration.version := by
  obtain ⟨rows, hrows, hmap⟩ := h.record
  rw [Table.find?_eq_none_iff, Table.find?_eq_none_iff, ← versions_eq hmap]
  constructor
  · intro hfresh
    constructor
    · intro row hrow
      apply hfresh
      rw [Table.mem_def, hrows]
      exact List.mem_append_left _ hrow
    · intro hmem
      obtain ⟨row, hrow, hkey⟩ := List.mem_map.mp hmem
      apply hfresh row _ hkey
      rw [Table.mem_def, hrows]
      exact List.mem_append_right _ hrow
  · rintro ⟨hold, hnew⟩ row hrow hkey
    rw [Table.mem_def, hrows, List.mem_append] at hrow
    rcases hrow with hrow | hrow
    · exact hold row hrow hkey
    · exact hnew (List.mem_map.mpr ⟨row, hrow, hkey⟩)

/-- Of a list without repeated keys, what is left without its first elements. -/
theorem filter_not_mem_prefix {first second : List PendingMigration}
    (hnodup : ((first ++ second).map PendingMigration.version).Nodup) :
    (first ++ second).filter (fun migration =>
      migration.version ∉ first.map PendingMigration.version) = second := by
  rw [List.map_append, List.nodup_append] at hnodup
  obtain ⟨_, _, hapart⟩ := hnodup
  have hfirst : first.filter (fun migration =>
      migration.version ∉ first.map PendingMigration.version) = [] := by
    apply List.filter_eq_nil_iff.mpr
    intro migration hmigration
    have hmem : migration.version ∈ first.map PendingMigration.version :=
      List.mem_map_of_mem hmigration
    simpa using hmem
  have hsecond : second.filter (fun migration =>
      migration.version ∉ first.map PendingMigration.version) = second := by
    apply List.filter_eq_self.mpr
    intro migration hmigration
    apply decide_eq_true
    intro hmem
    exact hapart _ hmem _ (List.mem_map_of_mem hmigration) rfl
  rw [List.filter_append, hfirst, hsecond, List.nil_append]

theorem NumberedDirectory.collected_nodup (h : NumberedDirectory env db.schemaMigrations files) :
    ((collected env target db.schemaMigrations (migrationFiles files)).map
      PendingMigration.version).Nodup := by
  rw [h.collected_versions]
  exact h.nodup.sublist (List.takeWhile_sublist _)

/-- What a prefix leaves is what the next call finds. -/
theorem NumberedDirectory.collected_of_migrated
    (h : NumberedDirectory env start.schemaMigrations files)
    (hsplit : collected env none start.schemaMigrations (migrationFiles files) = done ++ rest)
    (hmigrated : Migrated effect done start db) :
    collected env none db.schemaMigrations (migrationFiles files) = rest := by
  have hnodup : ((done ++ rest).map PendingMigration.version).Nodup := by
    rw [← hsplit]
    exact h.collected_nodup
  rw [collected_none] at hsplit ⊢
  calc
    _ = (((migrationFiles files).filterMap env.pending?).filter fun migration =>
          start.schemaMigrations.find? migration.version = none).filter fun migration =>
            migration.version ∉ done.map PendingMigration.version := by
        rw [List.filter_filter]
        apply List.filter_congr
        intro migration _
        rw [← Bool.decide_and, decide_eq_decide, hmigrated.find?_eq_none_iff, and_comm]
    _ = rest := by rw [hsplit, filter_not_mem_prefix hnodup]

theorem NumberedDirectory.of_migrated (h : NumberedDirectory env start.schemaMigrations files)
    (hfront : done <+: collected env none start.schemaMigrations (migrationFiles files))
    (hmigrated : Migrated effect done start db) :
    NumberedDirectory env db.schemaMigrations files := by
  obtain ⟨rows, hrows, hmap⟩ := hmigrated.record
  exact h.extend hrows hmap fun migration hmigration =>
    mem_collected (hfront.subset hmigration)

end Remaining

/-! ## Calls that fail or are killed -/

section Processes

variable {env : MigrationEnv Content} {effect : List Char → Content → Content}
  {files : List MigrationFile} {start db : MigrationDb Content}
  {process : MigrationProcess Content}

/-- A call applies an initial segment of what it collects: all of it, or what comes before the
first failure. -/
theorem migrate_cases (henv : env.Transactional effect)
    (h : NumberedDirectory env db.schemaMigrations files) (target : Option Int) (backup : Bool) :
    ∃ done rest after,
      collected env target db.schemaMigrations (migrationFiles files) = done ++ rest ∧
      (migrate env target (some files) backup ⟨db, none⟩).2 = ⟨after, none⟩ ∧
      Migrated effect done db after ∧
      ∀ version, (migrate env target (some files) backup ⟨db, none⟩).1 = .ok version →
        rest = [] := by
  simp only [migrate, h.collectPending]
  generalize collected env target db.schemaMigrations (migrationFiles files) = pending
  cases pending with
  | nil => exact ⟨[], [], db, rfl, rfl, .refl db, fun _ _ => rfl⟩
  | cons first others =>
      cases (if backup then env.backupDatabase db else .ok () : Except Exc Unit) with
      | error exc =>
          refine ⟨[], first :: others, db, rfl, rfl, .refl db, ?_⟩
          intro version hok
          cases hok
      | ok _ =>
          obtain ⟨done, rest, after, hsplit, hconn, hmigrated, hall⟩ :=
            applyPending_cases henv (first :: others) (latestVersion db.schemaMigrations) db
          -- The check of the foreign keys may still raise, but nothing is undone by it.
          refine ⟨done, rest, after, hsplit, ?_⟩
          rcases happly : applyPending env (first :: others)
            (latestVersion db.schemaMigrations) ⟨db, none⟩ with ⟨result, conn⟩
          rw [happly] at hconn hall
          obtain rfl : conn = ⟨after, none⟩ := hconn
          cases result with
          | error exc =>
              simp only [happly]
              refine ⟨trivial, hmigrated, ?_⟩
              intro version hok
              cases hok
          | ok latest =>
              simp only [happly]
              refine ⟨?_, hmigrated, fun _ _ => hall latest rfl⟩
              by_cases hviolations : env.foreignKeyCheck after = []
              · simp only [hviolations, ne_eq, not_true_eq_false, if_false]
              · simp only [hviolations, ne_eq, not_false_eq_true, if_true]

/-- A process that is killed has committed the migrations it had come to. -/
theorem migrateUpTo_cases (henv : env.Transactional effect)
    (h : NumberedDirectory env db.schemaMigrations files) (target : Option Int) (backup : Bool)
    (count : Nat) :
    ∃ done after, done <+: collected env target db.schemaMigrations (migrationFiles files) ∧
      migrateUpTo env target files backup count ⟨db, none⟩ = ⟨after, none⟩ ∧
      Migrated effect done db after := by
  simp only [migrateUpTo, h.collectPending]
  generalize collected env target db.schemaMigrations (migrationFiles files) = pending
  cases (if backup then env.backupDatabase db else .ok () : Except Exc Unit) with
  | error exc => exact ⟨[], db, List.nil_prefix, rfl, .refl db⟩
  | ok _ =>
      obtain ⟨done, rest, after, hsplit, hconn, hmigrated, _⟩ :=
        applyPending_cases henv (pending.take count) (latestVersion db.schemaMigrations) db
      have hdone : done <+: pending.take count := ⟨rest, hsplit.symm⟩
      exact ⟨done, after, hdone.trans (List.take_prefix count pending), hconn, hmigrated⟩

/-- A process applies a prefix of what it finds, and all of it when it was not told to stop
and returned. -/
theorem MigrationProcess.migrate_cases (henv : process.env.Transactional effect)
    (h : NumberedDirectory process.env db.schemaMigrations files) :
    ∃ done,
      done <+: collected process.env none db.schemaMigrations (migrationFiles files) ∧
      Migrated effect done db (process.migrate files db).2 ∧
      (process.target = none → ∀ version, (process.migrate files db).1 = some (.ok version) →
        done = collected process.env none db.schemaMigrations (migrationFiles files)) := by
  obtain ⟨env, target, backup, killed⟩ := process
  cases killed with
  | some count =>
      obtain ⟨done, after, hfront, hconn, hmigrated⟩ := migrateUpTo_cases henv h target backup count
      refine ⟨done, hfront.trans (collected_prefix_untargeted target _ _), ?_, ?_⟩
      · simp only [MigrationProcess.migrate, hconn]
        exact hmigrated
      · -- a killed call returned nothing
        intro _ version hok
        cases hok
  | none =>
      obtain ⟨done, rest, after, hsplit, hconn, hmigrated, hall⟩ :=
        VerifierCI.migrate_cases henv h target backup
      have hdone : done <+: collected env target db.schemaMigrations (migrationFiles files) :=
        ⟨rest, hsplit.symm⟩
      refine ⟨done, hdone.trans (collected_prefix_untargeted target _ _), ?_, ?_⟩
      · simp only [MigrationProcess.migrate, hconn]
        exact hmigrated
      · rintro rfl version hok
        have hrest := hall version (Option.some.inj hok)
        rw [hsplit, hrest, List.append_nil]

/-- Nothing stands in the way of a call that applies everything. -/
structure MigrationProcess.Undisturbed (process : MigrationProcess Content)
    (files : List MigrationFile) (db : MigrationDb Content) : Prop where
  target : process.target = none
  killed : process.killed = none
  scripts : ∀ pending,
    collectPending process.env none db.schemaMigrations (migrationFiles files) = .ok pending →
      ScriptsSucceed process.env pending ⟨db, none⟩
  storable : ∀ version, Due none db.schemaMigrations files version → Storable version
  backedUp : process.backup = true → process.env.backupDatabase db = .ok ()

/-- With every script succeeding, the loop ends and the call returns. -/
theorem MigrationProcess.Undisturbed.returns (h : process.Undisturbed files db)
    (hdirectory : NumberedDirectory process.env db.schemaMigrations files) :
    ∃ version, (process.migrate files db).1 = some (.ok version) := by
  obtain ⟨env, target, backup, killed⟩ := process
  obtain ⟨rfl, rfl, hscripts, hstorable, hbackup⟩ := h
  simp only [MigrationProcess.migrate, Option.some.injEq]
  have hscripts := hscripts _ hdirectory.collectPending
  by_cases hnil : collected env none db.schemaMigrations (migrationFiles files) = []
  · have hresult : VerifierCI.migrate env none (some files) backup ⟨db, none⟩ =
        (.ok (latestVersion db.schemaMigrations), ⟨db, none⟩) :=
      (migrate_ok_iff hdirectory hscripts).mpr (Or.inl ⟨hnil, rfl, rfl⟩)
    exact ⟨_, by rw [hresult]⟩
  · have hdue : ∀ migration ∈ collected env none db.schemaMigrations (migrationFiles files),
        Due none db.schemaMigrations files migration.version :=
      fun migration hmigration => hdirectory.due_of_collected (List.mem_map_of_mem hmigration)
    obtain ⟨version, after, happly⟩ := applyPending_ok hscripts
      (fun migration hmigration => hstorable _ (hdue migration hmigration))
      (fun migration hmigration =>
        Table.find?_eq_none_iff.mpr (hdue migration hmigration).2.1)
      hdirectory.collected_nodup (latestVersion db.schemaMigrations)
    have hresult : VerifierCI.migrate env none (some files) backup ⟨db, none⟩ =
        (.ok version, after) :=
      (migrate_ok_iff hdirectory hscripts).mpr (Or.inr ⟨hnil, hbackup, happly⟩)
    exact ⟨version, by rw [hresult]⟩

end Processes

/-! ## Any number of processes -/

def leftOnDisk (files : List MigrationFile) (start : MigrationDb Content)
    (processes : List (MigrationProcess Content)) : MigrationDb Content :=
  run (fun db process => (MigrationProcess.migrate process files db).2) start processes

def allMigrations (env : MigrationEnv Content) (files : List MigrationFile)
    (start : MigrationDb Content) : List PendingMigration :=
  collected env none start.schemaMigrations (migrationFiles files)

/-- The processes leave a prefix of the migrations, which an undisturbed call completes,
and once one call has completed it nothing more is applied. -/
structure MigrationsResume (env : MigrationEnv Content)
    (effect : List Char → Content → Content) (files : List MigrationFile)
    (start : MigrationDb Content) (processes : List (MigrationProcess Content)) : Prop where
  onDisk : ∃ done, done <+: allMigrations env files start ∧
    Migrated effect done start (leftOnDisk files start processes)
  completes : ∀ process : MigrationProcess Content, process.env.sha256 = env.sha256 →
    process.env.Transactional effect →
    process.Undisturbed files (leftOnDisk files start processes) →
    ∃ version after, process.migrate files (leftOnDisk files start processes) =
        (some (.ok version), after) ∧
      Migrated effect (allMigrations env files start) start after
  forGood : ∀ earlier process later version, processes = earlier ++ process :: later →
    process.target = none →
    (process.migrate files (leftOnDisk files start earlier)).1 = some (.ok version) →
    Migrated effect (allMigrations env files start) start (leftOnDisk files start processes)

section Runs

variable {env : MigrationEnv Content} {effect : List Char → Content → Content}
  {files : List MigrationFile} {start db : MigrationDb Content}
  {process : MigrationProcess Content} {processes : List (MigrationProcess Content)}
  {done : List PendingMigration}

/-- One process more. -/
theorem Migrated.step (h : NumberedDirectory env start.schemaMigrations files)
    (hsha256 : process.env.sha256 = env.sha256) (henv : process.env.Transactional effect)
    (hfront : done <+: allMigrations env files start) (hdone : Migrated effect done start db) :
    ∃ more, done ++ more <+: allMigrations env files start ∧
      Migrated effect (done ++ more) start (process.migrate files db).2 ∧
      (process.target = none → ∀ version, (process.migrate files db).1 = some (.ok version) →
        done ++ more = allMigrations env files start) := by
  obtain ⟨rest, hsplit⟩ := hfront
  have hdirectory := h.of_migrated ⟨rest, hsplit⟩ hdone
  have hfound : collected process.env none db.schemaMigrations (migrationFiles files) = rest := by
    rw [collected_congr hsha256]
    exact h.collected_of_migrated hsplit.symm hdone
  obtain ⟨more, hmore, hmigrated, hall⟩ :=
    MigrationProcess.migrate_cases henv (hdirectory.congr hsha256)
  rw [hfound] at hmore hall
  refine ⟨more, ?_, hdone.append hmigrated, ?_⟩
  · rw [← hsplit]
    exact (List.prefix_append_right_inj done).mpr hmore
  · intro htarget version hok
    rw [hall htarget version hok, hsplit]

/-- By induction over the processes: each finds an initial segment applied and adds to it. -/
theorem exists_done (h : NumberedDirectory env start.schemaMigrations files)
    (hprocesses : ∀ process ∈ processes, process.env.sha256 = env.sha256 ∧
      process.env.Transactional effect)
    (hfront : done <+: allMigrations env files start) (hdone : Migrated effect done start db) :
    ∃ more, done ++ more <+: allMigrations env files start ∧
      Migrated effect (done ++ more) start (leftOnDisk files db processes) := by
  induction processes generalizing done db with
  | nil => exact ⟨[], by rwa [List.append_nil], by rwa [List.append_nil]⟩
  | cons process rest ih =>
      obtain ⟨⟨hsha256, henv⟩, hrest⟩ := List.forall_mem_cons.mp hprocesses
      obtain ⟨more, hfront, hdone, _⟩ := Migrated.step h hsha256 henv hfront hdone
      obtain ⟨others, hfront, hdone⟩ := ih hrest hfront hdone
      rw [List.append_assoc] at hfront hdone
      exact ⟨more ++ others, hfront, hdone⟩

/-- Migration is resumed where it was interrupted. Each script and its record are committed
together, so what a process leaves is an initial segment, and the next process collects the
rest. -/
theorem interrupted_migrations_resume (h : NumberedDirectory env start.schemaMigrations files)
    (hprocesses : ∀ process ∈ processes, process.env.sha256 = env.sha256 ∧
      process.env.Transactional effect) :
    MigrationsResume env effect files start processes where
  onDisk := exists_done h hprocesses List.nil_prefix (.refl start)
  completes := by
    intro process hsha256 henv hundisturbed
    obtain ⟨done, hfront, hdone⟩ := exists_done h hprocesses List.nil_prefix (.refl start)
    obtain ⟨version, hok⟩ := hundisturbed.returns ((h.of_migrated hfront hdone).congr hsha256)
    obtain ⟨more, _, hmigrated, hall⟩ := Migrated.step h hsha256 henv hfront hdone
    rw [hall hundisturbed.target version hok] at hmigrated
    exact ⟨version, _, Prod.ext hok rfl, hmigrated⟩
  forGood := by
    intro earlier process later version hsplit htarget hok
    rw [hsplit] at hprocesses ⊢
    obtain ⟨hearlier, hlater⟩ := List.forall_mem_append.mp hprocesses
    obtain ⟨⟨hsha256, henv⟩, hlater⟩ := List.forall_mem_cons.mp hlater
    obtain ⟨done, hfront, hdone⟩ := exists_done h hearlier List.nil_prefix (.refl start)
    obtain ⟨more, _, hmigrated, hall⟩ := Migrated.step h hsha256 henv hfront hdone
    rw [hall htarget version hok] at hmigrated
    -- later processes find nothing to apply
    obtain ⟨others, hfront, hfinal⟩ := exists_done h hlater (List.prefix_refl _) hmigrated
    obtain ⟨rest, hrest⟩ := hfront
    have hnone : others = [] := by
      rw [List.append_assoc, List.append_right_eq_self, List.append_eq_nil_iff] at hrest
      exact hrest.1
    rw [hnone, List.append_nil] at hfinal
    rwa [leftOnDisk, run_append, run_cons]

end Runs

/-! ## Interrupted calls in memory -/

def appendStatement (content : List Char) (created : List (List Char)) : List (List Char) :=
  created ++ [((migrationScript content).drop 17).dropLast]

/-- Every script fails behind its `BEGIN`. -/
def failingEnv : MigrationEnv (List (List Char)) where
  sha256 := memoryEnv.sha256
  executescript _ conn := (.error .operationalError, ⟨conn.db, some conn.db⟩)
  foreignKeyCheck := memoryEnv.foreignKeyCheck
  backupDatabase := memoryEnv.backupDatabase
  now := memoryEnv.now

theorem transactional_memory : memoryEnv.Transactional appendStatement :=
  fun _ _ => Or.inl rfl

theorem transactional_failing : failingEnv.Transactional appendStatement :=
  fun _ db => Or.inr ⟨.operationalError, ⟨db, some db⟩, rfl, rfl⟩

/-- The first process dies between the migrations, the scripts of the second fail. -/
def interruptedProcesses : List (MigrationProcess (List (List Char))) :=
  [⟨memoryEnv, none, true, some 1⟩, ⟨failingEnv, none, true, none⟩]

/-- The first of the two scripts is on disk when the second process fails. -/
theorem interrupted_migrations_resume_memory :
    (leftOnDisk [firstFile, secondFile] freshConnection.db interruptedProcesses).content =
        ["CREATE TABLE t1 (x INT);".toList] ∧
      MigrationsResume memoryEnv appendStatement [firstFile, secondFile] freshConnection.db
        interruptedProcesses := by
  constructor
  · decide
  · apply interrupted_migrations_resume (memory_directory (by decide) (by decide))
    intro process hprocess
    rcases List.mem_pair.mp hprocess with rfl | rfl
    · exact ⟨rfl, transactional_memory⟩
    · exact ⟨rfl, transactional_failing⟩

end VerifierCI
