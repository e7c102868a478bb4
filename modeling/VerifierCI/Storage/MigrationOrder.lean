import VerifierCI.Storage.Migrations

/-! # Migration order and result

A call applies what is due in numeric order and reports the greatest applied
version when the names of the unapplied files sort like their versions and no
due version is older than an applied one. It is exactly then that the second
call finds nothing to do and reports the same version.
-/

/-! ## Selected prefixes -/

namespace List

universe uElem

variable {α : Type uElem} [LinearOrder α] {p : α → Bool} {l : List α}

/-- A downward closed selection of a list that ascends towards every selected
element is a prefix of the list. -/
theorem takeWhile_eq_filter_of_ascending (hdown : ∀ {u v}, u < v → p v = true → p u = true)
    (hascending : l.Pairwise fun u v => p v = true → u < v) : l.takeWhile p = l.filter p := by
  induction l with
  | nil => rfl
  | cons u rest ih =>
      obtain ⟨hhead, hrest⟩ := pairwise_cons.mp hascending
      by_cases hu : p u = true
      · rw [takeWhile_cons_of_pos hu, filter_cons_of_pos hu, ih hrest]
      · rw [takeWhile_cons_of_neg hu, filter_cons_of_neg hu]
        symm
        apply filter_eq_nil_iff.mpr
        intro v hv hpv
        exact hu (hdown (hhead v hv hpv) hpv)

/-- What is left of a list that ascends wherever it is looked at ascends. -/
theorem pairwise_filter_of_ascending (hascending : l.Pairwise fun u v => p v = true → u < v) :
    (l.filter p).Pairwise (· < ·) := by
  induction l with
  | nil => exact Pairwise.nil
  | cons u rest ih =>
      obtain ⟨hhead, hrest⟩ := pairwise_cons.mp hascending
      by_cases hu : p u = true
      · rw [filter_cons_of_pos hu]
        apply pairwise_cons.mpr
        refine ⟨?_, ih hrest⟩
        intro v hv
        exact hhead v (mem_of_mem_filter hv) (of_mem_filter hv)
      · rw [filter_cons_of_neg hu]
        exact ih hrest

/-- Conversely, when the prefix ascends and misses no selected element. -/
theorem ascending_of_takeWhile (hnodup : l.Nodup) (hall : ∀ v ∈ l, p v = true → v ∈ l.takeWhile p)
    (hleading : (l.takeWhile p).Pairwise (· < ·)) : l.Pairwise fun u v => p v = true → u < v := by
  induction l with
  | nil => exact Pairwise.nil
  | cons u rest ih =>
      obtain ⟨hfresh, hnodup⟩ := nodup_cons.mp hnodup
      by_cases hu : p u = true
      · rw [takeWhile_cons_of_pos hu] at hall hleading
        obtain ⟨hhead, hleading⟩ := pairwise_cons.mp hleading
        have hrest : ∀ v ∈ rest, p v = true → v ∈ rest.takeWhile p := by
          intro v hv hpv
          rcases mem_cons.mp (hall v (mem_cons_of_mem u hv) hpv) with rfl | hmem
          · exact absurd hv hfresh
          · exact hmem
        apply pairwise_cons.mpr
        exact ⟨fun v hv hpv => hhead v (hrest v hv hpv), ih hnodup hrest hleading⟩
      · -- nothing is selected at all
        rw [takeWhile_cons_of_neg hu] at hall
        have hnone : ∀ v ∈ u :: rest, ¬ p v = true := fun v hv hpv => not_mem_nil (hall v hv hpv)
        exact pairwise_of_forall_mem_list fun _ _ v hv hpv => absurd hpv (hnone v hv)

end List

namespace VerifierCI

open Python Relational

universe uContent

variable {Content : Type uContent} (env : MigrationEnv Content)

/-! ## What is due -/

/-- The unapplied versions, in the order of the file names. -/
def unappliedVersions (applied : Table MigrationRow.version) (files : List MigrationFile) :
    List Int :=
  ((migrationFiles files).filterMap MigrationFile.version?).filter
    fun version => applied.find? version = none

/-- The version has a file, is not applied yet and is within the target. -/
def Due (target : Option Int) (applied : Table MigrationRow.version) (files : List MigrationFile)
    (version : Int) : Prop :=
  (∃ file ∈ files, file.IsSql ∧ file.version? = some version) ∧
    (∀ row ∈ applied, row.version ≠ version) ∧ Within target version

/-- The file as an element of `pending`. -/
def MigrationEnv.pending? (file : MigrationFile) : Option PendingMigration := do
  let version ← file.version?
  let content ← file.readText?
  some ⟨version, file, content, env.checksum content⟩

/-- The scripts run one behind the other. Each opens its transaction, leaves the
record of migrations alone and leaves no foreign key violation. -/
def ScriptsSucceed : List PendingMigration → Connection Content → Prop
  | [], _ => True
  | migration :: rest, conn =>
      (∃ content, env.executescript (migrationScript migration.content) conn =
          (.ok (), ⟨{ conn.db with content := content }, some conn.db⟩) ∧
        ∀ table, env.foreignKeyCheck ⟨table, content⟩ = []) ∧
      ∀ after, applyMigration env migration conn = (.ok (), after) → ScriptsSucceed rest after

/-- A directory of migration files numbered apart, with the checksums on record. -/
structure NumberedDirectory (applied : Table MigrationRow.version) (files : List MigrationFile) :
    Prop where
  distinct : ((migrationFiles files).filterMap MigrationFile.version?).Nodup
  readable : ∀ file ∈ migrationFiles files, ∀ version, file.version? = some version →
    ∃ content, file.readText? = some content ∧
      ∀ row ∈ applied, row.version = version → row.checksum = env.checksum content

/-- The call applies `migrations`, which are what is due, in numeric order. It
records them and reports the greatest applied version, as does the next call,
which changes nothing. -/
structure AppliesDue (target : Option Int) (files : List MigrationFile) (backup : Bool)
    (conn : Connection Content) (migrations : List PendingMigration)
    (after : Connection Content) : Prop where
  due : ∀ version, version ∈ migrations.map PendingMigration.version ↔
    Due target conn.db.schemaMigrations files version
  ascending : (migrations.map PendingMigration.version).Pairwise (· < ·)
  fromFiles : ∀ migration ∈ migrations, ∃ file ∈ files, env.pending? file = some migration
  applied : after = migrations.foldl (fun conn migration => (applyMigration env migration conn).2)
    conn
  recorded : ∃ rows, after.db.schemaMigrations.rows = conn.db.schemaMigrations.rows ++ rows ∧
    rows.map (fun row => (row.version, row.checksum)) =
      migrations.map fun migration => (migration.version, migration.checksum)
  result : migrate env target (some files) backup conn =
    (.ok (latestVersion after.db.schemaMigrations), after)
  again : migrate env target (some files) backup after =
    (.ok (latestVersion after.db.schemaMigrations), after)

def MigratesInOrder (target : Option Int) (files : List MigrationFile) (backup : Bool)
    (conn : Connection Content) : Prop :=
  ∃ migrations after, AppliesDue env target files backup conn migrations after

def Storable (version : Int) : Prop :=
  minInteger ≤ version ∧ version ≤ maxInteger

/-- The names sort like the versions as far as the target reaches, the newest
due version is newer than the applied ones, and the versions and the backup can
be written. -/
structure WellNumbered (target : Option Int) (files : List MigrationFile) (backup : Bool)
    (conn : Connection Content) : Prop where
  ascending : (unappliedVersions conn.db.schemaMigrations files).Pairwise fun u v =>
    Within target v → u < v
  newest : ∀ version, Due target conn.db.schemaMigrations files version →
    ∃ newest, Due target conn.db.schemaMigrations files newest ∧
      ∀ row ∈ conn.db.schemaMigrations, row.version < newest
  storable : ∀ version, Due target conn.db.schemaMigrations files version → Storable version
  backedUp : backup = true → ∀ version, Due target conn.db.schemaMigrations files version →
    env.backupDatabase conn.db = .ok ()

/-! ## What the loop collects -/

section Collect

variable {env} {target : Option Int} {applied : Table MigrationRow.version}
  {files : List MigrationFile}

theorem Within.of_lt {u v : Int} (hlt : u < v) (hv : Within target v) : Within target u :=
  fun bound hbound => hlt.le.trans (hv bound hbound)

theorem mem_migrationFiles {file : MigrationFile} :
    file ∈ migrationFiles files ↔ file ∈ files ∧ file.IsSql := by
  simp [migrationFiles, List.mem_insertionSort]

theorem mem_unappliedVersions {version : Int} :
    version ∈ unappliedVersions applied files ↔
      (∃ file ∈ files, file.IsSql ∧ file.version? = some version) ∧
        ∀ row ∈ applied, row.version ≠ version := by
  simp [unappliedVersions, mem_migrationFiles, Table.find?_eq_none_iff, and_assoc]

theorem due_iff {version : Int} :
    Due target applied files version ↔
      version ∈ unappliedVersions applied files ∧ Within target version := by
  rw [mem_unappliedVersions, Due, and_assoc]

def collected (env : MigrationEnv Content) (target : Option Int)
    (applied : Table MigrationRow.version) (files : List MigrationFile) : List PendingMigration :=
  ((files.filterMap env.pending?).filter fun migration =>
    applied.find? migration.version = none).takeWhile fun migration =>
      Within target migration.version

/-- With files that can be read and checksums on record, the loop collects every file it does
not skip. -/
theorem collectPending_eq
    (hfiles : ∀ file ∈ files, ∀ version, file.version? = some version →
      ∃ content, file.readText? = some content ∧
        ∀ row ∈ applied, row.version = version → row.checksum = env.checksum content) :
    collectPending env target applied files = .ok (collected env target applied files) := by
  induction files with
  | nil => rfl
  | cons file rest ih =>
      have hrest := ih fun other hother => hfiles other (List.mem_cons_of_mem file hother)
      unfold collectPending
      cases hversion : file.version? with
      | none =>
          have hpending : env.pending? file = none := by simp [MigrationEnv.pending?, hversion]
          simp only [hrest, collected, List.filterMap_cons_none hpending]
      | some version =>
          obtain ⟨content, hcontent, hchecksum⟩ :=
            hfiles file List.mem_cons_self version hversion
          have hpending : env.pending? file =
              some ⟨version, file, content, env.checksum content⟩ := by
            simp [MigrationEnv.pending?, hversion, hcontent]
          simp only [hcontent, collected, List.filterMap_cons_some hpending]
          cases hfind : applied.find? version with
          | some row =>
              have hsame := hchecksum row (Table.mem_of_find? hfind) (Table.key_of_find? hfind)
              simp [hsame, hrest, collected, hfind]
          | none =>
              by_cases hwithin : Within target version
              · simp [hwithin, hrest, collected, hfind, bind, Except.bind]
              · simp [hwithin, hfind]

theorem pending?_version {file : MigrationFile} {migration : PendingMigration}
    (h : env.pending? file = some migration) : file.version? = some migration.version := by
  simp only [MigrationEnv.pending?, Option.bind_eq_bind, Option.bind_eq_some_iff,
    Option.some.injEq] at h
  obtain ⟨version, hversion, content, _, rfl⟩ := h
  exact hversion

theorem map_version_pending (hreadable : ∀ file ∈ files, ∀ version, file.version? = some version →
      (file.readText?).isSome = true) :
    (files.filterMap env.pending?).map PendingMigration.version =
      files.filterMap MigrationFile.version? := by
  rw [List.map_filterMap]
  apply List.filterMap_congr
  intro file hfile
  cases hversion : file.version? with
  | none => simp [MigrationEnv.pending?, hversion]
  | some version =>
      obtain ⟨content, hcontent⟩ :=
        Option.isSome_iff_exists.mp (hreadable file hfile version hversion)
      simp [MigrationEnv.pending?, hversion, hcontent]

/-- The versions collected are the unapplied ones up to the first one above the target. -/
theorem NumberedDirectory.collected_versions (h : NumberedDirectory env applied files) :
    (collected env target applied (migrationFiles files)).map PendingMigration.version =
      (unappliedVersions applied files).takeWhile fun version => Within target version := by
  have hreadable : ∀ file ∈ migrationFiles files, ∀ version, file.version? = some version →
      (file.readText?).isSome = true := by
    intro file hfile version hversion
    obtain ⟨content, hcontent, _⟩ := h.readable file hfile version hversion
    simp [hcontent]
  rw [unappliedVersions, ← map_version_pending hreadable, List.filter_map, List.takeWhile_map]
  rfl

theorem NumberedDirectory.collectPending (h : NumberedDirectory env applied files) :
    collectPending env target applied (migrationFiles files) =
      .ok (collected env target applied (migrationFiles files)) :=
  collectPending_eq h.readable

theorem NumberedDirectory.nodup (h : NumberedDirectory env applied files) :
    (unappliedVersions applied files).Nodup :=
  h.distinct.filter _

/-- What is collected is due. -/
theorem NumberedDirectory.due_of_collected (h : NumberedDirectory env applied files) {version : Int}
    (hversion : version ∈ (collected env target applied (migrationFiles files)).map
      PendingMigration.version) : Due target applied files version := by
  rw [h.collected_versions] at hversion
  exact due_iff.mpr ⟨(List.takeWhile_prefix _).subset hversion,
    by simpa using List.mem_takeWhile_imp hversion⟩

/-- Where the names sort like the versions, what is due is collected, in order. -/
theorem NumberedDirectory.collected_of_ascending (h : NumberedDirectory env applied files)
    (hascending : (unappliedVersions applied files).Pairwise fun u v => Within target v → u < v) :
    (∀ version, version ∈ (collected env target applied (migrationFiles files)).map
        PendingMigration.version ↔ Due target applied files version) ∧
      ((collected env target applied (migrationFiles files)).map
        PendingMigration.version).Pairwise (· < ·) := by
  have hascending' : (unappliedVersions applied files).Pairwise fun u v =>
      decide (Within target v) = true → u < v := by simpa using hascending
  rw [h.collected_versions, List.takeWhile_eq_filter_of_ascending _ hascending']
  · refine ⟨?_, List.pairwise_filter_of_ascending hascending'⟩
    intro version
    rw [due_iff]
    simp
  · intro u v hlt hv
    simp only [decide_eq_true_eq] at hv ⊢
    exact hv.of_lt hlt

/-- Files are visited by name; their versions ascend if the names were numbered so. -/
theorem NumberedDirectory.ascending_of_collected (h : NumberedDirectory env applied files)
    (hall : ∀ version, Due target applied files version →
      version ∈ (collected env target applied (migrationFiles files)).map PendingMigration.version)
    (hascending : ((collected env target applied (migrationFiles files)).map
      PendingMigration.version).Pairwise (· < ·)) :
    (unappliedVersions applied files).Pairwise fun u v => Within target v → u < v := by
  rw [h.collected_versions] at hall hascending
  have := List.ascending_of_takeWhile h.nodup
    (fun version hversion hwithin => hall version (due_iff.mpr ⟨hversion, by simpa using hwithin⟩))
    hascending
  simpa using this

end Collect

/-! ## What the loop applies -/

section Apply

variable {env} {migration : PendingMigration} {migrations : List PendingMigration}
  {conn after : Connection Content} {latest version : Int}

theorem bindInteger_ok_iff : bindInteger (some version) = .ok () ↔ Storable version := by
  simp [bindInteger, Storable]

structure Recorded (migration : PendingMigration) (conn after : Connection Content) : Prop where
  storable : Storable migration.version
  fresh : conn.db.schemaMigrations.find? migration.version = none
  rows : ∃ appliedAt, after.db.schemaMigrations.rows = conn.db.schemaMigrations.rows ++
    [⟨migration.version, appliedAt, migration.checksum⟩]

/-- A migration that goes through has run its script and left its record. -/
theorem recorded_of_applyMigration (hscripts : ScriptsSucceed env (migration :: migrations) conn)
    (happly : applyMigration env migration conn = (.ok (), after)) :
    Recorded migration conn after ∧ env.foreignKeyCheck after.db = [] := by
  obtain ⟨⟨content, hscript, hchecks⟩, _⟩ := hscripts
  simp only [applyMigration, hscript, recordMigration, hchecks, ne_eq, not_true_eq_false,
    if_false] at happly
  cases hbind : bindInteger (some migration.version) with
  | error exc => simp [hbind] at happly
  | ok _ =>
      cases hinsert : conn.db.schemaMigrations.insert?
          ⟨migration.version, env.now conn.db, migration.checksum⟩ with
      | none => simp [hbind, hinsert] at happly
      | some table =>
          obtain ⟨hfresh, hrows⟩ := Table.insert?_eq_some_iff.mp hinsert
          simp only [hbind, hinsert, Connection.commit, Prod.mk.injEq, true_and] at happly
          subst happly
          exact ⟨⟨bindInteger_ok_iff.mp hbind, hfresh, env.now conn.db, hrows⟩, hchecks table⟩

theorem applyMigration_ok (hscripts : ScriptsSucceed env (migration :: migrations) conn)
    (hstorable : Storable migration.version)
    (hfresh : conn.db.schemaMigrations.find? migration.version = none) :
    ∃ after, applyMigration env migration conn = (.ok (), after) := by
  obtain ⟨⟨content, hscript, hchecks⟩, _⟩ := hscripts
  have hbind := bindInteger_ok_iff.mpr hstorable
  cases hinsert : conn.db.schemaMigrations.insert?
      ⟨migration.version, env.now conn.db, migration.checksum⟩ with
  | none => exact absurd hfresh (Table.find?_ne_none_of_insert? hinsert)
  | some table =>
      exact ⟨⟨⟨table, content⟩, none⟩, by
        simp [applyMigration, hscript, recordMigration, hchecks, hbind, hinsert,
          Connection.commit]⟩

/-- What a loop that ends has done. -/
structure RecordedAll (env : MigrationEnv Content) (migrations : List PendingMigration)
    (conn after : Connection Content) : Prop where
  storable : ∀ migration ∈ migrations, Storable migration.version
  applied : after = migrations.foldl (fun conn migration => (applyMigration env migration conn).2)
    conn
  rows : ∃ rows, after.db.schemaMigrations.rows = conn.db.schemaMigrations.rows ++ rows ∧
    rows.map (fun row => (row.version, row.checksum)) =
      migrations.map fun migration => (migration.version, migration.checksum)

/-- By induction over the migrations; the version returned is that of the last one. What a
script leaves behind is checked before the next one is begun. -/
theorem recordedAll_of_applyPending (hscripts : ScriptsSucceed env migrations conn)
    (happly : applyPending env migrations latest conn = (.ok version, after)) :
    RecordedAll env migrations conn after ∧
      version = (migrations.map PendingMigration.version).getLastD latest ∧
      (migrations ≠ [] → env.foreignKeyCheck after.db = []) := by
  induction migrations generalizing conn latest with
  | nil =>
      cases happly
      exact ⟨⟨by simp, rfl, [], by simp⟩, rfl, absurd rfl⟩
  | cons migration rest ih =>
      rcases hstep : applyMigration env migration conn with ⟨result, next⟩
      cases result with
      | error exc => simp [applyPending, hstep] at happly
      | ok _ =>
          obtain ⟨⟨hstorable, _, appliedAt, hrow⟩, hchecks⟩ :=
            recorded_of_applyMigration hscripts hstep
          simp only [applyPending, hstep] at happly
          obtain ⟨⟨hrest, happlied, rows, hrows, hmap⟩, hversion, hchecks'⟩ :=
            ih (hscripts.2 next hstep) happly
          refine ⟨⟨List.forall_mem_cons.mpr ⟨hstorable, hrest⟩, ?_, ?_⟩, ?_, ?_⟩
          · rw [List.foldl_cons, hstep]
            exact happlied
          · exact ⟨⟨migration.version, appliedAt, migration.checksum⟩ :: rows, by
              rw [hrows, hrow, List.append_assoc, List.singleton_append], by simp [hmap]⟩
          · rw [hversion, List.map_cons, List.getLastD_cons]
          · intro _
            cases rest with
            | nil =>
                cases happly
                exact hchecks
            | cons other others => exact hchecks' (List.cons_ne_nil other others)

/-- Nothing stops the loop where scripts succeed, versions can be stored and none is on
record. -/
theorem applyPending_ok (hscripts : ScriptsSucceed env migrations conn)
    (hstorable : ∀ migration ∈ migrations, Storable migration.version)
    (hfresh : ∀ migration ∈ migrations,
      conn.db.schemaMigrations.find? migration.version = none)
    (hnodup : (migrations.map PendingMigration.version).Nodup) (latest : Int) :
    ∃ version after, applyPending env migrations latest conn = (.ok version, after) := by
  induction migrations generalizing conn latest with
  | nil => exact ⟨latest, conn, rfl⟩
  | cons migration rest ih =>
      obtain ⟨hother, hnodup⟩ := List.nodup_cons.mp hnodup
      obtain ⟨next, hstep⟩ := applyMigration_ok hscripts (hstorable migration List.mem_cons_self)
        (hfresh migration List.mem_cons_self)
      obtain ⟨⟨_, _, appliedAt, hrow⟩, _⟩ := recorded_of_applyMigration hscripts hstep
      -- The version just recorded is none of the later ones.
      have hfresh' : ∀ later ∈ rest, next.db.schemaMigrations.find? later.version = none := by
        intro later hlater
        have hne : migration.version ≠ later.version := by
          intro heq
          exact hother (heq ▸ List.mem_map_of_mem hlater)
        have hnone := Table.find?_eq_none_iff.mp (hfresh later (List.mem_cons_of_mem _ hlater))
        rw [Table.find?_eq_none_iff]
        intro row hmem
        rw [Table.mem_def, hrow, List.mem_append, List.mem_singleton] at hmem
        rcases hmem with hmem | rfl
        · exact hnone row hmem
        · exact hne
      obtain ⟨version, after, hrest⟩ := ih (hscripts.2 next hstep)
        (fun later hlater => hstorable later (List.mem_cons_of_mem _ hlater)) hfresh' hnodup
        migration.version
      exact ⟨version, after, by simp only [applyPending, hstep, hrest]⟩

end Apply

/-! ## The reported version -/

section Latest

variable {applied : Table MigrationRow.version} {version : Int}

theorem latestVersion_eq (hmem : ∃ row ∈ applied, row.version = version)
    (hgreatest : ∀ row ∈ applied, row.version ≤ version) : latestVersion applied = version := by
  have hmax : (applied.rows.map MigrationRow.version).max? = some version := by
    rw [List.max?_eq_some_iff]
    exact ⟨List.mem_map.mpr hmem, List.forall_mem_map.mpr hgreatest⟩
  rw [latestVersion, hmax, Option.getD_some]

theorem le_latestVersion {row : MigrationRow} (hrow : row ∈ applied) :
    row.version ≤ latestVersion applied := by
  have hmem : row.version ∈ applied.rows.map MigrationRow.version := List.mem_map_of_mem hrow
  cases hmax : (applied.rows.map MigrationRow.version).max? with
  | none =>
      rw [List.max?_eq_none_iff.mp hmax] at hmem
      exact absurd hmem List.not_mem_nil
  | some greatest =>
      rw [latestVersion, hmax, Option.getD_some]
      exact (List.max?_eq_some_iff.mp hmax).2 row.version hmem

end Latest

theorem getLastD_mem {versions : List Int} (hne : versions ≠ []) (latest : Int) :
    versions.getLastD latest ∈ versions := by
  rw [List.getLastD_eq_getLast?, List.getLast?_eq_some_getLast hne, Option.getD_some]
  exact List.getLast_mem hne

/-- In an ascending list the last element is the greatest. -/
theorem le_getLastD {versions : List Int} {version : Int}
    (hascending : versions.Pairwise (· < ·)) (hmem : version ∈ versions) (latest : Int) :
    version ≤ versions.getLastD latest := by
  induction versions generalizing latest with
  | nil => exact absurd hmem List.not_mem_nil
  | cons first rest ih =>
      obtain ⟨hfirst, hrest⟩ := List.pairwise_cons.mp hascending
      rw [List.getLastD_cons]
      rcases List.mem_cons.mp hmem with rfl | hmem
      · cases rest with
        | nil => exact le_rfl
        | cons next others =>
            exact (hfirst _ (getLastD_mem (List.cons_ne_nil next others) version)).le
      · exact ih hrest hmem first

/-- Rows appended in ascending order, one of them newer than all before, end in
the greatest version. -/
theorem latestVersion_append {applied recorded : Table MigrationRow.version}
    {rows : List MigrationRow} (hrows : recorded.rows = applied.rows ++ rows)
    (hascending : (rows.map MigrationRow.version).Pairwise (· < ·))
    (hnewest : ∃ newest ∈ rows, ∀ row ∈ applied, row.version < newest.version) (latest : Int) :
    latestVersion recorded = (rows.map MigrationRow.version).getLastD latest := by
  obtain ⟨newest, hnewest, hgreater⟩ := hnewest
  have hbound : ∀ row ∈ rows, row.version ≤ (rows.map MigrationRow.version).getLastD latest :=
    fun row hrow => le_getLastD hascending (List.mem_map_of_mem hrow) latest
  apply latestVersion_eq
  · have hne := List.ne_nil_of_mem (List.mem_map_of_mem (f := MigrationRow.version) hnewest)
    obtain ⟨row, hrow, hkey⟩ := List.mem_map.mp (getLastD_mem hne latest)
    exact ⟨row, by rw [Table.mem_def, hrows]; exact List.mem_append_right _ hrow, hkey⟩
  · intro row hrow
    rw [Table.mem_def, hrows, List.mem_append] at hrow
    rcases hrow with hold | hnew
    · exact (hgreater row hold).le.trans (hbound newest hnewest)
    · exact hbound row hnew

/-! ## The call -/

section Call

variable {env} {target : Option Int} {files : List MigrationFile} {backup : Bool}
  {conn after : Connection Content} {version : Int}

/-- A call that returns found nothing to do, or made its backup and ran the loop. Nothing to do
means that no backup is made either. -/
theorem migrate_ok_iff
    (h : NumberedDirectory env conn.db.schemaMigrations files)
    (hscripts : ScriptsSucceed env
      (collected env target conn.db.schemaMigrations (migrationFiles files)) conn) :
    migrate env target (some files) backup conn = (.ok version, after) ↔
      (collected env target conn.db.schemaMigrations (migrationFiles files) = [] ∧
        latestVersion conn.db.schemaMigrations = version ∧ conn = after) ∨
      (collected env target conn.db.schemaMigrations (migrationFiles files) ≠ [] ∧
        (backup = true → env.backupDatabase conn.db = .ok ()) ∧
        applyPending env (collected env target conn.db.schemaMigrations (migrationFiles files))
          (latestVersion conn.db.schemaMigrations) conn = (.ok version, after)) := by
  simp only [migrate, h.collectPending]
  generalize collected env target conn.db.schemaMigrations (migrationFiles files) = pending at *
  cases pending with
  | nil => simp
  | cons first rest =>
      -- The backup comes first, and its failure ends the call before any script.
      cases hbackup : (if backup then env.backupDatabase conn.db else .ok () : Except Exc Unit) with
      | error exc =>
          have hnot : ¬ (backup = true → env.backupDatabase conn.db = .ok ()) := by
            intro hok
            cases backup <;> simp_all
          simp [hnot]
      | ok _ =>
          have hok : backup = true → env.backupDatabase conn.db = .ok () := by
            intro hback
            simpa [hback] using hbackup
          rcases happly : applyPending env (first :: rest)
            (latestVersion conn.db.schemaMigrations) conn with ⟨result, next⟩
          cases result with
          | error exc => simp [happly]
          | ok latest =>
              have hchecks := (recordedAll_of_applyPending hscripts happly).2.2
                (List.cons_ne_nil first rest)
              simp only [happly, hchecks, ne_eq, not_true_eq_false, if_false, reduceCtorEq,
                false_and, false_or, not_false_eq_true, true_and]
              exact ⟨fun hresult => ⟨hok, hresult⟩, And.right⟩

theorem mem_collected {migration : PendingMigration} {applied : Table MigrationRow.version}
    (hmem : migration ∈ collected env target applied (migrationFiles files)) :
    ∃ file ∈ migrationFiles files, env.pending? file = some migration :=
  List.mem_filterMap.mp (List.mem_of_mem_filter ((List.takeWhile_prefix _).subset hmem))

theorem pending?_checksum {file : MigrationFile} {migration : PendingMigration}
    {content : List Char} (h : env.pending? file = some migration)
    (hcontent : file.readText? = some content) : migration.checksum = env.checksum content := by
  simp only [MigrationEnv.pending?, hcontent, Option.bind_eq_bind, Option.bind_some,
    Option.bind_eq_some_iff, Option.some.injEq] at h
  obtain ⟨version, _, rfl⟩ := h
  rfl

/-- A number belongs to one file. -/
theorem NumberedDirectory.file_eq {applied : Table MigrationRow.version}
    (h : NumberedDirectory env applied files) {file other : MigrationFile}
    (hfile : file ∈ migrationFiles files) (hother : other ∈ migrationFiles files)
    (hversion : file.version? = some version) (hversion' : other.version? = some version) :
    file = other := by
  have hpairs : (migrationFiles files).Pairwise fun a b =>
      a.version? = some version → b.version? = some version → a = b :=
    (List.pairwise_filterMap.mp h.distinct).imp fun hne ha hb =>
      absurd rfl (hne version ha version hb)
  have hflip : (migrationFiles files).Pairwise fun a b =>
      b.version? = some version → a.version? = some version → b = a :=
    hpairs.imp fun hab hb ha => (hab ha hb).symm
  exact hpairs.forall_of_forall_of_flip (fun _ _ _ _ => rfl) hflip hfile hother hversion hversion'

/-- The directory still fits the record after the call. A new row carries the number and the
checksum of a file of the directory, which has no other of that number. -/
theorem NumberedDirectory.extend {applied : Table MigrationRow.version}
    {migrations : List PendingMigration} {rows : List MigrationRow}
    (h : NumberedDirectory env applied files)
    {recorded : Table MigrationRow.version} (hrows : recorded.rows = applied.rows ++ rows)
    (hmap : rows.map (fun row => (row.version, row.checksum)) =
      migrations.map fun migration => (migration.version, migration.checksum))
    (hfrom : ∀ migration ∈ migrations, ∃ file ∈ migrationFiles files,
      env.pending? file = some migration) : NumberedDirectory env recorded files := by
  refine ⟨h.distinct, ?_⟩
  intro file hfile version hversion
  obtain ⟨content, hcontent, hchecksum⟩ := h.readable file hfile version hversion
  refine ⟨content, hcontent, ?_⟩
  intro row hrow hkey
  rw [Table.mem_def, hrows, List.mem_append] at hrow
  rcases hrow with hold | hnew
  · exact hchecksum row hold hkey
  · have hpair : (row.version, row.checksum) ∈
        migrations.map fun migration => (migration.version, migration.checksum) := by
      rw [← hmap]
      exact List.mem_map_of_mem hnew
    obtain ⟨migration, hmigration, heq⟩ := List.mem_map.mp hpair
    obtain ⟨hsameVersion, hsameChecksum⟩ := Prod.mk.inj heq
    obtain ⟨other, hother, hpending⟩ := hfrom migration hmigration
    have hnumber : other.version? = some version := by
      rw [pending?_version hpending, hsameVersion, hkey]
    obtain rfl := h.file_eq hfile hother hversion hnumber
    rw [← hsameChecksum, pending?_checksum hpending hcontent]

/-- Behind a call that recorded everything due there is nothing left to collect. -/
theorem NumberedDirectory.collected_eq_nil
    (h : NumberedDirectory env after.db.schemaMigrations files)
    (hkept : ∀ row ∈ conn.db.schemaMigrations, row ∈ after.db.schemaMigrations)
    (hdone : ∀ version, Due target conn.db.schemaMigrations files version →
      ∃ row ∈ after.db.schemaMigrations, row.version = version) :
    collected env target after.db.schemaMigrations (migrationFiles files) = [] := by
  apply List.map_eq_nil_iff.mp
  apply List.eq_nil_iff_forall_not_mem.mpr
  intro version hversion
  obtain ⟨hfile, hunapplied, hwithin⟩ := h.due_of_collected hversion
  obtain ⟨row, hrow, hkey⟩ := hdone version
    ⟨hfile, fun row hrow => hunapplied row (hkept row hrow), hwithin⟩
  exact hunapplied row hrow hkey

end Call

/-! ## Order and result -/

section Order

variable {env} {target : Option Int} {files : List MigrationFile} {backup : Bool}
  {conn after : Connection Content} {migrations : List PendingMigration}

theorem wellNumbered_of_nothing_due
    (hnone : ∀ version, ¬ Due target conn.db.schemaMigrations files version) :
    WellNumbered env target files backup conn where
  ascending := by
    apply List.pairwise_of_forall_mem_list
    intro u _ v hv hwithin
    exact absurd (due_iff.mpr ⟨hv, hwithin⟩) (hnone v)
  newest version hdue := absurd hdue (hnone version)
  storable version hdue := absurd hdue (hnone version)
  backedUp _ version hdue := absurd hdue (hnone version)

/-- The rows a call adds are those of the migrations it applied. -/
theorem versions_eq {rows : List MigrationRow}
    (hmap : rows.map (fun row => (row.version, row.checksum)) =
      migrations.map fun migration => (migration.version, migration.checksum)) :
    rows.map MigrationRow.version = migrations.map PendingMigration.version := by
  simpa [Function.comp_def] using congrArg (List.map Prod.fst) hmap

/-- If the call applies what is due and returns the latest version, the files must have been
numbered in order. -/
theorem AppliesDue.wellNumbered (h : NumberedDirectory env conn.db.schemaMigrations files)
    (hscripts : ScriptsSucceed env
      (collected env target conn.db.schemaMigrations (migrationFiles files)) conn)
    (happlies : AppliesDue env target files backup conn migrations after) :
    WellNumbered env target files backup conn := by
  obtain ⟨added, hadded, hmap⟩ := happlies.recorded
  rcases (migrate_ok_iff h hscripts).mp happlies.result with ⟨_, _, rfl⟩ | ⟨_, hbackup, happly⟩
  · -- no row was added, so nothing was due
    have hnil : added = [] := by simpa using hadded
    have hversions := versions_eq hmap
    apply wellNumbered_of_nothing_due
    intro version hdue
    have hmem := (happlies.due version).mpr hdue
    rw [← hversions, hnil] at hmem
    exact absurd hmem List.not_mem_nil
  · obtain ⟨hall, hlatest, _⟩ := recordedAll_of_applyPending hscripts happly
    obtain ⟨rows, hrows, hcollected⟩ := hall.rows
    have hsame : rows = added := List.append_cancel_left (hrows.symm.trans hadded)
    -- the loop applied the migrations the call is said to apply
    have hversions : (collected env target conn.db.schemaMigrations (migrationFiles files)).map
        PendingMigration.version = migrations.map PendingMigration.version := by
      rw [← versions_eq hcollected, ← versions_eq hmap, hsame]
    have hdue : ∀ version, Due target conn.db.schemaMigrations files version →
        version ∈ (collected env target conn.db.schemaMigrations (migrationFiles files)).map
          PendingMigration.version := by
      intro version hversion
      rw [hversions]
      exact (happlies.due version).mpr hversion
    refine ⟨h.ascending_of_collected hdue (hversions ▸ happlies.ascending), ?_, ?_, ?_⟩
    · intro version hversion
      have hlast : latestVersion after.db.schemaMigrations ∈
          (collected env target conn.db.schemaMigrations (migrationFiles files)).map
            PendingMigration.version := by
        rw [hlatest]
        exact getLastD_mem (List.ne_nil_of_mem (hdue version hversion)) _
      have hlastDue := h.due_of_collected hlast
      refine ⟨_, hlastDue, ?_⟩
      intro row hrow
      have hkept : row ∈ after.db.schemaMigrations := by
        rw [Table.mem_def, hrows]
        exact List.mem_append_left _ hrow
      exact lt_of_le_of_ne (le_latestVersion hkept) (hlastDue.2.1 row hrow)
    · intro version hversion
      obtain ⟨migration, hmigration, rfl⟩ := List.mem_map.mp (hdue version hversion)
      exact hall.storable migration hmigration
    · intro hback _ _
      exact hbackup hback

/-- With files in order, the last migration applied is the latest one on record. -/
theorem WellNumbered.appliesDue (h : NumberedDirectory env conn.db.schemaMigrations files)
    (hscripts : ScriptsSucceed env
      (collected env target conn.db.schemaMigrations (migrationFiles files)) conn)
    (hwell : WellNumbered env target files backup conn) :
    ∃ after, AppliesDue env target files backup conn
      (collected env target conn.db.schemaMigrations (migrationFiles files)) after := by
  obtain ⟨hdue, hascending⟩ := h.collected_of_ascending hwell.ascending
  have hfrom : ∀ migration ∈
      collected env target conn.db.schemaMigrations (migrationFiles files),
      ∃ file ∈ migrationFiles files, env.pending? file = some migration :=
    fun migration hmigration => mem_collected hmigration
  -- Nothing is due: the call answers with the version it found.
  by_cases hnil : collected env target conn.db.schemaMigrations (migrationFiles files) = []
  · have hresult : migrate env target (some files) backup conn =
        (.ok (latestVersion conn.db.schemaMigrations), conn) :=
      (migrate_ok_iff h hscripts).mpr (Or.inl ⟨hnil, rfl, rfl⟩)
    refine ⟨conn, hdue, hascending, ?_, ?_, ?_, hresult, hresult⟩
    · rw [hnil]
      simp
    · rw [hnil]
      rfl
    · exact ⟨[], by simp, by rw [hnil]; rfl⟩
  · obtain ⟨first, hfirst⟩ := List.exists_mem_of_ne_nil _ hnil
    have hfirstDue := (hdue first.version).mp (List.mem_map_of_mem hfirst)
    have hcollectedDue : ∀ migration ∈
        collected env target conn.db.schemaMigrations (migrationFiles files),
        Due target conn.db.schemaMigrations files migration.version :=
      fun migration hmigration => (hdue _).mp (List.mem_map_of_mem hmigration)
    obtain ⟨version, after, happly⟩ := applyPending_ok hscripts
      (fun migration hmigration => hwell.storable _ (hcollectedDue migration hmigration))
      (fun migration hmigration =>
        Table.find?_eq_none_iff.mpr (hcollectedDue migration hmigration).2.1)
      (hascending.imp fun hlt => hlt.ne) (latestVersion conn.db.schemaMigrations)
    obtain ⟨hall, hlast, _⟩ := recordedAll_of_applyPending hscripts happly
    obtain ⟨rows, hrows, hmap⟩ := hall.rows
    have hversions := versions_eq hmap
    -- What was recorded stays recorded, and so a second call finds nothing to do.
    have hkept : ∀ row ∈ conn.db.schemaMigrations, row ∈ after.db.schemaMigrations := by
      intro row hrow
      rw [Table.mem_def, hrows]
      exact List.mem_append_left _ hrow
    have hdone : ∀ v, Due target conn.db.schemaMigrations files v →
        ∃ row ∈ after.db.schemaMigrations, row.version = v := by
      intro v hv
      have hmem := (hdue v).mpr hv
      rw [← hversions] at hmem
      obtain ⟨row, hrow, hkey⟩ := List.mem_map.mp hmem
      exact ⟨row, by rw [Table.mem_def, hrows]; exact List.mem_append_right _ hrow, hkey⟩
    have hnewest : ∃ newest ∈ rows, ∀ row ∈ conn.db.schemaMigrations,
        row.version < newest.version := by
      obtain ⟨newest, hnewest, hgreater⟩ := hwell.newest _ hfirstDue
      have hmem := (hdue newest).mpr hnewest
      rw [← hversions] at hmem
      obtain ⟨row, hrow, rfl⟩ := List.mem_map.mp hmem
      exact ⟨row, hrow, hgreater⟩
    have hlatest : latestVersion after.db.schemaMigrations = version := by
      rw [hlast, ← hversions]
      exact latestVersion_append hrows (hversions ▸ hascending) hnewest _
    have hresult : migrate env target (some files) backup conn = (.ok version, after) :=
      (migrate_ok_iff h hscripts).mpr
        (Or.inr ⟨hnil, fun hback => hwell.backedUp hback _ hfirstDue, happly⟩)
    have hafter : NumberedDirectory env after.db.schemaMigrations files := h.extend hrows hmap hfrom
    have hempty : collected env target after.db.schemaMigrations (migrationFiles files) = [] :=
      hafter.collected_eq_nil hkept hdone
    have hscripts' : ScriptsSucceed env
        (collected env target after.db.schemaMigrations (migrationFiles files)) after := by
      rw [hempty]
      exact trivial
    have hagain : migrate env target (some files) backup after =
        (.ok (latestVersion after.db.schemaMigrations), after) :=
      (migrate_ok_iff hafter hscripts').mpr (Or.inl ⟨hempty, rfl, rfl⟩)
    refine ⟨after, hdue, hascending, ?_, hall.applied, ⟨rows, hrows, hmap⟩, ?_, hagain⟩
    · intro migration hmigration
      obtain ⟨file, hfile, hpending⟩ := hfrom migration hmigration
      exact ⟨file, (mem_migrationFiles.mp hfile).1, hpending⟩
    · rw [hresult, hlatest]

/-- The two calls do what is due, in order and for good, exactly when the
directory is well numbered. -/
theorem migratesInOrder_iff (h : NumberedDirectory env conn.db.schemaMigrations files)
    (hscripts : ∀ pending, collectPending env target conn.db.schemaMigrations
      (migrationFiles files) = .ok pending → ScriptsSucceed env pending conn) :
    MigratesInOrder env target files backup conn ↔ WellNumbered env target files backup conn := by
  have hscripts' := hscripts _ h.collectPending
  constructor
  · rintro ⟨migrations, after, happlies⟩
    exact happlies.wellNumbered h hscripts'
  · intro hwell
    exact ⟨_, hwell.appliesDue h hscripts'⟩

end Order

/-! ## Small directories -/

def firstChecksum : Digest where
  text := "8ea3e4b31d1be6390512378b6ea03c0604a6dc29adafb44e3203af93b0df07f3"
  length_eq := String.length_ofList
  hex := hex_ofList rfl

def secondChecksum : Digest where
  text := "1bc43fb132289ab8251599d616a03034547c024d73cb91193c1027de76cf72f8"
  length_eq := String.length_ofList
  hex := hex_ofList rfl

def thirdChecksum : Digest where
  text := "e632edec81dc33094865e889c390e2631943f5b3c32914cefac486fbe83f13e9"
  length_eq := String.length_ofList
  hex := hex_ofList rfl

def firstFile : MigrationFile := ⟨"001_first.sql", ascii "CREATE TABLE t1 (x INT);"⟩

def secondFile : MigrationFile := ⟨"002_second.sql", ascii "CREATE TABLE t2 (x INT);"⟩

def thirdFile : MigrationFile := ⟨"003_third.sql", ascii "CREATE TABLE t3 (x INT);"⟩

/-- A database in memory, known by the statements that created its tables. -/
def memoryEnv : MigrationEnv (List (List Char)) where
  sha256 bytes :=
    if bytes = firstFile.bytes then firstChecksum
    else if bytes = secondFile.bytes then secondChecksum
    else thirdChecksum
  executescript script conn :=
    (.ok (), ⟨{ conn.db with content := conn.db.content ++ [(script.drop 17).dropLast] },
      some conn.db⟩)
  foreignKeyCheck _ := []
  backupDatabase _ := .ok ()
  now _ := "2026-01-01T00:00:00+00:00"

theorem scriptsSucceed_memory (migrations : List PendingMigration)
    (conn : Connection (List (List Char))) : ScriptsSucceed memoryEnv migrations conn := by
  induction migrations generalizing conn with
  | nil => trivial
  | cons migration rest ih => exact ⟨⟨_, rfl, fun _ => rfl⟩, fun after _ => ih after⟩

def freshConnection : Connection (List (List Char)) := ⟨⟨Table.empty, []⟩, none⟩

theorem memory_directory {applied : Table MigrationRow.version} {files : List MigrationFile}
    (hdistinct : ((migrationFiles files).filterMap MigrationFile.version?).Nodup)
    (hreadable : ∀ file ∈ migrationFiles files, (file.readText?).isSome = true ∧
      ∀ content ∈ file.readText?, ∀ row ∈ applied.rows, file.version? = some row.version →
        row.checksum = memoryEnv.checksum content) :
    NumberedDirectory memoryEnv applied files := by
  refine ⟨hdistinct, ?_⟩
  intro file hfile version hversion
  obtain ⟨hread, hchecksum⟩ := hreadable file hfile
  obtain ⟨content, hcontent⟩ := Option.isSome_iff_exists.mp hread
  refine ⟨content, hcontent, ?_⟩
  intro row hrow hkey
  exact hchecksum content hcontent row hrow (by rw [hversion, hkey])

/-- Up to the first version, as in the test of the target. -/
theorem migratesInOrder_target :
    MigratesInOrder memoryEnv (some 1) [firstFile, secondFile] true freshConnection := by
  have hunapplied : unappliedVersions freshConnection.db.schemaMigrations
      [firstFile, secondFile] = [1, 2] := by decide
  have hdue : ∀ version, Due (some 1) freshConnection.db.schemaMigrations
      [firstFile, secondFile] version ↔ version = 1 := by
    intro version
    rw [due_iff, hunapplied, Within]
    simp only [List.mem_cons, List.not_mem_nil, or_false, Option.mem_some_iff, forall_eq']
    omega
  have hdirectory : NumberedDirectory memoryEnv freshConnection.db.schemaMigrations
      [firstFile, secondFile] := memory_directory (by decide) (by decide)
  apply (migratesInOrder_iff hdirectory fun _ _ => scriptsSucceed_memory _ _).mpr
  refine ⟨?_, ?_, ?_, fun _ _ _ => rfl⟩
  · rw [hunapplied]
    decide
  · intro version _
    exact ⟨1, (hdue 1).mpr rfl, fun row hrow => absurd hrow (Table.not_mem_empty row)⟩
  · intro version hversion
    rw [(hdue version).mp hversion]
    exact ⟨by decide, by decide⟩

/-- The second file arrives behind the third. -/
def gapConnection : Connection (List (List Char)) where
  db := ⟨⟨[⟨1, "2026-01-01T00:00:00+00:00", firstChecksum.text⟩,
    ⟨3, "2026-01-01T00:00:00+00:00", thirdChecksum.text⟩], by decide⟩,
    ["CREATE TABLE t1 (x INT);".toList, "CREATE TABLE t3 (x INT);".toList]⟩
  saved := none

/-- The call that fills the gap reports the version it has just applied. -/
theorem backfilled_not_in_order :
    NumberedDirectory memoryEnv gapConnection.db.schemaMigrations
        [firstFile, secondFile, thirdFile] ∧
      (∀ pending, ScriptsSucceed memoryEnv pending gapConnection) ∧
      ¬ MigratesInOrder memoryEnv none [firstFile, secondFile, thirdFile] true gapConnection := by
  have hdirectory : NumberedDirectory memoryEnv gapConnection.db.schemaMigrations
      [firstFile, secondFile, thirdFile] := memory_directory (by decide) (by decide)
  refine ⟨hdirectory, fun pending => scriptsSucceed_memory pending _, ?_⟩
  rintro ⟨migrations, after, happlies⟩
  have hwell := happlies.wellNumbered hdirectory (scriptsSucceed_memory _ _)
  have hunapplied : unappliedVersions gapConnection.db.schemaMigrations
      [firstFile, secondFile, thirdFile] = [2] := by decide
  have hsecond : Due none gapConnection.db.schemaMigrations [firstFile, secondFile, thirdFile] 2 :=
    due_iff.mpr ⟨by rw [hunapplied]; exact List.mem_singleton_self 2, by simp [Within]⟩
  obtain ⟨newest, hnewest, hgreater⟩ := hwell.newest 2 hsecond
  have htwo : newest = 2 := by
    have hmem := (due_iff.mp hnewest).1
    rw [hunapplied] at hmem
    exact List.mem_singleton.mp hmem
  have hthird := hgreater ⟨3, "2026-01-01T00:00:00+00:00", thirdChecksum.text⟩
    (List.mem_cons_of_mem _ List.mem_cons_self)
  rw [htwo] at hthird
  exact absurd hthird (by decide)

end VerifierCI
