import Mathlib
import VerifierCI.Storage.Artifacts

/-! # Deadlines and the collector

A policy and a retention time protect bytes up to a deadline, the top element
for sealed and for retained artifacts. A row keeps the deadline it was inserted
with, and the collector obeys the row.
-/

namespace VerifierCI

open Python Relational

/-! ## Deadlines -/

def deadline (accessPolicy : AccessPolicy) (retentionUntil : Option Datetime) : WithTop Int :=
  if accessPolicy = .sealed then ⊤
  else
    match retentionUntil with
    | none => ⊤
    | some retentionUntil => retentionUntil.instant

def Artifact.deadline (artifact : Artifact) : WithTop Int :=
  VerifierCI.deadline artifact.accessPolicy artifact.retentionUntil

def ArtifactRow.deadline (row : ArtifactRow) : WithTop Int :=
  VerifierCI.deadline row.accessPolicy row.retentionUntil

/-- Sealed, retained without a limit, or retained until later than `now`. -/
def Artifact.ProtectedAt (artifact : Artifact) (now : Datetime) : Prop :=
  artifact.accessPolicy = .sealed ∨ artifact.retentionUntil = none ∨
    ∃ retentionUntil ∈ artifact.retentionUntil, now.instant < retentionUntil.instant

/-- The three ways in which a row protects its bytes at an instant. -/
theorem lt_deadline_iff {accessPolicy : AccessPolicy} {retentionUntil : Option Datetime}
    {instant : Int} :
    (instant : WithTop Int) < deadline accessPolicy retentionUntil ↔
      accessPolicy = .sealed ∨ retentionUntil = none ∨
        ∃ limit ∈ retentionUntil, instant < limit.instant := by
  unfold deadline
  split
  next hsealed => simp [hsealed]
  next hsealed =>
    cases retentionUntil with
    | none => simp
    | some limit => simp [hsealed]

theorem Artifact.protectedAt_iff {artifact : Artifact} {now : Datetime} :
    artifact.ProtectedAt now ↔ (now.instant : WithTop Int) < artifact.deadline :=
  lt_deadline_iff.symm

@[simp] theorem ArtifactRow.setAvailable_deadline (available : Bool) (row : ArtifactRow) :
    (row.setAvailable available).deadline = row.deadline := rfl

@[simp] theorem Artifact.toRow_deadline (artifact : Artifact) :
    artifact.toRow.deadline = artifact.deadline := rfl

/-! ## What the calls do to the rows -/

theorem Digest.text_injective : Function.Injective Digest.text := by
  rintro ⟨text, _, _⟩ ⟨_, _, _⟩ rfl
  rfl

theorem ArtifactStore.mem_of_row? {store : ArtifactStore} {digest : Digest} {row : ArtifactRow}
    (hrow : store.row? digest = some row) : row ∈ store.db.artifacts ∧ row.digest = digest := by
  obtain ⟨hmem, hkey⟩ := Table.find?_eq_some_iff.mp hrow
  exact ⟨hmem, Digest.text_injective hkey⟩

theorem Db.find?_setAvailable_self (db : Db) (digest : Digest) (available : Bool) :
    (db.setAvailable digest available).artifacts.find? digest.text =
      (db.artifacts.find? digest.text).map (ArtifactRow.setAvailable available) := by
  simp only [Db.setAvailable, Table.find?_update]
  cases hfind : db.artifacts.find? digest.text with
  | none => rfl
  | some row => simp [Table.key_of_find? hfind]

theorem Db.find?_setAvailable_of_ne {db : Db} {digest other : Digest} (hne : other ≠ digest)
    (available : Bool) :
    (db.setAvailable digest available).artifacts.find? other.text =
      db.artifacts.find? other.text := by
  have htext : other.text ≠ digest.text := fun heq => hne (Digest.text_injective heq)
  rw [Db.setAvailable, Table.find?_update_of_key_ne _ htext]

/-- The rows of `db` are still there, with at most their availability changed. -/
def Db.KeepsRows (db db' : Db) : Prop :=
  ∀ digest : Digest, ∀ row, db.artifacts.find? digest.text = some row →
    ∃ available, db'.artifacts.find? digest.text = some (row.setAvailable available)

namespace Db.KeepsRows

theorem refl (db : Db) : db.KeepsRows db :=
  fun _ row hrow => ⟨row.available, hrow⟩

theorem trans {db db' db'' : Db} (first : db.KeepsRows db') (second : db'.KeepsRows db'') :
    db.KeepsRows db'' := by
  intro digest row hrow
  obtain ⟨available, hrow'⟩ := first digest row hrow
  obtain ⟨available', hrow''⟩ := second digest _ hrow'
  exact ⟨available', hrow''⟩

theorem setAvailable (db : Db) (digest : Digest) (available : Bool) :
    db.KeepsRows (db.setAvailable digest available) := by
  intro other row hrow
  by_cases heq : other = digest
  · subst heq
    exact ⟨available, by rw [find?_setAvailable_self, hrow, Option.map_some]⟩
  · exact ⟨row.available, by rw [find?_setAvailable_of_ne heq]; exact hrow⟩

end Db.KeepsRows

/-- A registration that succeeds leaves an available row, the old one when the
digest had one and the artifact's own otherwise, and no other row changes. -/
theorem registerArtifact_ok {db db' : Db} {artifact : Artifact}
    (hregister : registerArtifact db artifact = .ok db') :
    db'.artifacts.find? artifact.digest.text =
        some (((db.artifacts.find? artifact.digest.text).getD artifact.toRow).setAvailable true) ∧
      ∀ other ≠ artifact.digest,
        db'.artifacts.find? other.text = db.artifacts.find? other.text := by
  simp only [registerArtifact] at hregister
  obtain ⟨_, hregister⟩ := bind_eq_ok_unit.mp hregister
  split at hregister
  · cases hregister
  cases hinsert : db.artifacts.insert? artifact.toRow with
  | some artifacts =>
      simp only [hinsert] at hregister
      obtain rfl := Except.ok.inj hregister
      have hnone : db.artifacts.find? artifact.digest.text = none :=
        (Table.insert?_eq_some_iff.mp hinsert).1
      have hself : artifacts.find? artifact.digest.text = some artifact.toRow :=
        Table.find?_insert?_self hinsert
      constructor
      · rw [hself, hnone]
        rfl
      · intro other hne
        have htext : other.text ≠ artifact.toRow.key := fun heq => hne (Digest.text_injective heq)
        exact Table.find?_insert?_of_ne hinsert htext
  | none =>
      simp only [hinsert] at hregister
      obtain rfl := Except.ok.inj hregister
      have hsome : db.artifacts.find? artifact.digest.text ≠ none :=
        Table.find?_ne_none_of_insert? hinsert
      constructor
      · rw [Db.find?_setAvailable_self]
        cases hfind : db.artifacts.find? artifact.digest.text with
        | none => exact absurd hfind hsome
        | some row => rfl
      · intro other hne
        exact Db.find?_setAvailable_of_ne hne true

/-- On a digest that has a row, registration writes the availability only. -/
theorem registerArtifact_keepsRows {db db' : Db} {artifact : Artifact}
    (hregister : registerArtifact db artifact = .ok db') : db.KeepsRows db' := by
  obtain ⟨hself, hother⟩ := registerArtifact_ok hregister
  intro digest row hrow
  by_cases heq : digest = artifact.digest
  · subst heq
    exact ⟨true, by rw [hself, hrow, Option.getD_some]⟩
  · exact ⟨row.available, by rw [hother digest heq]; exact hrow⟩

/-! ## What the collector does -/

namespace ArtifactStore

def available (store : ArtifactStore) (digest : Digest) : Bool :=
  (store.row? digest).any ArtifactRow.available

/-- Between the two stores the bytes of the digest are deleted, or it becomes unavailable. -/
def Loses (store store' : ArtifactStore) (digest : Digest) : Prop :=
  ((store.files digest).isSome ∧ store'.files digest = none) ∨
    (store.available digest = true ∧ store'.available digest = false)

/-- Every stored retention time has a representation in UTC. -/
def Readable (store : ArtifactStore) : Prop :=
  ∀ row ∈ store.db.artifacts, ∀ limit ∈ row.retentionUntil, (retentionUtc? limit).isSome

end ArtifactStore

theorem retentionUtc?_micros {limit utc : Datetime} (h : retentionUtc? limit = some utc) :
    utc.micros = limit.instant := by
  unfold retentionUtc? at h
  split at h
  next hnaive =>
    obtain rfl := Option.some.inj h
    simp [Datetime.assumeUtc, Datetime.instant, hnaive]
  · exact Datetime.astimezoneUtc?_micros h

/-- A retention time the collector can read is also a time it can run at. -/
theorem assumeUtc_isSome {limit : Datetime} (h : (retentionUtc? limit).isSome) :
    limit.assumeUtc.astimezoneUtc?.isSome := by
  cases hoffset : limit.utcoffset with
  | none =>
      have hmem := limit.micros_mem
      simp [Datetime.assumeUtc, Datetime.astimezoneUtc?, hoffset, hmem]
  | some offset => simpa [Datetime.assumeUtc, retentionUtc?, hoffset] using h

/-- Registering a digest that has a row changes no retention time. -/
theorem registerArtifact_readable {store store' : ArtifactStore} {artifact : Artifact}
    (hregister : registerArtifact store.db artifact = .ok store'.db) {row : ArtifactRow}
    (hrow : store.row? artifact.digest = some row) (hreadable : store.Readable) :
    store'.Readable := by
  obtain ⟨hself, hother⟩ := registerArtifact_ok hregister
  intro row' hrow' limit hlimit
  have hfind : store'.db.artifacts.find? row'.digest.text = some row' := Table.find?_of_mem hrow'
  by_cases heq : row'.digest = artifact.digest
  · rw [heq, hself, show store.db.artifacts.find? artifact.digest.text = some row from hrow,
      Option.getD_some] at hfind
    obtain rfl := Option.some.inj hfind
    exact hreadable row (ArtifactStore.mem_of_row? hrow).1 limit hlimit
  · rw [hother _ heq] at hfind
    exact hreadable row' (Table.mem_of_find? hfind) limit hlimit

section Purge

variable (store : ArtifactStore) (digest : Digest)

theorem purge_row?_self :
    (purge store digest).row? digest =
      (store.row? digest).map (ArtifactRow.setAvailable false) :=
  Db.find?_setAvailable_self store.db digest false

theorem purge_available_self : (purge store digest).available digest = false := by
  rw [ArtifactStore.available, purge_row?_self]
  cases store.row? digest <;> rfl

variable {digest} {other : Digest}

theorem purge_row?_of_ne (hne : other ≠ digest) :
    (purge store digest).row? other = store.row? other :=
  Db.find?_setAvailable_of_ne hne false

theorem purge_files_of_ne (hne : other ≠ digest) :
    (purge store digest).files other = store.files other := by
  simp [purge, ArtifactStore.unlink, hne]

/-- A purge makes nothing available again. -/
theorem purge_unavailable (hunavailable : store.available other = false) :
    (purge store digest).available other = false := by
  by_cases heq : other = digest
  · subst heq
    exact purge_available_self store other
  · rwa [ArtifactStore.available, purge_row?_of_ne store heq]

end Purge

/-- The loop leaves a digest alone when it meets no expired row of it. By induction on the rows:
a row of another digest is purged without a change to this one. -/
theorem collectRows_frame {nowUtc : Datetime} {dryRun : Bool} {digest : Digest}
    {rows : List ArtifactRow}
    (hrows : ∀ row ∈ rows, row.digest = digest →
      ∀ limit ∈ row.retentionUntil, nowUtc.micros < limit.instant)
    (store : ArtifactStore) (purged : List Digest) :
    (collectRows nowUtc dryRun store purged rows).2.files digest = store.files digest ∧
      (collectRows nowUtc dryRun store purged rows).2.row? digest = store.row? digest := by
  induction rows generalizing store purged with
  | nil => exact ⟨rfl, rfl⟩
  | cons row rest ih =>
      have hrest := ih fun other hother => hrows other (List.mem_cons_of_mem row hother)
      simp only [collectRows]
      split
      · exact hrest store purged
      next limit hlimit =>
        split
        · exact ⟨rfl, rfl⟩
        next retUtc hutc =>
          split
          next hexpired =>
            rw [retentionUtc?_micros hutc] at hexpired
            have hne : digest ≠ row.digest := by
              rintro rfl
              have hlater := hrows row List.mem_cons_self rfl limit hlimit
              omega
            cases dryRun with
            | true => exact hrest store _
            | false =>
                obtain ⟨hfiles, hrow⟩ := hrest (purge store row.digest) (purged ++ [row.digest])
                exact ⟨hfiles.trans (purge_files_of_ne store hne),
                  hrow.trans (purge_row?_of_ne store hne)⟩
          · exact hrest store purged

/-- A collection marks rows as unavailable and deletes none. -/
theorem collectRows_keepsRows (nowUtc : Datetime) (dryRun : Bool) (store : ArtifactStore)
    (purged : List Digest) (rows : List ArtifactRow) :
    store.db.KeepsRows (collectRows nowUtc dryRun store purged rows).2.db := by
  induction rows generalizing store purged with
  | nil => exact .refl _
  | cons row rest ih =>
      simp only [collectRows]
      split
      · exact ih store purged
      · split
        · exact .refl _
        · split
          · cases dryRun with
            | true => exact ih store _
            | false =>
                apply Db.KeepsRows.trans _ (ih _ _)
                exact Db.KeepsRows.setAvailable store.db row.digest false
          · exact ih store purged

/-- The loop makes nothing available again. -/
theorem collectRows_unavailable {nowUtc : Datetime} {dryRun : Bool} {digest : Digest}
    {store : ArtifactStore} (hunavailable : store.available digest = false)
    (purged : List Digest) (rows : List ArtifactRow) :
    (collectRows nowUtc dryRun store purged rows).2.available digest = false := by
  induction rows generalizing store purged with
  | nil => exact hunavailable
  | cons row rest ih =>
      simp only [collectRows]
      split
      · exact ih hunavailable purged
      · split
        · exact hunavailable
        · split
          · cases dryRun with
            | true => exact ih hunavailable _
            | false => exact ih (purge_unavailable store hunavailable) _
          · exact ih hunavailable purged

/-- When no row raises, the loop reaches every expired one. By induction on the rows: what is
purged before it is not brought back, and it is purged when the loop gets to it. -/
theorem collectRows_reaches {nowUtc : Datetime} {rows : List ArtifactRow}
    (hreadable : ∀ row ∈ rows, ∀ limit ∈ row.retentionUntil, (retentionUtc? limit).isSome)
    {row : ArtifactRow} (hrow : row ∈ rows) {limit : Datetime}
    (hlimit : row.retentionUntil = some limit) (hexpired : limit.instant ≤ nowUtc.micros)
    (store : ArtifactStore) (purged : List Digest) :
    (collectRows nowUtc false store purged rows).2.available row.digest = false := by
  induction rows generalizing store purged with
  | nil => cases hrow
  | cons head rest ih =>
      have hrest := ih fun other hother => hreadable other (List.mem_cons_of_mem head hother)
      rcases List.mem_cons.mp hrow with rfl | hrow
      · obtain ⟨retUtc, hutc⟩ := Option.isSome_iff_exists.mp
          (hreadable row List.mem_cons_self limit hlimit)
        rw [← retentionUtc?_micros hutc] at hexpired
        simp only [collectRows, hlimit, hutc, if_pos hexpired]
        exact collectRows_unavailable (purge_available_self store row.digest) _ rest
      · simp only [collectRows]
        split
        · exact hrest hrow store purged
        next other hother =>
          split
          next hnone =>
            have hsome := hreadable head List.mem_cons_self other hother
            rw [hnone] at hsome
            cases hsome
          · split
            · exact hrest hrow _ _
            · exact hrest hrow store purged

theorem mem_collectableRows {db : Db} {row : ArtifactRow} :
    row ∈ collectableRows db ↔ row ∈ db.artifacts ∧ row.retentionUntil.isSome = true ∧
      row.accessPolicy ≠ .sealed ∧ row.available = true := by
  simp only [collectableRows, List.mem_insertionSort, Table.mem_select, Bool.and_eq_true,
    decide_eq_true_eq, and_assoc]

theorem ArtifactRow.deadline_of_not_sealed {row : ArtifactRow} {limit : Datetime}
    (hpolicy : row.accessPolicy ≠ .sealed) (hlimit : row.retentionUntil = some limit) :
    row.deadline = limit.instant := by
  simp [ArtifactRow.deadline, VerifierCI.deadline, hpolicy, hlimit]

theorem ArtifactRow.limit_of_deadline_ne_top {row : ArtifactRow} (hne : row.deadline ≠ ⊤) :
    ∃ limit, row.retentionUntil = some limit ∧ row.accessPolicy ≠ .sealed := by
  unfold ArtifactRow.deadline VerifierCI.deadline at hne
  split at hne
  · exact absurd rfl hne
  next hpolicy =>
    cases hlimit : row.retentionUntil with
    | none => exact absurd (by rw [hlimit]) hne
    | some limit => exact ⟨limit, rfl, hpolicy⟩

/-- The collector loses no digest whose row protects it. Keys are unique, so it is the only row
of that digest the collector can meet. -/
theorem garbageCollect_spares {store : ArtifactStore} {now : Datetime} {dryRun : Bool}
    {digest : Digest} {row : ArtifactRow} (hrow : store.row? digest = some row)
    (hlater : (now.instant : WithTop Int) < row.deadline) :
    ¬ store.Loses (garbageCollect store now dryRun).2 digest := by
  have hframe : (garbageCollect store now dryRun).2.files digest = store.files digest ∧
      (garbageCollect store now dryRun).2.row? digest = store.row? digest := by
    unfold garbageCollect
    split
    · exact ⟨rfl, rfl⟩
    next nowUtc hnow =>
      apply collectRows_frame
      intro other hother hdigest limit hlimit
      obtain ⟨hmem, _, hpolicy, _⟩ := mem_collectableRows.mp hother
      have hfind : store.row? other.digest = some other := Table.find?_of_mem hmem
      rw [hdigest, hrow] at hfind
      obtain rfl := Option.some.inj hfind
      rw [ArtifactRow.deadline_of_not_sealed hpolicy hlimit, WithTop.coe_lt_coe] at hlater
      rw [Datetime.astimezoneUtc?_micros hnow, Datetime.assumeUtc_instant]
      exact hlater
  obtain ⟨hfiles, hrow'⟩ := hframe
  rintro (⟨hsome, hnone⟩ | ⟨htrue, hfalse⟩)
  · rw [hfiles] at hnone
    rw [hnone] at hsome
    cases hsome
  · rw [ArtifactStore.available, hrow'] at hfalse
    exact absurd (htrue.symm.trans hfalse) Bool.noConfusion

/-- A collection at the deadline of a readable row makes it unavailable. -/
theorem garbageCollect_reaches {store : ArtifactStore} (hreadable : store.Readable)
    {row : ArtifactRow} (hrow : row ∈ store.db.artifacts) (havailable : row.available = true)
    (hpolicy : row.accessPolicy ≠ .sealed) {limit : Datetime}
    (hlimit : row.retentionUntil = some limit) (hutc : limit.assumeUtc.astimezoneUtc?.isSome) :
    (garbageCollect store limit false).2.available row.digest = false := by
  obtain ⟨nowUtc, hnow⟩ := Option.isSome_iff_exists.mp hutc
  have hcollectable : row ∈ collectableRows store.db :=
    mem_collectableRows.mpr ⟨hrow, by rw [hlimit]; rfl, hpolicy, havailable⟩
  have hexpired : limit.instant ≤ nowUtc.micros := by
    rw [Datetime.astimezoneUtc?_micros hnow, Datetime.assumeUtc_instant]
  simp only [garbageCollect, hnow]
  refine collectRows_reaches ?_ hcollectable hlimit hexpired store []
  intro other hother
  exact hreadable other (mem_collectableRows.mp hother).1

end VerifierCI
