import VerifierCI.Execution.Fencing
import VerifierCI.Storage.Retention

/-! # Referential evidence

Three digest columns of an attempt are foreign keys; the list of its artifacts
is text to the database. Quarantined evidence is filtered before it is stored,
committed evidence is not.
-/

namespace VerifierCI

open Python Relational

def storedStrings : Json → List String
  | .arr items => items.filterMap fun
      | .str text => some text
      | _ => none
  | _ => []

theorem storedStrings_ofStrings (values : List String) :
    storedStrings (Json.ofStrings values) = values := by
  induction values with
  | nil => rfl
  | cons value rest ih => exact congrArg (value :: ·) ih

/-- Every digest a row refers to, the listed ones included, is registered. -/
structure Db.RefersTo (db : Db) (row : AttemptRow) : Prop where
  columns : db.References row
  listed : ∀ digest ∈ storedStrings row.artifactDigests, db.HasArtifact (some digest)

def Db.Referential (db : Db) : Prop :=
  ∀ row ∈ db.evaluationAttempts, db.RefersTo row

/-! ## Rows without new evidence -/

/-- The row brings no digest that the other one does not have. -/
structure AttemptRow.SameEvidence (row row' : AttemptRow) : Prop where
  stdoutHash : row'.stdoutHash = row.stdoutHash
  stderrHash : row'.stderrHash = row.stderrHash
  reportDigest : row'.reportDigest = row.reportDigest
  artifactDigests : row'.artifactDigests = row.artifactDigests

theorem Db.RefersTo.congr {db : Db} {row row' : AttemptRow} (h : db.RefersTo row)
    (hsame : row.SameEvidence row') : db.RefersTo row' where
  columns := by
    rw [Db.References, hsame.stdoutHash, hsame.stderrHash, hsame.reportDigest]
    exact h.columns
  listed := by
    rw [hsame.artifactDigests]
    exact h.listed

/-- What a row refers to depends on the artifacts only. -/
theorem Db.RefersTo.of_artifacts {db db' : Db} {row : AttemptRow} (hrow : db.RefersTo row)
    (h : db'.artifacts = db.artifacts) : db'.RefersTo row := by
  have hkeep : ∀ {digest : Option String}, db.HasArtifact digest → db'.HasArtifact digest := by
    intro digest hdigest
    rw [Db.HasArtifact, h]
    exact hdigest
  exact ⟨⟨hkeep hrow.columns.1, hkeep hrow.columns.2.1, hkeep hrow.columns.2.2⟩,
    fun digest hdigest => hkeep (hrow.listed digest hdigest)⟩

/-- No row has new evidence, and no artifact is gone. -/
structure BringsNothing (db db' : Db) : Prop where
  artifacts : db'.artifacts = db.artifacts
  rows : db.Referential → db'.Referential

namespace BringsNothing

variable {db db' db'' : Db}

theorem refl (db : Db) : BringsNothing db db :=
  ⟨rfl, id⟩

theorem trans (first : BringsNothing db db') (second : BringsNothing db' db'') :
    BringsNothing db db'' :=
  ⟨second.artifacts.trans first.artifacts, second.rows ∘ first.rows⟩

theorem of_attempts_eq (hartifacts : db'.artifacts = db.artifacts)
    (hattempts : db'.evaluationAttempts = db.evaluationAttempts) : BringsNothing db db' := by
  refine ⟨hartifacts, ?_⟩
  intro h row hrow
  rw [hattempts] at hrow
  exact (h row hrow).of_artifacts hartifacts

/-- Rewriting rows without touching their evidence. -/
theorem of_update {p : AttemptRow → Bool} {f : AttemptRow → AttemptRow}
    (hkey : ∀ row, (f row).attemptId = row.attemptId)
    (hf : ∀ row : AttemptRow, row.SameEvidence (f row))
    (hartifacts : db'.artifacts = db.artifacts)
    (hattempts : db'.evaluationAttempts = db.evaluationAttempts.update p f hkey) :
    BringsNothing db db' := by
  refine ⟨hartifacts, ?_⟩
  intro h row hrow
  rw [hattempts, Table.mem_update] at hrow
  obtain ⟨old, hold, rfl⟩ := hrow
  split_ifs
  · exact ((h old hold).congr (hf old)).of_artifacts hartifacts
  · exact (h old hold).of_artifacts hartifacts

/-- A loop of steps that bring nothing brings nothing. -/
theorem foldlM {α : Type} {body : Db → α → Except Exc Db} {items : List α}
    (hbody : ∀ db item db', body db item = .ok db' → BringsNothing db db')
    (h : items.foldlM body db = .ok db') : BringsNothing db db' := by
  induction items generalizing db with
  | nil =>
      obtain rfl := Except.ok.inj h
      exact refl db
  | cons item rest ih =>
      rw [List.foldlM_cons] at h
      obtain ⟨middle, hmiddle, h⟩ := bind_eq_ok.mp h
      exact (hbody db item middle hmiddle).trans (ih h)

end BringsNothing

/-! ## What one call brings -/

section Calls

variable {db db' : Db} {nowMs : Int}

theorem updateRunState_bringsNothing {runId : String}
    (h : updateRunState db runId nowMs = .ok db') : BringsNothing db db' := by
  obtain ⟨runs, rfl, _⟩ := updateRunState_ok h
  exact .of_attempts_eq rfl rfl

/-- A new attempt has no evidence yet. -/
theorem grant_bringsNothing {row job : Job} {workerId : String} {leaseDurationMs : Int}
    {draw : Draw}
    (h : grant db row workerId nowMs leaseDurationMs draw = .ok (job, db')) :
    BringsNothing db db' := by
  obtain ⟨_, started, attempts, hinsert, hrun⟩ := grant_ok h
  refine BringsNothing.trans ?_ (updateRunState_bringsNothing hrun)
  refine ⟨rfl, ?_⟩
  intro hreferential stored hstored
  rcases (Table.mem_insert? hinsert).mp hstored with hold | rfl
  · exact (hreferential stored hold).of_artifacts rfl
  · exact ⟨⟨nofun, nofun, nofun⟩, nofun⟩

/-- The attempt a claim inserts has no evidence yet. -/
theorem claimLoop_bringsNothing {workerId : String} {runId : Option String} {leaseDurationMs : Int}
    {draw : Draw} {fuel : Nat} {result : Option Job}
    (h : claimLoop workerId nowMs runId leaseDurationMs draw fuel db = .ok (result, db')) :
    BringsNothing db db' := by
  induction fuel generalizing db with
  | zero => cases h
  | succ fuel ih =>
      rcases claimLoop_ok h with ⟨_, _, rfl⟩ | ⟨row, swept, _, _, hswept, hrest⟩ |
        ⟨row, job, _, _, _, hgrant⟩
      · exact .refl db'
      · have hfail : BringsNothing db (failPending db row.runId) := .of_attempts_eq rfl rfl
        exact (hfail.trans (updateRunState_bringsNothing hswept)).trans (ih hrest)
      · exact grant_bringsNothing hgrant

theorem reapRow_bringsNothing {maxAttempts : Option Int} {now : Datetime} {row : Job}
    (h : reapRow maxAttempts now db row = .ok db') : BringsNothing db db' := by
  obtain ⟨outcome, _, rfl⟩ := reapRow_ok h
  have hsame : ∀ old : AttemptRow, old.SameEvidence (abandonedRow now old) :=
    fun old => ⟨rfl, rfl, rfl, rfl⟩
  exact .of_update (abandonedRow_attemptId now) hsame rfl rfl

def Operation.completes : Operation → Prop
  | .complete _ _ _ => True
  | _ => False

/-- A call brings no evidence unless it is a completion. -/
theorem call_bringsNothing {op : Operation} (hop : ¬ op.completes) :
    BringsNothing db (db.call op) := by
  cases op with
  | claim workerId nowMs runId leaseDurationMs draw =>
      rcases claim_cases db workerId nowMs runId leaseDurationMs draw with
        ⟨result, db', hloop, heq⟩ | ⟨exc, heq⟩
      · rw [Db.call, heq]
        exact claimLoop_bringsNothing hloop
      · rw [Db.call, heq]
        exact .refl db
  | markRunning job nowMs =>
      rcases markRunning_cases db job nowMs with ⟨row, _, _, heq⟩ | ⟨exc, _, heq⟩
      · rw [Db.call, heq, runningDb]
        split <;> exact .of_attempts_eq rfl rfl
      · rw [Db.call, heq]
        exact .refl db
  | heartbeat job nowMs extensionMs =>
      rcases heartbeat_cases db job nowMs extensionMs with
        ⟨row, _, _, heq⟩ | ⟨row, _, _, heq⟩ | ⟨exc, _, heq⟩
      · rw [Db.call, heq]
        exact .of_attempts_eq rfl rfl
      · rw [Db.call, heq]
        exact .refl db
      · rw [Db.call, heq]
        exact .refl db
  -- Only a completion writes digests that the database has not stored before.
  | complete job attempt nowMs => exact absurd trivial hop
  | reapExpired nowMs maxAttempts =>
      rcases reapExpired_cases db nowMs maxAttempts with
        ⟨now, released, db', hreleased, hclosed, heq⟩ | ⟨exc, heq⟩
      · rw [Db.call, heq]
        have hreaped : BringsNothing db released :=
          .foldlM (fun _ _ _ => reapRow_bringsNothing) hreleased
        exact hreaped.trans (.foldlM (fun _ _ _ => updateRunState_bringsNothing) hclosed)
      · rw [Db.call, heq]
        exact .refl db
  | requestCancel runId nowMs =>
      rcases requestCancel_cases db runId nowMs with ⟨db', hclosed, heq⟩ | ⟨exc, heq⟩
      · rw [Db.call, heq]
        have hcancelled : BringsNothing db (cancelledDb db runId) := .of_attempts_eq rfl rfl
        exact hcancelled.trans (updateRunState_bringsNothing hclosed)
      · rw [Db.call, heq]
        exact .refl db
  | getJob jobId => exact .refl db

end Calls

/-! ## What a completion brings -/

section Completions

variable {db : Db} {job : Job} {attempt : EvaluationAttempt} {nowMs : Int}

/-- Quarantine filters the list as well as the columns. -/
theorem quarantine_refersTo (now : Datetime) (row : AttemptRow) :
    db.RefersTo (quarantine db attempt now row) where
  columns := ⟨hasArtifact_validArtifactDigest db _, hasArtifact_validArtifactDigest db _,
    hasArtifact_validArtifactDigest db _⟩
  listed := by
    intro digest hdigest
    have hmem : digest ∈ attempt.artifactDigests.filter fun d =>
        (validArtifactDigest db (some d)).isSome := by
      rw [← storedStrings_ofStrings (attempt.artifactDigests.filter _)]
      exact hdigest
    obtain ⟨valid, hvalid⟩ := Option.isSome_iff_exists.mp (List.mem_filter.mp hmem).2
    intro d hd
    obtain rfl := Option.some.inj hd
    by_contra hnone
    rw [validArtifactDigest, if_neg hnone] at hvalid
    cases hvalid

/-- Quarantine filters the digests before it stores them, so it brings only registered ones. -/
theorem quarantinedDb_referential (now : Datetime) (h : db.Referential) :
    (quarantinedDb db attempt now).Referential := by
  intro row hrow
  rw [quarantinedDb, Table.mem_update] at hrow
  obtain ⟨old, hold, rfl⟩ := hrow
  split_ifs
  · exact (quarantine_refersTo now old).of_artifacts rfl
  · exact (h old hold).of_artifacts rfl

def ListsRegistered (db : Db) (attempt : EvaluationAttempt) : Prop :=
  ∀ digest ∈ attempt.artifactDigests, db.HasArtifact (some digest)

/-- A commit stores the list as it stands. -/
theorem committedDb_referential_iff {row : Job} {stored : AttemptRow} {finishedAt : Datetime}
    (hguard : CommitGuard db job attempt nowMs row stored)
    (hcommittable : Committable db job attempt nowMs finishedAt) (h : db.Referential) :
    (committedDb db job attempt finishedAt).Referential ↔ ListsRegistered db attempt := by
  have hlisted : ∀ old : AttemptRow,
      storedStrings (committedRow attempt finishedAt old).artifactDigests =
        attempt.artifactDigests := fun _ => storedStrings_ofStrings _
  constructor
  · intro hafter digest hdigest
    have hid := Table.key_of_find? hguard.stored_eq
    have hmem : committedRow attempt finishedAt stored ∈
        (committedDb db job attempt finishedAt).evaluationAttempts := by
      rw [committedDb, Table.mem_update]
      refine ⟨stored, Table.mem_of_find? hguard.stored_eq, ?_⟩
      rw [if_pos (decide_eq_true hid)]
    have hrefers := hafter _ hmem
    exact hrefers.listed digest (by rw [hlisted]; exact hdigest)
  · intro hregistered row hrow
    rw [committedDb, Table.mem_update] at hrow
    obtain ⟨old, hold, rfl⟩ := hrow
    split_ifs with htarget
    · refine ⟨(hcommittable.allowed.rows old hold htarget).2.2, ?_⟩
      rw [hlisted]
      exact hregistered
    · exact (h old hold).of_artifacts rfl

/-- The attempt is submitted under its live lease with evidence the database accepts. -/
def AcceptsCommit (db : Db) (job : Job) (attempt : EvaluationAttempt) (nowMs : Int) : Prop :=
  commits db job attempt nowMs = true ∧ ∃ finishedAt, Committable db job attempt nowMs finishedAt

/-- Only the commit stores its digests as they come. Where it goes through, the list of digests
is what counts. -/
theorem complete_referential_iff (h : db.Referential) :
    (complete db job attempt nowMs).2.Referential ↔
      (AcceptsCommit db job attempt nowMs → ListsRegistered db attempt) := by
  -- A call that does not commit leaves no new reference, so both sides hold.
  have hread : ¬ AcceptsCommit db job attempt nowMs →
      (complete db job attempt nowMs).2.Referential →
      ((complete db job attempt nowMs).2.Referential ↔
        (AcceptsCommit db job attempt nowMs → ListsRegistered db attempt)) :=
    fun hnot hafter => iff_of_true hafter fun haccepts => absurd haccepts hnot
  rcases complete_spec db job attempt nowMs with
    ⟨hquarantine, now, _, heq⟩ | ⟨hcommits, finishedAt, db', hcommittable, hrun, heq⟩ |
      ⟨result, heq, hne⟩
  · apply hread
    · rintro ⟨hcommits, _⟩
      rcases completeBody_cases db job attempt nowMs with ⟨_, hnot, _⟩ | ⟨hnot, _⟩ | ⟨hnot, _⟩
      · cases hcommits.symm.trans hnot
      · cases hquarantine.symm.trans hnot
      · cases hquarantine.symm.trans hnot
    · rw [heq]
      exact quarantinedDb_referential now h
  · obtain ⟨row, stored, hguard⟩ := commits_iff.mp hcommits
    rw [heq]
    -- Closing the run touches no attempt, so the commit alone decides.
    have hsame : db'.Referential ↔ (committedDb db job attempt finishedAt).Referential := by
      obtain ⟨runs, rfl, _⟩ := updateRunState_ok hrun
      have hthere : BringsNothing (committedDb db job attempt finishedAt)
          { committedDb db job attempt finishedAt with auditRuns := runs } :=
            .of_attempts_eq rfl rfl
      have hback : BringsNothing { committedDb db job attempt finishedAt with auditRuns := runs }
          (committedDb db job attempt finishedAt) := .of_attempts_eq rfl rfl
      exact ⟨hback.rows, hthere.rows⟩
    rw [hsame, committedDb_referential_iff hguard hcommittable h]
    exact ⟨fun hregistered _ => hregistered, fun himp => himp ⟨hcommits, finishedAt, hcommittable⟩⟩
  · apply hread
    · intro haccepts
      apply hne
      rw [← complete_committed_iff.mpr haccepts, heq]
    · rw [heq]
      exact h

end Completions

/-! ## Runs -/

/-- What happens to the database: a call of the queue, or an artifact is registered. -/
inductive Move where
  | call (op : Operation)
  | register (artifact : Artifact)

def Db.move (db : Db) : Move → Db
  | .call op => db.call op
  | .register artifact =>
      match registerArtifact db artifact with
      | .ok db' => db'
      | .error _ => db

/-- No attempt that lists an unregistered digest is submitted under its live
lease with evidence the database accepts. -/
def CommitsRegistered (db : Db) : Move → Prop
  | .call (.complete job attempt nowMs) =>
      AcceptsCommit db job attempt nowMs → ListsRegistered db attempt
  | _ => True

section Runs

variable {db db' : Db}

theorem registerArtifact_attempts {artifact : Artifact}
    (h : registerArtifact db artifact = .ok db') :
    db'.evaluationAttempts = db.evaluationAttempts := by
  obtain ⟨_, h⟩ := bind_eq_ok_unit.mp h
  split at h
  · cases h
  · split at h
    · obtain rfl := Except.ok.inj h
      rfl
    · obtain rfl := Except.ok.inj h
      rfl

/-- Registration loses no artifact. -/
theorem registerArtifact_hasArtifact {artifact : Artifact}
    (h : registerArtifact db artifact = .ok db') {digest : Option String}
    (hdigest : db.HasArtifact digest) : db'.HasArtifact digest := by
  intro d hd
  obtain ⟨row, hrow⟩ := Option.isSome_iff_exists.mp (hdigest d hd)
  have hkey : row.key = d := Table.key_of_find? hrow
  obtain rfl : row.digest.text = d := hkey
  obtain ⟨available, hrow'⟩ := registerArtifact_keepsRows h row.digest row hrow
  rw [hrow']
  rfl

/-- Registration adds rows to `artifacts` and removes none. -/
theorem registerArtifact_referential {artifact : Artifact}
    (hregister : registerArtifact db artifact = .ok db') (h : db.Referential) :
    db'.Referential := by
  intro row hrow
  rw [registerArtifact_attempts hregister] at hrow
  have hrefers := h row hrow
  exact ⟨⟨registerArtifact_hasArtifact hregister hrefers.columns.1,
    registerArtifact_hasArtifact hregister hrefers.columns.2.1,
    registerArtifact_hasArtifact hregister hrefers.columns.2.2⟩,
    fun digest hdigest => registerArtifact_hasArtifact hregister (hrefers.listed digest hdigest)⟩

/-- One move keeps the evidence referential exactly if it commits none that is not. -/
theorem move_referential_iff (h : db.Referential) (move : Move) :
    (db.move move).Referential ↔ CommitsRegistered db move := by
  cases move with
  | register artifact =>
      apply iff_of_true _ trivial
      cases hregister : registerArtifact db artifact with
      | ok db' =>
          simp only [Db.move, hregister]
          exact registerArtifact_referential hregister h
      | error exc =>
          simp only [Db.move, hregister]
          exact h
  | call op =>
      cases op with
      | complete job attempt nowMs => exact complete_referential_iff h
      | claim => exact iff_of_true ((call_bringsNothing id).rows h) trivial
      | markRunning => exact iff_of_true ((call_bringsNothing id).rows h) trivial
      | heartbeat => exact iff_of_true ((call_bringsNothing id).rows h) trivial
      | reapExpired => exact iff_of_true ((call_bringsNothing id).rows h) trivial
      | requestCancel => exact iff_of_true ((call_bringsNothing id).rows h) trivial
      | getJob => exact iff_of_true ((call_bringsNothing id).rows h) trivial

/-- In a run from an empty table every state is referential exactly as long as no commit lists
an unregistered digest. Everything else that is written is a foreign key or filtered before. -/
theorem run_referential_iff (hempty : db.evaluationAttempts.rows = []) (moves : List Move) :
    Transition.Admits Db.move (fun db move => (db.move move).Referential) db moves ↔
      Transition.Admits Db.move CommitsRegistered db moves := by
  have hstart : db.Referential := by
    intro row hrow
    rw [Table.mem_def, hempty] at hrow
    cases hrow
  exact Transition.Admits.congr_of_invariant Db.Referential (fun _ _ _ hafter => hafter)
    (fun _ move h => move_referential_iff h move) hstart moves

end Runs

def logArtifact : Artifact where
  digest := hexdigest 0
  kind := "log"
  sizeBytes := 3
  storageUri := "sha256:0"
  mediaType := "text/plain"
  accessPolicy := .restricted
  retentionUntil := none
  available := true
  createdAt := (acceptingAttempt "attempt" "job" 1).startedAt

/-- A log is registered while the job is out, and the attempt that commits lists it. -/
def loggedCommit : List Move :=
  [.call soloClaim, .register logArtifact,
    .call (.complete soloHandle
      { acceptingAttempt "attempt" "job" 1 with artifactDigests := [logArtifact.digest.text] }
      1000)]

/-- The commit lists one digest, and that was registered while the job was out. -/
theorem run_referential_iff_solo :
    ((Transition.run Db.move soloDb loggedCommit).evaluationAttempts.find? "attempt").map
        (fun row => storedStrings row.artifactDigests) = some [logArtifact.digest.text] ∧
      (Transition.Admits Db.move (fun db move => (db.move move).Referential) soloDb loggedCommit ↔
        Transition.Admits Db.move CommitsRegistered soloDb loggedCommit) :=
  ⟨rfl, run_referential_iff rfl _⟩

def danglingAttempt : EvaluationAttempt :=
  { acceptingAttempt "attempt" "job" 1 with artifactDigests := ["unregistered"] }

/-- The commit stores the digest although the artifacts table is empty, as the list is text to
the database. -/
theorem dangling_digest_committed :
    ¬ Transition.Admits Db.move (fun db move => (db.move move).Referential) soloDb
      [.call soloClaim, .call (.complete soloHandle danglingAttempt 1000)] := by
  rintro ⟨hclaimed, hafter, _⟩
  have haccepts : AcceptsCommit (soloDb.call soloClaim) soloHandle danglingAttempt 1000 :=
    complete_committed_iff.mp rfl
  have hstart : (soloDb.call soloClaim).Referential := hclaimed
  have hregistered := (complete_referential_iff hstart).mp hafter haccepts "unregistered"
    (List.mem_singleton_self _) "unregistered" rfl
  cases hregistered

end VerifierCI
