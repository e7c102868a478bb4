import VerifierCI.Execution.RunParts
import VerifierCI.Python.Sorted

/-! # The calls of a run on its part

Each call for a run does to the part of the run what it does to the tables, and
a call for another run does nothing to it.
-/

namespace VerifierCI

open Python Relational Transition

/-! ## Claims -/

/-- No pending job belongs to a run that has been asked to stop. -/
def Db.PendingLive (db : Db) : Prop :=
  ∀ job ∈ db.jobs, job.state = .pending → cancelRequested db job.runId = false

section Claims

variable {db db' : Db} {runId workerId : String} {nowMs leaseDurationMs : Int} {draw : Draw}
  {row job : Job}

/-- A grant in the part of the run. -/
theorem ofRun_grant (hrow : db.jobs.find? row.jobId = some row) (hrun : row.runId = runId)
    (h : grant db row workerId nowMs leaseDurationMs draw = .ok (job, db')) :
    grant (db.ofRun runId) row workerId nowMs leaseDurationMs draw =
      .ok (job, db'.ofRun runId) := by
  simp only [grant] at h ⊢
  -- The part meets the bounds and the clock that the whole met, bind by bind.
  obtain ⟨hfence, h⟩ := bind_eq_ok_unit.mp h
  obtain ⟨hexpires, h⟩ := bind_eq_ok_unit.mp h
  obtain ⟨hstarted, h⟩ := bind_eq_ok_unit.mp h
  obtain ⟨now, hclock, h⟩ := bind_eq_ok.mp h
  obtain ⟨inserted, hinsert, h⟩ := bind_eq_ok.mp h
  obtain ⟨settled, hsettle, h⟩ := bind_eq_ok.mp h
  obtain ⟨rfl, rfl⟩ := Prod.mk.inj (Except.ok.inj h)
  refine bind_eq_ok_unit.mpr ⟨hfence, bind_eq_ok_unit.mpr ⟨hexpires, bind_eq_ok_unit.mpr
    ⟨hstarted, bind_eq_ok.mpr ⟨now, hclock, ?_⟩⟩⟩⟩
  obtain ⟨leased, hleased, hsame⟩ := find?_updateJobs
    (f := leasedRow row workerId (nowMs + leaseDurationMs) draw) hrow fun _ => rfl
  have hpart := ofRun_insertAttempt hinsert hleased (hsame.trans hrun)
  rw [ofRun_updateJobs (f := leasedRow row workerId (nowMs + leaseDurationMs) draw)
    fun _ => rfl] at hpart
  subst hrun
  exact bind_eq_ok.mpr ⟨_, hpart, bind_eq_ok.mpr ⟨_, ofRun_updateRunState hsettle, rfl⟩⟩

/-- A grant to another run. -/
theorem ofRun_grant_of_ne (hrow : db.jobs.find? row.jobId = some row) (hrun : row.runId ≠ runId)
    (h : grant db row workerId nowMs leaseDurationMs draw = .ok (job, db')) :
    db'.ofRun runId = db.ofRun runId := by
  simp only [grant] at h
  obtain ⟨_, h⟩ := bind_eq_ok_unit.mp h
  obtain ⟨_, h⟩ := bind_eq_ok_unit.mp h
  obtain ⟨_, h⟩ := bind_eq_ok_unit.mp h
  obtain ⟨now, _, h⟩ := bind_eq_ok.mp h
  obtain ⟨inserted, hinsert, h⟩ := bind_eq_ok.mp h
  obtain ⟨settled, hsettle, h⟩ := bind_eq_ok.mp h
  obtain ⟨rfl, rfl⟩ := Prod.mk.inj (Except.ok.inj h)
  obtain ⟨leased, hleased, hsame⟩ := find?_updateJobs
    (f := leasedRow row workerId (nowMs + leaseDurationMs) draw) hrow fun _ => rfl
  rw [ofRun_updateRunState_of_ne hrun hsettle,
    ofRun_insertAttempt_of_ne hinsert hleased (hsame.trans_ne hrun)]
  refine ofRun_updateJobs_of_ne (fun _ => rfl) ?_
  intro other hother htarget
  simp only [Bool.and_eq_true, decide_eq_true_eq] at htarget
  rwa [Table.eq_of_key_eq hother (Table.mem_of_find? hrow) htarget.1]

/-- Where no pending job is cancelled the search grants the first job it finds, or the claim
changes nothing. -/
theorem Db.PendingLive.claim_cases (h : db.PendingLive) (only : Option String) :
    claim db workerId nowMs only leaseDurationMs draw = (.ok none, db) ∨
    (∃ exc, claim db workerId nowMs only leaseDurationMs draw = (.error exc, db)) ∨
    ∃ row job db', nextPending db only = some row ∧
      grant db row workerId nowMs leaseDurationMs draw = .ok (job, db') ∧
      claim db workerId nowMs only leaseDurationMs draw = (.ok (some job), db') := by
  rcases VerifierCI.claim_cases db workerId nowMs only leaseDurationMs draw with
    ⟨result, db', hloop, heq⟩ | herror
  · rcases claimLoop_ok hloop with ⟨_, rfl, rfl⟩ | ⟨row, _, hnext, hcancelled, _⟩ |
      ⟨row, job, hnext, _, rfl, hgrant⟩
    · exact Or.inl heq
    · obtain ⟨hmem, hwaits⟩ := nextPending_waits hnext
      rw [h row hmem hwaits.pending] at hcancelled
      cases hcancelled
    · exact Or.inr (Or.inr ⟨row, job, db', hnext, hgrant, heq⟩)
  · exact Or.inr (Or.inl herror)

/-- A claim that grants a job of the run is a claim of the run's own. -/
theorem ofRun_claim (hnext : nextPending db only = some row) (hrun : row.runId = runId)
    (hlive : db.PendingLive)
    (hgrant : grant db row workerId nowMs leaseDurationMs draw = .ok (job, db')) :
    claim (db.ofRun runId) workerId nowMs (some runId) leaseDurationMs draw =
      (.ok (some job), db'.ofRun runId) := by
  obtain ⟨hmem, hwaits⟩ := nextPending_waits hnext
  have hopen : cancelRequested (db.ofRun runId) row.runId = false := by
    rw [hrun, ofRun_cancelRequested, ← hrun]
    exact hlive row hmem hwaits.pending
  refine transaction_ok ?_
  rw [claimLoop, ofRun_nextPending hnext hrun]
  dsimp only
  rw [hopen]
  exact bind_eq_ok.mpr ⟨_, ofRun_grant (Table.find?_of_mem hmem) hrun hgrant, rfl⟩

end Claims

/-! ## Calls with a handle -/

section Handles

variable {db : Db} {runId : String} {row job : Job} {attempt : EvaluationAttempt} {nowMs : Int}

theorem ofRun_heldRow (hrow : db.jobs.find? job.jobId = some row) (hrun : row.runId = runId)
    (notHeld : Job → String) :
    heldRow (db.ofRun runId) job nowMs notHeld = heldRow db job nowMs notHeld := by
  simp only [heldRow, ofRun_job hrow hrun, hrow]

/-- A handle of the run reads and writes the row of its own job, which is kept. -/
theorem ofRun_markRunning (hrow : db.jobs.find? job.jobId = some row) (hrun : row.runId = runId) :
    markRunning (db.ofRun runId) job nowMs =
      ((markRunning db job nowMs).1, (markRunning db job nowMs).2.ofRun runId) := by
  simp only [markRunning, transaction, ofRun_heldRow hrow hrun]
  cases heldRow db job nowMs _ with
  | error exc => rfl
  | ok held =>
      simp only [Except.bind, bind]
      split
      · rw [ofRun_updateJobs (f := runningRow) fun _ => rfl]
      · rfl

/-- The same for the renewal of a lease. -/
theorem ofRun_heartbeat (hrow : db.jobs.find? job.jobId = some row) (hrun : row.runId = runId)
    (extensionMs : Int) : heartbeat (db.ofRun runId) job nowMs extensionMs =
      ((heartbeat db job nowMs extensionMs).1,
      (heartbeat db job nowMs extensionMs).2.ofRun runId) := by
  simp only [heartbeat, transaction, ofRun_heldRow hrow hrun]
  cases heldRow db job nowMs _ with
  | error exc => rfl
  | ok held =>
      simp only [Except.bind, bind]
      cases bindInteger (some (nowMs + extensionMs)) with
      | error exc => rfl
      | ok _ =>
          dsimp only
          rw [ofRun_updateJobs (f := extendedRow (nowMs + extensionMs)) fun _ => rfl]

/-- The rows a handle of another run stands for. -/
theorem ofRun_updateJob_of_ne (hrow : db.jobs.find? job.jobId = some row) (hrun : row.runId ≠ runId)
    {f : Job → Job} {hkey : ∀ row, (f row).jobId = row.jobId}
    (hkeeps : ∀ row, (f row).runId = row.runId) :
    (db.updateJobs (fun other => other.jobId = job.jobId) f hkey).ofRun runId = db.ofRun runId := by
  refine ofRun_updateJobs_of_ne hkeeps ?_
  intro other hother hid
  rwa [Table.eq_of_key_eq hother (Table.mem_of_find? hrow)
    ((of_decide_eq_true hid).trans (Table.key_of_find? hrow).symm)]

/-- A handle of another run writes a row that is left out. -/
theorem ofRun_markRunning_of_ne (hrow : db.jobs.find? job.jobId = some row)
    (hrun : row.runId ≠ runId) :
    (markRunning db job nowMs).2.ofRun runId = db.ofRun runId := by
  rcases markRunning_cases db job nowMs with ⟨held, _, _, heq⟩ | ⟨exc, _, heq⟩
  · rw [heq]
    unfold runningDb
    split
    · exact ofRun_updateJob_of_ne hrow hrun fun _ => rfl
    · rfl
  · rw [heq]

theorem ofRun_heartbeat_of_ne (hrow : db.jobs.find? job.jobId = some row)
    (hrun : row.runId ≠ runId) (extensionMs : Int) :
    (heartbeat db job nowMs extensionMs).2.ofRun runId = db.ofRun runId := by
  rcases heartbeat_cases db job nowMs extensionMs with
    ⟨held, _, _, heq⟩ | ⟨held, _, _, heq⟩ | ⟨exc, _, heq⟩
  · rw [heq]
    exact ofRun_updateJob_of_ne hrow hrun fun _ => rfl
  · rw [heq]
  · rw [heq]

/-! ## Completion -/

/-- A submission for the job of the handle, under an attempt that is recorded for it. -/
structure Db.Owns (db : Db) (job row : Job) (attempt : EvaluationAttempt) (stored : AttemptRow) :
    Prop where
  row_eq : db.jobs.find? job.jobId = some row
  stored_eq : db.evaluationAttempts.find? attempt.attemptId = some stored
  stored_job : stored.jobId = job.jobId
  attempt_job : attempt.jobId = job.jobId
  runId : row.runId = job.runId

variable {stored : AttemptRow}

theorem Db.Owns.isOfRun_iff (h : db.Owns job row attempt stored) {other : AttemptRow}
    (hother : other.jobId = job.jobId) :
    db.isOfRun runId other = true ↔ job.runId = runId := by
  have hjob : db.jobs.find? other.jobId = some row := by
    rw [hother]
    exact h.row_eq
  rw [VerifierCI.isOfRun_iff hjob, h.runId]

theorem Db.Owns.stored_ofRun (h : db.Owns job row attempt stored) (hrun : job.runId = runId) :
    (db.ofRun runId).evaluationAttempts.find? attempt.attemptId = some stored :=
  ofRun_attempt h.stored_eq ((h.isOfRun_iff h.stored_job).mpr hrun)

/-- The attempts a submission may be written to are those of its own job. -/
theorem Db.Owns.mem_ofRun (h : db.Owns job row attempt stored) (hrun : job.runId = runId)
    {other : AttemptRow} (hother : other ∈ db.evaluationAttempts) (hjob : other.jobId = job.jobId) :
    other ∈ (db.ofRun runId).evaluationAttempts :=
  Table.mem_restrict.mpr ⟨hother, (h.isOfRun_iff hjob).mpr hrun⟩

theorem Db.Owns.quarantines_ofRun (h : db.Owns job row attempt stored) (hrun : job.runId = runId) :
    quarantines (db.ofRun runId) job attempt nowMs = quarantines db job attempt nowMs := by
  simp only [quarantines, ofRun_job h.row_eq (h.runId.trans hrun), h.row_eq]

theorem Db.Owns.commits_ofRun (h : db.Owns job row attempt stored) (hrun : job.runId = runId) :
    commits (db.ofRun runId) job attempt nowMs = commits db job attempt nowMs := by
  simp only [commits, ofRun_job h.row_eq (h.runId.trans hrun), h.row_eq, identityAgrees,
    h.stored_ofRun hrun, h.stored_eq]

/-- Late evidence never has authority, so quarantine cannot break it. -/
theorem quarantine_authority (hinv : QueueInv db) (now : Datetime) :
    AuthorityUnique (db.evaluationAttempts.update (quarantineTarget attempt)
      (quarantine db attempt now) (quarantine_attemptId db attempt now)) := by
  have hselect : (db.evaluationAttempts.update (quarantineTarget attempt)
        (quarantine db attempt now) (quarantine_attemptId db attempt now)).select
        (fun row => row.disposition = .authoritative) =
      db.evaluationAttempts.select fun row => row.disposition = .authoritative := by
    apply Table.select_update_of_not
    intro other _ htarget
    exact ⟨decide_eq_false (isOpen_of_quarantineTarget htarget), rfl⟩
  rw [AuthorityUnique, hselect]
  exact hinv.authorityUnique

/-- Whether evidence can be quarantined is decided by its own row and by the artifacts, which
all runs share. -/
theorem Db.Owns.quarantinable_ofRun (h : db.Owns job row attempt stored) (hinv : QueueInv db)
    (hrun : job.runId = runId) {now : Datetime} :
    Quarantinable (db.ofRun runId) attempt nowMs now ↔ Quarantinable db attempt nowMs now := by
  constructor
  · intro hpart
    refine ⟨hpart.clock, hpart.dumped, hpart.exitCode, hpart.testsPassed, hpart.testsFailed, ?_,
      quarantine_authority hinv now⟩
    intro other hother htarget
    have hjob : other.jobId = attempt.jobId := by
      simp only [quarantineTarget, Bool.and_eq_true, decide_eq_true_eq] at htarget
      exact htarget.1.2
    exact hpart.allowed.rows other (h.mem_ofRun hrun hother (hjob.trans h.attempt_job)) htarget
  · intro hwhole
    exact ⟨hwhole.clock, hwhole.dumped, hwhole.exitCode, hwhole.testsPassed, hwhole.testsFailed,
      hwhole.allowed.ofRun fun _ => rfl⟩

theorem ofRun_quarantinedDb (now : Datetime) :
    (quarantinedDb db attempt now).ofRun runId = quarantinedDb (db.ofRun runId) attempt now :=
  ofRun_withAttempts fun _ => rfl

/-- The two updates of a commit hit the row of the job and that of its attempt, both of the same
run. -/
theorem ofRun_committedDb (finishedAt : Datetime) :
    (committedDb db job attempt finishedAt).ofRun runId =
      committedDb (db.ofRun runId) job attempt finishedAt := by
  have hattempts := @ofRun_withAttempts (db.updateJobs (fun other => other.jobId = job.jobId)
    (finishedRow attempt) (finishedRow_jobId attempt)) runId
    (fun other => other.attemptId = attempt.attemptId) (committedRow attempt finishedAt)
    (committedRow_attemptId attempt finishedAt) fun _ => rfl
  rw [ofRun_updateJobs (f := finishedRow attempt) fun _ => rfl] at hattempts
  exact hattempts

/-- What can be committed in the whole can be committed in the part, and the other way
round. Of the constraints, one looks at other rows: that authority is unique, and it
holds on both sides. -/
theorem Db.Owns.committable_ofRun (h : db.Owns job row attempt stored) (hinv : QueueInv db)
    (hrun : job.runId = runId) (hcommits : commits db job attempt nowMs = true)
    {finishedAt : Datetime} : Committable (db.ofRun runId) job attempt nowMs finishedAt ↔
      Committable db job attempt nowMs finishedAt := by
  have hclosing : closesRun (committedDb (db.ofRun runId) job attempt finishedAt) job.runId =
      closesRun (committedDb db job attempt finishedAt) job.runId := by
    rw [← ofRun_committedDb, hrun, ofRun_closesRun]
  constructor
  · intro hpart
    obtain ⟨own, committed, hguard⟩ := commits_iff.mp hcommits
    -- the only row written is the recorded attempt, which the part has
    have hrows : ∀ other ∈ db.evaluationAttempts, other.attemptId = attempt.attemptId →
        other.disposition ≠ .authoritative ∧ (committedRow attempt finishedAt other).Check ∧
          db.References (committedRow attempt finishedAt other) := by
      intro other hother hid
      obtain rfl := Table.eq_of_key_eq hother (Table.mem_of_find? h.stored_eq)
        (hid.trans (Table.key_of_find? h.stored_eq).symm)
      exact hpart.allowed.rows other (h.mem_ofRun hrun hother h.stored_job) (decide_eq_true hid)
    -- authority stays unique in the tables because a commit keeps the ledgers' invariant
    have hcommitted : Evolves (Ledger.Commit attempt) db (committedDb db job attempt finishedAt) :=
      committedDb_evolves hinv hguard fun other hother hid => (hrows other hother hid).2.1
    have hnext : QueueInv (committedDb db job attempt finishedAt) :=
      (hcommitted.mono fun _ _ hcommit => Or.inr ⟨attempt, hcommit⟩).queueInv hinv
    exact {
      clock := hpart.clock
      dumped := hpart.dumped
      exitCode := hpart.exitCode
      testsPassed := hpart.testsPassed
      testsFailed := hpart.testsFailed
      allowed := ⟨fun other hother hid => hrows other hother (of_decide_eq_true hid),
        hnext.authorityUnique⟩
      closing := fun hcloses => hpart.closing (hclosing.trans hcloses) }
  · intro hwhole
    exact {
      clock := hwhole.clock
      dumped := hwhole.dumped
      exitCode := hwhole.exitCode
      testsPassed := hwhole.testsPassed
      testsFailed := hwhole.testsFailed
      allowed := hwhole.allowed.ofRun fun _ => rfl
      closing := fun hcloses => hwhole.closing (hclosing.symm.trans hcloses) }

/-- A completion that neither quarantines nor commits leaves the database alone. -/
theorem complete_of_reads (hquarantines : quarantines db job attempt nowMs = false)
    (hcommits : commits db job attempt nowMs = false) : (complete db job attempt nowMs).2 = db := by
  rcases completeBody_cases db job attempt nowMs with ⟨hyes, _⟩ | ⟨_, hyes, _⟩ | ⟨_, _, hreads⟩
  · rw [hquarantines] at hyes
    cases hyes
  · rw [hcommits] at hyes
    cases hyes
  · rcases hreads with ⟨status, _, hbody⟩ | ⟨exc, hbody⟩
    · rw [complete, transaction_ok hbody]
    · rw [complete, transaction_error hbody]

/-- Every branch of the call reads the rows of its own job and attempt, and closes the run of
that job. -/
theorem Db.Owns.complete_ofRun (h : db.Owns job row attempt stored) (hinv : QueueInv db)
    (hrun : job.runId = runId) : (complete (db.ofRun runId) job attempt nowMs).2 =
      (complete db job attempt nowMs).2.ofRun runId := by
  -- The guards read rows of the run only, so part and whole take the same branch.
  cases hquarantines : quarantines db job attempt nowMs with
  | true =>
      have hpart := (h.quarantines_ofRun hrun).trans hquarantines
      rcases complete_of_quarantines hpart with ⟨now, hallowed, heq⟩ | ⟨hrefused, exc, _, heq⟩
      · rcases complete_of_quarantines hquarantines with
          ⟨now', hallowed', heq'⟩ | ⟨hrefused', _⟩
        · obtain rfl := Except.ok.inj (hallowed.clock.symm.trans hallowed'.clock)
          rw [heq, heq', ofRun_quarantinedDb]
        -- one of the two would be refused: what the statement needs is in the part already
        · exact absurd ((h.quarantinable_ofRun hinv hrun).mp hallowed) (hrefused' now)
      · rcases complete_of_quarantines hquarantines with
          ⟨now', hallowed', _⟩ | ⟨_, exc', _, heq'⟩
        · exact absurd ((h.quarantinable_ofRun hinv hrun).mpr hallowed') (hrefused now')
        · rw [heq, heq']
  | false =>
      have hpartQuarantines := (h.quarantines_ofRun hrun).trans hquarantines
      cases hcommits : commits db job attempt nowMs with
      | false =>
          have hpart := (h.commits_ofRun hrun).trans hcommits
          rw [complete_of_reads hpartQuarantines hpart, complete_of_reads hquarantines hcommits]
      | true =>
          have hpart := (h.commits_ofRun hrun).trans hcommits
          rcases complete_of_commits hpart with
            ⟨finishedAt, after, hallowed, hsettle, heq⟩ | ⟨hrefused, exc, heq⟩
          -- both commit, at the same date, and the run is closed alike in both
          · rcases complete_of_commits hcommits with
              ⟨finishedAt', after', hallowed', hsettle', heq'⟩ | ⟨hrefused', _⟩
            · obtain rfl := Except.ok.inj (hallowed.clock.symm.trans hallowed'.clock)
              rw [hrun] at hsettle hsettle'
              have hsettled := ofRun_updateRunState hsettle'
              rw [ofRun_committedDb, hsettle] at hsettled
              rw [heq, heq', Except.ok.inj hsettled]
            · exact absurd ((h.committable_ofRun hinv hrun hcommits).mp hallowed)
                (hrefused' finishedAt)
          · rcases complete_of_commits hcommits with
              ⟨finishedAt', _, hallowed', _⟩ | ⟨_, exc', heq'⟩
            · exact absurd ((h.committable_ofRun hinv hrun hcommits).mpr hallowed')
                (hrefused finishedAt')
            · rw [heq, heq']

/-- What a completion writes for a job of another run is left out. -/
theorem Db.Owns.complete_ofRun_of_ne (h : db.Owns job row attempt stored)
    (hrun : job.runId ≠ runId) :
    (complete db job attempt nowMs).2.ofRun runId = db.ofRun runId := by
  -- Every row a completion writes is one of its own job, which is not of this run.
  have hother : ∀ other : AttemptRow, other.jobId = job.jobId → db.isOfRun runId other = false :=
    fun other hjob => Bool.eq_false_iff.mpr (mt (h.isOfRun_iff hjob).mp hrun)
  rcases complete_spec db job attempt nowMs with
    ⟨_, now, _, heq⟩ | ⟨_, finishedAt, after, _, hsettle, heq⟩ | ⟨result, heq, _⟩
  · rw [heq]
    refine ofRun_withAttempts_of_ne (fun _ => rfl) ?_
    intro other _ htarget
    simp only [quarantineTarget, Bool.and_eq_true, decide_eq_true_eq] at htarget
    exact hother other (htarget.1.2.trans h.attempt_job)
  · have hjobs := @ofRun_updateJob_of_ne db runId row job h.row_eq
      (fun heq => hrun (h.runId.symm.trans heq)) (finishedRow attempt) (finishedRow_jobId attempt)
      fun _ => rfl
    rw [heq, ofRun_updateRunState_of_ne hrun hsettle, ← hjobs]
    refine ofRun_withAttempts_of_ne (fun _ => rfl) ?_
    intro other hmem hid
    rw [isOfRun_updateJobs (f := finishedRow attempt) fun _ => rfl]
    obtain rfl := Table.eq_of_key_eq hmem (Table.mem_of_find? h.stored_eq)
      ((of_decide_eq_true hid).trans (Table.key_of_find? h.stored_eq).symm)
    exact hother other h.stored_job
  · rw [heq]

end Handles

/-! ## Cancellation -/

section Cancel

variable {db : Db} {runId : String} {nowMs : Int}

theorem ofRun_cancelledDb :
    (cancelledDb db runId).ofRun runId = cancelledDb (db.ofRun runId) runId := by
  rw [cancelledDb, ofRun_failPending, ofRun_updateRun]
  rfl

/-- A cancellation writes to the jobs and the row of its run only. -/
theorem requestCancel_ofRun : (requestCancel (db.ofRun runId) runId nowMs).2 =
    (requestCancel db runId nowMs).2.ofRun runId := by
  rcases requestCancel_cases db runId nowMs with ⟨db', hsettle, heq⟩ | ⟨exc, heq⟩
  · have hpart := ofRun_updateRunState hsettle
    rw [ofRun_cancelledDb] at hpart
    rcases requestCancel_cases (db.ofRun runId) runId nowMs with ⟨after, hafter, heq'⟩ | ⟨_, heq'⟩
    · rw [hafter] at hpart
      rw [heq, heq', Except.ok.inj hpart]
    · have hreturns : requestCancel (db.ofRun runId) runId nowMs = (.ok (), db'.ofRun runId) :=
        transaction_ok (bind_eq_ok.mpr ⟨_, hpart, rfl⟩)
      rw [hreturns] at heq'
      cases heq'
  · rcases requestCancel_cases (db.ofRun runId) runId nowMs with ⟨after, hafter, _⟩ | ⟨_, heq'⟩
    -- The clock is read to close the run only, and the part closes when the whole does.
    · obtain ⟨settled, hsettled⟩ := updateRunState_isOk_iff.mpr fun hcloses => by
        have hclock := updateRunState_isOk_iff.mp ⟨after, hafter⟩
        rw [← ofRun_cancelledDb, ofRun_closesRun] at hclock
        exact hclock hcloses
      have hreturns : requestCancel db runId nowMs = (.ok (), settled) :=
        transaction_ok (bind_eq_ok.mpr ⟨_, hsettled, rfl⟩)
      rw [hreturns] at heq
      cases heq
    · rw [heq, heq']

theorem requestCancel_ofRun_of_ne {other : String} (hne : other ≠ runId) :
    (requestCancel db other nowMs).2.ofRun runId = db.ofRun runId := by
  rcases requestCancel_cases db other nowMs with ⟨db', hsettle, heq⟩ | ⟨exc, heq⟩
  · rw [heq, ofRun_updateRunState_of_ne hne hsettle, cancelledDb, ofRun_failPending_of_ne hne,
      ofRun_updateRun_of_ne hne]
  · rw [heq]

end Cancel

/-! ## Reaping -/

section Reap

variable {db db' : Db} {runId : String} {nowMs : Int} {now : Datetime} {maxAttempts : Option Int}
  {row : Job}

/-- The order of the reaper is by job, too. -/
theorem expiredRows_ofRun (db : Db) (runId : String) (nowMs : Int) :
    expiredRows (db.ofRun runId) nowMs =
      (expiredRows db nowMs).filter fun row => row.runId = runId := by
  have hle : ∀ a b : Job, a.jobId ≤ b.jobId ↔ a.jobId ≤ b.jobId := fun _ _ => Iff.rfl
  have hperm : (expiredRows (db.ofRun runId) nowMs).Perm
      ((expiredRows db nowMs).filter fun row => row.runId = runId) := by
    apply (List.perm_insertionSort _ _).trans
    refine List.Perm.trans ?_ ((List.perm_insertionSort _ _).symm.filter _)
    simp only [Table.select, Db.ofRun, Table.restrict, List.filter_filter, Bool.and_comm]
    exact List.Perm.refl _
  refine List.Perm.eq_of_pairwise ?_ (pairwise_sorted hle _)
    ((pairwise_sorted hle _).sublist List.filter_sublist) hperm
  intro a b ha hb hab hba
  obtain ⟨hmem, _⟩ := mem_expiredRows.mp (List.mem_filter.mp (hperm.mem_iff.mp ha)).1
  obtain ⟨hmem', _⟩ := mem_expiredRows.mp (List.mem_filter.mp hb).1
  exact Table.eq_of_key_eq hmem hmem' (le_antisymm hab hba)

theorem abandonAttempt_ofRun {attemptId : Option String}
    (h : abandonAttempt db attemptId now = .ok db') :
    abandonAttempt (db.ofRun runId) attemptId now = .ok (db'.ofRun runId) := by
  unfold abandonAttempt at h ⊢
  split at h
  · obtain rfl := Except.ok.inj h
    rfl
  · obtain rfl := Except.ok.inj h
    rfl
  · exact ofRun_updateAttempts (fun _ => rfl) h

theorem reapRow_ofRun (hrun : row.runId = runId) (h : reapRow maxAttempts now db row = .ok db') :
    reapRow maxAttempts now (db.ofRun runId) row = .ok (db'.ofRun runId) := by
  obtain ⟨abandoned, habandoned, h⟩ := bind_eq_ok.mp h
  obtain rfl := Except.ok.inj h
  refine bind_eq_ok.mpr ⟨_, abandonAttempt_ofRun habandoned, ?_⟩
  rw [ofRun_updateJobs (f := releasedRow (reapedState abandoned row maxAttempts)) fun _ => rfl]
  simp only [ofRun_reapedState hrun]

/-- The attempt a reaped job abandons is its own. -/
theorem reapRow_ofRun_of_ne (hinv : QueueInv db) (hrow : db.jobs.find? row.jobId = some row)
    (hheld : row.state.isHeld = true) (hrun : row.runId ≠ runId)
    (h : reapRow maxAttempts now db row = .ok db') : db'.ofRun runId = db.ofRun runId := by
  have hjobs := @ofRun_updateJob_of_ne db runId row row hrow hrun
    (releasedRow (reapedState db row maxAttempts))
    (releasedRow_jobId (reapedState db row maxAttempts)) fun _ => rfl
  rw [reapRow_eq h, ← hjobs]
  refine ofRun_withAttempts_of_ne (fun _ => rfl) ?_
  intro other hother htarget
  rw [isOfRun_updateJobs (f := releasedRow (reapedState db row maxAttempts)) fun _ => rfl]
  simp only [abandonTarget, Bool.and_eq_true, decide_eq_true_eq] at htarget
  -- the ledger of a held job records its current attempt
  have hledger := hinv.of_mem (Table.mem_of_find? hrow)
  obtain ⟨_, _, _, current, hcurrent, hid, _⟩ := hledger.held hheld
  have hsame : other = current := by
    apply Table.eq_of_key_eq hother (mem_ledgerOf.mp hcurrent).1
    exact Option.some.inj (htarget.1.1.symm.trans hid)
  subst hsame
  have howner : db.jobs.find? other.jobId = some row := by
    rw [hledger.numbered.own other hcurrent]
    exact hrow
  exact Bool.eq_false_iff.mpr (mt (isOfRun_iff howner).mp hrun)

/-- The loop over all expired jobs does to the rows of one run what the loop over its own
expired jobs does. -/
theorem reapRows_ofRun {rows : List Job} {released : Db} (hinv : QueueInv db)
    (hnodup : (rows.map Job.jobId).Nodup)
    (hrows : ∀ row ∈ rows, db.jobs.find? row.jobId = some row ∧ row.state.isHeld = true)
    (h : rows.foldlM (reapRow maxAttempts now) db = .ok released) :
    (rows.filter fun row => row.runId = runId).foldlM (reapRow maxAttempts now) (db.ofRun runId) =
      .ok (released.ofRun runId) := by
  induction rows generalizing db with
  | nil =>
      obtain rfl := Except.ok.inj h
      rfl
  | cons row rest ih =>
      obtain ⟨hrow, hheld⟩ := hrows row List.mem_cons_self
      rw [List.map_cons, List.nodup_cons] at hnodup
      rw [List.foldlM_cons, bind_eq_ok] at h
      obtain ⟨middle, hfirst, hrest⟩ := h
      have hmiddle : QueueInv middle := by
        rw [reapRow_eq hfirst]
        exact (reapedDb_evolves hinv hrow hheld
          (reapedState_cases db row maxAttempts)).step.queueInv hinv
      -- Reaping one row leaves the others as they were read, so the induction applies.
      have hsame : ∀ other ∈ rest,
          middle.jobs.find? other.jobId = some other ∧ other.state.isHeld = true := by
        intro other hother
        obtain ⟨hfind, hotherHeld⟩ := hrows other (List.mem_cons_of_mem row hother)
        refine ⟨?_, hotherHeld⟩
        rw [reapRow_eq hfirst]
        apply reapedDb_find?_of_ne _ hfind
        intro heq
        exact hnodup.1 (heq ▸ List.mem_map_of_mem hother)
      have hpart := ih hmiddle hnodup.2 hsame hrest
      -- A row of another run is filtered out, and its reaping is not seen in the part.
      by_cases hrun : row.runId = runId
      · rw [List.filter_cons_of_pos (by simpa using hrun), List.foldlM_cons, bind_eq_ok]
        exact ⟨_, reapRow_ofRun hrun hfirst, hpart⟩
      · rw [List.filter_cons_of_neg (by simpa using hrun),
          ← reapRow_ofRun_of_ne hinv hrow hheld hrun hfirst]
        exact hpart

/-- Of the runs that are settled behind a reap only the one itself is seen. -/
theorem settleRuns_ofRun {runIds : List String}
    (h : runIds.foldlM (fun db runId => updateRunState db runId nowMs) db = .ok db') :
    (runIds.filter fun other => other = runId).foldlM
      (fun db runId => updateRunState db runId nowMs) (db.ofRun runId) = .ok (db'.ofRun runId) := by
  induction runIds generalizing db with
  | nil =>
      obtain rfl := Except.ok.inj h
      rfl
  | cons other rest ih =>
      rw [List.foldlM_cons, bind_eq_ok] at h
      obtain ⟨middle, hfirst, hrest⟩ := h
      -- the update of another run is not seen in the part
      by_cases hrun : other = runId
      · subst hrun
        rw [List.filter_cons_of_pos (by simp), List.foldlM_cons, bind_eq_ok]
        exact ⟨_, ofRun_updateRunState hfirst, ih hrest⟩
      · rw [List.filter_cons_of_neg (by simpa using hrun),
          ← ofRun_updateRunState_of_ne hrun hfirst]
        exact ih hrest

/-- The runs a reap affects, as far as they are this run. -/
theorem affectedRuns_ofRun (rows : List Job) (runId : String) :
    ((rows.filter fun row => row.runId = runId).map Job.runId).dedup =
      ((rows.map Job.runId).dedup).filter fun other => other = runId := by
  have hself : ∀ other ∈ ((rows.filter fun row => row.runId = runId).map Job.runId).dedup,
      decide (other = runId) = true := by
    intro other hother
    obtain ⟨row, hrow, rfl⟩ := List.mem_map.mp (List.mem_dedup.mp hother)
    exact (List.mem_filter.mp hrow).2
  have hmem : runId ∈ ((rows.filter fun row => row.runId = runId).map Job.runId).dedup ↔
      runId ∈ (rows.map Job.runId).dedup := by
    simp only [List.mem_dedup, List.mem_map, List.mem_filter, decide_eq_true_eq]
    constructor
    · rintro ⟨row, ⟨hrow, _⟩, hrun⟩
      exact ⟨row, hrow, hrun⟩
    · rintro ⟨row, hrow, hrun⟩
      exact ⟨row, ⟨hrow, hrun⟩, hrun⟩
  -- Both lists hold the run at most once, and one does when the other does.
  rw [← List.filter_eq_self.mpr hself, List.filter_eq, List.filter_eq,
    (List.nodup_dedup _).count, (List.nodup_dedup _).count]
  simp only [hmem]

/-- The reaper sweeps all runs at once. Seen from one of them it swept that one, in the order of
its own expired jobs. -/
theorem reapExpired_ofRun (hinv : QueueInv db) (hbare : db.ActiveBare) :
    (reapExpired (db.ofRun runId) nowMs maxAttempts).2 =
      (reapExpired db nowMs maxAttempts).2.ofRun runId := by
  cases hclock : isoOfMs nowMs with
  | error exc =>
      -- Without a date the call rolls back, in the part as in the whole.
      have hraises : ∀ db : Db, (reapExpired db nowMs maxAttempts).2 = db := by
        intro db
        cases hbind : bindInteger (some nowMs) with
        | error refused =>
            rw [reapExpired, @transaction_error _ db _ refused]
            simp only [hbind]
            rfl
        | ok _ =>
            rw [reapExpired, @transaction_error _ db _ exc]
            simp only [hbind, hclock]
            rfl
      rw [hraises, hraises]
  | ok now =>
      have hrows : ∀ row ∈ expiredRows db nowMs,
          db.jobs.find? row.jobId = some row ∧ row.state.isHeld = true := by
        intro row hrow
        obtain ⟨hmem, hheld, _⟩ := mem_expiredRows.mp hrow
        exact ⟨Table.find?_of_mem hmem, hheld⟩
      have hnodup := expiredRows_nodup db nowMs
      obtain ⟨released, hreleased, _⟩ := reapRows_returns hinv hbare hnodup hrows
      obtain ⟨settled, hsettled⟩ := settleRuns_returns released hclock
        ((expiredRows db nowMs).map Job.runId).dedup
      -- Reaping returns once there is a date, so the two results can be written out.
      have hwhole : reapExpired db nowMs maxAttempts =
          (.ok ((expiredRows db nowMs).map Job.jobId), settled) :=
        transaction_ok (bind_eq_ok_unit.mpr ⟨bindInteger_of_clock hclock,
          bind_eq_ok.mpr ⟨now, hclock, bind_eq_ok.mpr ⟨released, hreleased,
            bind_eq_ok.mpr ⟨settled, hsettled, rfl⟩⟩⟩⟩)
      have hpartReleased := @reapRows_ofRun db runId now maxAttempts _ _ hinv hnodup hrows hreleased
      have hpartSettled := @settleRuns_ofRun _ _ runId nowMs _ hsettled
      rw [← expiredRows_ofRun] at hpartReleased
      rw [← affectedRuns_ofRun, ← expiredRows_ofRun] at hpartSettled
      have hpart : reapExpired (db.ofRun runId) nowMs maxAttempts =
          (.ok ((expiredRows (db.ofRun runId) nowMs).map Job.jobId), settled.ofRun runId) :=
        transaction_ok (bind_eq_ok_unit.mpr ⟨bindInteger_of_clock hclock,
          bind_eq_ok.mpr ⟨now, hclock, bind_eq_ok.mpr ⟨_, hpartReleased,
            bind_eq_ok.mpr ⟨_, hpartSettled, rfl⟩⟩⟩⟩)
      rw [hwhole, hpart]

end Reap

end VerifierCI
