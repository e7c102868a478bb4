import VerifierCI.Execution.Operations
import VerifierCI.Transition.Script

/-! # The transactions of the queue, statement by statement

Each call of the queue as the statements its block executes. A transaction is
alone with what it sees, so the block as a whole does what the call was taken to
do in one step.
-/

namespace VerifierCI

open Python Relational Transition

/-! ## Helpers -/

/-- `_valid_artifact_digest`. -/
def validArtifactDigestScript : Option String → Script Db Exc (Option String)
  | none => pure none
  | some digest => do
      let found ← Script.select fun db => (db.artifacts.find? digest).isSome
      pure (if found then some digest else none)

/-- The registered ones of an attempt's digests. -/
def validDigestsScript : List String → Script Db Exc (List String)
  | [] => pure []
  | digest :: rest => do
      let found ← validArtifactDigestScript (some digest)
      let digests ← validDigestsScript rest
      pure (if found.isSome then digest :: digests else digests)

/-- The quarantined row, with the digests that were looked up before. -/
def quarantineFound (db : Db) (attempt : EvaluationAttempt) (now : Datetime)
    (stdoutHash stderrHash reportDigest : Option String) (artifactDigests : List String)
    (row : AttemptRow) : AttemptRow :=
  { quarantine db attempt now row with
    stdoutHash := stdoutHash
    stderrHash := stderrHash
    reportDigest := reportDigest
    artifactDigests := Json.ofStrings artifactDigests }

theorem quarantineFound_attemptId (db : Db) (attempt : EvaluationAttempt) (now : Datetime)
    (stdoutHash stderrHash reportDigest : Option String) (artifactDigests : List String)
    (row : AttemptRow) :
    (quarantineFound db attempt now stdoutHash stderrHash reportDigest artifactDigests
      row).attemptId = row.attemptId := rfl

/-- `_mark_attempt_stale` of a submission. -/
def markAttemptStaleScript (attempt : EvaluationAttempt) (nowMs : Int) : Script Db Exc Unit := do
  let now ← Script.ofExcept (isoOfMs nowMs)
  let stdoutHash ← validArtifactDigestScript attempt.stdoutHash
  let stderrHash ← validArtifactDigestScript attempt.stderrHash
  let reportDigest ← validArtifactDigestScript attempt.reportDigest
  Script.ofExcept (dumps attempt.resources.toJson)
  let artifactDigests ← validDigestsScript attempt.artifactDigests
  Script.execute fun db => do
    bindInteger attempt.exitCode
    bindInteger attempt.testsPassed
    bindInteger attempt.testsFailed
    db.updateAttempts (quarantineTarget attempt)
      (quarantineFound db attempt now stdoutHash stderrHash reportDigest artifactDigests)
      (quarantineFound_attemptId db attempt now stdoutHash stderrHash reportDigest
        artifactDigests)

/-- `_update_run_state`. -/
def updateRunStateScript (runId : String) (nowMs : Int) : Script Db Exc Unit := do
  let run ← Script.select fun db => db.auditRuns.find? runId
  match run with
  | none => pure ()
  | some run =>
      if run.state.isTerminal then pure ()
      else do
        let jobs ← Script.select fun db => db.jobs.select fun job => job.runId = runId
        let activeCount := jobs.countP fun job => !job.state.isFinished
        let failCount := jobs.countP fun job => job.state = .failed
        if jobs.length = 0 then pure ()
        else if activeCount > 0 then
          if run.state = .planned then
            Script.execute fun db => .ok (db.updateRun runId startedRun startedRun_runId)
          else pure ()
        else do
          let finishedAt ← Script.ofExcept (isoOfMs nowMs)
          let newState : RunState :=
            if run.cancelRequested then .cancelled
            else if failCount > 0 then .failed
            else .complete
          Script.execute fun db => .ok (db.updateRun runId (closedRun newState finishedAt)
            (closedRun_runId newState finishedAt))

/-! ## The calls -/

/-- The guarded UPDATE of a claim, and how many rows it hit. -/
def leaseScript (row : Job) (workerId : String) (expires : Int) (draw : Draw) :
    Script Db Exc Nat :=
  let pending : Job → Bool := fun job => job.jobId = row.jobId && job.state = .pending
  .statement
    (fun db => do
      bindInteger (some (row.fence + 1))
      bindInteger (some expires)
      bindInteger (some (row.attemptsStarted + 1))
      .ok (db.updateJobs pending (leasedRow row workerId expires draw)
        (leasedRow_jobId row workerId expires draw)))
    fun before _ => .done (before.jobs.select pending).length

/-- The `while True` loop of `claim`. -/
def claimScript (workerId : String) (nowMs : Int) (runId : Option String) (leaseDurationMs : Int)
    (draw : Draw) : Nat → Script Db Exc (Option Job)
  | 0 => .raise .outOfFuel
  | fuel + 1 => do
      let row ← Script.select fun db => nextPending db runId
      match row with
      | none => pure none
      | some row => do
          let cancelled ← Script.select fun db => cancelRequested db row.runId
          if cancelled then do
            Script.execute fun db => .ok (failPending db row.runId)
            updateRunStateScript row.runId nowMs
            claimScript workerId nowMs runId leaseDurationMs draw fuel
          else do
            let expires := nowMs + leaseDurationMs
            let rowcount ← leaseScript row workerId expires draw
            if rowcount = 0 then claimScript workerId nowMs runId leaseDurationMs draw fuel
            else do
              let now ← Script.ofExcept (isoOfMs nowMs)
              Script.execute fun db =>
                db.insertAttempt (activeAttempt row.jobId (row.fence + 1) draw now)
              updateRunStateScript row.runId nowMs
              pure (some (grantedJob row workerId expires draw))

def startJobScript (row job : Job) : Script Db Exc Unit :=
  if row.state = .claimed then
    Script.execute fun db =>
      .ok (db.updateJobs (fun r => r.jobId = job.jobId) runningRow runningRow_jobId)
  else pure ()

def markRunningScript (job : Job) (nowMs : Int) : Script Db Exc Job := do
  let held ← Script.select fun db => heldRow db job nowMs fun row =>
    "Job '" ++ job.jobId ++ "' is in unexpected state '" ++ row.state.text ++ "'."
  let row ← Script.ofExcept held
  startJobScript row job
  pure { job with
    state := .running
    leaseExpiresMs := row.leaseExpiresMs
    attemptsStarted := row.attemptsStarted
    selectedAttemptId := row.selectedAttemptId
    terminalReason := row.terminalReason }

def heartbeatScript (job : Job) (nowMs extensionMs : Int) : Script Db Exc Job := do
  let held ← Script.select fun db => heldRow db job nowMs fun row =>
    "Cannot heartbeat non-active job '" ++ job.jobId ++ "' in state '" ++ row.state.text ++ "'."
  let row ← Script.ofExcept held
  let expires := nowMs + extensionMs
  Script.execute fun db => do
    bindInteger (some expires)
    .ok (db.updateJobs (fun r => r.jobId = job.jobId) (extendedRow expires)
      (extendedRow_jobId expires))
  pure { job with
    state := row.state
    workerId := row.workerId
    leaseExpiresMs := some expires
    attemptsStarted := row.attemptsStarted
    selectedAttemptId := row.selectedAttemptId
    terminalReason := row.terminalReason }

/-- Case 3 of `complete`. -/
def commitScript (job : Job) (attempt : EvaluationAttempt) (nowMs : Int) :
    Script Db Exc CompletionStatus := do
  let finishedAt ← Script.ofExcept (finishedAtOf attempt nowMs)
  Script.ofExcept (dumps attempt.resources.toJson)
  Script.execute fun db => do
    bindInteger attempt.exitCode
    bindInteger attempt.testsPassed
    bindInteger attempt.testsFailed
    db.updateAttempts (fun row => row.attemptId = attempt.attemptId)
      (committedRow attempt finishedAt) (committedRow_attemptId attempt finishedAt)
  Script.execute fun db => .ok (db.updateJobs (fun row => row.jobId = job.jobId)
    (finishedRow attempt) (finishedRow_jobId attempt))
  updateRunStateScript job.runId nowMs
  pure .committed

def completeStaleScript (attempt : EvaluationAttempt) (nowMs : Int) :
    Script Db Exc CompletionStatus := do
  markAttemptStaleScript attempt nowMs
  pure .stale

def completeScript (job : Job) (attempt : EvaluationAttempt) (nowMs : Int) :
    Script Db Exc CompletionStatus := do
  let row ← Script.select fun db => db.jobs.find? job.jobId
  match row with
  | none =>
      Script.ofExcept (raiseWith .infrastructureError ("Job '" ++ job.jobId ++ "' not found."))
  | some row =>
      if row.state.isTerminal then
        if row.selectedAttemptId = some attempt.attemptId then do
          let status ← Script.select fun db => completeSelected db attempt
          Script.ofExcept status
        else completeStaleScript attempt nowMs
      else if leaseLapsed row job attempt nowMs then completeStaleScript attempt nowMs
      else if workerMismatch row job then pure .stale
      else do
        let agrees ← Script.select fun db => identityAgrees db job attempt
        if !agrees then Script.ofExcept (raiseWith .identityConflict ("Attempt '" ++
          attempt.attemptId ++ "' does not match job '" ++ job.jobId ++ "' with fence " ++
            toString job.fence ++ "."))
        else commitScript job attempt nowMs

/-- The UPDATE of the attempt of a reaped job, if it has one. -/
def abandonAttemptScript (attemptId : Option String) (now : Datetime) : Script Db Exc Unit :=
  match attemptId with
  | none | some "" => pure ()
  | some attemptId => Script.execute fun db => abandonAttempt db (some attemptId) now

/-- The retry budget of a reaped job. -/
def maxAttemptsScript (maxAttempts : Option Int) (runId : String) : Script Db Exc Int :=
  match maxAttempts with
  | some maxAttempts => pure maxAttempts
  | none => Script.select fun db => manifestMaxAttempts db runId

def reapRowScript (maxAttempts : Option Int) (now : Datetime) (row : Job) : Script Db Exc Unit := do
  abandonAttemptScript row.attemptId now
  let runCancelled ← Script.select fun db => cancelRequested db row.runId
  let effectiveMaxAttempts ← maxAttemptsScript maxAttempts row.runId
  let outcome : JobState × Option String :=
    if runCancelled then (.failed, some "CANCELLED")
    else if row.attemptsStarted < effectiveMaxAttempts then (.pending, none)
    else (.failed, some "LEASE_EXPIRED")
  Script.execute fun db => .ok (db.updateJobs (fun job => job.jobId = row.jobId)
    (releasedRow outcome) (releasedRow_jobId outcome))

def reapExpiredScript (nowMs : Int) (maxAttempts : Option Int) : Script Db Exc (List String) := do
  Script.ofExcept (bindInteger (some nowMs))
  let rows ← Script.select fun db => expiredRows db nowMs
  let now ← Script.ofExcept (isoOfMs nowMs)
  Script.forEach (reapRowScript maxAttempts now) rows
  Script.forEach (fun runId => updateRunStateScript runId nowMs) (rows.map Job.runId).dedup
  pure (rows.map Job.jobId)

def requestCancelScript (runId : String) (nowMs : Int) : Script Db Exc Unit := do
  Script.execute fun db => .ok (db.updateRun runId cancelledRun cancelledRun_runId)
  Script.execute fun db => .ok (failPending db runId)
  updateRunStateScript runId nowMs

/-! ## What the scripts do as a whole -/

section Run

variable {db : Db}

theorem validArtifactDigestScript_run (digest : Option String) :
    (validArtifactDigestScript digest).run db = .ok (validArtifactDigest db digest, db) := by
  cases digest <;> rfl

/-- The digests are looked up one statement each, and nothing is written in between. -/
theorem validDigestsScript_run (digests : List String) :
    (validDigestsScript digests).run db =
      .ok (digests.filter fun d => (validArtifactDigest db (some d)).isSome, db) := by
  induction digests with
  | nil => rfl
  | cons digest rest ih =>
      rw [validDigestsScript, Script.run_bind_ok (validArtifactDigestScript_run (some digest)),
        Script.run_bind_ok ih, Script.run_pure, List.filter_cons]

/-- The helper of a late submission: the lookups first, then one guarded UPDATE. -/
theorem markAttemptStaleScript_run (attempt : EvaluationAttempt) (nowMs : Int) :
    (markAttemptStaleScript attempt nowMs).run db =
      (markAttemptStale db (some (.inr attempt)) nowMs).map ((), ·) := by
  rw [markAttemptStaleScript, Script.run_ofExcept_bind, markAttemptStale]
  cases isoOfMs nowMs with
  | error exc => rfl
  | ok now =>
      change (validArtifactDigestScript attempt.stdoutHash >>= _).run db = _
      rw [Script.run_bind_ok (validArtifactDigestScript_run _),
        Script.run_bind_ok (validArtifactDigestScript_run _),
        Script.run_bind_ok (validArtifactDigestScript_run _), Script.run_ofExcept_bind]
      cases dumps attempt.resources.toJson with
      | error exc => rfl
      | ok _ =>
          change (validDigestsScript attempt.artifactDigests >>= _).run db = _
          rw [Script.run_bind_ok (validDigestsScript_run _), Script.run_execute]
          rfl

theorem updateRunStateScript_run (runId : String) (nowMs : Int) :
    (updateRunStateScript runId nowMs).run db = (updateRunState db runId nowMs).map ((), ·) := by
  rw [updateRunStateScript, Script.run_select_bind, updateRunState]
  cases db.auditRuns.find? runId with
  | none => rfl
  | some run =>
      dsimp only
      split
      · rfl
      · rw [Script.run_select_bind]
        split
        · rfl
        · split
          · split
            · rfl
            · rfl
          · rw [Script.run_ofExcept_bind]
            cases isoOfMs nowMs <;> rfl

/-- The row a claim has just read is still pending, so the guarded UPDATE hits it. -/
theorem leaseScript_run {row : Job} {runId : Option String} (hrow : nextPending db runId = some row)
    (workerId : String) (expires : Int) (draw : Draw) {α : Type} {next : Nat → Script Db Exc α} :
    ∃ rowcount, rowcount ≠ 0 ∧ (leaseScript row workerId expires draw >>= next).run db =
      (do
        bindInteger (some (row.fence + 1))
        bindInteger (some expires)
        bindInteger (some (row.attemptsStarted + 1))
        (next rowcount).run
          (db.updateJobs (fun job => job.jobId = row.jobId && job.state = .pending)
            (leasedRow row workerId expires draw)
            (leasedRow_jobId row workerId expires draw))) := by
  obtain ⟨hfind, hpending, _⟩ := nextPending_some hrow
  have hselected :
      row ∈ db.jobs.select fun job => job.jobId = row.jobId && job.state = .pending := by
    rw [Table.mem_select]
    exact ⟨Table.mem_of_find? hfind, by simp [hpending]⟩
  refine ⟨_, (List.length_pos_of_mem hselected).ne', ?_⟩
  rw [Script.run_bind, leaseScript, Script.run]
  cases bindInteger (some (row.fence + 1)) with
  | error exc => rfl
  | ok _ =>
      cases bindInteger (some expires) with
      | error exc => rfl
      | ok _ => cases bindInteger (some (row.attemptsStarted + 1)) <;> rfl

/-- The statements of a claim that has got its row. -/
theorem grantScript_run (row : Job) (workerId : String) (nowMs leaseDurationMs : Int) (draw : Draw)
    {leased : Db} :
    (do
      let now ← Script.ofExcept (isoOfMs nowMs)
      Script.execute fun db => db.insertAttempt (activeAttempt row.jobId (row.fence + 1) draw now)
      updateRunStateScript row.runId nowMs
      pure (some (grantedJob row workerId (nowMs + leaseDurationMs) draw)) :
        Script Db Exc (Option Job)).run leased =
      (do
        let now ← isoOfMs nowMs
        let db ← leased.insertAttempt (activeAttempt row.jobId (row.fence + 1) draw now)
        let db ← updateRunState db row.runId nowMs
        .ok (some (grantedJob row workerId (nowMs + leaseDurationMs) draw), db)) := by
  rw [Script.run_ofExcept_bind]
  cases isoOfMs nowMs with
  | error exc => rfl
  | ok now =>
      change (Script.execute _ >>= _).run leased = leased.insertAttempt _ >>= _
      rw [Script.run_execute_bind]
      cases leased.insertAttempt (activeAttempt row.jobId (row.fence + 1) draw now) with
      | error exc => rfl
      | ok db =>
          change (updateRunStateScript row.runId nowMs >>= _).run db = _
          rw [Script.run_bind_of_run (updateRunStateScript_run row.runId nowMs)]
          rfl

/-- By induction on the turns of the loop, each of which is a SELECT followed by a sweep or a
grant. -/
theorem claimScript_run (workerId : String) (nowMs : Int) (runId : Option String)
    (leaseDurationMs : Int) (draw : Draw) (fuel : Nat) :
    (claimScript workerId nowMs runId leaseDurationMs draw fuel).run db =
      claimLoop workerId nowMs runId leaseDurationMs draw fuel db := by
  induction fuel generalizing db with
  | zero => rfl
  | succ fuel ih =>
      rw [claimScript, Script.run_select_bind, claimLoop]
      cases hrow : nextPending db runId with
      | none => rfl
      | some row =>
          dsimp only
          rw [Script.run_select_bind]
          split
          · rw [Script.run_execute_bind]
            change (updateRunStateScript row.runId nowMs >>= _).run (failPending db row.runId) = _
            rw [Script.run_bind_of_run (updateRunStateScript_run row.runId nowMs)]
            cases updateRunState (failPending db row.runId) row.runId nowMs with
            | error exc => rfl
            | ok after => exact ih
          · obtain ⟨rowcount, hne, hlease⟩ := leaseScript_run hrow workerId
              (nowMs + leaseDurationMs) draw
            rw [hlease, if_neg hne, grantScript_run]
            simp only [grant, bind_assoc]
            rfl

theorem markRunningScript_run (job : Job) (nowMs : Int) :
    transaction db (markRunningScript job nowMs).run = markRunning db job nowMs := by
  unfold markRunning
  congr 1
  funext db
  rw [markRunningScript, Script.run_select_bind, Script.run_ofExcept_bind]
  congr 1
  funext row
  have hstart : (startJobScript row job).run db =
      (.ok (if row.state = .claimed then
        db.updateJobs (fun r => r.jobId = job.jobId) runningRow runningRow_jobId else db) :
          Except Exc Db).map ((), ·) := by
    unfold startJobScript
    split <;> rfl
  exact Script.run_bind_of_run hstart

/-- The transaction around the statements undoes them where the call raises. -/
theorem heartbeatScript_run (job : Job) (nowMs extensionMs : Int) :
    transaction db (heartbeatScript job nowMs extensionMs).run =
      heartbeat db job nowMs extensionMs := by
  unfold heartbeat
  congr 1
  funext db
  rw [heartbeatScript, Script.run_select_bind, Script.run_ofExcept_bind]
  congr 1
  funext row
  change (Script.execute _ >>= _).run db = _
  rw [Script.run_execute_bind]
  dsimp only
  cases bindInteger (some (nowMs + extensionMs)) <;> rfl

/-- The two UPDATEs of a commit, and the close of the run behind them. -/
theorem commitScript_run (job : Job) (attempt : EvaluationAttempt) (nowMs : Int) :
    (commitScript job attempt nowMs).run db = completeCommit db job attempt nowMs := by
  rw [commitScript, Script.run_ofExcept_bind, completeCommit, commit]
  cases finishedAtOf attempt nowMs with
  | error exc => rfl
  | ok finishedAt =>
      change (Script.ofExcept _ >>= _).run db = _
      rw [Script.run_ofExcept_bind]
      cases dumps attempt.resources.toJson with
      | error exc => rfl
      | ok _ =>
          change (Script.execute _ >>= _).run db = _
          rw [Script.run_execute_bind]
          cases bindInteger attempt.exitCode with
          | error exc => rfl
          | ok _ =>
              cases bindInteger attempt.testsPassed with
              | error exc => rfl
              | ok _ =>
                  cases bindInteger attempt.testsFailed with
                  | error exc => rfl
                  | ok _ =>
                      simp only [bind, Except.bind]
                      cases db.updateAttempts (fun row => row.attemptId = attempt.attemptId)
                          (committedRow attempt finishedAt)
                          (committedRow_attemptId attempt finishedAt) with
                      | error exc => rfl
                      | ok after =>
                          exact Script.run_bind_of_run (updateRunStateScript_run job.runId nowMs)

theorem completeStaleScript_run (attempt : EvaluationAttempt) (nowMs : Int) :
    (completeStaleScript attempt nowMs).run db = completeStale db attempt nowMs :=
  Script.run_bind_of_run (markAttemptStaleScript_run attempt nowMs)

/-- The branches of the call are taken on rows that were read inside the same transaction. -/
theorem completeScript_run (job : Job) (attempt : EvaluationAttempt) (nowMs : Int) :
    (completeScript job attempt nowMs).run db = completeBody db job attempt nowMs := by
  rw [completeScript, Script.run_select_bind, completeBody]
  cases db.jobs.find? job.jobId with
  | none => rfl
  | some row =>
      dsimp only
      split
      · rw [completeTerminal]
        split
        · rw [Script.run_select_bind, Script.run_ofExcept]
          cases completeSelected db attempt <;> rfl
        · exact completeStaleScript_run attempt nowMs
      · rw [completeLive]
        split
        · exact completeStaleScript_run attempt nowMs
        · split
          · rfl
          · rw [Script.run_select_bind]
            split
            · rfl
            · exact commitScript_run job attempt nowMs

theorem abandonAttemptScript_run (attemptId : Option String) (now : Datetime) :
    (abandonAttemptScript attemptId now).run db =
      (abandonAttempt db attemptId now).map ((), ·) := by
  unfold abandonAttemptScript
  split
  · rfl
  · rfl
  · rw [Script.run_execute]

theorem reapRowScript_run (maxAttempts : Option Int) (now : Datetime) (row : Job) (db : Db) :
    (reapRowScript maxAttempts now row).run db =
      (reapRow maxAttempts now db row).map ((), ·) := by
  rw [reapRowScript, Script.run_bind_of_run (abandonAttemptScript_run row.attemptId now), reapRow]
  cases abandonAttempt db row.attemptId now with
  | error exc => rfl
  | ok after => cases maxAttempts <;> rfl

/-- The expired jobs are read once; the loop over them writes rows it does not read again. -/
theorem reapExpiredScript_run (nowMs : Int) (maxAttempts : Option Int) :
    transaction db (reapExpiredScript nowMs maxAttempts).run =
      reapExpired db nowMs maxAttempts := by
  unfold reapExpired
  congr 1
  funext db
  rw [reapExpiredScript, Script.run_ofExcept_bind]
  congr 1
  funext _
  rw [Script.run_select_bind, Script.run_ofExcept_bind]
  congr 1
  funext now
  rw [Script.run_bind_of_run (Script.run_forEach (reapRowScript_run maxAttempts now) _ db)]
  congr 1
  funext after
  rw [Script.run_bind_of_run (Script.run_forEach
    (fun runId state => updateRunStateScript_run runId nowMs) _ after)]
  rfl

theorem requestCancelScript_run (runId : String) (nowMs : Int) :
    transaction db (requestCancelScript runId nowMs).run = requestCancel db runId nowMs := by
  unfold requestCancel
  congr 1
  funext db
  rw [requestCancelScript, Script.run_execute_bind]
  change (Script.execute _ >>= _).run (db.updateRun runId cancelledRun cancelledRun_runId) = _
  rw [Script.run_execute_bind]
  change (updateRunStateScript runId nowMs).run _ = _
  rw [updateRunStateScript_run]
  dsimp only
  cases updateRunState (failPending (db.updateRun runId cancelledRun cancelledRun_runId) runId)
    runId
    nowMs <;> rfl

end Run

end VerifierCI
