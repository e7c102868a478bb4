import VerifierCI.Execution.WorkerSteps

/-! # Turns of the worker

A turn whose claim finds a job either raises or hands in one submission. Which
of the two it is depends on the job's data alone; under a live lease the
submission is committed.
-/

namespace VerifierCI

open Python Relational

/-! ## The handle of a turn -/

section Handle

variable {db db' : Db} {nowMs : Int}

theorem claimLoop_attemptId {workerId : String} {runId : Option String} {leaseDurationMs : Int}
    {draw : Draw} {fuel : Nat} {job : Job}
    (h : claimLoop workerId nowMs runId leaseDurationMs draw fuel db = .ok (some job, db')) :
    job.attemptId = some draw.attemptId := by
  induction fuel generalizing db with
  | zero => cases h
  | succ fuel ih =>
      rcases claimLoop_ok h with
        ⟨_, hnone, _⟩ | ⟨_, _, _, _, _, hrest⟩ | ⟨row, granted, _, _, hjob, hgrant⟩
      · cases hnone
      · exact ih hrest
      · obtain rfl := Option.some.inj hjob
        rw [(grant_ok hgrant).1]
        rfl

/-- A claim that finds nothing leaves nothing pending. -/
theorem claimLoop_none {workerId : String} {runId : Option String} {leaseDurationMs : Int}
    {draw : Draw} {fuel : Nat}
    (h : claimLoop workerId nowMs runId leaseDurationMs draw fuel db = .ok (none, db')) :
    nextPending db' runId = none := by
  induction fuel generalizing db with
  | zero => cases h
  | succ fuel ih =>
      rcases claimLoop_ok h with ⟨hnone, _, rfl⟩ | ⟨_, _, _, _, _, hrest⟩ | ⟨_, _, _, _, hjob, _⟩
      · exact hnone
      · exact ih hrest
      · cases hjob

theorem claim_ok {workerId : String} {runId : Option String} {leaseDurationMs : Int} {draw : Draw}
    {result : Option Job}
    (h : (claim db workerId nowMs runId leaseDurationMs draw).1 = .ok result) :
    claimLoop workerId nowMs runId leaseDurationMs draw (db.jobs.rows.length + 1) db =
      .ok (result, (claim db workerId nowMs runId leaseDurationMs draw).2) := by
  rcases claim_cases db workerId nowMs runId leaseDurationMs draw with
    ⟨result', db', hloop, heq⟩ | ⟨exc, heq⟩
  · rw [heq] at h ⊢
    obtain rfl := Except.ok.inj h
    exact hloop
  · rw [heq] at h
    cases h

theorem claim_attemptId {workerId : String} {runId : Option String} {leaseDurationMs : Int}
    {draw : Draw} {job : Job}
    (h : (claim db workerId nowMs runId leaseDurationMs draw).1 = .ok (some job)) :
    job.attemptId = some draw.attemptId :=
  claimLoop_attemptId (claim_ok h)

structure SameHandle (job job' : Job) : Prop where
  jobId : job'.jobId = job.jobId
  attemptId : job'.attemptId = job.attemptId
  fence : job'.fence = job.fence

theorem SameHandle.trans {job job' job'' : Job} (first : SameHandle job job')
    (second : SameHandle job' job'') : SameHandle job job'' :=
  ⟨second.jobId.trans first.jobId, second.attemptId.trans first.attemptId,
    second.fence.trans first.fence⟩

theorem markRunning_handle {job running : Job} (h : (markRunning db job nowMs).1 = .ok running) :
    SameHandle job running := by
  rcases markRunning_cases db job nowMs with ⟨row, _, _, heq⟩ | ⟨exc, _, heq⟩
  · rw [heq] at h
    obtain rfl := Except.ok.inj h
    exact ⟨rfl, rfl, rfl⟩
  · rw [heq] at h
    cases h

/-- The lease stays on one job of a reachable queue. -/
structure Lease.Keeps (job : Job) (lease : Lease) : Prop where
  reachable : lease.db.Reachable
  handle : SameHandle job lease.job

/-- A heartbeat of the thread renews the lease or fails, and calls of others leave it. -/
theorem Lease.Keeps.step {job : Job} {lease : Lease} (h : lease.Keeps job) (extensionMs : Int)
    (event : Event) : (lease.step extensionMs event).Keeps job := by
  cases event with
  | call op => exact ⟨h.reachable.call op, h.handle⟩
  | heartbeat nowMs =>
      have hdb : (heartbeat lease.db lease.job nowMs extensionMs).2.Reachable :=
        h.reachable.call (.heartbeat lease.job nowMs extensionMs)
      unfold Lease.step
      dsimp only
      split
      · rcases heartbeat_cases lease.db lease.job nowMs extensionMs with
          ⟨row, _, _, heq⟩ | ⟨row, _, _, heq⟩ | ⟨exc, _, heq⟩
        · rw [heq] at hdb ⊢
          exact ⟨hdb, h.handle.trans ⟨rfl, rfl, rfl⟩⟩
        · rw [heq] at hdb ⊢
          exact ⟨hdb, h.handle⟩
        · rw [heq] at hdb ⊢
          exact ⟨hdb, h.handle⟩
      · exact h

theorem hold_keeps (worker : Worker) (turn : Turn) {job : Job} (hdb : db.Reachable) :
    (turn.hold worker db job).Keeps job :=
  Transition.run_invariant (Lease.Keeps job) (fun _ event h => h.step _ event)
    ⟨hdb, rfl, rfl, rfl⟩ turn.meanwhile

end Handle

/-! ## From execution to submission -/

section Evaluation

variable (sha256 : List UInt8 → Digest) (maxNesting : Nat) (worker : Worker) (turn : Turn)
  (attemptId : String)

/-- No step of the evaluation raises. -/
structure Survives : Prop where
  commands : AttemptRuns worker turn attemptId
  outputs : Collectable (executed sha256 worker turn attemptId).1
    (executed sha256 worker turn attemptId).2.2
  report : ¬ ReportRaises maxNesting (executed sha256 worker turn attemptId).1
    (executed sha256 worker turn attemptId).2.1
    (reportBytesOf (executed sha256 worker turn attemptId).1
      (executed sha256 worker turn attemptId).2.2)

def turnCollected : Collected :=
  collectedOf sha256 (executed sha256 worker turn attemptId).1
    (executed sha256 worker turn attemptId).2.2

def turnCapture : ExecutionCapture :=
  evidenced (executed sha256 worker turn attemptId).1 (executed sha256 worker turn attemptId).2.1
    (turnCollected sha256 worker turn attemptId)

def TurnClassified (parsed : ParsedOutcome) : Prop :=
  classify maxNesting (executed sha256 worker turn attemptId).1
    (executed sha256 worker turn attemptId).2.1 (turnCollected sha256 worker turn attemptId) =
      .ok (turnCapture sha256 worker turn attemptId, parsed)

def turnAttempt (lease : Lease) (parsed : ParsedOutcome) : EvaluationAttempt :=
  turn.attempt attemptId lease (turnCapture sha256 worker turn attemptId) parsed
    (turnCollected sha256 worker turn attemptId)

variable {sha256 maxNesting worker turn attemptId}

/-- Nothing raises, so the classification comes to an outcome. -/
theorem Survives.classified (h : Survives sha256 maxNesting worker turn attemptId) :
    ∃ parsed, TurnClassified sha256 maxNesting worker turn attemptId parsed := by
  have hreport : ¬ ReportRaises maxNesting (executed sha256 worker turn attemptId).1
      (executed sha256 worker turn attemptId).2.1
      (turnCollected sha256 worker turn attemptId).reportBytes := h.report
  obtain ⟨⟨capture, parsed⟩, hclassify⟩ := classify_isOk_iff.mpr hreport
  obtain ⟨rfl, _⟩ := classify_ok hclassify
  exact ⟨parsed, hclassify⟩

theorem TurnClassified.not_raises {parsed : ParsedOutcome}
    (h : TurnClassified sha256 maxNesting worker turn attemptId parsed) :
    ¬ ReportRaises maxNesting (executed sha256 worker turn attemptId).1
      (executed sha256 worker turn attemptId).2.1
      (turnCollected sha256 worker turn attemptId).reportBytes :=
  classify_isOk_iff.mp ⟨_, h⟩

variable (sha256 maxNesting worker turn attemptId)

/-- The evaluation raises, or comes to an attempt whose digests are registered. -/
theorem evaluate_cases (store : ArtifactStore) (job : Job) :
    ∃ store', Stores { store with db := (turn.hold worker store.db job).db } store' ∧
      ((¬ Survives sha256 maxNesting worker turn attemptId ∧ ∃ exc,
        evaluate sha256 maxNesting worker turn job attemptId store = (.error exc, store')) ∨
      (Survives sha256 maxNesting worker turn attemptId ∧ ∃ parsed,
        TurnClassified sha256 maxNesting worker turn attemptId parsed ∧
        (turnCollected sha256 worker turn attemptId).Registered store'.db ∧
        evaluate sha256 maxNesting worker turn job attemptId store =
          (.ok ((turn.hold worker store.db job).job,
            turnAttempt sha256 worker turn attemptId (turn.hold worker store.db job) parsed),
            store'))) := by
  -- Three stages can raise: the commands, the outputs, the report. None touches the queue.
  cases hexecuted : executeAttempt sha256 worker turn attemptId with
  | error exc =>
      refine ⟨_, .refl _, Or.inl ⟨?_, exc, ?_⟩⟩
      · intro hsurvives
        rw [executeAttempt_eq_ok_iff.mpr ⟨hsurvives.commands, rfl⟩] at hexecuted
        cases hexecuted
      · simp only [evaluate, hexecuted]
  | ok result =>
      obtain ⟨hcommands, rfl⟩ := executeAttempt_eq_ok_iff.mp hexecuted
      -- what was stored before an output was refused stays stored
      obtain ⟨store', hstores, ⟨hcollectable, hcollect, hregistered⟩ | ⟨hnot, exc, hcollect⟩⟩ :=
        collect_cases sha256 turn.collectedAt
          { store with db := (turn.hold worker store.db job).db }
          (executed sha256 worker turn attemptId).1 (executed sha256 worker turn attemptId).2.2
      swap
      · refine ⟨store', hstores, Or.inl ⟨fun hsurvives => hnot hsurvives.outputs, exc, ?_⟩⟩
        simp only [evaluate, hexecuted, hcollect]
      refine ⟨store', hstores, ?_⟩
      cases hclassify : classify maxNesting (executed sha256 worker turn attemptId).1
          (executed sha256 worker turn attemptId).2.1
          (turnCollected sha256 worker turn attemptId) with
      | error exc =>
          refine Or.inl ⟨?_, exc, ?_⟩
          · intro hsurvives
            obtain ⟨parsed, hparsed⟩ := hsurvives.classified
            rw [TurnClassified, hclassify] at hparsed
            cases hparsed
          · rw [turnCollected] at hclassify
            simp only [evaluate, hexecuted, hcollect, hclassify]
      | ok classified =>
          obtain ⟨capture, parsed⟩ := classified
          obtain ⟨rfl, _⟩ := classify_ok hclassify
          refine Or.inr ⟨⟨hcommands, hcollectable, TurnClassified.not_raises hclassify⟩, parsed,
            hclassify, hregistered, ?_⟩
          rw [turnCollected] at hclassify
          simp only [evaluate, hexecuted, hcollect, hclassify]
          rfl

variable {sha256 maxNesting worker turn attemptId}

/-- The counts of a report fit their columns. -/
theorem count_fits {reportBytes : Option (List UInt8)} {parsed : ParsedOutcome}
    (hparsed : Parsed maxNesting reportBytes parsed)
    (hbytes : ∀ bytes ∈ reportBytes, bytes.length ≤ maxArtifactBytes) (status : TestStatus) :
    ∀ n ∈ parsed.report.map fun report => ((report.results.countP (·.status = status) : Nat) : Int),
      0 ≤ n ∧ n ≤ maxInteger := by
  intro n hn
  obtain ⟨report, hreport, rfl⟩ := Option.map_eq_some_iff.mp hn
  obtain ⟨bytes, hsome, hlength⟩ := hparsed.counted report hreport
  have hcount : report.results.countP (fun result => result.status = status) ≤
      report.results.length := List.countP_le_length
  have hsize := hbytes bytes hsome
  unfold maxArtifactBytes at hsize
  unfold maxInteger
  omega

/-- What is classified is gradable wherever its digests are registered. A failed
preparation brings no digests of its own. -/
theorem attempt_gradable {db : Db} {lease : Lease} {manifest : Option VerifierManifest}
    {capture evidence : ExecutionCapture} {collected : Collected} {parsed : ParsedOutcome}
    {nowMs : Int}
    (hclassify : classify maxNesting manifest capture collected = .ok (evidence, parsed))
    (hrecordable : capture.Recordable)
    (hunresolved : manifest = none → capture.stdoutHash = none ∧ capture.stderrHash = none ∧
      capture.reportDigest = none)
    (hregistered : collected.Registered db)
    (hbytes : ∀ bytes ∈ collected.reportBytes, bytes.length ≤ maxArtifactBytes)
    (hclock : (Datetime.fromTimestampMs? nowMs).isSome = true) :
    (turn.attempt attemptId lease evidence parsed collected).Gradable db nowMs := by
  obtain ⟨rfl, hparsed, _⟩ := classify_ok hclassify
  -- Without a manifest nothing was collected, and the capture names no digest.
  have hevidence : db.HasArtifact (evidenced manifest capture collected).stdoutHash ∧
      db.HasArtifact (evidenced manifest capture collected).stderrHash ∧
      db.HasArtifact (evidenced manifest capture collected).reportDigest := by
    cases manifest with
    | some manifest =>
        exact ⟨hregistered.stdoutHash, hregistered.stderrHash, hregistered.reportDigest⟩
    | none =>
        obtain ⟨hstdout, hstderr, hreport⟩ := hunresolved rfl
        simp only [evidenced, hstdout, hstderr, hreport]
        exact ⟨by rintro _ ⟨⟩, by rintro _ ⟨⟩, by rintro _ ⟨⟩⟩
  exact {
    clock := hclock
    exitCode := by
      intro n hn
      apply hrecordable.exitCode n
      rw [← evidenced_exitCode]
      exact hn
    testsPassed := count_fits hparsed hbytes .passed
    testsFailed := count_fits hparsed hbytes .failed
    resources := by
      have hresources := hrecordable.resources
      rw [← evidenced_resources] at hresources
      exact hresources
    spellable := by
      have hspellable := hrecordable.spellable
      rw [← evidenced_resources] at hspellable
      exact hspellable
    status := by
      cases houtcome : parsed.outcome with
      | accept =>
          exact Or.inl ⟨hparsed.consistent.valid (Or.inl houtcome),
            Or.inl (congrArg some houtcome)⟩
      | reject =>
          exact Or.inl ⟨hparsed.consistent.valid (Or.inr houtcome),
            Or.inr (congrArg some houtcome)⟩
      | invalidEvaluation =>
          exact Or.inr ⟨hparsed.consistent.invalid (Or.inl houtcome),
            Or.inl (congrArg some houtcome)⟩
      | error =>
          exact Or.inr ⟨hparsed.consistent.invalid (Or.inr houtcome),
            Or.inr (congrArg some houtcome)⟩
    stdoutHash := hevidence.1
    stderrHash := hevidence.2.1
    reportDigest := hevidence.2.2 }

/-- What a turn hands in is gradable wherever its digests are registered. -/
theorem turnAttempt_gradable {db : Db} {lease : Lease} {parsed : ParsedOutcome}
    (hclassified : TurnClassified sha256 maxNesting worker turn attemptId parsed)
    (hregistered : (turnCollected sha256 worker turn attemptId).Registered db)
    (hclock : (Datetime.fromTimestampMs? turn.completeMs).isSome = true) :
    (turnAttempt sha256 worker turn attemptId lease parsed).Gradable db turn.completeMs := by
  have hbytes : ∀ bytes ∈ (turnCollected sha256 worker turn attemptId).reportBytes,
      bytes.length ≤ maxArtifactBytes := by
    intro bytes hsome
    obtain ⟨content, _, rfl⟩ := Option.map_eq_some_iff.mp hsome
    exact List.length_take_le _ _
  exact attempt_gradable hclassified (executed_recordable sha256 worker turn attemptId)
    (executed_unresolved sha256 worker turn attemptId) hregistered hbytes hclock

end Evaluation

/-! ## One turn -/

section Turn

variable (sha256 : List UInt8 → Digest) (maxNesting : Nat) (worker : Worker)
  (runId : Option String) (turn : Turn) (store : ArtifactStore)

def turnClaim : Except Exc (Option Job) × Db :=
  claim (Transition.run Db.call store.db turn.before) worker.workerId turn.nowMs runId
    worker.leaseDurationMs turn.draw

/-- The job is claimed, put into running and completed under one live lease. -/
structure LiveThroughout (job : Job) (db : Db) : Prop where
  running : ∃ row, (Transition.run Db.call db turn.others).jobs.find? job.jobId = some row ∧
    LiveHandle row job turn.runningMs
  completing : ∀ running db' handle attempt store',
    markRunning (Transition.run Db.call db turn.others) job turn.runningMs = (.ok running, db') →
    evaluate sha256 maxNesting worker turn running (turn.attemptId job) { store with db := db' } =
      (.ok (handle, attempt), store') →
    ∃ row, (Transition.run Db.call store'.db turn.late).jobs.find? handle.jobId = some row ∧
      LiveHandle row handle turn.completeMs
  clock : (Datetime.fromTimestampMs? turn.completeMs).isSome = true

/-- The turn claims this job and hands this attempt to `complete`. -/
structure Submitted (job : Job) (attempt : EvaluationAttempt) : Prop where
  claimed : (turnClaim worker runId turn store).1 = .ok (some job)
  evaluated : ∃ running db handle store',
    markRunning (Transition.run Db.call (turnClaim worker runId turn store).2 turn.others) job
      turn.runningMs = (.ok running, db) ∧
    evaluate sha256 maxNesting worker turn running (turn.attemptId job) { store with db := db } =
      (.ok (handle, attempt), store')

/-- The database answers the claim, and the lease of a claimed job stays live. -/
structure Works : Prop where
  claims : ∃ claimed, (turnClaim worker runId turn store).1 = .ok claimed
  live : ∀ job, (turnClaim worker runId turn store).1 = .ok (some job) →
    LiveThroughout sha256 maxNesting worker turn store job (turnClaim worker runId turn store).2

variable {sha256 maxNesting worker runId turn store}

/-- What is handed in is the attempt as it was classified. -/
theorem Submitted.attempt {job : Job} {attempt : EvaluationAttempt}
    (h : Submitted sha256 maxNesting worker runId turn store job attempt) :
    ∃ lease parsed, TurnClassified sha256 maxNesting worker turn (turn.attemptId job) parsed ∧
      attempt = turnAttempt sha256 worker turn (turn.attemptId job) lease parsed := by
  obtain ⟨running, db, handle, store', _, hevaluate⟩ := h.evaluated
  obtain ⟨last, _, ⟨_, exc, herror⟩ | ⟨_, parsed, hclassified, _, hok⟩⟩ :=
    evaluate_cases sha256 maxNesting worker turn (turn.attemptId job) { store with db := db }
      running
  · rw [herror] at hevaluate
    cases (Prod.mk.inj hevaluate).1
  · rw [hok] at hevaluate
    obtain ⟨_, rfl⟩ := Prod.mk.inj (Except.ok.inj (Prod.mk.inj hevaluate).1)
    exact ⟨_, parsed, hclassified, rfl⟩

/-- An attempt is handed in only if nothing raised. -/
theorem Submitted.survives {job : Job} {attempt : EvaluationAttempt}
    (h : Submitted sha256 maxNesting worker runId turn store job attempt) :
    Survives sha256 maxNesting worker turn (turn.attemptId job) := by
  obtain ⟨running, db, handle, store', _, hevaluate⟩ := h.evaluated
  obtain ⟨last, _, ⟨_, exc, herror⟩ | ⟨hsurvives, _⟩⟩ :=
    evaluate_cases sha256 maxNesting worker turn (turn.attemptId job) { store with db := db }
      running
  · rw [herror] at hevaluate
    cases (Prod.mk.inj hevaluate).1
  · exact hsurvives

theorem turnClaim_reachable (hdb : store.db.Reachable) :
    (turnClaim worker runId turn store).2.Reachable :=
  (hdb.run turn.before).call
    (.claim worker.workerId turn.nowMs runId worker.leaseDurationMs turn.draw)

theorem turn_attemptId {job : Job} (hjob : (turnClaim worker runId turn store).1 = .ok (some job)) :
    job.attemptId = some (turn.attemptId job) := by
  have hid : job.attemptId = some turn.draw.attemptId := claim_attemptId hjob
  rw [Turn.attemptId, hid, Option.filter_some_pos (by simpa using turn.draw.attemptId_ne)]
  rfl

theorem Stores.reachable {store' : ArtifactStore} (h : Stores store store')
    (hdb : store.db.Reachable) : store'.db.Reachable := by
  rw [h.queue]
  exact hdb.artifacts _

/-- Artifacts are never removed, so what was registered stays so through the calls of others. -/
theorem Collected.Registered.run {collected : Collected} {db : Db} (h : collected.Registered db)
    (hinv : QueueInv db) (ops : List Operation) :
    collected.Registered (Transition.run Db.call db ops) := by
  have hartifacts := (run_evolves hinv ops).artifacts
  have hkeep : ∀ {digest : Option String}, db.HasArtifact digest →
      (Transition.run Db.call db ops).HasArtifact digest := by
    intro digest hdigest d hd
    rw [hartifacts]
    exact hdigest d hd
  exact ⟨hkeep h.stdoutHash, hkeep h.stderrHash, hkeep h.reportDigest⟩

/-- A turn that claims nothing ends there. -/
theorem runOne_empty (hnone : (turnClaim worker runId turn store).1 = .ok none) :
    runOne sha256 maxNesting worker runId turn store =
      (.ok none, { store with db := (turnClaim worker runId turn store).2 }) := by
  have hclaim : claim (Transition.run Db.call store.db turn.before) worker.workerId turn.nowMs runId
      worker.leaseDurationMs turn.draw = (.ok none, (turnClaim worker runId turn store).2) :=
    Prod.ext hnone rfl
  simp only [runOne, hclaim]

/-- Under a live lease a turn that claims a job raises, or commits what it hands in. It raises
as well if its directory cannot be removed after the commit. -/
theorem runOne_of_live (hdb : store.db.Reachable) {job : Job}
    (hjob : (turnClaim worker runId turn store).1 = .ok (some job))
    (hlive : LiveThroughout sha256 maxNesting worker turn store job
      (turnClaim worker runId turn store).2) :
    ∃ store', store'.db.Reachable ∧
      ((¬ (Survives sha256 maxNesting worker turn (turn.attemptId job) ∧
          turn.removable = true) ∧
        ∃ exc, runOne sha256 maxNesting worker runId turn store = (.error exc, store')) ∨
      ((Survives sha256 maxNesting worker turn (turn.attemptId job) ∧
          turn.removable = true) ∧ ∃ handle lease parsed,
        TurnClassified sha256 maxNesting worker turn (turn.attemptId job) parsed ∧
        runOne sha256 maxNesting worker runId turn store = (.ok (some {
          job := handle
          attempt := turnAttempt sha256 worker turn (turn.attemptId job) lease parsed
          status := .committed }), store'))) := by
  have hclaim : claim (Transition.run Db.call store.db turn.before) worker.workerId turn.nowMs runId
      worker.leaseDurationMs turn.draw = (.ok (some job), (turnClaim worker runId turn store).2) :=
    Prod.ext hjob rfl
  have hclaimed : (Transition.run Db.call (turnClaim worker runId turn store).2
      turn.others).Reachable := (turnClaim_reachable hdb).run turn.others
  -- The handle is live when the job is marked, and once more when it completes.
  obtain ⟨row, hrow, hhandle⟩ := hlive.running
  obtain ⟨running, db', hrunning⟩ : ∃ running db', markRunning
      (Transition.run Db.call (turnClaim worker runId turn store).2 turn.others) job
      turn.runningMs = (.ok running, db') := ⟨_, _, markRunning_of_live hrow hhandle⟩
  have hdb' : db'.Reachable := by
    have h := hclaimed.call (.markRunning job turn.runningMs)
    rw [Db.call, hrunning] at h
    exact h
  have hkeeps : (turn.hold worker db' running).Keeps running := hold_keeps worker turn hdb'
  have hsame : SameHandle job (turn.hold worker db' running).job :=
    (markRunning_handle (by rw [hrunning])).trans hkeeps.handle
  obtain ⟨store', hstores, ⟨hnot, exc, hevaluate⟩ | ⟨hsurvives, parsed, hclassified, hregistered,
    hevaluate⟩⟩ := evaluate_cases sha256 maxNesting worker turn (turn.attemptId job)
      { store with db := db' } running
  · refine ⟨store', hstores.reachable hkeeps.reachable, Or.inl ⟨fun h => hnot h.1, exc, ?_⟩⟩
    simp only [runOne, hclaim, hrunning, finish, hevaluate]
  · have hlate : (Transition.run Db.call store'.db turn.late).Reachable :=
      (hstores.reachable hkeeps.reachable).run turn.late
    obtain ⟨row', hrow', hhandle'⟩ := hlive.completing _ _ _ _ _ hrunning hevaluate
    have hsubmits : Submits (turn.hold worker db' running).job
        (turnAttempt sha256 worker turn (turn.attemptId job) (turn.hold worker db' running)
          parsed) :=
      ⟨rfl, hsame.attemptId.trans (turn_attemptId hjob), rfl⟩
    have hcommitted := complete_of_live hlate.queueInv hrow' hhandle' hsubmits
      (turnAttempt_gradable hclassified
        (hregistered.run (hstores.reachable hkeeps.reachable).queueInv turn.late) hlive.clock)
    obtain ⟨done, hcomplete⟩ : ∃ done, complete (Transition.run Db.call store'.db turn.late)
        (turn.hold worker db' running).job
        (turnAttempt sha256 worker turn (turn.attemptId job) (turn.hold worker db' running) parsed)
        turn.completeMs = (.ok .committed, done) := ⟨_, Prod.ext hcommitted rfl⟩
    have hdone : done.Reachable := by
      have h := hlate.call (.complete (turn.hold worker db' running).job
        (turnAttempt sha256 worker turn (turn.attemptId job) (turn.hold worker db' running) parsed)
        turn.completeMs)
      rw [Db.call, hcomplete] at h
      exact h
    refine ⟨{ store' with db := done }, hdone, ?_⟩
    -- The answer is in; only removing the directory can still raise.
    cases hremovable : turn.removable with
    | false =>
        refine Or.inl ⟨fun h => Bool.false_ne_true h.2, .osError, ?_⟩
        simp only [runOne, hclaim, hrunning, finish, hevaluate, hcomplete, hremovable]
        rfl
    | true =>
        refine Or.inr ⟨⟨hsurvives, rfl⟩, (turn.hold worker db' running).job,
          turn.hold worker db' running, parsed, hclassified, ?_⟩
        simp only [runOne, hclaim, hrunning, finish, hevaluate, hcomplete, hremovable, if_true]

end Turn

/-! ## A plain turn -/

section Plain

def soloStore : ArtifactStore where
  root := "/store"
  files := fun _ => none
  db := soloDb

def plainWorker : Worker where
  workerId := "worker"
  workDir := "/work"
  leaseDurationMs := defaultLeaseMs

/-- The SHA-256 digest of the byte `x`. -/
def xDigest : Digest where
  text := "2d711642b726b04401627ca9fbac32f5c8530fb1903cc4db02258717921a4881"
  length_eq := String.length_ofList
  hex := hex_ofList rfl

def clockZero : Datetime where
  micros := 0
  utcoffset := some 0
  micros_mem := Datetime.zero_mem
  utcoffset_mem := Datetime.utc_mem

def quietProcess : Process where
  launchError := none
  timedOut := false
  exitStatus := 0
  exitStatus_mem := exitStatus_zero_mem
  stdout := .closed []
  stderr := .closed []
  writes := .untouched
  elapsed := floatZero
  elapsed_finite := floatZero_finite

def plainManifest (buildCommand command : List String) : VerifierManifest where
  manifestHash := "manifest"
  mode := .compatibility
  command := command
  buildCommand := buildCommand
  expectedCollection := []
  parserId := pytestParserId
  reportPath := "report.json"
  payloadDigest := "payload"
  allowedEditPaths := []
  requiredPassIds := []
  permittedSkips := []
  timeoutSeconds := 60

/-- A turn at time zero that nobody interrupts. -/
def plainTurn (manifest : Except Raised VerifierManifest) (build verification : Process) :
    Turn where
  before := []
  nowMs := 0
  draw := ⟨"attempt", "token", attempt_ne⟩
  uuid := "uuid"
  others := []
  runningMs := 0
  snapshot := .ok ()
  diff := .ok []
  manifest := manifest
  copied := .ok ()
  applied := .ok ()
  captureDir := .present
  refuses := fun _ => false
  build := fun _ => build
  verification := fun _ => verification
  lingering := .untouched
  meanwhile := []
  collectedAt := clockZero
  startedAt := clockZero
  finishedAt := clockZero
  late := []
  completeMs := 0
  removable := true

variable {sha256 : List UInt8 → Digest} {maxNesting : Nat}
  {manifest : Except Raised VerifierManifest} {build verification : Process}

theorem plainTurn_claim :
    (turnClaim plainWorker none (plainTurn manifest build verification) soloStore).1 =
      .ok (some soloHandle) := by
  rfl

theorem soloStore_reachable : soloStore.db.Reachable :=
  .fresh soloDb_fresh

theorem soloHandle_live : LiveHandle soloHandle soloHandle 0 :=
  ⟨rfl, rfl, fun _ => rfl, fun _ => rfl, rfl, rfl⟩

/-- Nobody interrupts the turn, and all its calls are made at time zero, before the
lease ends. -/
theorem plainTurn_works : Works sha256 maxNesting plainWorker none
    (plainTurn manifest build verification) soloStore where
  claims := ⟨some soloHandle, plainTurn_claim⟩
  live := by
    intro job hjob
    obtain rfl := Option.some.inj (Except.ok.inj (plainTurn_claim.symm.trans hjob))
    refine ⟨⟨soloHandle, rfl, soloHandle_live⟩, ?_, rfl⟩
    intro running db' handle attempt store' hrunning hevaluate
    rw [show (plainTurn manifest build verification).runningMs = 0 from rfl,
      markRunning_of_live rfl soloHandle_live] at hrunning
    obtain ⟨hok, rfl⟩ := Prod.mk.inj hrunning
    obtain rfl := Except.ok.inj hok
    obtain ⟨last, hstores, ⟨_, exc, herror⟩ | ⟨_, parsed, _, _, hdone⟩⟩ :=
      evaluate_cases sha256 maxNesting plainWorker (plainTurn manifest build verification)
        ((plainTurn manifest build verification).attemptId soloHandle) { soloStore with db := _ }
        (runningHandle soloHandle soloHandle)
    · rw [herror] at hevaluate
      cases (Prod.mk.inj hevaluate).1
    · rw [hdone] at hevaluate
      obtain ⟨hpair, rfl⟩ := Prod.mk.inj hevaluate
      obtain ⟨rfl, _⟩ := Prod.mk.inj (Except.ok.inj hpair)
      refine ⟨runningRow soloHandle, ?_, rfl, rfl, fun _ => rfl, fun _ => rfl, rfl, rfl⟩
      have hjobs := congrArg Db.jobs hstores.queue
      have hlate : Transition.run Db.call last.db
          (plainTurn manifest build verification).late = last.db := rfl
      rw [hlate, hjobs]
      rfl

/-- A plain turn that survives its job hands in an attempt. -/
theorem plainTurn_submitted (hsurvives : Survives sha256 maxNesting plainWorker
    (plainTurn manifest build verification) "attempt") :
    ∃ attempt, Submitted sha256 maxNesting plainWorker none
      (plainTurn manifest build verification) soloStore soloHandle attempt := by
  obtain ⟨running, db, hrunning⟩ : ∃ running db, markRunning (turnClaim plainWorker none
      (plainTurn manifest build verification) soloStore).2 soloHandle 0 = (.ok running, db) :=
    ⟨_, _, markRunning_of_live rfl soloHandle_live⟩
  obtain ⟨store', _, ⟨hnot, _⟩ | ⟨_, parsed, _, _, hevaluate⟩⟩ :=
    evaluate_cases sha256 maxNesting plainWorker (plainTurn manifest build verification) "attempt"
      { soloStore with db := db } running
  · exact absurd hsurvives hnot
  · exact ⟨_, plainTurn_claim, running, db, _, store', hrunning, hevaluate⟩

/-- The directories hold captured streams and nothing else. -/
structure AttemptFiles.OnlyLogs (files : AttemptFiles) : Prop where
  captureDir : files.captureDir = .present
  place : files.place = .log
  logs : ∀ log, files.entry (.log log) = .missing ∨
    ∃ bytes, files.entry (.log log) = .file bytes ∧ bytes.length ≤ defaultMaxCaptureBytes
  out : ∀ path, files.entry (.out path) = .missing

namespace AttemptFiles.OnlyLogs

variable {files : AttemptFiles} {process : Process}

theorem fresh : (plainTurn manifest build verification).freshFiles.OnlyLogs :=
  ⟨rfl, rfl, fun _ => Or.inl rfl, fun _ => rfl⟩

theorem keeps (h : files.OnlyLogs) (huntouched : process.writes = .untouched) :
    files.Keeps process := by
  have haccepts : ∀ log, (files.entry (files.place log)).isRefusing = false := by
    intro log
    rw [h.place]
    rcases h.logs log with hmissing | ⟨bytes, hfile, _⟩
    · rw [hmissing]
      rfl
    · rw [hfile]
      rfl
  unfold Keeps AttemptFiles.left
  rw [huntouched, change_untouched]
  exact ⟨by rw [h.captureDir]; exact DirStatus.noConfusion, fun _ _ => haccepts .stdout,
    fun _ _ => haccepts .stderr⟩

theorem after (h : files.OnlyLogs) (huntouched : process.writes = .untouched) :
    (files.after process).OnlyLogs := by
  have hplain : ∀ log bytes, bytes.length ≤ defaultMaxCaptureBytes →
      (files.entry (.log log)).written bytes = .file bytes ∧
        bytes.length ≤ defaultMaxCaptureBytes := by
    intro log bytes hfits
    rcases h.logs log with hmissing | ⟨old, hfile, _⟩
    · exact ⟨by rw [hmissing]; rfl, hfits⟩
    · exact ⟨by rw [hfile]; rfl, hfits⟩
  obtain ⟨hstdout, hstderr⟩ := captured_length_le process
  unfold AttemptFiles.after AttemptFiles.left
  rw [huntouched, change_untouched]
  refine ⟨withLogs_captureDir.trans h.captureDir, withLogs_place.trans h.place, ?_, ?_⟩
  · intro log
    rw [withLogs_entry h.captureDir]
    split_ifs
    · exact Or.inr ⟨_, hplain log _ hstderr⟩
    · exact Or.inr ⟨_, hplain log _ hstdout⟩
    · exact h.logs log
  · intro path
    rw [withLogs_entry h.captureDir, h.place]
    simp [h.out]

theorem reportLookup (h : files.OnlyLogs) (manifest : Option VerifierManifest) :
    VerifierCI.reportLookup manifest files = .missing := by
  cases manifest with
  | none => rfl
  | some manifest => exact congrArg Entry.found (h.out _)

theorem reportBytes (h : files.OnlyLogs) (manifest : Option VerifierManifest) :
    reportBytesOf manifest files = none := by
  rw [reportBytesOf, h.reportLookup]
  rfl

/-- Captured streams are capped at 10 MiB, so they fit into the store. -/
theorem collectable (h : files.OnlyLogs) (manifest : Option VerifierManifest) :
    Collectable manifest files := by
  have hcap : defaultMaxCaptureBytes ≤ maxArtifactBytes := by decide
  have hlog : ∀ log, files.log log = .missing ∨
      ∃ bytes, files.log log = .file bytes ∧ bytes.length ≤ defaultMaxCaptureBytes := by
    intro log
    simp only [AttemptFiles.log, h.captureDir, h.place]
    rcases h.logs log with hmissing | ⟨bytes, hfile, hfits⟩
    · exact Or.inl (by rw [hmissing]; rfl)
    · exact Or.inr ⟨bytes, by rw [hfile]; rfl, hfits⟩
  refine ⟨?_, ?_, by rw [h.reportLookup]; exact Found.noConfusion⟩
  · intro log
    rcases hlog log with hmissing | ⟨bytes, hfile, _⟩
    · rw [hmissing]
      exact Found.noConfusion
    · rw [hfile]
      exact Found.noConfusion
  · intro log stored hstored
    obtain ⟨hfound, _⟩ := Option.filter_eq_some_iff.mp hstored
    rcases hlog log with hmissing | ⟨bytes, hfile, hfits⟩
    · rw [hmissing] at hfound
      cases hfound
    · rw [hfile] at hfound
      obtain rfl := Option.some.inj hfound
      exact hfits.trans hcap

end AttemptFiles.OnlyLogs

/-- Without a manifest nothing is run. -/
theorem plainTurn_survives_unresolved {raised : Raised} : Survives sha256 maxNesting plainWorker
    (plainTurn (.error raised) build verification) "attempt" := by
  have hfailed : (plainTurn (.error raised) build verification).preparation =
      .failed none raised := rfl
  refine ⟨?_, ?_, ?_⟩
  · rw [AttemptRuns, hfailed]
    exact trivial
  · rw [executed_of_failed hfailed]
    exact AttemptFiles.OnlyLogs.fresh.collectable none
  · rw [executed_of_failed hfailed]
    rintro ⟨resolved, h, _⟩
    cases h

theorem plainTurn_ready {buildCommand command : List String} :
    (plainTurn (.ok (plainManifest buildCommand command)) build verification).preparation =
      .ready (plainManifest buildCommand command) := by
  have hpath : checkReportPath (plainManifest buildCommand command) = .ok () := by
    have hrelative : reportPathEscapes "report.json" = false := by decide +kernel
    rw [checkReportPath]
    exact if_neg (by rw [show (plainManifest buildCommand command).reportPath = "report.json"
      from rfl, hrelative]; exact Bool.false_ne_true)
  have hresolve :
      (plainTurn (.ok (plainManifest buildCommand command)) build verification).resolve =
      .ok ([], plainManifest buildCommand command) := by
    simp only [Turn.resolve, plainTurn, bind, Except.bind, hpath, Except.mapError]
  rw [Turn.preparation, hresolve]
  rfl

theorem not_unreadable_none : ¬ Unreadable maxNesting none := by
  rintro ⟨_, _, h, _⟩
  cases h

/-- Nothing raises where the commands leave the directories alone. -/
theorem plainTurn_survives {buildCommand command : List String}
    (hbuild : ∀ token ∈ buildCommand, WellPlaced token)
    (hcommand : ∀ token ∈ command, WellPlaced token) (hbuilds : build.writes = .untouched)
    (hverifies : verification.writes = .untouched) :
    Survives sha256 maxNesting plainWorker
      (plainTurn (.ok (plainManifest buildCommand command)) build verification) "attempt" := by
  -- Neither command writes a file, so the logs are all there is to collect.
  have hbuilt : (builtFiles plainWorker
      (plainTurn (.ok (plainManifest buildCommand command)) build verification) "attempt"
      (plainManifest buildCommand command)).OnlyLogs := by
    unfold builtFiles
    split
    · exact .fresh
    · exact AttemptFiles.OnlyLogs.fresh.after hbuilds
  have hfinal : (finalFiles plainWorker
      (plainTurn (.ok (plainManifest buildCommand command)) build verification) "attempt"
      (plainManifest buildCommand command)).OnlyLogs := by
    unfold finalFiles
    split
    · exact hbuilt
    · exact hbuilt.after hverifies
  have hleft : leftFiles plainWorker
      (plainTurn (.ok (plainManifest buildCommand command)) build verification) "attempt"
      (plainManifest buildCommand command) = finalFiles plainWorker
      (plainTurn (.ok (plainManifest buildCommand command)) build verification) "attempt"
      (plainManifest buildCommand command) := rfl
  have hruns : CommandsRun plainWorker
      (plainTurn (.ok (plainManifest buildCommand command)) build verification) "attempt"
      (plainManifest buildCommand command) := by
    refine ⟨hbuild, fun _ => AttemptFiles.OnlyLogs.fresh.keeps hbuilds, fun _ => ?_,
      fun _ => hcommand, fun _ => hbuilt.keeps hverifies, fun _ => ?_⟩
    · rw [AttemptFiles.report, hbuilt.out]
      exact Found.noConfusion
    · rw [finalReport, AttemptFiles.report, hfinal.out]
      exact Found.noConfusion
  refine ⟨?_, ?_, ?_⟩
  · rw [AttemptRuns, plainTurn_ready]
    exact hruns
  · rw [executed_of_ready plainTurn_ready, hleft]
    exact hfinal.collectable _
  · rw [executed_of_ready plainTurn_ready, hleft, hfinal.reportBytes]
    rintro ⟨_, _, _, hunreadable⟩
    exact not_unreadable_none hunreadable

end Plain

end VerifierCI
