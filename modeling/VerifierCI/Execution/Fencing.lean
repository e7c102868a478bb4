import VerifierCI.Execution.Invariants
import VerifierCI.Execution.Session

/-! # Fencing

Workers act through the handles the queue gave them. A handle whose fence has
been superseded can neither hold nor complete its job any more; the most it
can do is leave quarantined evidence in its own attempt row.
-/

namespace VerifierCI

open Python Relational Transition

/-! ## Recordable evidence -/

/-- The evidence of a submission fits the columns of an attempt row. -/
structure EvaluationAttempt.Recordable (attempt : EvaluationAttempt) (nowMs : Int) : Prop where
  clock : (Datetime.fromTimestampMs? nowMs).isSome = true
  exitCode : ∀ n ∈ attempt.exitCode, minInteger ≤ n ∧ n ≤ maxInteger
  testsPassed : ∀ n ∈ attempt.testsPassed, 0 ≤ n ∧ n ≤ maxInteger
  testsFailed : ∀ n ∈ attempt.testsFailed, 0 ≤ n ∧ n ≤ maxInteger
  resources : attempt.resources.toJson.isValid = true
  spellable : attempt.resources.toJson.isSpellable = true

theorem bindInteger_eq_ok {value : Option Int} (h : ∀ n ∈ value, minInteger ≤ n ∧ n ≤ maxInteger) :
    bindInteger value = .ok () :=
  if_pos h

theorem dumps_eq_ok {value : Json} (h : value.isSpellable = true) : dumps value = .ok () :=
  if_pos h

theorem minInteger_le {n : Int} (hn : 0 ≤ n) : minInteger ≤ n := by
  unfold minInteger
  omega

theorem hasArtifact_validArtifactDigest (db : Db) (digest : Option String) :
    db.HasArtifact (validArtifactDigest db digest) := by
  intro d hd
  cases digest with
  | none => cases hd
  | some digest =>
      simp only [validArtifactDigest] at hd
      split at hd
      next hfound =>
        obtain rfl := Option.some.inj hd
        exact hfound
      · cases hd

theorem quarantine_statusCheck (db : Db) (attempt : EvaluationAttempt) (now : Datetime)
    (row : AttemptRow) : (quarantine db attempt now row).StatusCheck := by
  refine Or.inr (Or.inr ⟨rfl, ?_⟩)
  simp only [quarantine]
  split <;> simp

theorem QueueInv.authorityUnique {db : Db} (hinv : QueueInv db) :
    AuthorityUnique db.evaluationAttempts := by
  have hnodup : (db.evaluationAttempts.select fun row => row.disposition = .authoritative).Nodup :=
    (List.Nodup.of_map AttemptRow.attemptId db.evaluationAttempts.nodup).filter _
  refine hnodup.map_on ?_
  intro row hrow other hother hsame
  obtain ⟨hmem, hauth⟩ := Table.mem_select.mp hrow
  obtain ⟨hmemOther, hauthOther⟩ := Table.mem_select.mp hother
  exact hinv.singleAuthority.unique row hmem other hmemOther (of_decide_eq_true hauth)
    (of_decide_eq_true hauthOther) hsame

theorem isOpen_of_quarantineTarget {attempt : EvaluationAttempt} {row : AttemptRow}
    (h : quarantineTarget attempt row = true) : row.disposition ≠ .authoritative := by
  intro hauth
  simp [quarantineTarget, AttemptRow.isOpen, hauth] at h

/-- The database accepts recordable evidence in quarantine. The update gives no row authority,
so it cannot break the index that keeps it single. -/
theorem EvaluationAttempt.Recordable.quarantinable {db : Db} (hinv : QueueInv db)
    {attempt : EvaluationAttempt} {nowMs : Int} (h : attempt.Recordable nowMs) :
    ∃ now, Quarantinable db attempt nowMs now := by
  obtain ⟨now, hnow⟩ := Option.isSome_iff_exists.mp h.clock
  refine ⟨now, by rw [isoOfMs, hnow], dumps_eq_ok h.spellable, bindInteger_eq_ok h.exitCode,
    ?_, ?_, ?_, ?_⟩
  · exact bindInteger_eq_ok fun n hn => ⟨minInteger_le (h.testsPassed n hn).1,
      (h.testsPassed n hn).2⟩
  · exact bindInteger_eq_ok fun n hn => ⟨minInteger_le (h.testsFailed n hn).1,
      (h.testsFailed n hn).2⟩
  · intro row hrow hp
    obtain ⟨job, hjob, _, hmem⟩ := hinv.job_of_attempt hrow
    refine ⟨isOpen_of_quarantineTarget hp, ?_, hasArtifact_validArtifactDigest db _,
      hasArtifact_validArtifactDigest db _, hasArtifact_validArtifactDigest db _⟩
    exact {
      fence := ((hinv.of_mem hjob).checks row hmem).fence
      testsPassed := fun n hn => (h.testsPassed n hn).1
      testsFailed := fun n hn => (h.testsFailed n hn).1
      testCollection := WideJson.finite_ofStrings _
      resources := h.resources
      artifactDigests := Json.isValid_ofStrings _
      status := quarantine_statusCheck db attempt now row }
  -- A quarantined row was not authoritative and does not become so.
  · have hselect : (db.evaluationAttempts.update (quarantineTarget attempt)
          (quarantine db attempt now) (quarantine_attemptId db attempt now)).select
          (fun row => row.disposition = .authoritative) =
        db.evaluationAttempts.select fun row => row.disposition = .authoritative :=
      Table.select_update_of_not _ fun row _ hp =>
        ⟨decide_eq_false (isOpen_of_quarantineTarget hp), rfl⟩
    rw [AuthorityUnique, hselect]
    exact hinv.authorityUnique

/-! ## Workers -/

/-- The submission is for the attempt the handle was granted. -/
structure Submits (handle : Job) (attempt : EvaluationAttempt) : Prop where
  jobId : attempt.jobId = handle.jobId
  attemptId : handle.attemptId = some attempt.attemptId
  fence : attempt.fence = handle.fence

/-- The handle stands for an attempt recorded under its fence. -/
def Db.Issued (db : Db) (handle : Job) : Prop :=
  ∃ l, db.ledger handle.jobId = some l ∧
    ∃ row ∈ l.attempts, handle.attemptId = some row.attemptId ∧ row.fence = handle.fence

namespace Session

/-- Workers hold, renew and complete with the handles they were given by
`claim`, `mark_running` and `heartbeat`, and submit the attempts of those handles. -/
def Worker (s : Session) : Operation → Prop
  | .markRunning job _ => job ∈ s.handles
  | .heartbeat job _ _ => job ∈ s.handles
  | .complete job attempt _ => job ∈ s.handles ∧ Submits job attempt
  | .getJob _ => False
  | _ => True

structure Inv (s : Session) : Prop where
  queue : QueueInv s.db
  issued : ∀ handle ∈ s.handles, s.db.Issued handle
  granted : ∀ handle ∈ s.granted, handle ∈ s.handles

end Session

/-! ## Handles stand for recorded attempts -/

/-- Attempt rows are never deleted, so a handle stays backed by its row. -/
theorem Db.Issued.evolves {db db' : Db} (hevolves : Evolves Ledger.Step db db') {handle : Job}
    (h : db.Issued handle) : db'.Issued handle := by
  obtain ⟨l, hl, row, hrow, hid, hfence⟩ := h
  obtain ⟨l', hl', _⟩ := hevolves.ledger _ _ hl
  obtain ⟨row', hrow', hsame⟩ := (hevolves.grows hl hl').rows row hrow
  exact ⟨l', hl', row', hrow', hid.trans (congrArg some hsame.attemptId.symm),
    hsame.fence.trans hfence⟩

theorem grant_issued {db db' : Db} {row job : Job} {workerId : String}
    {nowMs leaseDurationMs : Int} {draw : Draw} (hrow : db.jobs.find? row.jobId = some row)
    (h : grant db row workerId nowMs leaseDurationMs draw = .ok (job, db')) : db'.Issued job := by
  obtain ⟨rfl, started, attempts, hinsert, hrun⟩ := grant_ok h
  obtain ⟨runs, rfl, _⟩ := updateRunState_ok hrun
  have hmem : activeAttempt row.jobId (row.fence + 1) draw started ∈ attempts :=
    (Table.mem_insert? hinsert).mpr (Or.inr rfl)
  have hjob : ∃ leased, (leasedDb db row workerId (nowMs + leaseDurationMs) draw
      attempts).jobs.find? row.jobId = some leased := by
    rw [leasedDb, updateJobs_jobs, Table.find?_update, hrow]
    exact ⟨_, rfl⟩
  obtain ⟨leased, hleased⟩ := hjob
  exact ⟨⟨leased, _⟩, ledger_eq_some_iff.mpr ⟨hleased, rfl⟩, _,
    mem_attemptsOf.mpr ⟨hmem, rfl⟩, rfl, rfl⟩

theorem claimLoop_issued {db db' : Db} {workerId : String} {nowMs leaseDurationMs : Int}
    {runId : Option String} {draw : Draw} {fuel : Nat} {job : Job}
    (h : claimLoop workerId nowMs runId leaseDurationMs draw fuel db = .ok (some job, db')) :
    db'.Issued job := by
  induction fuel generalizing db with
  | zero => cases h
  | succ fuel ih =>
      rcases claimLoop_ok h with ⟨_, hnone, _⟩ | ⟨row, swept, _, _, _, hrest⟩ |
        ⟨row, granted, hnext, _, hsome, hgrant⟩
      · cases hnone
      · exact ih hrest
      · obtain rfl := Option.some.inj hsome
        exact grant_issued (nextPending_some hnext).1 hgrant

/-- What a worker's call returns stands for a recorded attempt. -/
theorem Session.handle_issued {s : Session} (h : s.Inv) {op : Operation} (hworker : s.Worker op)
    {handle : Job} (hhandle : s.db.handle? op = some handle) : (s.db.call op).Issued handle := by
  rcases handle?_cases hhandle with
    hgranted | ⟨used, hused, hid, _, hattempt, hfence⟩ | ⟨jobId, rfl, _⟩
  · obtain ⟨_, _, _, _, _, db', _, hloop, heq⟩ := granted?_cases hgranted
    rw [heq]
    exact claimLoop_issued hloop
  · have hmem : used ∈ s.handles := by
      cases op with
      | markRunning job nowMs => exact Option.some.inj hused ▸ hworker
      | heartbeat job nowMs extensionMs => exact Option.some.inj hused ▸ hworker
      | complete job attempt nowMs => exact Option.some.inj hused ▸ hworker.1
      | _ => cases hused
    obtain ⟨l, hl, row, hrow, hrowId, hrowFence⟩ :=
      (h.issued used hmem).evolves (call_evolves h.queue op)
    exact ⟨l, hid ▸ hl, row, hrow, hattempt.trans hrowId, hrowFence.trans hfence.symm⟩
  · exact absurd hworker id

theorem Session.Inv.call {s : Session} (h : s.Inv) {op : Operation} (hworker : s.Worker op) :
    (s.call op).Inv where
  queue := call_queueInv h.queue op
  issued := by
    intro handle hhandle
    rcases List.mem_append.mp hhandle with hnew | hold
    · exact Session.handle_issued h hworker (Option.mem_toList.mp hnew)
    · exact (h.issued handle hold).evolves (call_evolves h.queue op)
  granted := by
    intro handle hhandle
    rcases List.mem_append.mp hhandle with hnew | hold
    · refine List.mem_append_left _ ?_
      cases op with
      | claim => exact hnew
      | _ => cases hnew
    · exact List.mem_append_right _ (h.granted handle hold)

theorem Session.run_inv {db : Db} (hfresh : db.Fresh) {ops : List Operation}
    (hworkers : Admits Session.call Session.Worker (.start db) ops) :
    (run Session.call (.start db) ops).Inv :=
  hworkers.invariant Session.Inv (fun _ _ h hworker => h.call hworker)
    ⟨.of_fresh hfresh, by simp [Session.start], by simp [Session.start]⟩

/-! ## Superseded handles -/

/-- A handle superseded at `fence` can do nothing to its job, to the runs, or
to the attempt of that fence. Late evidence is quarantined, unless the database
cannot store it. -/
structure Superseded (db : Db) (handle : Job) (fence : Int) : Prop where
  running_lost : ∀ nowMs, ∃ exc, exc.isLeaseLost = true ∧
    markRunning db handle nowMs = (.error exc, db)
  heartbeat_lost : ∀ nowMs extensionMs, ∃ exc, exc.isLeaseLost = true ∧
    heartbeat db handle nowMs extensionMs = (.error exc, db)
  late : ∀ attempt nowMs, Submits handle attempt →
    ((complete db handle attempt nowMs).1 = .ok .stale ∨
      ∃ exc, exc.isStorage = true ∧ (complete db handle attempt nowMs).1 = .error exc) ∧
    (attempt.Recordable nowMs → (complete db handle attempt nowMs).1 = .ok .stale)
  unchanged : ∀ attempt nowMs, Submits handle attempt →
    (complete db handle attempt nowMs).2.jobs = db.jobs ∧
    (complete db handle attempt nowMs).2.auditRuns = db.auditRuns ∧
    ∀ row ∈ db.evaluationAttempts, row.jobId = handle.jobId → row.fence = fence →
      (complete db handle attempt nowMs).2.evaluationAttempts.find? row.attemptId = some row

theorem markRunning_of_fence_ne {db : Db} {handle row : Job}
    (hrow : db.jobs.find? handle.jobId = some row) (hfence : row.fence ≠ handle.fence)
    (nowMs : Int) :
    ∃ exc, exc.isLeaseLost = true ∧ markRunning db handle nowMs = (.error exc, db) := by
  rcases markRunning_cases db handle nowMs with ⟨row', hrow', hlive, _⟩ | hlost
  · obtain rfl : row = row' := Option.some.inj (hrow.symm.trans hrow')
    exact absurd hlive.fence hfence
  · exact hlost

theorem heartbeat_of_fence_ne {db : Db} {handle row : Job}
    (hrow : db.jobs.find? handle.jobId = some row) (hfence : row.fence ≠ handle.fence)
    (nowMs extensionMs : Int) :
    ∃ exc, exc.isLeaseLost = true ∧ heartbeat db handle nowMs extensionMs = (.error exc, db) := by
  rcases heartbeat_cases db handle nowMs extensionMs with
    ⟨row', hrow', hlive, _⟩ | ⟨row', hrow', hlive, _⟩ | hlost
  · obtain rfl : row = row' := Option.some.inj (hrow.symm.trans hrow')
    exact absurd hlive.fence hfence
  · obtain rfl : row = row' := Option.some.inj (hrow.symm.trans hrow')
    exact absurd hlive.fence hfence
  · exact hlost

/-- The selected attempt of a finished job carries the job's last fence. -/
theorem Ledger.Inv.fence_of_selected {l : Ledger} (h : l.Inv) {row : AttemptRow}
    (hrow : row ∈ l.attempts) (hselected : l.job.selectedAttemptId = some row.attemptId) :
    row.fence = l.job.fence := by
  obtain ⟨_, selected, hmem, hid, _, hfence⟩ := h.selection _ hselected
  rw [← h.numbered.eq_of_id hmem hrow hid]
  exact hfence

/-- A submission for an attempt of an older fence is quarantined. -/
theorem quarantines_of_fence_ne {db : Db} (hinv : QueueInv db) {handle row : Job}
    {attempt : EvaluationAttempt} {nowMs : Int} {stored : AttemptRow}
    (hrow : db.jobs.find? handle.jobId = some row) (hstored : stored ∈ db.attemptsOf handle.jobId)
    (hid : stored.attemptId = attempt.attemptId) (hstoredFence : stored.fence = handle.fence)
    (hfence : row.fence ≠ handle.fence) : quarantines db handle attempt nowMs = true := by
  simp only [quarantines, hrow]
  split
  · have hledger := hinv.ledgers _ _ (ledger_of_find? hrow)
    rw [decide_eq_true_eq]
    intro hselected
    have hmem : stored ∈ (db.ledgerOf row).attempts := by
      rw [Db.ledgerOf, Table.key_of_find? hrow]
      exact hstored
    have hlast := hledger.fence_of_selected hmem (hselected.trans (congrArg some hid.symm))
    exact hfence (hlast.symm.trans hstoredFence)
  · simp [leaseLapsed, hfence]

theorem superseded_of_fence_lt {db : Db} (hinv : QueueInv db) {handle : Job}
    (hissued : db.Issued handle) {row : Job} (hrow : db.jobs.find? handle.jobId = some row)
    {fence : Int} (hlt : handle.fence < fence) (hle : fence ≤ row.fence) :
    Superseded db handle fence := by
  have hne : row.fence ≠ handle.fence := by omega
  obtain ⟨l, hl, stored, hstored, hstoredId, hstoredFence⟩ := hissued
  rw [(ledger_eq_some_iff.mp hl).2] at hstored
  have hquarantines : ∀ attempt nowMs, Submits handle attempt →
      quarantines db handle attempt nowMs = true := by
    intro attempt nowMs hsubmits
    have hid : stored.attemptId = attempt.attemptId :=
      Option.some.inj (hstoredId.symm.trans hsubmits.attemptId)
    exact quarantines_of_fence_ne hinv hrow hstored hid hstoredFence hne
  refine ⟨markRunning_of_fence_ne hrow hne, heartbeat_of_fence_ne hrow hne, ?_, ?_⟩
  · intro attempt nowMs hsubmits
    rcases complete_of_quarantines (hquarantines attempt nowMs hsubmits) with
      ⟨now, _, heq⟩ | ⟨hrefused, exc, hexc, heq⟩
    · rw [heq]
      exact ⟨Or.inl rfl, fun _ => rfl⟩
    · rw [heq]
      refine ⟨Or.inr ⟨exc, hexc, rfl⟩, fun hrecordable => ?_⟩
      obtain ⟨now, hnow⟩ := hrecordable.quarantinable hinv
      exact absurd hnow (hrefused now)
  · intro attempt nowMs hsubmits
    rcases complete_of_quarantines (hquarantines attempt nowMs hsubmits) with
      ⟨now, _, heq⟩ | ⟨_, exc, _, heq⟩
    · rw [heq]
      refine ⟨rfl, rfl, fun other hother hjobId hfence => ?_⟩
      apply quarantinedDb_find?_of_not hother
      -- the quarantined row is the handle's own, under its older fence
      have hotherId : other.attemptId ≠ attempt.attemptId := by
        intro hsame
        have hstoredIs : stored = other :=
          Table.eq_of_key_eq (mem_attemptsOf.mp hstored).1 hother
            ((Option.some.inj (hstoredId.symm.trans hsubmits.attemptId)).trans hsame.symm)
        rw [hstoredIs] at hstoredFence
        omega
      simp [quarantineTarget, hotherId]
    · rw [heq]
      exact ⟨rfl, rfl, fun other hother _ _ => Table.find?_of_mem hother⟩

/-! ## The handles that still count -/

/-- A call made with a handle changes no job row but the one it names, and that
one only under its latest fence. -/
theorem changes_only_under_latest_fence {db : Db} {op : Operation} {handle : Job}
    (hop : op.handle? = some handle) {job : Job} (hjob : job ∈ db.jobs)
    (hchanged : (db.call op).jobs.find? job.jobId ≠ some job) :
    handle.jobId = job.jobId ∧ handle.fence = job.fence := by
  have hsame : db.jobs.find? job.jobId = some job := Table.find?_of_mem hjob
  -- The guard of each call reads the row the handle names; no other row may differ.
  have hnamed : ∀ row, db.jobs.find? handle.jobId = some row → row.fence = handle.fence →
      ¬ job.jobId ≠ handle.jobId → handle.jobId = job.jobId ∧ handle.fence = job.fence := by
    intro row hrow hfence hid
    rw [not_not] at hid
    rw [← hid, hsame] at hrow
    obtain rfl := Option.some.inj hrow
    exact ⟨hid.symm, hfence.symm⟩
  cases op with
  | markRunning named nowMs =>
      obtain rfl := Option.some.inj hop
      rcases markRunning_cases db named nowMs with ⟨row, hrow, hlive, heq⟩ | ⟨exc, _, heq⟩
      · simp only [Db.call, heq] at hchanged
        exact hnamed row hrow hlive.fence fun hne => hchanged (runningDb_find?_of_ne hjob hne)
      · simp only [Db.call, heq] at hchanged
        exact absurd hsame hchanged
  | heartbeat named nowMs extensionMs =>
      obtain rfl := Option.some.inj hop
      rcases heartbeat_cases db named nowMs extensionMs with
        ⟨row, hrow, hlive, heq⟩ | ⟨row, _, _, heq⟩ | ⟨exc, _, heq⟩
      · simp only [Db.call, heq] at hchanged
        exact hnamed row hrow hlive.fence fun hne => hchanged (extendedDb_find?_of_ne hjob hne)
      · simp only [Db.call, heq] at hchanged
        exact absurd hsame hchanged
      · simp only [Db.call, heq] at hchanged
        exact absurd hsame hchanged
  | complete named attempt nowMs =>
      obtain rfl := Option.some.inj hop
      rcases complete_spec db named attempt nowMs with
        ⟨_, now, _, heq⟩ | ⟨hcommits, finishedAt, db', _, hrun, heq⟩ | ⟨result, heq, _⟩
      · simp only [Db.call, heq] at hchanged
        exact absurd hsame hchanged
      · obtain ⟨row, stored, hguard⟩ := commits_iff.mp hcommits
        obtain ⟨runs, rfl, _⟩ := updateRunState_ok hrun
        simp only [Db.call, heq] at hchanged
        exact hnamed row hguard.row_eq hguard.fence fun hne =>
          hchanged (committedDb_find?_of_ne hjob hne)
      · simp only [Db.call, heq] at hchanged
        exact absurd hsame hchanged
  -- the other calls present no handle
  | _ => cases hop

/-- In every session a handle older than one the queue has granted is
superseded, and the handles that can still change a job carry its latest fence. -/
theorem older_handles_superseded {db : Db} (hfresh : db.Fresh) {ops : List Operation}
    (hworkers : Admits Session.call Session.Worker (.start db) ops) :
    (∀ granted ∈ (run Session.call (.start db) ops).granted,
      ∀ handle ∈ (run Session.call (.start db) ops).handles, handle.jobId = granted.jobId →
        handle.fence < granted.fence →
        Superseded (run Session.call (.start db) ops).db handle granted.fence) ∧
    ∀ (op : Operation) (handle : Job), op.handle? = some handle →
      ∀ job ∈ (run Session.call (.start db) ops).db.jobs,
        ((run Session.call (.start db) ops).db.call op).jobs.find? job.jobId ≠ some job →
        handle.jobId = job.jobId ∧ handle.fence = job.fence := by
  have hinv := Session.run_inv hfresh hworkers
  refine ⟨?_, fun _ _ hop _ hjob => changes_only_under_latest_fence hop hjob⟩
  intro granted hgranted handle hhandle hsame hlt
  obtain ⟨l, hl, row, hrow, _, hrowFence⟩ := hinv.issued granted (hinv.granted granted hgranted)
  have hfence := ((hinv.queue.ledgers _ _ hl).numbered.fence_pos hrow).2
  have hfind := (ledger_eq_some_iff.mp hl).1
  rw [← hsame] at hfind
  exact superseded_of_fence_lt hinv.queue (hinv.issued handle hhandle) hfind hlt
    (hrowFence ▸ hfence)

theorem soloRetry_workers : Admits Session.call Session.Worker (.start soloDb) soloRetry :=
  ⟨trivial, trivial, trivial, trivial⟩

theorem soloRetry_handles :
    (run Session.call (.start soloDb) soloRetry).handles = [retryHandle, soloHandle] ∧
      (run Session.call (.start soloDb) soloRetry).granted = [retryHandle, soloHandle] := by
  decide

/-- The lease of the first claim lapses and the job is claimed again; the first handle is
superseded. -/
theorem older_handles_superseded_soloRetry :
    Superseded (run Session.call (.start soloDb) soloRetry).db soloHandle retryHandle.fence :=
  (older_handles_superseded soloDb_fresh soloRetry_workers).1 retryHandle
    (by simp [soloRetry_handles]) soloHandle (by simp [soloRetry_handles]) rfl (by decide)

/-- Late evidence the table cannot hold: a negative count of passed tests. -/
def uncountedAttempt : EvaluationAttempt :=
  { acceptingAttempt "attempt" "job" 1 with testsPassed := some (-1) }

/-- A late completion neither loses its lease nor comes back stale when its
evidence breaks a constraint of the table. -/
theorem late_completion_can_raise :
    Admits Session.call Session.Worker (.start soloDb) soloRetry ∧
      (run Session.call (.start soloDb) soloRetry).handles = [retryHandle, soloHandle] ∧
      (run Session.call (.start soloDb) soloRetry).granted = [retryHandle, soloHandle] ∧
      soloHandle.jobId = retryHandle.jobId ∧ soloHandle.fence < retryHandle.fence ∧
      Submits soloHandle uncountedAttempt ∧
      (complete (run Session.call (.start soloDb) soloRetry).db soloHandle uncountedAttempt
        60000).1 =
        .error .integrityError ∧
      Exc.integrityError.isLeaseLost = false :=
  ⟨soloRetry_workers, soloRetry_handles.1, soloRetry_handles.2, rfl, by decide, ⟨rfl, rfl, rfl⟩,
    by rfl, rfl⟩

end VerifierCI
