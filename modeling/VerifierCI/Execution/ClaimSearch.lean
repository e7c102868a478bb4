import VerifierCI.Execution.RunLifecycle

/-! # What a claim finds

The search of a claim reads the pending jobs by id and fails those of every
cancelled run it meets. Its loop is described at once by the job it stops at:
the least one that waits in a live run.
-/

namespace VerifierCI

open Python Relational

/-- A pending job of the run the claim is restricted to, if it is restricted. -/
structure Job.Waits (runId : Option String) (job : Job) : Prop where
  pending : job.state = .pending
  run : ∀ r ∈ runId, r = job.runId

/-- A waiting job whose run is not cancelled. -/
structure Db.Claimable (db : Db) (runId : Option String) (job : Job) : Prop
    extends job.Waits runId where
  mem : job ∈ db.jobs
  live : cancelRequested db job.runId = false

/-- A pending job of a cancelled run that the search meets before it stops. -/
structure Db.Swept (db : Db) (runId : Option String) (next : Option Job) (job : Job) : Prop where
  mem : job ∈ db.jobs
  pending : job.state = .pending
  cancelled : cancelRequested db job.runId = true
  met : ∃ other ∈ db.jobs, other.runId = job.runId ∧ other.Waits runId ∧
    ∀ row ∈ next, other.jobId < row.jobId

/-- The claimable job with the least id, or none if there is none. -/
structure Db.Next (db : Db) (runId : Option String) (next : Option Job) : Prop where
  claimable : ∀ row ∈ next, db.Claimable runId row
  least : ∀ row ∈ next, ∀ other, db.Claimable runId other → row.jobId ≤ other.jobId
  none_iff : next = none ↔ ∀ job, ¬ db.Claimable runId job

/-- The effect of a claim that stopped at `next`: the rows it met on the way
are cancelled, `next` is leased under a new active attempt, and every other row
of `jobs` and `evaluation_attempts` stays. -/
structure ClaimEffect (db db' : Db) (workerId : String) (expires : Int) (runId : Option String)
    (draw : Draw) (next : Option Job) : Prop where
  found : db.Next runId next
  swept : ∀ job, db.Swept runId next job →
    db'.jobs.find? job.jobId = some (cancelledRow job)
  leased : ∀ row ∈ next,
    db'.jobs.find? row.jobId = some (leasedRow row workerId expires draw row)
  kept : ∀ job ∈ db.jobs, job ∉ next → ¬ db.Swept runId next job →
    db'.jobs.find? job.jobId = some job
  jobIds : db'.jobs.rows.map Job.jobId = db.jobs.rows.map Job.jobId
  inserted : ∀ row ∈ next, ∃ started, db'.evaluationAttempts.rows =
    db.evaluationAttempts.rows ++ [activeAttempt row.jobId (row.fence + 1) draw started]
  attempts : next = none → db'.evaluationAttempts = db.evaluationAttempts

section Search

variable {db db' : Db} {workerId : String} {nowMs leaseDurationMs : Int} {runId : Option String}
  {draw : Draw}

/-! ## Reading the queue -/

theorem nextPending_waits {row : Job} (h : nextPending db runId = some row) :
    row ∈ db.jobs ∧ row.Waits runId := by
  obtain ⟨hfind, hpending, hrun⟩ := nextPending_some h
  exact ⟨Table.mem_of_find? hfind, hpending, hrun⟩

/-- The search takes the least id, as the statement orders by `job_id` and is limited to one
row. -/
theorem nextPending_least {row other : Job} (h : nextPending db runId = some row)
    (hother : other ∈ db.jobs) (hwaits : other.Waits runId) : row.jobId ≤ other.jobId := by
  have hmem : other ∈ db.jobs.select fun job =>
      job.state = .pending && runId.all (· = job.runId) := by
    rw [Table.mem_select]
    refine ⟨hother, ?_⟩
    simp only [Bool.and_eq_true, decide_eq_true_eq, Option.all_eq_true]
    exact ⟨hwaits.pending, hwaits.run⟩
  exact List.le_of_mem_argmin hmem h

theorem waits_of_nextPending_none (h : nextPending db runId = none) {job : Job}
    (hjob : job ∈ db.jobs) : ¬ job.Waits runId :=
  fun hwaits => nextPending_none h hjob hwaits.pending hwaits.run

/-- Recomputing the state of a run leaves every cancellation flag alone. -/
theorem updateRunState_cancelRequested {run : String} (h : updateRunState db run nowMs = .ok db')
    (other : String) : cancelRequested db' other = cancelRequested db other := by
  by_cases hother : other = run
  · subst hother
    cases hrun : db.auditRuns.find? other with
    | none =>
        rw [updateRunState, hrun] at h
        obtain rfl := Except.ok.inj h
        rfl
    | some row =>
        obtain ⟨row', hrow', hupdate⟩ := updateRunState_row hrun h
        simp only [cancelRequested, hrow', hrun]
        cases hupdate <;> rfl
  · obtain ⟨runs, rfl, hruns⟩ := updateRunState_ok h
    simp only [cancelRequested, hruns other hother]

/-! ## One sweep -/

/-- The bulk update rewrites the pending jobs of the run and leaves every other row. -/
theorem failPending_find? (run : String) {job : Job} (hjob : job ∈ db.jobs) :
    (failPending db run).jobs.find? job.jobId =
      some (if job.runId = run ∧ job.state = .pending then cancelledRow job else job) := by
  rw [failPending, updateJobs_jobs, Table.find?_update, Table.find?_of_mem hjob]
  simp

/-- The jobs a sweep leaves waiting are those of the other runs. -/
theorem mem_failPending_waits {run : String} {job : Job} :
    (job ∈ (failPending db run).jobs ∧ job.Waits runId) ↔
      job ∈ db.jobs ∧ job.Waits runId ∧ job.runId ≠ run := by
  rw [failPending, updateJobs_jobs, Table.mem_update]
  constructor
  · rintro ⟨⟨old, hold, rfl⟩, hwaits⟩
    by_cases hswept : old.runId = run ∧ old.state = .pending
    · have hcancelled := hwaits.pending
      simp [hswept, cancelledRow] at hcancelled
    · rw [if_neg (by simpa using hswept)] at hwaits ⊢
      exact ⟨hold, hwaits, fun hrun => hswept ⟨hrun, hwaits.pending⟩⟩
  · rintro ⟨hjob, hwaits, hrun⟩
    exact ⟨⟨job, hjob, by simp [hrun]⟩, hwaits⟩

/-- The database after one cancelled run has been swept. -/
structure SweepStep (db swept : Db) (run : String) : Prop where
  jobs : swept.jobs = (failPending db run).jobs
  attempts : swept.evaluationAttempts = db.evaluationAttempts
  flags : ∀ other, cancelRequested swept other = cancelRequested db other

theorem sweepStep_of_ok {run : String}
    (h : updateRunState (failPending db run) run nowMs = .ok db') :
    SweepStep db db' run := by
  have hflags : ∀ other, cancelRequested db' other = cancelRequested (failPending db run) other :=
    updateRunState_cancelRequested h
  obtain ⟨runs, rfl, _⟩ := updateRunState_ok h
  exact ⟨rfl, rfl, hflags⟩

namespace SweepStep

variable {swept : Db} {run : String}

theorem mem_of_ne (h : SweepStep db swept run) {job : Job} (hjob : job ∈ db.jobs)
    (hkeep : ¬ (job.runId = run ∧ job.state = .pending)) : job ∈ swept.jobs := by
  have hfind := failPending_find? run hjob
  rw [if_neg hkeep] at hfind
  rw [h.jobs]
  exact Table.mem_of_find? hfind

theorem mem_cancelled (h : SweepStep db swept run) {job : Job} (hjob : job ∈ db.jobs)
    (hrun : job.runId = run) (hpending : job.state = .pending) : cancelledRow job ∈ swept.jobs := by
  have hfind := failPending_find? run hjob
  rw [if_pos ⟨hrun, hpending⟩] at hfind
  rw [h.jobs]
  exact Table.mem_of_find? hfind

theorem mem_waits (h : SweepStep db swept run) {job : Job} :
    (job ∈ swept.jobs ∧ job.Waits runId) ↔ job ∈ db.jobs ∧ job.Waits runId ∧ job.runId ≠ run := by
  rw [h.jobs]
  exact mem_failPending_waits

theorem mem_pending (h : SweepStep db swept run) {job : Job} (hjob : job ∈ swept.jobs)
    (hpending : job.state = .pending) : job ∈ db.jobs ∧ job.runId ≠ run := by
  have hwaits : job.Waits none := ⟨hpending, nofun⟩
  obtain ⟨hmem, _, hrun⟩ := h.mem_waits.mp ⟨hjob, hwaits⟩
  exact ⟨hmem, hrun⟩

/-- A sweep of a cancelled run takes no job away that could be claimed. -/
theorem claimable_iff (h : SweepStep db swept run) (hcancelled : cancelRequested db run = true)
    {job : Job} : swept.Claimable runId job ↔ db.Claimable runId job := by
  constructor
  · intro hclaimable
    obtain ⟨hmem, hwaits, _⟩ := h.mem_waits.mp ⟨hclaimable.mem, hclaimable.toWaits⟩
    exact ⟨hwaits, hmem, (h.flags _).symm.trans hclaimable.live⟩
  · intro hclaimable
    have hrun : job.runId ≠ run := by
      intro hsame
      have hlive := hclaimable.live
      rw [hsame, hcancelled] at hlive
      cases hlive
    obtain ⟨hmem, hwaits⟩ := h.mem_waits.mpr ⟨hclaimable.mem, hclaimable.toWaits, hrun⟩
    exact ⟨hwaits, hmem, (h.flags _).trans hclaimable.live⟩

/-- Sweeping a cancelled run removes candidates that were not claimable anyway. -/
theorem next_iff (h : SweepStep db swept run) (hcancelled : cancelRequested db run = true)
    {next : Option Job} (hnext : swept.Next runId next) : db.Next runId next where
  claimable := fun row hrow => (h.claimable_iff hcancelled).mp (hnext.claimable row hrow)
  least := fun row hrow other hother =>
    hnext.least row hrow other ((h.claimable_iff hcancelled).mpr hother)
  none_iff := hnext.none_iff.trans
    (forall_congr' fun _ => not_congr (h.claimable_iff hcancelled))

/-- The search sweeps the run it met and, after that, what it sweeps then. -/
theorem swept_iff (h : SweepStep db swept run) {row : Job} {next : Option Job}
    (hmet : row ∈ db.jobs) (hwaits : row.Waits runId) (hrun : row.runId = run)
    (hcancelled : cancelRequested db run = true) (hbefore : ∀ found ∈ next, row.jobId < found.jobId)
    {job : Job} : db.Swept runId next job ↔
      (job ∈ db.jobs ∧ job.runId = run ∧ job.state = .pending) ∨ swept.Swept runId next job := by
  constructor
  · intro hswept
    by_cases hsame : job.runId = run
    · exact Or.inl ⟨hswept.mem, hsame, hswept.pending⟩
    · obtain ⟨other, hother, hotherRun, hotherWaits, hotherBefore⟩ := hswept.met
      have hne : other.runId ≠ run := by rwa [hotherRun]
      have hkept := h.mem_waits.mpr ⟨hother, hotherWaits, hne⟩
      exact Or.inr ⟨h.mem_of_ne hswept.mem fun hnot => hsame hnot.1, hswept.pending,
        (h.flags _).trans hswept.cancelled, other, hkept.1, hotherRun, hotherWaits, hotherBefore⟩
  · rintro (⟨hmem, hsame, hpending⟩ | hswept)
    · exact ⟨hmem, hpending, by rwa [hsame], row, hmet, hrun.trans hsame.symm, hwaits, hbefore⟩
    · obtain ⟨other, hother, hotherRun, hotherWaits, hotherBefore⟩ := hswept.met
      obtain ⟨hmem, _⟩ := h.mem_pending hswept.mem hswept.pending
      exact ⟨hmem, hswept.pending, (h.flags _).symm.trans hswept.cancelled, other,
        (h.mem_waits.mp ⟨hother, hotherWaits⟩).1, hotherRun, hotherWaits, hotherBefore⟩

/-- What a claim does after a sweep, it does together with the sweep. A swept job is failed, so
the rest of the search passes it by. -/
theorem claimEffect (h : SweepStep db swept run) {row : Job} {expires : Int} {next : Option Job}
    (hnext : nextPending db runId = some row) (hrun : row.runId = run)
    (hcancelled : cancelRequested db run = true)
    (hrest : ClaimEffect swept db' workerId expires runId draw next) :
    ClaimEffect db db' workerId expires runId draw next := by
  obtain ⟨hmet, hwaits⟩ := nextPending_waits hnext
  have hfound : db.Next runId next := h.next_iff hcancelled hrest.found
  have hbefore : ∀ found ∈ next, row.jobId < found.jobId := by
    intro found hmem
    have hclaimable := hfound.claimable found hmem
    refine lt_of_le_of_ne (nextPending_least hnext hclaimable.mem hclaimable.toWaits) ?_
    intro hid
    obtain rfl := Table.eq_of_key_eq hmet hclaimable.mem hid
    have hlive := hclaimable.live
    rw [hrun, hcancelled] at hlive
    cases hlive
  have hswept : ∀ {job : Job}, db.Swept runId next job ↔
      (job ∈ db.jobs ∧ job.runId = run ∧ job.state = .pending) ∨ swept.Swept runId next job :=
    h.swept_iff hmet hwaits hrun hcancelled hbefore
  refine ⟨hfound, ?_, hrest.leased, ?_, ?_, ?_, ?_⟩
  · intro job hjob
    rcases hswept.mp hjob with ⟨hmem, hsame, hpending⟩ | hlater
    · -- A cancelled row is no longer pending, so the rest of the search passes it by.
      refine hrest.kept (cancelledRow job) (h.mem_cancelled hmem hsame hpending) ?_ ?_
      · intro hclaimed
        have hwaiting := (hfound.claimable _ hclaimed).pending
        cases hwaiting
      · intro hagain
        have hwaiting := hagain.pending
        cases hwaiting
    · exact hrest.swept job hlater
  · intro job hmem hnot hunswept
    refine hrest.kept job (h.mem_of_ne hmem fun hsame => ?_) hnot fun hlater => ?_
    · exact hunswept (hswept.mpr (Or.inl ⟨hmem, hsame⟩))
    · exact hunswept (hswept.mpr (Or.inr hlater))
  · rw [hrest.jobIds, h.jobs, failPending, updateJobs_jobs, Table.keys_update]
  · rw [← h.attempts]
    exact hrest.inserted
  · rw [← h.attempts]
    exact hrest.attempts

end SweepStep

/-! ## The whole search -/

theorem claimEffect_of_none {expires : Int} (h : nextPending db runId = none) :
    ClaimEffect db db workerId expires runId draw none where
  found := by
    refine ⟨by simp, by simp, iff_of_true rfl ?_⟩
    intro job hclaimable
    exact waits_of_nextPending_none h hclaimable.mem hclaimable.toWaits
  swept := by
    intro job hswept
    obtain ⟨other, hother, _, hwaits, _⟩ := hswept.met
    exact absurd hwaits (waits_of_nextPending_none h hother)
  leased := by simp
  kept := fun job hjob _ _ => Table.find?_of_mem hjob
  jobIds := rfl
  inserted := by simp
  attempts := fun _ => rfl

/-- A granted lease writes the row that was met first, and no run has been
swept since. -/
theorem claimEffect_of_grant {row job : Job} (hnext : nextPending db runId = some row)
    (hlive : cancelRequested db row.runId = false)
    (h : grant db row workerId nowMs leaseDurationMs draw = .ok (job, db')) :
    ClaimEffect db db' workerId (nowMs + leaseDurationMs) runId draw (some row) := by
  obtain ⟨hmem, hwaits⟩ := nextPending_waits hnext
  have hclaimable : db.Claimable runId row := ⟨hwaits, hmem, hlive⟩
  obtain ⟨rfl, started, attempts, hinsert, hrun⟩ := grant_ok h
  obtain ⟨runs, rfl, _⟩ := updateRunState_ok hrun
  -- Nothing is swept: a swept run would have a waiting row before the least one.
  have hunswept : ∀ other, ¬ db.Swept runId (some row) other := by
    intro other hswept
    obtain ⟨met, hmet, _, hmetWaits, hbefore⟩ := hswept.met
    exact absurd (hbefore row rfl) (not_lt_of_ge (nextPending_least hnext hmet hmetWaits))
  -- Every row is found again, and only the granted one reads otherwise.
  have hjobs : ∀ other ∈ db.jobs, (leasedDb db row workerId (nowMs + leaseDurationMs) draw
      attempts).jobs.find? other.jobId = some (if other.jobId = row.jobId ∧ other.state = .pending
        then leasedRow row workerId (nowMs + leaseDurationMs) draw other else other) := by
    intro other hother
    rw [leasedDb, updateJobs_jobs, Table.find?_update, Table.find?_of_mem hother]
    simp
  refine ⟨⟨?_, ?_, ?_⟩, ?_, ?_, ?_, ?_, ?_, ?_⟩
  · intro found hfound
    obtain rfl := Option.some.inj hfound
    exact hclaimable
  · intro found hfound other hother
    obtain rfl := Option.some.inj hfound
    exact nextPending_least hnext hother.mem hother.toWaits
  · exact iff_of_false (Option.some_ne_none row) fun hnone => hnone row hclaimable
  · exact fun other hswept => absurd hswept (hunswept other)
  · intro found hfound
    obtain rfl := Option.some.inj hfound
    exact (hjobs _ hmem).trans (by rw [if_pos ⟨rfl, hwaits.pending⟩])
  · intro other hother hne _
    refine (hjobs other hother).trans ?_
    rw [if_neg]
    rintro ⟨hid, _⟩
    exact hne (congrArg some (Table.eq_of_key_eq hmem hother hid.symm))
  · have hids : (db.jobs.update (fun job => job.jobId = row.jobId && job.state = .pending)
        (leasedRow row workerId (nowMs + leaseDurationMs) draw)
        (leasedRow_jobId row workerId (nowMs + leaseDurationMs) draw)).rows.map Job.jobId =
          db.jobs.rows.map Job.jobId := Table.keys_update db.jobs
    exact hids
  · intro found hfound
    obtain rfl := Option.some.inj hfound
    exact ⟨started, (Table.insert?_eq_some_iff.mp hinsert).2⟩
  · exact fun hnone => absurd hnone (Option.some_ne_none row)

/-- A search that returns stopped at the least claimable job, and the turns
before swept the cancelled runs in front of it. -/
theorem claimLoop_effect {fuel : Nat} {result : Option Job}
    (h : claimLoop workerId nowMs runId leaseDurationMs draw fuel db = .ok (result, db')) :
    ∃ next, ClaimEffect db db' workerId (nowMs + leaseDurationMs) runId draw next ∧
      result = next.map fun row => grantedJob row workerId (nowMs + leaseDurationMs) draw := by
  induction fuel generalizing db with
  | zero => cases h
  | succ fuel ih =>
      rcases claimLoop_ok h with ⟨hnone, rfl, rfl⟩ |
        ⟨row, swept, hnext, hcancelled, hswept, hrest⟩ | ⟨row, job, hnext, hlive, rfl, hgrant⟩
      · exact ⟨none, claimEffect_of_none hnone, rfl⟩
      · obtain ⟨next, heffect, hresult⟩ := ih hrest
        exact ⟨next, (sweepStep_of_ok hswept).claimEffect hnext rfl hcancelled heffect, hresult⟩
      · obtain ⟨rfl, _⟩ := grant_ok hgrant
        exact ⟨some row, claimEffect_of_grant hnext hlive hgrant, rfl⟩

/-- A claim has the effect of a search that stopped somewhere, or none. -/
theorem claimEffect_or_unchanged (db : Db) (workerId : String) (nowMs : Int)
    (runId : Option String) (leaseDurationMs : Int) (draw : Draw) :
    (∃ next, ClaimEffect db (claim db workerId nowMs runId leaseDurationMs draw).2 workerId
      (nowMs + leaseDurationMs) runId draw next) ∨
      (claim db workerId nowMs runId leaseDurationMs draw).2 = db := by
  rcases claim_cases db workerId nowMs runId leaseDurationMs draw with
    ⟨result, db', hloop, heq⟩ | ⟨exc, heq⟩
  · obtain ⟨next, heffect, _⟩ := claimLoop_effect hloop
    rw [heq]
    exact Or.inl ⟨next, heffect⟩
  · rw [heq]
    exact Or.inr rfl

/-! ## When a claim returns -/

/-- What a claim of any pending job writes fits the columns it is written to,
in a database that meets its own constraints. -/
structure Db.Leasable (db : Db) (nowMs leaseDurationMs : Int) (draw : Draw) : Prop where
  clock : ∃ now, isoOfMs nowMs = .ok now
  deadline : minInteger ≤ nowMs + leaseDurationMs ∧ nowMs + leaseDurationMs ≤ maxInteger
  drawn : ∀ row ∈ db.evaluationAttempts, row.attemptId ≠ draw.attemptId
  fence : ∀ job ∈ db.jobs, job.state = .pending → 0 ≤ job.fence ∧ job.fence < maxInteger
  attemptsStarted : ∀ job ∈ db.jobs, job.state = .pending →
    0 ≤ job.attemptsStarted ∧ job.attemptsStarted < maxInteger
  authority : AuthorityUnique db.evaluationAttempts

theorem Db.Leasable.sweep (h : db.Leasable nowMs leaseDurationMs draw) {swept : Db} {run : String}
    (hswept : SweepStep db swept run) : swept.Leasable nowMs leaseDurationMs draw where
  clock := h.clock
  deadline := h.deadline
  drawn := hswept.attempts ▸ h.drawn
  fence := fun job hjob hpending => h.fence job (hswept.mem_pending hjob hpending).1 hpending
  attemptsStarted := fun job hjob hpending =>
    h.attemptsStarted job (hswept.mem_pending hjob hpending).1 hpending
  authority := hswept.attempts ▸ h.authority

theorem bindInteger_succ {n : Int} (h : 0 ≤ n ∧ n < maxInteger) :
    bindInteger (some (n + 1)) = .ok () := by
  apply if_pos
  intro m hm
  obtain rfl := Option.some.inj hm
  unfold minInteger
  omega

/-- A new active attempt under an unused id is accepted. -/
theorem insertAttempt_active {jobId : String} {fence : Int} (started : Datetime)
    (hjob : (db.jobs.find? jobId).isSome = true) (hfence : 0 < fence)
    (hdrawn : ∀ row ∈ db.evaluationAttempts, row.attemptId ≠ draw.attemptId)
    (hunique : AuthorityUnique db.evaluationAttempts) :
    ∃ db', db.insertAttempt (activeAttempt jobId fence draw started) = .ok db' := by
  unfold Db.insertAttempt
  cases hinsert : db.evaluationAttempts.insert? (activeAttempt jobId fence draw started) with
  | none =>
      have hfree : db.evaluationAttempts.find? draw.attemptId = none :=
        Table.find?_eq_none_iff.mpr hdrawn
      exact absurd hfree (Table.find?_ne_none_of_insert? hinsert)
  | some attempts =>
      have hkept : AuthorityUnique attempts := by
        rw [AuthorityUnique, Table.select_insert? hinsert]
        simp only [activeAttempt, reduceCtorEq, decide_false, Bool.false_eq_true, ↓reduceIte,
          List.append_nil]
        exact hunique
      refine ⟨_, if_pos ⟨activeAttempt_check jobId hfence draw started, hjob, ?_, hkept⟩⟩
      refine ⟨?_, ?_, ?_⟩
      · rintro _ ⟨⟩
      · rintro _ ⟨⟩
      · rintro _ ⟨⟩

/-- Every value a lease writes fits its column and no constraint is in the way, so the guarded
update hits the row. -/
theorem grant_returns {row : Job} (h : db.Leasable nowMs leaseDurationMs draw)
    (hrow : row ∈ db.jobs) (hpending : row.state = .pending) (workerId : String) :
    ∃ granted, grant db row workerId nowMs leaseDurationMs draw = .ok granted := by
  obtain ⟨now, hnow⟩ := h.clock
  have hfence := h.fence row hrow hpending
  have hdeadline : bindInteger (some (nowMs + leaseDurationMs)) = .ok () := by
    apply if_pos
    intro n hn
    obtain rfl := Option.some.inj hn
    exact h.deadline
  -- the row the new attempt refers to is still in the table
  have hjob : ((db.updateJobs (fun job => job.jobId = row.jobId && job.state = .pending)
      (leasedRow row workerId (nowMs + leaseDurationMs) draw) (leasedRow_jobId row workerId
        (nowMs + leaseDurationMs) draw)).jobs.find? row.jobId).isSome = true := by
    rw [updateJobs_jobs, Table.find?_update, Table.find?_of_mem hrow]
    rfl
  have hpositive : 0 < row.fence + 1 := by omega
  obtain ⟨inserted, hinserted⟩ := insertAttempt_active now hjob hpositive h.drawn h.authority
  obtain ⟨settled, hsettled⟩ : ∃ settled, updateRunState inserted row.runId nowMs = .ok settled :=
    updateRunState_isOk_iff.mpr fun _ => ⟨now, hnow⟩
  refine ⟨(grantedJob row workerId (nowMs + leaseDurationMs) draw, settled), ?_⟩
  refine bind_eq_ok_unit.mpr ⟨bindInteger_succ hfence, bind_eq_ok_unit.mpr ⟨hdeadline, ?_⟩⟩
  refine bind_eq_ok_unit.mpr ⟨bindInteger_succ (h.attemptsStarted row hrow hpending), ?_⟩
  exact bind_eq_ok.mpr ⟨now, hnow, bind_eq_ok.mpr ⟨inserted, hinserted,
    bind_eq_ok.mpr ⟨settled, hsettled, rfl⟩⟩⟩

/-- By induction on the fuel: each turn over a cancelled run leaves fewer jobs pending, so the
fuel lasts. -/
theorem claimLoop_returns {fuel : Nat} (h : db.Leasable nowMs leaseDurationMs draw)
    (hfuel : db.pendingCount < fuel) (workerId : String) (runId : Option String) :
    ∃ outcome, claimLoop workerId nowMs runId leaseDurationMs draw fuel db = .ok outcome := by
  induction fuel generalizing db with
  | zero => omega
  | succ fuel ih =>
      rw [claimLoop]
      cases hnext : nextPending db runId with
      | none => exact ⟨_, rfl⟩
      | some row =>
          obtain ⟨hmem, hwaits⟩ := nextPending_waits hnext
          dsimp only
          split
          next hcancelled =>
            obtain ⟨swept, hswept⟩ : ∃ swept,
                updateRunState (failPending db row.runId) row.runId nowMs = .ok swept :=
              updateRunState_isOk_iff.mpr fun _ => h.clock
            -- A sweep leaves fewer pending rows, which is why the fuel suffices.
            have hless : swept.pendingCount < db.pendingCount := by
              have hsame : swept.pendingCount = (failPending db row.runId).pendingCount := by
                rw [Db.pendingCount, (sweepStep_of_ok hswept).jobs, Db.pendingCount]
              rw [hsame]
              exact pendingCount_failPending_lt hmem hwaits.pending
            obtain ⟨outcome, houtcome⟩ := ih (h.sweep (sweepStep_of_ok hswept))
              (Nat.lt_of_lt_of_le hless (Nat.le_of_lt_succ hfuel))
            exact ⟨outcome, bind_eq_ok.mpr ⟨swept, hswept, houtcome⟩⟩
          next hlive =>
            obtain ⟨granted, hgranted⟩ := grant_returns h hmem hwaits.pending workerId
            exact ⟨_, bind_eq_ok.mpr ⟨granted, hgranted, rfl⟩⟩

end Search

/-! ## Claims -/

/-- What a claim does: it ends; it returns the least claimable job under a new
lease, or nothing; or the database cannot store the lease and stays as it is. -/
structure ClaimExact (db : Db) (workerId : String) (nowMs : Int) (runId : Option String)
    (leaseDurationMs : Int) (draw : Draw) : Prop where
  returned : ∀ result, (claim db workerId nowMs runId leaseDurationMs draw).1 = .ok result →
    ∃ next, ClaimEffect db (claim db workerId nowMs runId leaseDurationMs draw).2 workerId
        (nowMs + leaseDurationMs) runId draw next ∧
      result = next.map fun row => grantedJob row workerId (nowMs + leaseDurationMs) draw
  raised : ∀ exc, (claim db workerId nowMs runId leaseDurationMs draw).1 = .error exc →
    exc.isStorage = true ∧ (claim db workerId nowMs runId leaseDurationMs draw).2 = db
  returns : db.Leasable nowMs leaseDurationMs draw →
    ∃ result, (claim db workerId nowMs runId leaseDurationMs draw).1 = .ok result

/-- A claim ends in every database, whatever run it is restricted to, and is
exact whenever the lease it grants can be stored. -/
theorem claim_exact (db : Db) (workerId : String) (nowMs : Int) (runId : Option String)
    (leaseDurationMs : Int) (draw : Draw) :
    ClaimExact db workerId nowMs runId leaseDurationMs draw where
  returned := by
    intro result hresult
    rcases claim_cases db workerId nowMs runId leaseDurationMs draw with
      ⟨found, db', hloop, heq⟩ | ⟨exc, heq⟩
    · rw [heq] at hresult ⊢
      obtain rfl := Except.ok.inj hresult
      exact claimLoop_effect hloop
    · rw [heq] at hresult
      cases hresult
  raised := by
    intro exc hexc
    refine ⟨claim_raises db workerId nowMs runId leaseDurationMs draw exc hexc, ?_⟩
    rcases claim_cases db workerId nowMs runId leaseDurationMs draw with
      ⟨found, db', _, heq⟩ | ⟨_, heq⟩
    · rw [heq] at hexc
      cases hexc
    · rw [heq]
  returns := by
    intro h
    have hfuel : db.pendingCount < db.jobs.rows.length + 1 :=
      Nat.lt_succ_of_le List.countP_le_length
    obtain ⟨⟨result, db'⟩, hloop⟩ := claimLoop_returns h hfuel workerId runId
    have hclaim : claim db workerId nowMs runId leaseDurationMs draw = (.ok result, db') :=
      transaction_ok hloop
    exact ⟨result, congrArg Prod.fst hclaim⟩

/-- A claim at a time that is no date raises, although a job waits in a run
that is not cancelled. -/
theorem claim_of_undated :
    soloDb.Claimable none (plannedJob "job") ∧
      (claim soloDb "worker" 1000000000000000000 none defaultLeaseMs
        ⟨"attempt", "token", by decide⟩).1 = .error .valueError :=
  ⟨⟨⟨rfl, nofun⟩, List.mem_singleton.mpr rfl, rfl⟩, rfl⟩

end VerifierCI
