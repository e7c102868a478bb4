import VerifierCI.Execution.Operations

/-! # What a call does to job rows

The rows of `jobs` on their own. A ledger transition leaves open what a reaped
job becomes; here the move names it, so that facts about the retry budget and
about cancellation follow one row at a time.
-/

namespace VerifierCI

open Python Relational

/-- One write to the row of a job. `reaps` says what a reaped row may become. -/
inductive JobMove (reaps : Job → JobState × Option String → Prop) : Job → Job → Prop
  | grant {row : Job} (workerId : String) (expires : Int) (draw : Draw)
      (hpending : row.state = .pending) :
      JobMove reaps row (leasedRow row workerId expires draw row)
  | cancel {row : Job} (hpending : row.state = .pending) : JobMove reaps row (cancelledRow row)
  | start {row : Job} (hclaimed : row.state = .claimed) : JobMove reaps row (runningRow row)
  | extend {row : Job} (expires : Int) (hheld : row.state.isHeld = true) :
      JobMove reaps row (extendedRow expires row)
  | reap {row : Job} (outcome : JobState × Option String) (hheld : row.state.isHeld = true)
      (hreaps : reaps row outcome) : JobMove reaps row (releasedRow outcome row)
  | commit {row : Job} (attempt : EvaluationAttempt) (hopen : row.state.isTerminal = false) :
      JobMove reaps row (finishedRow attempt row)

/-- Every row of `jobs` moves along, and none appears. -/
structure JobsMove (reaps : Job → JobState × Option String → Prop) (db db' : Db) : Prop where
  forward : ∀ jobId row, db.jobs.find? jobId = some row → ∃ row',
    db'.jobs.find? jobId = some row' ∧ Relation.ReflTransGen (JobMove reaps) row row'
  origin : ∀ jobId row', db'.jobs.find? jobId = some row' →
    ∃ row, db.jobs.find? jobId = some row

namespace JobsMove

variable {reaps : Job → JobState × Option String → Prop} {db db' db'' : Db}

theorem of_jobs_eq (h : db'.jobs = db.jobs) : JobsMove reaps db db' where
  forward := fun _ row hrow => ⟨row, h ▸ hrow, .refl⟩
  origin := fun _ row hrow => ⟨row, h ▸ hrow⟩

theorem refl (db : Db) : JobsMove reaps db db :=
  of_jobs_eq rfl

theorem trans (first : JobsMove reaps db db') (second : JobsMove reaps db' db'') :
    JobsMove reaps db db'' where
  forward := by
    intro jobId row hrow
    obtain ⟨row', hrow', hpath⟩ := first.forward jobId row hrow
    obtain ⟨row'', hrow'', hpath'⟩ := second.forward jobId row' hrow'
    exact ⟨row'', hrow'', hpath.trans hpath'⟩
  origin := by
    intro jobId row'' hrow''
    obtain ⟨row', hrow'⟩ := second.origin jobId row'' hrow''
    exact first.origin jobId row' hrow'

/-- An update of the rows that meet a condition. -/
theorem of_update {p : Job → Bool} {f : Job → Job} (hf : ∀ row, (f row).jobId = row.jobId)
    (hmove : ∀ row ∈ db.jobs, p row = true → JobMove reaps row (f row)) :
    JobsMove reaps db (db.updateJobs p f hf) where
  forward := by
    intro jobId row hrow
    refine ⟨if p row then f row else row, ?_, ?_⟩
    · rw [updateJobs_jobs, Table.find?_update, hrow, Option.map_some]
    · split
      next hp => exact .single (hmove row (Table.mem_of_find? hrow) hp)
      next => exact .refl
  origin := by
    intro jobId row' hrow'
    rw [updateJobs_jobs, Table.find?_update, Option.map_eq_some_iff] at hrow'
    obtain ⟨row, hrow, _⟩ := hrow'
    exact ⟨row, hrow⟩

/-- An update of the row found under one id. -/
theorem of_update_row {jobId : String} {row : Job} {f : Job → Job}
    (hf : ∀ row, (f row).jobId = row.jobId) (hrow : db.jobs.find? jobId = some row)
    (hmove : JobMove reaps row (f row)) :
    JobsMove reaps db (db.updateJobs (fun other => other.jobId = jobId) f hf) := by
  refine of_update hf ?_
  intro other hother hp
  have hid : other.jobId = row.jobId := (of_decide_eq_true hp).trans (Table.key_of_find? hrow).symm
  rw [Table.eq_of_key_eq hother (Table.mem_of_find? hrow) hid]
  exact hmove

/-- What each move keeps, every row keeps. -/
theorem induction {good : Job → Prop} (hmove : ∀ row row', JobMove reaps row row' → good row →
    good row') {row row' : Job} (hpath : Relation.ReflTransGen (JobMove reaps) row row')
    (h : good row) : good row' := by
  induction hpath with
  | refl => exact h
  | tail _ hlast ih => exact hmove _ _ hlast ih

/-- What each move keeps holds of every row afterwards if it did before. -/
theorem keeps (h : JobsMove reaps db db') {good : Job → Prop}
    (hmove : ∀ row row', JobMove reaps row row' → good row → good row')
    (hgood : ∀ row ∈ db.jobs, good row) : ∀ row ∈ db'.jobs, good row := by
  intro row' hrow'
  have hfind := Table.find?_of_mem hrow'
  obtain ⟨row, hrow⟩ := h.origin _ _ hfind
  obtain ⟨later, hlater, hpath⟩ := h.forward _ _ hrow
  obtain rfl : row' = later := Option.some.inj (hfind.symm.trans hlater)
  exact induction hmove hpath (hgood row (Table.mem_of_find? hrow))

end JobsMove

section Moves

variable {reaps : Job → JobState × Option String → Prop} {row row' : Job}

theorem JobMove.runId (h : JobMove reaps row row') : row'.runId = row.runId := by
  cases h <;> rfl

/-- Only a claim counts an attempt. -/
theorem JobMove.attemptsStarted_le (h : JobMove reaps row row') :
    row.attemptsStarted ≤ row'.attemptsStarted := by
  cases h with
  | grant => exact Int.le_add_one le_rfl
  | _ => exact le_rfl

end Moves

/-! ## Calls -/

section Calls

variable {db db' : Db} {nowMs : Int} {reaps : Job → JobState × Option String → Prop}

theorem failPending_moves (db : Db) (runId : String) :
    JobsMove reaps db (failPending db runId) := by
  refine JobsMove.of_update cancelledRow_jobId ?_
  intro row _ hp
  simp only [Bool.and_eq_true, decide_eq_true_eq] at hp
  exact .cancel hp.2

theorem updateRunState_moves {runId : String} (h : updateRunState db runId nowMs = .ok db') :
    JobsMove reaps db db' := by
  obtain ⟨runs, rfl, _⟩ := updateRunState_ok h
  exact .of_jobs_eq rfl

/-- A grant writes the row that was just read. -/
theorem grant_row {row job : Job} {workerId : String} {leaseDurationMs : Int} {draw : Draw}
    (hrow : db.jobs.find? row.jobId = some row) (hpending : row.state = .pending)
    (h : grant db row workerId nowMs leaseDurationMs draw = .ok (job, db')) :
    JobsMove reaps db db' ∧ job.jobId = row.jobId ∧ job.runId = row.runId ∧
      db'.jobs.find? row.jobId =
        some (leasedRow row workerId (nowMs + leaseDurationMs) draw row) := by
  obtain ⟨rfl, started, attempts, _, hrun⟩ := grant_ok h
  have hleased : JobsMove reaps db
      (leasedDb db row workerId (nowMs + leaseDurationMs) draw attempts) := by
    refine JobsMove.trans (JobsMove.of_update (leasedRow_jobId row workerId _ draw) ?_)
      (.of_jobs_eq rfl)
    intro other hother hp
    simp only [Bool.and_eq_true, decide_eq_true_eq] at hp
    obtain rfl := Table.eq_of_key_eq hother (Table.mem_of_find? hrow) hp.1
    exact .grant workerId _ draw hpending
  refine ⟨hleased.trans (updateRunState_moves hrun), rfl, rfl, ?_⟩
  obtain ⟨runs, rfl, _⟩ := updateRunState_ok hrun
  simp only [leasedDb, updateJobs_jobs, Table.find?_update, hrow, Option.map_some, hpending,
    decide_true, Bool.and_self, if_true]

/-- What a claim hands out was pending after the sweeps of the same claim. By induction on the
fuel: each round sweeps the jobs of one cancelled run, until a row is granted or nothing is
pending. -/
theorem claimLoop_row {workerId : String} {runId : Option String} {leaseDurationMs : Int}
    {draw : Draw} {fuel : Nat} {result : Option Job}
    (h : claimLoop workerId nowMs runId leaseDurationMs draw fuel db = .ok (result, db')) :
    JobsMove reaps db db' ∧ ∀ job, result = some job → ∃ swept row,
      JobsMove reaps db swept ∧ swept.jobs.find? job.jobId = some row ∧ row.state = .pending ∧
        job.runId = row.runId ∧ ∃ row', db'.jobs.find? job.jobId = some row' ∧
          row'.attemptsStarted = row.attemptsStarted + 1 := by
  induction fuel generalizing db with
  | zero => cases h
  | succ fuel ih =>
      rcases claimLoop_ok h with ⟨_, rfl, rfl⟩ | ⟨row, swept, _, _, hswept, hrest⟩ |
        ⟨row, job, hnext, _, rfl, hgrant⟩
      · exact ⟨.refl _, fun job hjob => by cases hjob⟩
      · have hsweep : JobsMove reaps db swept :=
          (failPending_moves db row.runId).trans (updateRunState_moves hswept)
        obtain ⟨hmoves, hgranted⟩ := ih hrest
        refine ⟨hsweep.trans hmoves, ?_⟩
        intro job hjob
        obtain ⟨later, row', hlater, hrow'⟩ := hgranted job hjob
        exact ⟨later, row', hsweep.trans hlater, hrow'⟩
      · obtain ⟨hrow, hpending, _⟩ := nextPending_some hnext
        obtain ⟨hmoves, hid, hrun, hleased⟩ := grant_row hrow hpending hgrant
        refine ⟨hmoves, ?_⟩
        intro granted hgranted
        obtain rfl := Option.some.inj hgranted
        exact ⟨db, row, .refl db, hid ▸ hrow, hpending, hrun, _, hid ▸ hleased, rfl⟩

/-- A turn of the reaping loop writes the state the row calls for. -/
theorem reapRow_eq {maxAttempts : Option Int} {now : Datetime} {row : Job}
    (h : reapRow maxAttempts now db row = .ok db') :
    db' = reapedDb db row (reapedState db row maxAttempts) now := by
  obtain ⟨abandoned, habandoned, hok⟩ := bind_eq_ok.mp h
  obtain rfl := Except.ok.inj hok
  rw [abandonAttempt_ok habandoned]
  rfl

theorem reapedDb_moves {row : Job} {outcome : JobState × Option String} {now : Datetime}
    (hrow : db.jobs.find? row.jobId = some row) (hheld : row.state.isHeld = true)
    (hreaps : reaps row outcome) : JobsMove reaps db (reapedDb db row outcome now) :=
  JobsMove.trans (JobsMove.of_update_row (releasedRow_jobId outcome) hrow
    (.reap outcome hheld hreaps)) (.of_jobs_eq rfl)

/-- The loop reads runs and manifests only, which it does not write. By induction on the batch,
which lists no job twice: releasing one row leaves the others as they were read. -/
theorem reapRows_moves {rows : List Job} {maxAttempts : Option Int} {now : Datetime}
    (hnodup : (rows.map Job.jobId).Nodup)
    (hrows : ∀ row ∈ rows, db.jobs.find? row.jobId = some row ∧ row.state.isHeld = true)
    (hreaps : ∀ row ∈ rows, reaps row (reapedState db row maxAttempts))
    (h : rows.foldlM (reapRow maxAttempts now) db = .ok db') :
    JobsMove reaps db db' ∧ (∀ row ∈ rows, db'.jobs.find? row.jobId =
      some (releasedRow (reapedState db row maxAttempts) row)) ∧
        ∀ other ∈ db.jobs, other.jobId ∉ rows.map Job.jobId →
          db'.jobs.find? other.jobId = some other := by
  induction rows generalizing db with
  | nil =>
      obtain rfl := Except.ok.inj h
      exact ⟨.refl _, by simp, fun other hother _ => Table.find?_of_mem hother⟩
  | cons row rest ih =>
      rw [List.foldlM_cons, bind_eq_ok] at h
      obtain ⟨middle, hfirst, hrest⟩ := h
      obtain rfl := reapRow_eq hfirst
      rw [List.map_cons, List.nodup_cons] at hnodup
      obtain ⟨hrow, hheld⟩ := hrows row List.mem_cons_self
      -- The first row moves; the ids differ, so the rest of the batch is as it was read.
      have hmoves : JobsMove reaps db (reapedDb db row (reapedState db row maxAttempts) now) :=
        reapedDb_moves hrow hheld (hreaps row List.mem_cons_self)
      have hsame : ∀ other ∈ rest, (reapedDb db row (reapedState db row maxAttempts)
          now).jobs.find? other.jobId = some other := by
        intro other hother
        refine reapedDb_find?_of_ne ?_ (hrows other (List.mem_cons_of_mem row hother)).1
        intro heq
        exact hnodup.1 (heq ▸ List.mem_map_of_mem hother)
      have hreaped : (reapedDb db row (reapedState db row maxAttempts) now).jobs.find?
          row.jobId = some (releasedRow (reapedState db row maxAttempts) row) := by
        simp only [reapedDb, updateJobs_jobs, Table.find?_update, hrow, Option.map_some,
          decide_true, if_true]
      obtain ⟨hlater, hreleased, hothers⟩ := ih hnodup.2
        (fun other hother =>
          ⟨hsame other hother, (hrows other (List.mem_cons_of_mem row hother)).2⟩)
        (fun other hother => hreaps other (List.mem_cons_of_mem row hother)) hrest
      refine ⟨hmoves.trans hlater, ?_, ?_⟩
      · intro other hother
        rcases List.mem_cons.mp hother with rfl | hother
        · exact hothers _ (Table.mem_of_find? hreaped) hnodup.1
        · exact hreleased other hother
      · intro other hother hnot
        rw [List.map_cons, List.mem_cons, not_or] at hnot
        have hkept : (reapedDb db row (reapedState db row maxAttempts) now).jobs.find?
            other.jobId = some other := reapedDb_find?_of_ne hnot.1 (Table.find?_of_mem hother)
        exact hothers other (Table.mem_of_find? hkept) hnot.2

/-- Settling the runs writes `audit_runs` only. -/
theorem settleRuns_ok {runIds : List String}
    (h : runIds.foldlM (fun db runId => updateRunState db runId nowMs) db = .ok db') :
    ∃ runs, db' = { db with auditRuns := runs } := by
  induction runIds generalizing db with
  | nil =>
      obtain rfl := Except.ok.inj h
      exact ⟨db.auditRuns, rfl⟩
  | cons runId rest ih =>
      rw [List.foldlM_cons, bind_eq_ok] at h
      obtain ⟨middle, hfirst, hrest⟩ := h
      obtain ⟨_, rfl, _⟩ := updateRunState_ok hfirst
      obtain ⟨runs, rfl⟩ := ih hrest
      exact ⟨runs, rfl⟩

theorem settleRuns_moves {runIds : List String}
    (h : runIds.foldlM (fun db runId => updateRunState db runId nowMs) db = .ok db') :
    db'.jobs = db.jobs := by
  obtain ⟨runs, rfl⟩ := settleRuns_ok h
  rfl

/-- What a reap may make of a row: the state the row calls for when it starts. -/
def Db.mayReap (db : Db) (op : Operation) (row : Job) (outcome : JobState × Option String) : Prop :=
  ∃ nowMs maxAttempts, op = .reapExpired nowMs maxAttempts ∧
    outcome = reapedState db row maxAttempts

/-- The loop of a reap visits each expired job once, so the row it leaves is the row it
wrote. -/
theorem expiredRows_reaped {maxAttempts : Option Int} {now : Datetime} {released : Db}
    (h : (expiredRows db nowMs).foldlM (reapRow maxAttempts now) db = .ok released) :
    JobsMove (db.mayReap (.reapExpired nowMs maxAttempts)) db released ∧
      (∀ row ∈ expiredRows db nowMs, released.jobs.find? row.jobId =
        some (releasedRow (reapedState db row maxAttempts) row)) ∧
      ∀ other ∈ db.jobs, other.jobId ∉ (expiredRows db nowMs).map Job.jobId →
        released.jobs.find? other.jobId = some other := by
  have hheld : ∀ row ∈ expiredRows db nowMs,
      db.jobs.find? row.jobId = some row ∧ row.state.isHeld = true := by
    intro row hrow
    obtain ⟨hmem, hheld, _⟩ := mem_expiredRows.mp hrow
    exact ⟨Table.find?_of_mem hmem, hheld⟩
  have hreaps : ∀ row ∈ expiredRows db nowMs,
      db.mayReap (.reapExpired nowMs maxAttempts) row (reapedState db row maxAttempts) :=
    fun row _ => ⟨nowMs, maxAttempts, rfl, rfl⟩
  exact reapRows_moves (expiredRows_nodup db nowMs) hheld hreaps h

/-- A reap releases the rows whose lease has lapsed. -/
theorem reapExpired_row {maxAttempts : Option Int} {ids : List String}
    (h : (reapExpired db nowMs maxAttempts).1 = .ok ids) {row : Job} (hrow : row ∈ db.jobs)
    (hid : row.jobId ∈ ids) : (reapExpired db nowMs maxAttempts).2.jobs.find? row.jobId =
      some (releasedRow (reapedState db row maxAttempts) row) := by
  rcases reapExpired_cases db nowMs maxAttempts with
    ⟨now, released, db', hreleased, hclosed, heq⟩ | ⟨exc, heq⟩
  · rw [heq] at h ⊢
    obtain rfl := Except.ok.inj h
    obtain ⟨expired, hexpired, hexpiredId⟩ := List.mem_map.mp hid
    obtain ⟨hmem, _, _, _⟩ := mem_expiredRows.mp hexpired
    obtain rfl := Table.eq_of_key_eq hmem hrow hexpiredId
    show db'.jobs.find? _ = _
    rw [settleRuns_moves hclosed]
    exact (expiredRows_reaped hreleased).2.1 expired hexpired
  · rw [heq] at h
    cases h

/-- A reap leaves the rows it does not return. -/
theorem reapExpired_kept {maxAttempts : Option Int} {ids : List String}
    (h : (reapExpired db nowMs maxAttempts).1 = .ok ids) {row : Job} (hrow : row ∈ db.jobs)
    (hid : row.jobId ∉ ids) :
    (reapExpired db nowMs maxAttempts).2.jobs.find? row.jobId = some row := by
  rcases reapExpired_cases db nowMs maxAttempts with
    ⟨now, released, db', hreleased, hclosed, heq⟩ | ⟨exc, heq⟩
  · rw [heq] at h ⊢
    obtain rfl := Except.ok.inj h
    show db'.jobs.find? _ = _
    rw [settleRuns_moves hclosed]
    exact (expiredRows_reaped hreleased).2.2 row hrow hid
  · rw [heq] at h
    cases h

/-- Every call, case by case, takes each row of `jobs` along one of the moves. A call that
raises takes none, since it is rolled back. -/
theorem call_moves (db : Db) (op : Operation) : JobsMove (db.mayReap op) db (db.call op) := by
  cases op with
  | claim workerId nowMs runId leaseDurationMs draw =>
      rcases claim_cases db workerId nowMs runId leaseDurationMs draw with
        ⟨result, db', hloop, heq⟩ | ⟨exc, heq⟩
      · rw [Db.call, heq]
        exact (claimLoop_row hloop).1
      · rw [Db.call, heq]
        exact .refl db
  | markRunning job nowMs =>
      rcases markRunning_cases db job nowMs with ⟨row, hrow, _, heq⟩ | ⟨exc, _, heq⟩
      · rw [Db.call, heq, runningDb]
        split
        -- a job that is running already is marked again without a change
        next hclaimed => exact .of_update_row runningRow_jobId hrow (.start hclaimed)
        next => exact .refl db
      · rw [Db.call, heq]
        exact .refl db
  | heartbeat job nowMs extensionMs =>
      rcases heartbeat_cases db job nowMs extensionMs with
        ⟨row, hrow, hlive, heq⟩ | ⟨row, _, _, heq⟩ | ⟨exc, _, heq⟩
      · rw [Db.call, heq, extendedDb]
        exact .of_update_row (extendedRow_jobId _) hrow (.extend _ hlive.held)
      · rw [Db.call, heq]
        exact .refl db
      · rw [Db.call, heq]
        exact .refl db
  | complete job attempt nowMs =>
      rcases complete_spec db job attempt nowMs with
        ⟨_, now, _, heq⟩ | ⟨hcommits, finishedAt, db', _, hrun, heq⟩ | ⟨result, heq, _⟩
      · rw [Db.call, heq]
        exact .of_jobs_eq rfl
      · obtain ⟨row, stored, hguard⟩ := commits_iff.mp hcommits
        have hcommitted : JobsMove (db.mayReap (.complete job attempt nowMs)) db
            (committedDb db job attempt finishedAt) :=
          JobsMove.trans (.of_update_row (finishedRow_jobId attempt) hguard.row_eq
            (.commit attempt hguard.not_terminal)) (.of_jobs_eq rfl)
        rw [Db.call, heq]
        exact hcommitted.trans (updateRunState_moves hrun)
      · rw [Db.call, heq]
        exact .refl db
  | reapExpired nowMs maxAttempts =>
      rcases reapExpired_cases db nowMs maxAttempts with
        ⟨now, released, db', hreleased, hclosed, heq⟩ | ⟨exc, heq⟩
      · rw [Db.call, heq]
        exact (expiredRows_reaped hreleased).1.trans (.of_jobs_eq (settleRuns_moves hclosed))
      · rw [Db.call, heq]
        exact .refl db
  | requestCancel runId nowMs =>
      rcases requestCancel_cases db runId nowMs with ⟨db', hclosed, heq⟩ | ⟨exc, heq⟩
      · rw [Db.call, heq]
        have hflag : JobsMove (db.mayReap (.requestCancel runId nowMs)) db
            (db.updateRun runId cancelledRun cancelledRun_runId) := .of_jobs_eq rfl
        exact (hflag.trans (failPending_moves _ runId)).trans (updateRunState_moves hclosed)
      · rw [Db.call, heq]
        exact .refl db
  | getJob jobId => exact .refl db

end Calls

end VerifierCI
