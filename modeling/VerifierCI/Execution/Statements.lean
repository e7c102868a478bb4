import Mathlib.Data.List.Count
import VerifierCI.Execution.Ledger

/-! # What each statement and transaction can do

One inversion lemma for every helper and operation of the queue. Later proofs
cite these and unfold no operation again.
-/

namespace VerifierCI

open Python Relational

section Transactions

variable {α : Type} {db : Db} {body : Db → Except Exc (α × Db)}

theorem transaction_ok {value : α} {db' : Db} (h : body db = .ok (value, db')) :
    transaction db body = (.ok value, db') := by
  simp only [transaction, h]

theorem transaction_error {exc : Exc} (h : body db = .error exc) :
    transaction db body = (.error exc, db) := by
  simp only [transaction, h]

/-- Either the body committed, or nothing happened. -/
theorem transaction_cases (db : Db) (body : Db → Except Exc (α × Db)) :
    (∃ value db', body db = .ok (value, db') ∧ transaction db body = (.ok value, db')) ∨
      ∃ exc, body db = .error exc ∧ transaction db body = (.error exc, db) := by
  cases hbody : body db with
  | error exc => exact Or.inr ⟨exc, rfl, transaction_error hbody⟩
  | ok result => exact Or.inl ⟨result.1, result.2, rfl, transaction_ok hbody⟩

end Transactions

/-! ## Statements -/

section Statements

variable {db db' : Db}

@[simp] theorem updateJobs_jobs {p : Job → Bool} {f : Job → Job}
    {hkey : ∀ row, (f row).jobId = row.jobId} :
    (db.updateJobs p f hkey).jobs = db.jobs.update p f hkey := rfl

@[simp] theorem updateJobs_evaluationAttempts {p : Job → Bool} {f : Job → Job}
    {hkey : ∀ row, (f row).jobId = row.jobId} :
    (db.updateJobs p f hkey).evaluationAttempts = db.evaluationAttempts := rfl

@[simp] theorem updateJobs_auditRuns {p : Job → Bool} {f : Job → Job}
    {hkey : ∀ row, (f row).jobId = row.jobId} :
    (db.updateJobs p f hkey).auditRuns = db.auditRuns := rfl

/-- What the database checks before it lets an UPDATE of attempts through. -/
structure UpdateAllowed (db : Db) (p : AttemptRow → Bool) (f : AttemptRow → AttemptRow)
    (hkey : ∀ row, (f row).attemptId = row.attemptId) : Prop where
  rows : ∀ row ∈ db.evaluationAttempts, p row = true →
    row.disposition ≠ .authoritative ∧ (f row).Check ∧ db.References (f row)
  authority : AuthorityUnique (db.evaluationAttempts.update p f hkey)

/-- An UPDATE goes through if every row it writes meets the CHECKs, the unique index and the
foreign keys. -/
theorem updateAttempts_eq_ok_iff {p : AttemptRow → Bool} {f : AttemptRow → AttemptRow}
    {hkey : ∀ row, (f row).attemptId = row.attemptId} :
    db.updateAttempts p f hkey = .ok db' ↔ UpdateAllowed db p f hkey ∧
      db' = { db with evaluationAttempts := db.evaluationAttempts.update p f hkey } := by
  have hselect : (∀ row ∈ db.evaluationAttempts.select p,
        row.disposition ≠ .authoritative ∧ (f row).Check ∧ db.References (f row)) ↔
      ∀ row ∈ db.evaluationAttempts, p row = true →
        row.disposition ≠ .authoritative ∧ (f row).Check ∧ db.References (f row) := by
    simp only [Table.mem_select, and_imp]
  unfold Db.updateAttempts
  dsimp only
  split
  next hallowed =>
    rw [hselect] at hallowed
    constructor
    · intro h
      exact ⟨⟨hallowed.1, hallowed.2⟩, (Except.ok.inj h).symm⟩
    · rintro ⟨_, rfl⟩
      rfl
  next hallowed =>
    constructor
    · intro h
      cases h
    · rintro ⟨h, _⟩
      exact absurd ⟨hselect.mpr h.rows, h.authority⟩ hallowed

/-- What an INSERT that goes through has checked. -/
theorem insertAttempt_ok {row : AttemptRow} (h : db.insertAttempt row = .ok db') :
    ∃ attempts, db.evaluationAttempts.insert? row = some attempts ∧ row.Check ∧
      (db.jobs.find? row.jobId).isSome = true ∧ db.References row ∧
      db' = { db with evaluationAttempts := attempts } := by
  unfold Db.insertAttempt at h
  split at h
  · cases h
  next attempts hinsert =>
    split at h
    next hallowed =>
      obtain ⟨hcheck, hjob, hreferences, _⟩ := hallowed
      exact ⟨attempts, hinsert, hcheck, hjob, hreferences, (Except.ok.inj h).symm⟩
    · cases h

def Db.runJobs (db : Db) (runId : String) : List Job :=
  db.jobs.select fun job => job.runId = runId

theorem mem_runJobs {runId : String} {job : Job} :
    job ∈ db.runJobs runId ↔ job ∈ db.jobs ∧ job.runId = runId := by
  rw [Db.runJobs, Table.mem_select, decide_eq_true_eq]

/-- The run is open and has jobs, and all of them are finished. -/
def closesRun (db : Db) (runId : String) : Bool :=
  match db.auditRuns.find? runId with
  | none => false
  | some run => !run.state.isTerminal && !(db.runJobs runId).isEmpty &&
      (db.runJobs runId).all fun job => job.state.isFinished

def closedState (db : Db) (runId : String) : RunState :=
  if cancelRequested db runId then .cancelled
  else if (db.runJobs runId).any fun job => job.state = .failed then .failed
  else .complete

def closedDb (db : Db) (runId : String) (finishedAt : Datetime) : Db :=
  db.updateRun runId (closedRun (closedState db runId) finishedAt)
    (closedRun_runId (closedState db runId) finishedAt)

def startedDb (db : Db) (runId : String) : Db :=
  match db.auditRuns.find? runId with
  | none => db
  | some run =>
      if run.state = .planned ∧
        ((db.runJobs runId).any fun job => !job.state.isFinished) = true then
        db.updateRun runId startedRun startedRun_runId
      else db

/-- The run is closed if its last job has finished, and otherwise started. The
clock is read only to close it. -/
theorem updateRunState_eq (db : Db) (runId : String) (nowMs : Int) :
    updateRunState db runId nowMs =
      if closesRun db runId then (isoOfMs nowMs).map (closedDb db runId)
      else .ok (startedDb db runId) := by
  unfold updateRunState closesRun startedDb closedDb closedState cancelRequested
  have hselect : (db.jobs.select fun job => job.runId = runId) = db.runJobs runId := rfl
  -- The source counts rows; the named tests ask whether there is one.
  have hactive : ((db.runJobs runId).countP fun job => !job.state.isFinished) > 0 ↔
      (db.runJobs runId).all (fun job => job.state.isFinished) = false := by
    rw [gt_iff_lt, List.countP_pos_iff, List.all_eq_false]
    simp
  have hany : ((db.runJobs runId).any fun job => !job.state.isFinished) =
      !(db.runJobs runId).all fun job => job.state.isFinished := by
    rw [List.not_all_eq_any_not]
  have hfailed : ((db.runJobs runId).countP fun job => job.state = .failed) > 0 ↔
      ((db.runJobs runId).any fun job => job.state = .failed) = true := by
    rw [gt_iff_lt, List.countP_pos_iff, List.any_eq_true]
  have hempty : (db.runJobs runId).length = 0 ↔ (db.runJobs runId).isEmpty = true := by
    rw [List.length_eq_zero_iff, List.isEmpty_iff]
  cases hrun : db.auditRuns.find? runId with
  | none => rfl
  | some run =>
      simp only [hselect, hactive, hany, hfailed, hempty]
      -- The cases follow the early returns of the source.
      cases hterminal : run.state.isTerminal with
      | true =>
          have hplanned : run.state ≠ .planned := by
            intro h
            simp [h, RunState.isTerminal] at hterminal
          simp [hplanned]
      | false =>
          cases hnone : (db.runJobs runId).isEmpty with
          | true =>
              have hall : (db.runJobs runId).all (fun job => job.state.isFinished) = true := by
                rw [List.isEmpty_iff.mp hnone]
                rfl
              simp [hall]
          | false =>
              cases hall : (db.runJobs runId).all fun job => job.state.isFinished with
              | true => cases isoOfMs nowMs <;> simp [Except.map, bind, Except.bind]
              | false => by_cases hplanned : run.state = .planned <;> simp [hplanned]

/-- Only the parent run's row can change. -/
theorem updateRunState_ok {runId : String} {nowMs : Int}
    (h : updateRunState db runId nowMs = .ok db') :
    ∃ runs : Table AuditRunRow.runId, db' = { db with auditRuns := runs } ∧
      ∀ other, other ≠ runId → runs.find? other = db.auditRuns.find? other := by
  rw [updateRunState_eq] at h
  split at h
  · cases hnow : isoOfMs nowMs with
    | error exc =>
        rw [hnow] at h
        cases h
    | ok now =>
        rw [hnow] at h
        cases h
        refine ⟨_, rfl, fun other hne => ?_⟩
        rw [Table.find?_update_of_key_ne _ hne]
  · cases h
    unfold startedDb
    split
    · exact ⟨_, rfl, fun _ _ => rfl⟩
    · split
      · refine ⟨_, rfl, fun other hne => ?_⟩
        rw [Table.find?_update_of_key_ne _ hne]
      · exact ⟨_, rfl, fun _ _ => rfl⟩

/-- The evidence of a late submission fits the columns it is quarantined in. -/
structure Quarantinable (db : Db) (attempt : EvaluationAttempt) (nowMs : Int) (now : Datetime) :
    Prop where
  clock : isoOfMs nowMs = .ok now
  dumped : dumps attempt.resources.toJson = .ok ()
  exitCode : bindInteger attempt.exitCode = .ok ()
  testsPassed : bindInteger attempt.testsPassed = .ok ()
  testsFailed : bindInteger attempt.testsFailed = .ok ()
  allowed : UpdateAllowed db (quarantineTarget attempt) (quarantine db attempt now)
    (quarantine_attemptId db attempt now)

/-- The database after late evidence is quarantined. -/
def quarantinedDb (db : Db) (attempt : EvaluationAttempt) (now : Datetime) : Db :=
  { db with
    evaluationAttempts := db.evaluationAttempts.update (quarantineTarget attempt)
      (quarantine db attempt now) (quarantine_attemptId db attempt now) }

/-- Quarantine touches no attempt row but its target. -/
theorem quarantinedDb_find?_of_not {attempt : EvaluationAttempt} {now : Datetime} {row : AttemptRow}
    (hrow : row ∈ db.evaluationAttempts) (htarget : quarantineTarget attempt row = false) :
    (quarantinedDb db attempt now).evaluationAttempts.find? row.attemptId = some row := by
  have hfind : ((db.evaluationAttempts.update (quarantineTarget attempt)
      (quarantine db attempt now) (quarantine_attemptId db attempt now)).find? row.attemptId) =
      some row := Table.find?_update_of_not hrow htarget
  exact hfind

/-- Quarantine fails only for evidence that does not fit its columns, or for a clock that is no
date. -/
theorem markAttemptStale_ok_iff {attempt : EvaluationAttempt} {nowMs : Int} :
    markAttemptStale db (some (.inr attempt)) nowMs = .ok db' ↔
      ∃ now, Quarantinable db attempt nowMs now ∧ db' = quarantinedDb db attempt now := by
  simp only [markAttemptStale]
  constructor
  · intro h
    obtain ⟨now, hclock, h⟩ := bind_eq_ok.mp h
    obtain ⟨hdumped, h⟩ := bind_eq_ok_unit.mp h
    obtain ⟨hexit, h⟩ := bind_eq_ok_unit.mp h
    obtain ⟨hpassed, h⟩ := bind_eq_ok_unit.mp h
    obtain ⟨hfailed, h⟩ := bind_eq_ok_unit.mp h
    obtain ⟨hallowed, hdb⟩ := updateAttempts_eq_ok_iff.mp h
    exact ⟨now, ⟨hclock, hdumped, hexit, hpassed, hfailed, hallowed⟩, hdb⟩
  · rintro ⟨now, h, rfl⟩
    refine bind_eq_ok.mpr ⟨now, h.clock, bind_eq_ok_unit.mpr ⟨h.dumped, ?_⟩⟩
    refine bind_eq_ok_unit.mpr ⟨h.exitCode, ?_⟩
    refine bind_eq_ok_unit.mpr ⟨h.testsPassed, bind_eq_ok_unit.mpr ⟨h.testsFailed, ?_⟩⟩
    exact updateAttempts_eq_ok_iff.mpr ⟨h.allowed, rfl⟩

/-- What a call that records something raises of its own accord: the database does not accept
the row or a value of it, `json.dumps` an integer, or `datetime.fromtimestamp` the clock. -/
def Exc.isStorage : Exc → Bool
  | .integrityError | .overflowError | .valueError | .osError => true
  | _ => false

def RaisesStorage {α : Type} (result : Except Exc α) : Prop :=
  ∀ exc, result = .error exc → exc.isStorage = true

theorem RaisesStorage.ok {α : Type} (value : α) : RaisesStorage (.ok value) := by
  intro exc h
  cases h

theorem RaisesStorage.bind {α β : Type} {first : Except Exc α} {next : α → Except Exc β}
    (hfirst : RaisesStorage first) (hnext : ∀ a, RaisesStorage (next a)) :
    RaisesStorage (first >>= next) := by
  cases first with
  | error exc =>
      intro exc' h
      exact hfirst exc' (congrArg _ (Except.error.inj h))
  | ok a => exact hnext a

theorem clockError_isStorage (nowMs : Int) : (clockError nowMs).isStorage = true := by
  unfold clockError
  dsimp only
  split
  · rfl
  · split <;> rfl

theorem isoOfMs_raises (nowMs : Int) : RaisesStorage (isoOfMs nowMs) := by
  unfold isoOfMs
  split
  · exact .ok _
  · intro exc h
    cases h
    exact clockError_isStorage nowMs

/-- A clock that can be read lies between the years 1 and 9999. -/
theorem clock_mem {nowMs : Int} {now : Datetime} (hclock : isoOfMs nowMs = .ok now) :
    -62135596800000 ≤ nowMs ∧ nowMs ≤ 253402300799999 := by
  simp only [isoOfMs, Datetime.fromTimestampMs?] at hclock
  split at hclock
  next hsome =>
    split at hsome
    next hmem =>
      simp only [minMicros, maxMicros] at hmem
      omega
    · cases hsome
  · cases hclock

/-- Such a clock fits a 64-bit column. -/
theorem bindInteger_of_clock {nowMs : Int} {now : Datetime} (hclock : isoOfMs nowMs = .ok now) :
    bindInteger (some nowMs) = .ok () := by
  apply if_pos
  rintro _ ⟨⟩
  have hmem := clock_mem hclock
  unfold minInteger maxInteger
  omega

theorem dumps_raises (value : Json) : RaisesStorage (dumps value) := by
  unfold dumps
  split
  · exact .ok _
  · intro exc h
    cases h
    rfl

theorem bindInteger_raises (value : Option Int) : RaisesStorage (bindInteger value) := by
  unfold bindInteger
  split
  · exact .ok _
  · intro exc h
    cases h
    rfl

theorem updateAttempts_raises (db : Db) (p : AttemptRow → Bool) (f : AttemptRow → AttemptRow)
    (hkey : ∀ row, (f row).attemptId = row.attemptId) :
    RaisesStorage (db.updateAttempts p f hkey) := by
  unfold Db.updateAttempts
  dsimp only
  split
  · exact .ok _
  · intro exc h
    cases h
    rfl

theorem insertAttempt_raises (db : Db) (row : AttemptRow) :
    RaisesStorage (db.insertAttempt row) := by
  unfold Db.insertAttempt
  split
  · intro exc h
    cases h
    rfl
  · split
    · exact .ok _
    · intro exc h
      cases h
      rfl

theorem updateRunState_raises (db : Db) (runId : String) (nowMs : Int) :
    RaisesStorage (updateRunState db runId nowMs) := by
  rw [updateRunState_eq]
  split
  · cases hnow : isoOfMs nowMs with
    | error exc =>
        intro exc' h
        cases h
        exact isoOfMs_raises nowMs exc hnow
    | ok now => exact .ok _
  · exact .ok _

theorem markAttemptStale_raises (db : Db) (attempt : EvaluationAttempt) (nowMs : Int) :
    RaisesStorage (markAttemptStale db (some (.inr attempt)) nowMs) := by
  refine (isoOfMs_raises nowMs).bind fun _ => ?_
  refine (dumps_raises _).bind fun _ => ?_
  refine (bindInteger_raises _).bind fun _ => ?_
  refine (bindInteger_raises _).bind fun _ => ?_
  refine (bindInteger_raises _).bind fun _ => ?_
  exact updateAttempts_raises _ _ _ _

/-- Abandoning writes no evidence, so no constraint is in the way. What an attempt refers to is
in other columns than those that are set. -/
theorem abandonAttempt_ok {attemptId : Option String} {now : Datetime}
    (h : abandonAttempt db attemptId now = .ok db') :
    db' = { db with
      evaluationAttempts := db.evaluationAttempts.update
        (fun row => attemptId = some row.attemptId && row.attemptId ≠ "" &&
          row.disposition = .active) (abandonedRow now) (abandonedRow_attemptId now) } := by
  unfold abandonAttempt at h
  split at h
  · cases h
    rw [Table.update_eq_self]
    intro row _
    simp
  · cases h
    rw [Table.update_eq_self]
    intro row _
    by_cases hempty : row.attemptId = "" <;> simp [hempty, eq_comm]
  next id hne =>
    rw [(updateAttempts_eq_ok_iff.mp h).2]
    congr 1
    congr 1
    funext row
    have hid : id ≠ "" := fun heq => hne (heq ▸ rfl)
    by_cases hrow : row.attemptId = id
    · simp [hrow, hid]
    · have hrow' : ¬ id = row.attemptId := fun heq => hrow heq.symm
      simp [hrow, hrow']

end Statements

/-! ## Claims -/

section Claims

variable {db db' : Db} {workerId : String} {nowMs leaseDurationMs : Int} {draw : Draw}

theorem nextPending_some {runId : Option String} {row : Job} (h : nextPending db runId = some row) :
    db.jobs.find? row.jobId = some row ∧ row.state = .pending ∧ ∀ r ∈ runId, r = row.runId := by
  have hmem := List.argmin_mem (Option.mem_def.mpr h)
  rw [Table.mem_select] at hmem
  obtain ⟨hrow, hpending⟩ := hmem
  simp only [Bool.and_eq_true, decide_eq_true_eq, Option.all_eq_true] at hpending
  exact ⟨Table.find?_of_mem hrow, hpending.1, fun r hr => by simpa using hpending.2 r hr⟩

/-- If the search finds nothing, no pending job of the given run is left. -/
theorem nextPending_none {runId : Option String} (h : nextPending db runId = none) {row : Job}
    (hrow : row ∈ db.jobs) (hpending : row.state = .pending) (hrun : ∀ r ∈ runId, r = row.runId) :
    False := by
  have hnil := List.argmin_eq_none.mp h
  have hmem : row ∈ db.jobs.select fun job =>
      job.state = .pending && runId.all (· = job.runId) := by
    rw [Table.mem_select]
    refine ⟨hrow, ?_⟩
    simp only [Bool.and_eq_true, decide_eq_true_eq, Option.all_eq_true]
    exact ⟨hpending, fun r hr => hrun r hr⟩
  rw [hnil] at hmem
  cases hmem

def leasedDb (db : Db) (row : Job) (workerId : String) (expires : Int) (draw : Draw)
    (attempts : Table AttemptRow.attemptId) : Db :=
  { db.updateJobs (fun job => job.jobId = row.jobId && job.state = .pending)
      (leasedRow row workerId expires draw) (leasedRow_jobId row workerId expires draw) with
    evaluationAttempts := attempts }

/-- What a claim that grants a lease has written. -/
theorem grant_ok {row job : Job}
    (h : grant db row workerId nowMs leaseDurationMs draw = .ok (job, db')) :
    job = grantedJob row workerId (nowMs + leaseDurationMs) draw ∧
      ∃ started attempts,
        db.evaluationAttempts.insert? (activeAttempt row.jobId (row.fence + 1) draw started) =
          some attempts ∧
        updateRunState (leasedDb db row workerId (nowMs + leaseDurationMs) draw attempts)
          row.runId nowMs = .ok db' := by
  simp only [grant] at h
  obtain ⟨_, h⟩ := bind_eq_ok_unit.mp h
  obtain ⟨_, h⟩ := bind_eq_ok_unit.mp h
  obtain ⟨_, h⟩ := bind_eq_ok_unit.mp h
  obtain ⟨started, _, h⟩ := bind_eq_ok.mp h
  obtain ⟨inserted, hinsert, h⟩ := bind_eq_ok.mp h
  obtain ⟨closed, hclosed, h⟩ := bind_eq_ok.mp h
  cases h
  obtain ⟨attempts, hattempts, _, _, _, rfl⟩ := insertAttempt_ok hinsert
  exact ⟨rfl, started, attempts, hattempts, hclosed⟩

/-- One turn of the claim loop: the queue is empty, a cancelled run is swept
first, or a lease is granted. -/
theorem claimLoop_ok {runId : Option String} {fuel : Nat} {result : Option Job}
    (h : claimLoop workerId nowMs runId leaseDurationMs draw (fuel + 1) db = .ok (result, db')) :
    (nextPending db runId = none ∧ result = none ∧ db' = db) ∨
    (∃ row swept, nextPending db runId = some row ∧ cancelRequested db row.runId = true ∧
      updateRunState (failPending db row.runId) row.runId nowMs = .ok swept ∧
      claimLoop workerId nowMs runId leaseDurationMs draw fuel swept = .ok (result, db')) ∨
    (∃ row job, nextPending db runId = some row ∧ cancelRequested db row.runId = false ∧
      result = some job ∧ grant db row workerId nowMs leaseDurationMs draw = .ok (job, db')) := by
  simp only [claimLoop] at h
  split at h
  next hnone =>
    cases h
    exact Or.inl ⟨hnone, rfl, rfl⟩
  next row hrow =>
    split at h
    next hcancelled =>
      obtain ⟨swept, hswept, h⟩ := bind_eq_ok.mp h
      exact Or.inr (Or.inl ⟨row, swept, hrow, hcancelled, hswept, h⟩)
    next hlive =>
      obtain ⟨granted, hgranted, h⟩ := bind_eq_ok.mp h
      obtain ⟨job, after⟩ := granted
      cases h
      exact Or.inr (Or.inr ⟨row, job, hrow, by simpa using hlive, rfl, hgranted⟩)

/-! The search of a claim ends: every cancelled run it sweeps loses the pending
job that was found. -/

/-- The number of jobs waiting to be claimed. -/
def Db.pendingCount (db : Db) : Nat :=
  db.jobs.rows.countP fun job => job.state = .pending

/-- The measure of the loop: a sweep fails the pending job it was started for, at least. -/
theorem pendingCount_failPending_lt {row : Job} (hrow : row ∈ db.jobs)
    (hpending : row.state = .pending) :
    (failPending db row.runId).pendingCount < db.pendingCount := by
  have hcount : (failPending db row.runId).pendingCount =
      (db.jobs.rows.filter fun job => job.state = .pending).countP
        fun job => job.runId ≠ row.runId := by
    simp only [Db.pendingCount, failPending, updateJobs_jobs, Table.update, List.countP_map,
      List.countP_filter]
    apply List.countP_congr
    intro job _
    by_cases hrun : job.runId = row.runId <;> by_cases hstate : job.state = .pending <;>
      simp [hrun, hstate, cancelledRow]
  have hwaiting : db.pendingCount =
      (db.jobs.rows.filter fun job => job.state = .pending).length := List.countP_eq_length_filter
  rw [hcount, hwaiting]
  exact List.countP_lt_length_iff.mpr
    ⟨row, List.mem_filter.mpr ⟨hrow, decide_eq_true hpending⟩, by simp⟩

theorem grant_raises (db : Db) (row : Job) (workerId : String) (nowMs leaseDurationMs : Int)
    (draw : Draw) : RaisesStorage (grant db row workerId nowMs leaseDurationMs draw) := by
  refine (bindInteger_raises _).bind fun _ => ?_
  refine (bindInteger_raises _).bind fun _ => ?_
  refine (bindInteger_raises _).bind fun _ => ?_
  refine (isoOfMs_raises nowMs).bind fun _ => ?_
  refine (insertAttempt_raises _ _).bind fun _ => ?_
  exact (updateRunState_raises _ _ _).bind fun _ => .ok _

/-- By induction on the fuel, of which there is more than pending jobs; so the loop never runs
out of it. -/
theorem claimLoop_raises {runId : Option String} {fuel : Nat} (hfuel : db.pendingCount < fuel) :
    RaisesStorage (claimLoop workerId nowMs runId leaseDurationMs draw fuel db) := by
  induction fuel generalizing db with
  | zero => omega
  | succ fuel ih =>
      rw [claimLoop]
      split
      · exact .ok _
      next row hrow =>
        split
        · cases hswept : updateRunState (failPending db row.runId) row.runId nowMs with
          | error exc =>
              intro exc' h
              cases h
              exact updateRunState_raises _ _ _ exc hswept
          | ok swept =>
              obtain ⟨runs, rfl, _⟩ := updateRunState_ok hswept
              obtain ⟨hfind, hpending, _⟩ := nextPending_some hrow
              have hless : (failPending db row.runId).pendingCount < db.pendingCount :=
                pendingCount_failPending_lt (Table.mem_of_find? hfind) hpending
              exact ih (Nat.lt_of_lt_of_le hless (Nat.le_of_lt_succ hfuel))
        · exact (grant_raises _ _ _ _ _ _).bind fun _ => .ok _

/-- A claim raises nothing but storage errors; in particular the bound of its
loop is never reached. -/
theorem claim_raises (db : Db) (workerId : String) (nowMs : Int) (runId : Option String)
    (leaseDurationMs : Int) (draw : Draw) :
    RaisesStorage (claim db workerId nowMs runId leaseDurationMs draw).1 := by
  rcases transaction_cases db fun db =>
    claimLoop workerId nowMs runId leaseDurationMs draw (db.jobs.rows.length + 1) db
    with ⟨result, db', _, hok⟩ | ⟨exc, hbody, herror⟩
  · rw [claim, hok]
    exact .ok _
  · rw [claim, herror]
    intro exc' h
    cases h
    exact claimLoop_raises (Nat.lt_succ_of_le List.countP_le_length) exc hbody

/-- The loop ends by itself: `claim` never gives up for want of fuel. -/
theorem claim_ne_outOfFuel (db : Db) (workerId : String) (nowMs : Int) (runId : Option String)
    (leaseDurationMs : Int) (draw : Draw) :
    (claim db workerId nowMs runId leaseDurationMs draw).1 ≠ .error .outOfFuel := by
  intro h
  have hstorage := claim_raises db workerId nowMs runId leaseDurationMs draw _ h
  cases hstorage

end Claims

/-! ## Holding a lease -/

section Holding

variable {db : Db} {job : Job} {nowMs : Int}

/-- The handle names the lease the row carries, and that lease is live. -/
structure LiveHandle (row job : Job) (nowMs : Int) : Prop where
  fence : row.fence = job.fence
  leaseToken : row.leaseToken = job.leaseToken
  workerId : job.workerId.isSome = true → row.workerId = job.workerId
  attemptId : job.attemptId.isSome = true → row.attemptId = job.attemptId
  expires : leaseExpired row nowMs = false
  held : row.state.isHeld = true

theorem handleMismatch_eq_false_iff {row : Job} :
    handleMismatch row job = false ↔ row.fence = job.fence ∧ row.leaseToken = job.leaseToken ∧
      (job.workerId.isSome = true → row.workerId = job.workerId) ∧
      (job.attemptId.isSome = true → row.attemptId = job.attemptId) := by
  simp [handleMismatch, and_assoc]

/-- `mark_running` and `heartbeat` go on with a live handle only; anything else
raises `LeaseLost`. -/
theorem heldRow_cases (db : Db) (job : Job) (nowMs : Int) (notHeld : Job → String) :
    (∃ row, db.jobs.find? job.jobId = some row ∧ LiveHandle row job nowMs ∧
      heldRow db job nowMs notHeld = .ok row) ∨
    ∃ exc, exc.isLeaseLost = true ∧ heldRow db job nowMs notHeld = .error exc := by
  unfold heldRow
  split
  · exact Or.inr ⟨_, rfl, rfl⟩
  next row hrow =>
    split
    · exact Or.inr ⟨_, rfl, rfl⟩
    next hmatch =>
      split
      · exact Or.inr ⟨_, rfl, rfl⟩
      next hlive =>
        split
        · exact Or.inr ⟨_, rfl, rfl⟩
        next hheld =>
          rw [Bool.not_eq_true, handleMismatch_eq_false_iff] at hmatch
          obtain ⟨hfence, htoken, hworker, hattempt⟩ := hmatch
          exact Or.inl ⟨row, hrow, ⟨hfence, htoken, hworker, hattempt, by simpa using hlive,
            by simpa using hheld⟩, rfl⟩

/-- A live handle passes every check. -/
theorem heldRow_of_live {row : Job} (hrow : db.jobs.find? job.jobId = some row)
    (hlive : LiveHandle row job nowMs) (notHeld : Job → String) :
    heldRow db job nowMs notHeld = .ok row := by
  have hmatch : handleMismatch row job = false :=
    handleMismatch_eq_false_iff.mpr ⟨hlive.fence, hlive.leaseToken, hlive.workerId, hlive.attemptId⟩
  simp [heldRow, hrow, hmatch, hlive.expires, hlive.held]

/-- The handle `mark_running` returns. -/
def runningHandle (row job : Job) : Job :=
  { job with
    state := .running
    leaseExpiresMs := row.leaseExpiresMs
    attemptsStarted := row.attemptsStarted
    selectedAttemptId := row.selectedAttemptId
    terminalReason := row.terminalReason }

/-- The database after a successful `mark_running` of `row`. -/
def runningDb (db : Db) (row job : Job) : Db :=
  if row.state = .claimed then
    db.updateJobs (fun r => r.jobId = job.jobId) runningRow runningRow_jobId
  else db

theorem runningDb_find?_of_ne {row other : Job} (hother : other ∈ db.jobs)
    (hne : other.jobId ≠ job.jobId) :
    (runningDb db row job).jobs.find? other.jobId = some other := by
  unfold runningDb
  split
  · rw [updateJobs_jobs, Table.find?_update, Table.find?_of_mem hother]
    simp [hne]
  · exact Table.find?_of_mem hother

/-- The call starts the job under its live lease, or it loses the lease and writes nothing. -/
theorem markRunning_cases (db : Db) (job : Job) (nowMs : Int) :
    (∃ row, db.jobs.find? job.jobId = some row ∧ LiveHandle row job nowMs ∧
      markRunning db job nowMs = (.ok (runningHandle row job), runningDb db row job)) ∨
    ∃ exc, exc.isLeaseLost = true ∧ markRunning db job nowMs = (.error exc, db) := by
  rcases heldRow_cases db job nowMs fun row =>
    "Job '" ++ job.jobId ++ "' is in unexpected state '" ++ row.state.text ++ "'."
    with ⟨row, hrow, hlive, hheld⟩ | ⟨exc, hexc, hheld⟩
  · refine Or.inl ⟨row, hrow, hlive, transaction_ok ?_⟩
    simp only [hheld]
    rfl
  · refine Or.inr ⟨exc, hexc, transaction_error ?_⟩
    simp only [hheld]
    rfl

/-- A live handle is put into running. -/
theorem markRunning_of_live {row : Job} (hrow : db.jobs.find? job.jobId = some row)
    (hlive : LiveHandle row job nowMs) :
    markRunning db job nowMs = (.ok (runningHandle row job), runningDb db row job) := by
  refine transaction_ok ?_
  simp only [heldRow_of_live hrow hlive]
  rfl

/-- The handle `heartbeat` returns. -/
def extendedHandle (row job : Job) (expires : Int) : Job :=
  { job with
    state := row.state
    workerId := row.workerId
    leaseExpiresMs := some expires
    attemptsStarted := row.attemptsStarted
    selectedAttemptId := row.selectedAttemptId
    terminalReason := row.terminalReason }

def extendedDb (db : Db) (job : Job) (expires : Int) : Db :=
  db.updateJobs (fun r => r.jobId = job.jobId) (extendedRow expires) (extendedRow_jobId expires)

theorem extendedDb_find?_of_ne {other : Job} {expires : Int} (hother : other ∈ db.jobs)
    (hne : other.jobId ≠ job.jobId) :
    (extendedDb db job expires).jobs.find? other.jobId = some other := by
  rw [extendedDb, updateJobs_jobs, Table.find?_update, Table.find?_of_mem hother]
  simp [hne]

/-- The call renews the live lease of the handle, or raises and writes nothing. -/
theorem heartbeat_cases (db : Db) (job : Job) (nowMs extensionMs : Int) :
    (∃ row, db.jobs.find? job.jobId = some row ∧ LiveHandle row job nowMs ∧
      heartbeat db job nowMs extensionMs = (.ok (extendedHandle row job (nowMs + extensionMs)),
        extendedDb db job (nowMs + extensionMs))) ∨
    (∃ row, db.jobs.find? job.jobId = some row ∧ LiveHandle row job nowMs ∧
      heartbeat db job nowMs extensionMs = (.error .overflowError, db)) ∨
    ∃ exc, exc.isLeaseLost = true ∧ heartbeat db job nowMs extensionMs = (.error exc, db) := by
  rcases heldRow_cases db job nowMs fun row =>
    "Cannot heartbeat non-active job '" ++ job.jobId ++ "' in state '" ++ row.state.text ++ "'."
    with ⟨row, hrow, hlive, hheld⟩ | ⟨exc, hexc, hheld⟩
  · by_cases hbind : ∀ n ∈ some (nowMs + extensionMs), minInteger ≤ n ∧ n ≤ maxInteger
    · refine Or.inl ⟨row, hrow, hlive, transaction_ok ?_⟩
      simp only [hheld, bindInteger, if_pos hbind]
      rfl
    · refine Or.inr (Or.inl ⟨row, hrow, hlive, transaction_error ?_⟩)
      simp only [hheld, bindInteger, if_neg hbind]
      rfl
  · refine Or.inr (Or.inr ⟨exc, hexc, transaction_error ?_⟩)
    simp only [hheld]
    rfl

/-- A live handle is renewed up to any deadline that fits its column. -/
theorem heartbeat_of_live {row : Job} {extensionMs : Int}
    (hrow : db.jobs.find? job.jobId = some row) (hlive : LiveHandle row job nowMs)
    (hfits : minInteger ≤ nowMs + extensionMs ∧ nowMs + extensionMs ≤ maxInteger) :
    heartbeat db job nowMs extensionMs = (.ok (extendedHandle row job (nowMs + extensionMs)),
      extendedDb db job (nowMs + extensionMs)) := by
  have hbind : ∀ n ∈ some (nowMs + extensionMs), minInteger ≤ n ∧ n ≤ maxInteger := by
    intro n hn
    obtain rfl := Option.some.inj hn
    exact hfits
  refine transaction_ok ?_
  simp only [heldRow_of_live hrow hlive, bindInteger, if_pos hbind]
  rfl

end Holding

/-! ## Completion -/

/-- `complete` records the submission as late evidence: the job is terminal
with another selection, or not terminal and the lease has lapsed. -/
def quarantines (db : Db) (job : Job) (attempt : EvaluationAttempt) (nowMs : Int) : Bool :=
  match db.jobs.find? job.jobId with
  | none => false
  | some row =>
      if row.state.isTerminal then row.selectedAttemptId ≠ some attempt.attemptId
      else leaseLapsed row job attempt nowMs

/-- `complete` goes on to commit: the lease is live and every identity agrees. -/
def commits (db : Db) (job : Job) (attempt : EvaluationAttempt) (nowMs : Int) : Bool :=
  match db.jobs.find? job.jobId with
  | none => false
  | some row =>
      !row.state.isTerminal && !leaseLapsed row job attempt nowMs
        && !workerMismatch row job && identityAgrees db job attempt

section Completion

variable {db db' : Db} {job : Job} {attempt : EvaluationAttempt} {nowMs : Int}

/-- `complete` neither quarantines nor commits: it answers from what it read. -/
def OnlyReads (db : Db) (body : Except Exc (CompletionStatus × Db)) : Prop :=
  (∃ status, status ≠ .committed ∧ body = .ok (status, db)) ∨ ∃ exc, body = .error exc

/-- A resubmission of the selected attempt is answered from what is stored. -/
theorem completeTerminal_selected {row : Job}
    (hselected : row.selectedAttemptId = some attempt.attemptId) :
    OnlyReads db (completeTerminal db row attempt nowMs) := by
  simp only [completeTerminal, if_pos hselected, completeSelected]
  cases db.evaluationAttempts.find? attempt.attemptId with
  | none => exact Or.inl ⟨.duplicate, by simp, rfl⟩
  | some stored =>
      dsimp only
      cases matchesStored stored attempt with
      | error exc => exact Or.inr ⟨exc, rfl⟩
      | ok same =>
          cases same with
          | true => exact Or.inl ⟨.duplicate, by simp, rfl⟩
          | false => exact Or.inr ⟨_, rfl⟩

/-- The three ways through `complete`: it quarantines, it commits, or it only
reads. -/
theorem completeBody_cases (db : Db) (job : Job) (attempt : EvaluationAttempt) (nowMs : Int) :
    (quarantines db job attempt nowMs = true ∧ commits db job attempt nowMs = false ∧
      completeBody db job attempt nowMs = completeStale db attempt nowMs) ∨
    (quarantines db job attempt nowMs = false ∧ commits db job attempt nowMs = true ∧
      completeBody db job attempt nowMs = completeCommit db job attempt nowMs) ∨
    (quarantines db job attempt nowMs = false ∧ commits db job attempt nowMs = false ∧
      OnlyReads db (completeBody db job attempt nowMs)) := by
  unfold completeBody quarantines commits
  cases db.jobs.find? job.jobId with
  | none => exact Or.inr (Or.inr ⟨rfl, rfl, Or.inr ⟨_, rfl⟩⟩)
  | some row =>
      -- A finished job goes to its own branch; an open one passes lease, worker and identity.
      cases hterminal : row.state.isTerminal with
      | true =>
          simp only [hterminal, ↓reduceIte, Bool.not_true, Bool.false_and]
          by_cases hselected : row.selectedAttemptId = some attempt.attemptId
          · exact Or.inr
              (Or.inr ⟨by simp [hselected], trivial, completeTerminal_selected hselected⟩)
          · exact Or.inl ⟨by simp [hselected], trivial, if_neg hselected⟩
      | false =>
          simp only [hterminal, completeLive, Bool.false_eq_true, ↓reduceIte, Bool.not_false,
            Bool.true_and]
          cases leaseLapsed row job attempt nowMs with
          | true => exact Or.inl ⟨rfl, rfl, rfl⟩
          | false =>
              cases workerMismatch row job with
              | true => exact Or.inr (Or.inr ⟨rfl, rfl, Or.inl ⟨.stale, by simp, rfl⟩⟩)
              | false =>
                  cases identityAgrees db job attempt with
                  | true => exact Or.inr (Or.inl ⟨rfl, rfl, rfl⟩)
                  | false => exact Or.inr (Or.inr ⟨rfl, rfl, Or.inr ⟨_, rfl⟩⟩)

/-- The submission and the stored row a commit goes through with. -/
structure CommitGuard (db : Db) (job : Job) (attempt : EvaluationAttempt) (nowMs : Int) (row : Job)
    (stored : AttemptRow) : Prop where
  row_eq : db.jobs.find? job.jobId = some row
  not_terminal : row.state.isTerminal = false
  fence : row.fence = job.fence
  leaseToken : row.leaseToken = job.leaseToken
  live : leaseExpired row nowMs = false
  current : row.attemptId = some attempt.attemptId
  worker : job.workerId.isSome = true → row.workerId = job.workerId
  stored_eq : db.evaluationAttempts.find? attempt.attemptId = some stored
  stored_job : stored.jobId = job.jobId
  stored_fence : stored.fence = job.fence
  attempt_job : attempt.jobId = job.jobId
  attempt_fence : attempt.fence = job.fence

theorem workerMismatch_eq_false_iff {row : Job} :
    workerMismatch row job = false ↔
      (job.workerId.isSome = true → row.workerId = job.workerId) := by
  cases hsome : job.workerId.isSome <;> simp [workerMismatch, hsome]

/-- The checks in front of a commit, together: the row, the stored attempt and the submission
agree, and the lease is live. -/
theorem commits_iff :
    commits db job attempt nowMs = true ↔
      ∃ row stored, CommitGuard db job attempt nowMs row stored := by
  unfold commits
  cases hrow : db.jobs.find? job.jobId with
  | none =>
      constructor
      · intro h
        cases h
      · rintro ⟨row, stored, h⟩
        rw [h.row_eq] at hrow
        cases hrow
  | some row =>
      unfold identityAgrees
      cases hstored : db.evaluationAttempts.find? attempt.attemptId with
      | none =>
          constructor
          · intro h
            simp at h
          · rintro ⟨_, stored, h⟩
            rw [h.stored_eq] at hstored
            cases hstored
      | some stored =>
          constructor
          · intro h
            simp only [leaseLapsed, Bool.and_eq_true, Bool.not_eq_true', Bool.or_eq_false_iff,
              decide_eq_false_iff_not, decide_eq_true_eq, ne_eq, not_not,
              workerMismatch_eq_false_iff] at h
            obtain ⟨⟨⟨hterminal, ⟨hlive, hfence, htoken⟩, hcurrent⟩, hworker⟩,
              ⟨⟨hjob, hstoredFence⟩, hattemptJob⟩, hattemptFence⟩ := h
            exact ⟨row, stored, hrow, hterminal, hfence, htoken, hlive, hcurrent, hworker, hstored,
              hjob, hstoredFence, hattemptJob, hattemptFence⟩
          · rintro ⟨row', stored', h⟩
            obtain rfl : row = row' := Option.some.inj (hrow.symm.trans h.row_eq)
            obtain rfl : stored = stored' := Option.some.inj (hstored.symm.trans h.stored_eq)
            simp [leaseLapsed, workerMismatch_eq_false_iff.mpr h.worker, h.not_terminal, h.live,
              h.fence, h.leaseToken, h.current, h.stored_job, h.stored_fence, h.attempt_job,
              h.attempt_fence]

/-- The database between the two updates of a commit and its run update. -/
def committedDb (db : Db) (job : Job) (attempt : EvaluationAttempt) (finishedAt : Datetime) : Db :=
  { db.updateJobs (fun row => row.jobId = job.jobId) (finishedRow attempt)
      (finishedRow_jobId attempt) with
    evaluationAttempts :=
      db.evaluationAttempts.update (fun row => row.attemptId = attempt.attemptId)
      (committedRow attempt finishedAt) (committedRow_attemptId attempt finishedAt) }

theorem committedDb_find?_of_ne {finishedAt : Datetime} {other : Job} (hother : other ∈ db.jobs)
    (hne : other.jobId ≠ job.jobId) :
    (committedDb db job attempt finishedAt).jobs.find? other.jobId = some other := by
  rw [committedDb, updateJobs_jobs, Table.find?_update, Table.find?_of_mem hother]
  simp [hne]

/-- The evidence of a submission can be committed: it fits its columns, the
database accepts it, and the clock can be read where it has to be. -/
structure Committable (db : Db) (job : Job) (attempt : EvaluationAttempt) (nowMs : Int)
    (finishedAt : Datetime) : Prop where
  clock : finishedAtOf attempt nowMs = .ok finishedAt
  dumped : dumps attempt.resources.toJson = .ok ()
  exitCode : bindInteger attempt.exitCode = .ok ()
  testsPassed : bindInteger attempt.testsPassed = .ok ()
  testsFailed : bindInteger attempt.testsFailed = .ok ()
  allowed : UpdateAllowed db (fun row => row.attemptId = attempt.attemptId)
    (committedRow attempt finishedAt) (committedRow_attemptId attempt finishedAt)
  closing : closesRun (committedDb db job attempt finishedAt) job.runId = true →
    ∃ now, isoOfMs nowMs = .ok now

theorem updateRunState_isOk_iff {runId : String} :
    (∃ db', updateRunState db runId nowMs = .ok db') ↔
      (closesRun db runId = true → ∃ now, isoOfMs nowMs = .ok now) := by
  rw [updateRunState_eq]
  cases hcloses : closesRun db runId with
  | false => simp
  | true => cases isoOfMs nowMs <;> simp [Except.map]

/-- The two updates of a commit and the close of the run behind them. -/
theorem commit_ok_iff :
    commit db job attempt nowMs = .ok db' ↔
      ∃ finishedAt, Committable db job attempt nowMs finishedAt ∧
        updateRunState (committedDb db job attempt finishedAt) job.runId nowMs = .ok db' := by
  simp only [commit]
  constructor
  · intro h
    obtain ⟨finishedAt, hclock, h⟩ := bind_eq_ok.mp h
    obtain ⟨hdumped, h⟩ := bind_eq_ok_unit.mp h
    obtain ⟨hexit, h⟩ := bind_eq_ok_unit.mp h
    obtain ⟨hpassed, h⟩ := bind_eq_ok_unit.mp h
    obtain ⟨hfailed, h⟩ := bind_eq_ok_unit.mp h
    obtain ⟨updated, hupdated, h⟩ := bind_eq_ok.mp h
    obtain ⟨hallowed, rfl⟩ := updateAttempts_eq_ok_iff.mp hupdated
    exact ⟨finishedAt, ⟨hclock, hdumped, hexit, hpassed, hfailed, hallowed,
      updateRunState_isOk_iff.mp ⟨db', h⟩⟩, h⟩
  · rintro ⟨finishedAt, hcommittable, hrun⟩
    refine bind_eq_ok.mpr ⟨finishedAt, hcommittable.clock, ?_⟩
    refine bind_eq_ok_unit.mpr ⟨hcommittable.dumped, ?_⟩
    refine bind_eq_ok_unit.mpr ⟨hcommittable.exitCode, ?_⟩
    refine bind_eq_ok_unit.mpr ⟨hcommittable.testsPassed, ?_⟩
    refine bind_eq_ok_unit.mpr ⟨hcommittable.testsFailed, ?_⟩
    exact bind_eq_ok.mpr ⟨_, updateAttempts_eq_ok_iff.mpr ⟨hcommittable.allowed, rfl⟩, hrun⟩

/-- A quarantining call either records the evidence or raises without effect. Its one statement
is refused exactly where the row it would write violates a constraint. -/
theorem complete_of_quarantines (h : quarantines db job attempt nowMs = true) :
    (∃ now, Quarantinable db attempt nowMs now ∧
      complete db job attempt nowMs = (.ok .stale, quarantinedDb db attempt now)) ∨
    ((∀ now, ¬ Quarantinable db attempt nowMs now) ∧ ∃ exc, exc.isStorage = true ∧
      complete db job attempt nowMs = (.error exc, db)) := by
  have hbody : completeBody db job attempt nowMs = completeStale db attempt nowMs := by
    rcases completeBody_cases db job attempt nowMs with ⟨_, _, heq⟩ | ⟨hnot, _⟩ | ⟨hnot, _⟩
    · exact heq
    · rw [h] at hnot
      cases hnot
    · rw [h] at hnot
      cases hnot
  cases hmarked : markAttemptStale db (some (.inr attempt)) nowMs with
  | ok marked =>
      obtain ⟨now, hquarantinable, rfl⟩ := markAttemptStale_ok_iff.mp hmarked
      refine Or.inl ⟨now, hquarantinable, transaction_ok ?_⟩
      simp only [hbody, completeStale, hmarked]
      rfl
  | error exc =>
      refine Or.inr ⟨?_, exc, markAttemptStale_raises db attempt nowMs exc hmarked,
        transaction_error ?_⟩
      · intro now hquarantinable
        have hok := markAttemptStale_ok_iff.mpr ⟨now, hquarantinable, rfl⟩
        rw [hmarked] at hok
        cases hok
      · simp only [hbody, completeStale, hmarked]
        rfl

/-- A call whose guard holds commits exactly the evidence that can be committed. Settling the
run is the last statement of the transaction, so its failure is one of the call. -/
theorem complete_of_commits (h : commits db job attempt nowMs = true) :
    (∃ finishedAt db', Committable db job attempt nowMs finishedAt ∧
      updateRunState (committedDb db job attempt finishedAt) job.runId nowMs = .ok db' ∧
      complete db job attempt nowMs = (.ok .committed, db')) ∨
    ((∀ finishedAt, ¬ Committable db job attempt nowMs finishedAt) ∧ ∃ exc,
      complete db job attempt nowMs = (.error exc, db)) := by
  have hbody : completeBody db job attempt nowMs = completeCommit db job attempt nowMs := by
    rcases completeBody_cases db job attempt nowMs with ⟨_, hnot, _⟩ | ⟨_, _, heq⟩ | ⟨_, hnot, _⟩
    · rw [h] at hnot
      cases hnot
    · exact heq
    · rw [h] at hnot
      cases hnot
  cases hcommit : commit db job attempt nowMs with
  | ok committed =>
      obtain ⟨finishedAt, hcommittable, hrun⟩ := commit_ok_iff.mp hcommit
      refine Or.inl ⟨finishedAt, committed, hcommittable, hrun, transaction_ok ?_⟩
      simp only [hbody, completeCommit, hcommit]
      rfl
  | error exc =>
      refine Or.inr ⟨?_, exc, transaction_error ?_⟩
      · intro finishedAt hcommittable
        obtain ⟨db', hrun⟩ := updateRunState_isOk_iff.mpr hcommittable.closing
        have hok := commit_ok_iff.mpr ⟨finishedAt, hcommittable, hrun⟩
        rw [hcommit] at hok
        cases hok
      · simp only [hbody, completeCommit, hcommit]
        rfl

/-- The result and the database of every call of `complete`. -/
theorem complete_spec (db : Db) (job : Job) (attempt : EvaluationAttempt) (nowMs : Int) :
    (quarantines db job attempt nowMs = true ∧ ∃ now, Quarantinable db attempt nowMs now ∧
      complete db job attempt nowMs = (.ok .stale, quarantinedDb db attempt now)) ∨
    (commits db job attempt nowMs = true ∧ ∃ finishedAt db',
      Committable db job attempt nowMs finishedAt ∧
      updateRunState (committedDb db job attempt finishedAt) job.runId nowMs = .ok db' ∧
      complete db job attempt nowMs = (.ok .committed, db')) ∨
    ∃ result, complete db job attempt nowMs = (result, db) ∧ result ≠ .ok .committed := by
  rcases completeBody_cases db job attempt nowMs with
    ⟨hquarantine, _, _⟩ | ⟨_, hcommit, _⟩ | ⟨_, _, hread⟩
  · rcases complete_of_quarantines hquarantine with hdone | ⟨_, exc, _, heq⟩
    · exact Or.inl ⟨hquarantine, hdone⟩
    · exact Or.inr (Or.inr ⟨_, heq, by simp⟩)
  · rcases complete_of_commits hcommit with hdone | ⟨_, exc, heq⟩
    · exact Or.inr (Or.inl ⟨hcommit, hdone⟩)
    · exact Or.inr (Or.inr ⟨_, heq, by simp⟩)
  · rcases hread with ⟨answer, hne, heq⟩ | ⟨exc, heq⟩
    · exact Or.inr (Or.inr ⟨_, transaction_ok heq, fun h => hne (Except.ok.inj h)⟩)
    · exact Or.inr (Or.inr ⟨_, transaction_error heq, by simp⟩)

/-- A completion commits exactly under its guard and with evidence the database takes. -/
theorem complete_committed_iff :
    (complete db job attempt nowMs).1 = .ok .committed ↔ commits db job attempt nowMs = true ∧
      ∃ finishedAt, Committable db job attempt nowMs finishedAt := by
  constructor
  · intro h
    rcases complete_spec db job attempt nowMs with
      ⟨_, now, _, heq⟩ | ⟨hcommits, finishedAt, _, hcommittable, _⟩ | ⟨result, heq, hne⟩
    · rw [heq] at h
      cases h
    · exact ⟨hcommits, finishedAt, hcommittable⟩
    · rw [heq] at h
      exact absurd h hne
  · rintro ⟨hcommits, finishedAt, hcommittable⟩
    rcases complete_of_commits hcommits with ⟨_, _, _, _, heq⟩ | ⟨hrefused, _⟩
    · rw [heq]
    · exact absurd hcommittable (hrefused finishedAt)

end Completion

/-! ## Reaping and cancelling -/

section Reaping

variable {db db' : Db} {nowMs : Int} {maxAttempts : Option Int}

theorem reapedState_cases (db : Db) (row : Job) (maxAttempts : Option Int) :
    (reapedState db row maxAttempts).1 = .pending ∨
    (reapedState db row maxAttempts).1 = .failed := by
  unfold reapedState
  split
  · exact Or.inr rfl
  · split
    · exact Or.inl rfl
    · exact Or.inr rfl

/-- Is `row` the attempt that reaping `job` abandons? -/
def abandonTarget (job : Job) (row : AttemptRow) : Bool :=
  job.attemptId = some row.attemptId && row.attemptId ≠ "" && row.disposition = .active

/-- The database after one turn of the reaping loop. -/
def reapedDb (db : Db) (row : Job) (outcome : JobState × Option String) (now : Datetime) : Db :=
  { db.updateJobs (fun job => job.jobId = row.jobId) (releasedRow outcome)
      (releasedRow_jobId outcome) with
    evaluationAttempts := db.evaluationAttempts.update (abandonTarget row) (abandonedRow now)
      (abandonedRow_attemptId now) }

theorem reapRow_ok {now : Datetime} {row : Job}
    (h : reapRow maxAttempts now db row = .ok db') :
    ∃ outcome, (outcome.1 = .pending ∨ outcome.1 = .failed) ∧
      db' = reapedDb db row outcome now := by
  obtain ⟨abandoned, habandoned, h⟩ := bind_eq_ok.mp h
  cases h
  rw [abandonAttempt_ok habandoned]
  exact ⟨_, reapedState_cases _ row maxAttempts, rfl⟩

theorem mem_expiredRows {row : Job} :
    row ∈ expiredRows db nowMs ↔ row ∈ db.jobs ∧ row.state.isHeld = true ∧
      row.leaseExpiresMs.isSome = true ∧ leaseExpired row nowMs = true := by
  rw [expiredRows, List.mem_insertionSort, Table.mem_select]
  simp only [Bool.and_eq_true, and_assoc]

theorem expiredRows_nodup (db : Db) (nowMs : Int) :
    ((expiredRows db nowMs).map Job.jobId).Nodup := by
  have hsub : ((db.jobs.select fun job => job.state.isHeld && job.leaseExpiresMs.isSome
      && leaseExpired job nowMs).map Job.jobId).Nodup :=
    (List.filter_sublist.map Job.jobId).nodup db.jobs.nodup
  exact ((List.perm_insertionSort _ _).map Job.jobId).nodup_iff.mpr hsub

/-- A reap that succeeds releases every expired row in turn and then updates
every run one of them belongs to. -/
theorem reapExpired_cases (db : Db) (nowMs : Int) (maxAttempts : Option Int) :
    (∃ now released db',
      (expiredRows db nowMs).foldlM (reapRow maxAttempts now) db = .ok released ∧
      ((expiredRows db nowMs).map Job.runId).dedup.foldlM
        (fun db runId => updateRunState db runId nowMs) released = .ok db' ∧
      reapExpired db nowMs maxAttempts = (.ok ((expiredRows db nowMs).map Job.jobId), db')) ∨
    ∃ exc, reapExpired db nowMs maxAttempts = (.error exc, db) := by
  unfold reapExpired
  rcases transaction_cases db fun db => (do
    bindInteger (some nowMs)
    let rows := expiredRows db nowMs
    let now ← isoOfMs nowMs
    let db ← rows.foldlM (reapRow maxAttempts now) db
    let affectedRuns := (rows.map Job.runId).dedup
    let db ← affectedRuns.foldlM (fun db runId => updateRunState db runId nowMs) db
    .ok (rows.map Job.jobId, db)) with ⟨ids, db', hbody, hok⟩ | ⟨exc, _, herror⟩
  · obtain ⟨_, hbody⟩ := bind_eq_ok_unit.mp hbody
    obtain ⟨now, _, hbody⟩ := bind_eq_ok.mp hbody
    obtain ⟨released, hreleased, hbody⟩ := bind_eq_ok.mp hbody
    obtain ⟨closed, hclosed, hbody⟩ := bind_eq_ok.mp hbody
    cases hbody
    exact Or.inl ⟨now, released, _, hreleased, hclosed, hok⟩
  · exact Or.inr ⟨exc, herror⟩

/-- The database between the two updates of a cancellation and its run update. -/
def cancelledDb (db : Db) (runId : String) : Db :=
  failPending (db.updateRun runId cancelledRun cancelledRun_runId)
    runId

/-- The request is carried out as a whole, or it raises on a clock that is no date and leaves no
trace. -/
theorem requestCancel_cases (db : Db) (runId : String) (nowMs : Int) :
    (∃ db', updateRunState (cancelledDb db runId) runId nowMs = .ok db' ∧
      requestCancel db runId nowMs = (.ok (), db')) ∨
    ∃ exc, requestCancel db runId nowMs = (.error exc, db) := by
  unfold requestCancel
  rcases transaction_cases db fun db => (do
    let db := db.updateRun runId cancelledRun cancelledRun_runId
    let db ← updateRunState (failPending db runId) runId nowMs
    .ok ((), db)) with ⟨value, db', hbody, hok⟩ | ⟨exc, _, herror⟩
  · obtain ⟨closed, hclosed, hbody⟩ := bind_eq_ok.mp hbody
    cases hbody
    exact Or.inl ⟨_, hclosed, hok⟩
  · exact Or.inr ⟨exc, herror⟩

/-- A claim is its loop with more fuel than there are pending jobs, inside one transaction. -/
theorem claim_cases (db : Db) (workerId : String) (nowMs : Int) (runId : Option String)
    (leaseDurationMs : Int) (draw : Draw) :
    (∃ result db',
      claimLoop workerId nowMs runId leaseDurationMs draw (db.jobs.rows.length + 1) db =
        .ok (result, db') ∧
      claim db workerId nowMs runId leaseDurationMs draw = (.ok result, db')) ∨
    ∃ exc, claim db workerId nowMs runId leaseDurationMs draw = (.error exc, db) := by
  rcases transaction_cases db fun db =>
    claimLoop workerId nowMs runId leaseDurationMs draw (db.jobs.rows.length + 1) db
    with ⟨result, db', hbody, hok⟩ | ⟨exc, _, herror⟩
  · exact Or.inl ⟨result, db', hbody, hok⟩
  · exact Or.inr ⟨exc, herror⟩

end Reaping

end VerifierCI
