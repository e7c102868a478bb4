import VerifierCI.Execution.Invariants
import VerifierCI.Execution.MatrixCells

/-! # The reducer agrees with the queue

The queue records authority in `selected_attempt_id`; the reducer derives it
again from dispositions, fences and start times. On the attempts of a planned
cell both name the same attempt.
-/

namespace VerifierCI

open Python Relational

/-! ## The plan in the queue -/

/-- The jobs of the manifest's run are the planned ones, at distinct coordinates. -/
structure Enqueued (sha256 : List UInt8 → Digest) (manifest : AuditManifest) (db : Db) : Prop where
  jobs : ∀ job, job ∈ expand sha256 manifest ↔ job ∈ db.jobs ∧ job.runId = manifest.runId
  coordinates : ((expand sha256 manifest).map Job.coordinates).Nodup

/-- What holds of the run's jobs as long as no plan column is written. -/
structure RunPlan (manifest : AuditManifest) (db : Db) : Prop where
  distinct : ∀ job ∈ db.jobs, ∀ other ∈ db.jobs, job.runId = manifest.runId →
    other.runId = manifest.runId → job.cellKey = other.cellKey →
      job.repetition = other.repetition → job = other
  inRange : ∀ job ∈ db.jobs, job.runId = manifest.runId →
    ∃ rep : Nat, job.repetition = rep ∧ (rep : Int) < manifest.maxRepetitions
  covers : ∀ key ∈ manifest.plannedCells, ∀ rep : Nat, (rep : Int) < manifest.maxRepetitions →
    ∃ job ∈ db.jobs, job.runId = manifest.runId ∧ job.cellKey = key ∧ job.repetition = rep

/-- A fresh queue holds the planned jobs as they were planned. -/
theorem Enqueued.runPlan {sha256 : List UInt8 → Digest} {manifest : AuditManifest} {db : Db}
    (h : Enqueued sha256 manifest db) : RunPlan manifest db where
  distinct := by
    intro job hjob other hother hrun hrunOther hkey hrep
    apply List.inj_on_of_nodup_map h.coordinates ((h.jobs job).mpr ⟨hjob, hrun⟩)
      ((h.jobs other).mpr ⟨hother, hrunOther⟩)
    simp only [Job.cellKey, Prod.mk.injEq] at hkey
    rw [Job.coordinates, Job.coordinates, hrun, hrunOther, hkey.1, hkey.2.1, hkey.2.2, hrep]
  inRange := by
    intro job hjob hrun
    obtain ⟨_, _, rep, hrep, rfl⟩ := mem_expand.mp ((h.jobs job).mpr ⟨hjob, hrun⟩)
    exact ⟨rep, rfl, hrep⟩
  covers := by
    intro key hkey rep hrep
    have hplanned : pendingJob sha256 manifest.runId key.1 key.2.1 key.2.2 rep ∈
        expand sha256 manifest :=
      mem_expand.mpr ⟨key, hkey, rep, hrep, rfl⟩
    obtain ⟨hjob, hrun⟩ := (h.jobs _).mp hplanned
    exact ⟨_, hjob, hrun, rfl, rfl⟩

section Evolution

variable {db db' : Db}

theorem Evolves.job_origin (h : Evolves Ledger.Step db db') {job : Job} (hjob : job ∈ db'.jobs) :
    ∃ old ∈ db.jobs, SamePlan old job := by
  have hl' := ledger_of_find? (Table.find?_of_mem hjob)
  obtain ⟨l, hl⟩ := h.origin _ _ hl'
  exact ⟨l.job, Table.mem_of_find? (ledger_eq_some_iff.mp hl).1, (h.grows hl hl').plan⟩

theorem Evolves.job_later (h : Evolves Ledger.Step db db') {job : Job} (hjob : job ∈ db.jobs) :
    ∃ later ∈ db'.jobs, SamePlan job later := by
  have hl := ledger_of_find? (Table.find?_of_mem hjob)
  obtain ⟨l', hl', _⟩ := h.ledger _ _ hl
  exact ⟨l'.job, Table.mem_of_find? (ledger_eq_some_iff.mp hl').1, (h.grows hl hl').plan⟩

/-- Calls write no plan column and neither add nor remove a job. -/
theorem Evolves.runPlan (h : Evolves Ledger.Step db db') {manifest : AuditManifest}
    (hplan : RunPlan manifest db) : RunPlan manifest db' where
  distinct := by
    intro job hjob other hother hrun hrunOther hkey hrep
    obtain ⟨old, hold, hsame⟩ := h.job_origin hjob
    obtain ⟨oldOther, holdOther, hsameOther⟩ := h.job_origin hother
    have heq := hplan.distinct old hold oldOther holdOther (hsame.runId ▸ hrun)
      (hsameOther.runId ▸ hrunOther) (by rw [← hsame.cellKey, hkey, hsameOther.cellKey])
      (by rw [← hsame.repetition, hrep, hsameOther.repetition])
    apply Table.eq_of_key_eq hjob hother
    rw [hsame.jobId, hsameOther.jobId, heq]
  inRange := by
    intro job hjob hrun
    obtain ⟨old, hold, hsame⟩ := h.job_origin hjob
    rw [hsame.repetition]
    exact hplan.inRange old hold (hsame.runId ▸ hrun)
  covers := by
    intro key hkey rep hrep
    obtain ⟨job, hjob, hrun, hcell, hrepetition⟩ := hplan.covers key hkey rep hrep
    obtain ⟨later, hlater, hsame⟩ := h.job_later hjob
    exact ⟨later, hlater, hsame.runId.trans hrun, hsame.cellKey.trans hcell,
      hsame.repetition.trans hrepetition⟩

end Evolution

/-! ## The attempts of a cell -/

/-- The record has what the row holds in the columns the reducer reads. -/
structure Represents (row : AttemptRow) (attempt : EvaluationAttempt) : Prop where
  attemptId : attempt.attemptId = row.attemptId
  jobId : attempt.jobId = row.jobId
  fence : attempt.fence = row.fence
  outcome : attempt.outcome = row.outcome
  errorCode : attempt.errorCode = row.errorCode
  disposition : attempt.disposition = row.disposition
  startedAt : attempt.startedAt = row.startedAt

/-- `jobs` are the jobs of one cell of a run, `attempts` their attempt rows, in
any order. -/
structure CellOf (db : Db) (runId : String) (key : String × String × String) (jobs : List Job)
    (attempts : List EvaluationAttempt) : Prop where
  members : ∀ job, job ∈ jobs ↔ job ∈ db.jobs ∧ job.runId = runId ∧ job.cellKey = key
  ids : (attempts.map EvaluationAttempt.attemptId).Nodup
  stored : ∀ attempt ∈ attempts, ∃ row ∈ db.evaluationAttempts, Represents row attempt ∧
    ∃ job ∈ jobs, job.jobId = row.jobId
  listed : ∀ row ∈ db.evaluationAttempts, (∃ job ∈ jobs, job.jobId = row.jobId) →
    ∃ attempt ∈ attempts, Represents row attempt

section Cell

variable {db : Db} {manifest : AuditManifest} {key : String × String × String} {jobs : List Job}
  {attempts : List EvaluationAttempt}

theorem CellOf.jobById (h : CellOf db manifest.runId key jobs attempts) {job : Job}
    (hjob : job ∈ jobs) : jobById jobs job.jobId = some job := by
  cases hfind : VerifierCI.jobById jobs job.jobId with
  | none =>
      have hnot := List.find?_eq_none.mp hfind job hjob
      simp at hnot
  | some found =>
      have hmem := ((h.members found).mp (List.mem_of_find?_eq_some hfind)).1
      have hid : found.jobId = job.jobId := by simpa using List.find?_some hfind
      exact congrArg some (Table.eq_of_key_eq hmem ((h.members job).mp hjob).1 hid)

/-- An attempt counts for the repetition of its job. -/
theorem CellOf.repetitionOf (hplan : RunPlan manifest db)
    (h : CellOf db manifest.runId key jobs attempts) {job : Job} (hjob : job ∈ jobs)
    {attempt : EvaluationAttempt} (hattempt : attempt.jobId = job.jobId) {rep : Nat} :
    repetitionOf manifest.maxRepetitions (jobRepetitionMap jobs) attempt = some rep ↔
      job.repetition = rep := by
  obtain ⟨hmem, hrun, _⟩ := (h.members job).mp hjob
  obtain ⟨own, hown, hlt⟩ := hplan.inRange job hmem hrun
  simp only [VerifierCI.repetitionOf, jobRepetitionMap, hattempt, h.jobById hjob, Option.map_some,
    hown]
  rw [if_neg (by omega)]
  simp

/-- In the plan a repetition of a cell has one job, so its attempts are those of that job. -/
theorem CellOf.mem_attemptsAt (hplan : RunPlan manifest db)
    (h : CellOf db manifest.runId key jobs attempts) {job : Job} (hjob : job ∈ jobs) {rep : Nat}
    (hrep : job.repetition = rep) {attempt : EvaluationAttempt} :
    attempt ∈ attemptsAt manifest.maxRepetitions (jobRepetitionMap jobs) attempts rep ↔
      attempt ∈ attempts ∧ attempt.jobId = job.jobId := by
  rw [attemptsAt, List.mem_filter, decide_eq_true_eq]
  refine and_congr_right fun hattempt => ?_
  obtain ⟨row, _, hrow, own, hown, hid⟩ := h.stored attempt hattempt
  have hattemptId : attempt.jobId = own.jobId := hrow.jobId.trans hid.symm
  rw [h.repetitionOf hplan hown hattemptId]
  obtain ⟨hmem, hrun, hkey⟩ := (h.members job).mp hjob
  obtain ⟨hmemOwn, hrunOwn, hkeyOwn⟩ := (h.members own).mp hown
  constructor
  · intro hrepOwn
    rw [hattemptId, hplan.distinct own hmemOwn job hmem hrunOwn hrun (hkeyOwn.trans hkey.symm)
      (hrepOwn.trans hrep.symm)]
  · intro hsame
    have heq := Table.eq_of_key_eq hmemOwn hmem (hattemptId.symm.trans hsame)
    rw [heq, hrep]

/-- The ledger row of an attempt that counts for a job. -/
theorem CellOf.row (h : CellOf db manifest.runId key jobs attempts) {job : Job}
    {attempt : EvaluationAttempt} (hattempt : attempt ∈ attempts)
    (hid : attempt.jobId = job.jobId) :
    ∃ row ∈ (db.ledgerOf job).attempts, Represents row attempt := by
  obtain ⟨row, hrow, hrep, _⟩ := h.stored attempt hattempt
  exact ⟨row, mem_ledgerOf.mpr ⟨hrow, hrep.jobId.symm.trans hid⟩, hrep⟩

/-- The attempts of one job have different fences, so the reducer can compare them. -/
theorem CellOf.reduces (hinv : QueueInv db) (hplan : RunPlan manifest db)
    (h : CellOf db manifest.runId key jobs attempts) (rep : Nat) :
    ∃ result, reduceRepetition
      (attemptsAt manifest.maxRepetitions (jobRepetitionMap jobs) attempts rep) = .ok result := by
  apply reduceRepetition_ok
  apply comparable_of_fences
  apply List.Nodup.map_on
  · intro first hfirst second hsecond hfence
    have hfirst' := List.mem_of_mem_filter hfirst
    have hsecond' := List.mem_of_mem_filter hsecond
    obtain ⟨row, _, hrow, own, hown, hid⟩ := h.stored first hfirst'
    have hjobId : first.jobId = own.jobId := hrow.jobId.trans hid.symm
    have hrep := (h.repetitionOf hplan hown hjobId).mp
      (by simpa [attemptsAt] using (List.mem_filter.mp hfirst).2)
    have hsame := ((h.mem_attemptsAt hplan hown hrep).mp hsecond).2
    obtain ⟨row₁, hmem₁, hrow₁⟩ := h.row hfirst' hjobId
    obtain ⟨row₂, hmem₂, hrow₂⟩ := h.row hsecond' hsame
    have hledger := hinv.of_mem ((h.members own).mp hown).1
    have heq := hledger.numbered.eq_of_fence hmem₁ hmem₂
      (hrow₁.fence.symm.trans (hfence.trans hrow₂.fence))
    apply List.inj_on_of_nodup_map h.ids hfirst' hsecond'
    rw [hrow₁.attemptId, hrow₂.attemptId, heq]
  · exact (List.Nodup.of_map _ h.ids).filter _

/-- The preferred attempt of a repetition is the one its job has selected, or a
pending attempt of a job that is still held. -/
theorem CellOf.preferred_cases (hinv : QueueInv db) (hplan : RunPlan manifest db)
    (h : CellOf db manifest.runId key jobs attempts) {job : Job} (hjob : job ∈ jobs) {rep : Nat}
    (hrep : job.repetition = rep) {a : EvaluationAttempt}
    (ha : Preferred (attemptsAt manifest.maxRepetitions (jobRepetitionMap jobs) attempts rep) a) :
    job.selectedAttemptId = some a.attemptId ∨ (job.state.isHeld = true ∧ a.outcome = none) := by
  obtain ⟨hattempt, hid⟩ := (h.mem_attemptsAt hplan hjob hrep).mp ha.mem
  obtain ⟨row, hrow, hsame⟩ := h.row hattempt hid
  have hledger := hinv.of_mem ((h.members job).mp hjob).1
  have husable := ha.usable
  rw [hsame.disposition] at husable
  cases hdisposition : row.disposition with
  | active =>
      obtain ⟨_, houtcome, hheld, _⟩ := hledger.active row hrow hdisposition
      exact Or.inr ⟨hheld, hsame.outcome.trans houtcome⟩
  | authoritative =>
      have hselected := (hledger.authority row hrow hdisposition).1
      rw [← hsame.attemptId] at hselected
      exact Or.inl hselected
  | stale => exact absurd hdisposition husable.1
  | abandoned => exact absurd hdisposition husable.2

/-- The selected attempt of a job is preferred. -/
theorem CellOf.preferred_of_selected (hinv : QueueInv db) (hplan : RunPlan manifest db)
    (h : CellOf db manifest.runId key jobs attempts) {job : Job} (hjob : job ∈ jobs) {rep : Nat}
    (hrep : job.repetition = rep) {id : String} (hselected : job.selectedAttemptId = some id) :
    ∃ a, Preferred (attemptsAt manifest.maxRepetitions (jobRepetitionMap jobs) attempts rep) a ∧
      a.attemptId = id ∧ (job.state = .done ∨ job.state = .failed) ∧
        (a.outcome ≠ some .error → job.state = .done) := by
  have hledger := hinv.of_mem ((h.members job).mp hjob).1
  obtain ⟨hfinished, row, hrow, hid, hauth, _⟩ := hledger.selection id hselected
  obtain ⟨hstored, hjobId⟩ := mem_ledgerOf.mp hrow
  obtain ⟨a, ha, hsame⟩ := h.listed row hstored ⟨job, hjob, hjobId.symm⟩
  have haAuth : a.disposition = .authoritative := hsame.disposition.trans hauth
  refine ⟨a, ⟨?_, ?_, ?_⟩, hsame.attemptId.trans hid, JobState.isFinished_iff.mp hfinished, ?_⟩
  · exact (h.mem_attemptsAt hplan hjob hrep).mpr ⟨ha, hsame.jobId.trans hjobId⟩
  · intro b hb hne
    refine Or.inl ⟨haAuth, ?_⟩
    intro hbAuth
    obtain ⟨hbMem, hbId⟩ := (h.mem_attemptsAt hplan hjob hrep).mp hb
    obtain ⟨other, hother, hsameOther⟩ := h.row hbMem hbId
    -- Two authoritative attempts of the job would both be the selected one.
    have hselectedOther := (hledger.authority other hother
      (hsameOther.disposition.symm.trans hbAuth)).1
    have hids := Option.some.inj (hselected.symm.trans hselectedOther)
    apply hne
    apply List.inj_on_of_nodup_map h.ids hbMem ha
    rw [hsameOther.attemptId, hsame.attemptId, hid, hids]
  · rw [haAuth]
    decide
  · intro houtcome
    have hstate := (hledger.authority row hrow hauth).2
    rw [← hsame.outcome, if_neg houtcome] at hstate
    exact hstate

end Cell

/-! ## Agreement -/

/-- What the cell says of one repetition and what the queue says of its job. -/
structure RepetitionAgrees (cell : AcceptanceCell) (attempts : List EvaluationAttempt) (job : Job)
    (rep : Nat) : Prop where
  selected : ∀ id, job.selectedAttemptId = some id →
    id ∈ cell.selectedAttemptIds ∧
      ∀ attempt ∈ attempts, attempt.jobId = job.jobId →
        attempt.attemptId ∈ cell.selectedAttemptIds → attempt.attemptId = id
  unselected : job.selectedAttemptId = none →
    (∀ attempt ∈ attempts, attempt.jobId = job.jobId →
      attempt.attemptId ∉ cell.selectedAttemptIds) ∧
      cell.repetitionOutcomes[rep]? = some .pending

/-- The job has finished as `DONE` and selected an attempt with the outcome. -/
def DoneWith (outcome : Outcome) (attempts : List EvaluationAttempt) (job : Job) : Prop :=
  job.state = .done ∧ ∃ attempt ∈ attempts,
    job.selectedAttemptId = some attempt.attemptId ∧ attempt.outcome = some outcome

/-- A cell agrees with the jobs it was aggregated from. -/
structure AgreesWithQueue (manifest : AuditManifest) (cell : AcceptanceCell) (jobs : List Job)
    (attempts : List EvaluationAttempt) : Prop where
  repetitions : ∀ rep : Nat, (rep : Int) < manifest.maxRepetitions →
    ∃ job ∈ jobs, job.repetition = rep ∧
      (job.state.isTerminal = true → RepetitionAgrees cell attempts job rep)
  accept : cell.outcome = .accept ∧ cell.evaluationValidity = .valid ↔
    ∀ rep : Nat, (rep : Int) < manifest.maxRepetitions →
      ∃ job ∈ jobs, job.repetition = rep ∧ DoneWith .accept attempts job
  reject : cell.outcome = .reject ∧ cell.evaluationValidity = .valid ↔
    ∀ rep : Nat, (rep : Int) < manifest.maxRepetitions →
      ∃ job ∈ jobs, job.repetition = rep ∧ DoneWith .reject attempts job

theorem not_held_of_terminal {state : JobState} (h : state.isTerminal = true) :
    state.isHeld ≠ true := by
  cases state <;> simp_all [JobState.isTerminal, JobState.isHeld]

section Agreement

variable {db : Db} {manifest : AuditManifest} {key : String × String × String} {jobs : List Job}
  {attempts : List EvaluationAttempt} {results : List RepetitionResult} {header : CellHeader}
  {unmapped : List EvaluationAttempt}

/-- An attempt of a job is selected in the cell exactly if it is the preferred
one of the job's repetition. -/
theorem CellOf.mem_selected_iff (hplan : RunPlan manifest db)
    (h : CellOf db manifest.runId key jobs attempts)
    (hresults : AggregatesTo manifest.maxRepetitions
      (attemptsAt manifest.maxRepetitions (jobRepetitionMap jobs) attempts) results)
    {job : Job} (hjob : job ∈ jobs) {rep : Nat} (hrep : job.repetition = rep)
    {attempt : EvaluationAttempt} (hattempt : attempt ∈ attempts)
    (hid : attempt.jobId = job.jobId) :
    attempt.attemptId ∈
        (assembleCell header manifest.maxRepetitions unmapped results).selectedAttemptIds ↔
      Preferred (attemptsAt manifest.maxRepetitions (jobRepetitionMap jobs) attempts rep)
        attempt := by
  obtain ⟨hmem, hrun, _⟩ := (h.members job).mp hjob
  obtain ⟨own, hown, hlt⟩ := hplan.inRange job hmem hrun
  rw [hresults.mem_selected]
  constructor
  · rintro ⟨other, _, a, ha, haId⟩
    have haMem := List.mem_of_mem_filter ha.mem
    obtain rfl : a = attempt := List.inj_on_of_nodup_map h.ids haMem hattempt haId
    have hother := (h.repetitionOf hplan hjob hid).mp
      (by simpa [attemptsAt] using (List.mem_filter.mp ha.mem).2)
    obtain rfl : other = rep := by omega
    exact ha
  · intro ha
    exact ⟨rep, by omega, attempt, ha, rfl⟩

/-- An authoritative attempt is the selection of its job. Without one, the reducer falls back on
the last attempt, which is the current one of the queue. -/
theorem CellOf.repetitionAgrees (hinv : QueueInv db) (hplan : RunPlan manifest db)
    (h : CellOf db manifest.runId key jobs attempts)
    (hresults : AggregatesTo manifest.maxRepetitions
      (attemptsAt manifest.maxRepetitions (jobRepetitionMap jobs) attempts) results)
    {job : Job} (hjob : job ∈ jobs) {rep : Nat} (hrep : job.repetition = rep)
    (hlt : (rep : Int) < manifest.maxRepetitions) (hterminal : job.state.isTerminal = true) :
    RepetitionAgrees (assembleCell header manifest.maxRepetitions unmapped results) attempts job
      rep where
  selected := by
    intro id hselected
    obtain ⟨a, ha, rfl, _⟩ := h.preferred_of_selected hinv hplan hjob hrep hselected
    refine ⟨hresults.mem_selected.mpr ⟨rep, hlt, a, ha, rfl⟩, ?_⟩
    intro attempt hattempt hid hmem
    have hpreferred := (h.mem_selected_iff hplan hresults hjob hrep hattempt hid).mp hmem
    rw [hpreferred.eq ha]
  unselected := by
    intro hnone
    have hno : ∀ a, ¬ Preferred
        (attemptsAt manifest.maxRepetitions (jobRepetitionMap jobs) attempts rep) a := by
      intro a ha
      rcases h.preferred_cases hinv hplan hjob hrep ha with hselected | ⟨hheld, _⟩
      · rw [hnone] at hselected
        cases hselected
      · exact not_held_of_terminal hterminal hheld
    refine ⟨?_, hresults.outcome_of_none hlt hno⟩
    intro attempt hattempt hid hmem
    exact hno attempt ((h.mem_selected_iff hplan hresults hjob hrep hattempt hid).mp hmem)

/-- A repetition is recorded with an outcome exactly if its job is `DONE` with it. -/
theorem CellOf.outcome_iff (hinv : QueueInv db) (hplan : RunPlan manifest db)
    (h : CellOf db manifest.runId key jobs attempts)
    (hresults : AggregatesTo manifest.maxRepetitions
      (attemptsAt manifest.maxRepetitions (jobRepetitionMap jobs) attempts) results)
    {job : Job} (hjob : job ∈ jobs) {rep : Nat} (hrep : job.repetition = rep)
    (hlt : (rep : Int) < manifest.maxRepetitions) {outcome : Outcome} (hvalid : outcome ≠ .error) :
    (results.map RepetitionResult.outcome)[rep]? = some (.completed outcome) ↔
      DoneWith outcome attempts job := by
  constructor
  · intro houtcome
    by_cases hpreferred : ∃ a, Preferred
        (attemptsAt manifest.maxRepetitions (jobRepetitionMap jobs) attempts rep) a
    · obtain ⟨a, ha⟩ := hpreferred
      rw [hresults.outcome_of_preferred hlt ha, Option.some.injEq, orPending_eq_completed]
        at houtcome
      -- what is preferred is selected, or still pending, which is no outcome
      rcases h.preferred_cases hinv hplan hjob hrep ha with hselected | ⟨_, hpending⟩
      · obtain ⟨a', ha', _, _, hdone⟩ := h.preferred_of_selected hinv hplan hjob hrep hselected
        obtain rfl := ha'.eq ha
        refine ⟨hdone ?_, a', List.mem_of_mem_filter ha'.mem, hselected, houtcome⟩
        rw [houtcome]
        exact fun heq => hvalid (Option.some.inj heq)
      · rw [hpending] at houtcome
        cases houtcome
    · rw [hresults.outcome_of_none hlt (not_exists.mp hpreferred)] at houtcome
      cases Option.some.inj houtcome
  · rintro ⟨_, attempt, hattempt, hselected, houtcome⟩
    obtain ⟨a, ha, hid, _⟩ := h.preferred_of_selected hinv hplan hjob hrep hselected
    obtain rfl := List.inj_on_of_nodup_map h.ids (List.mem_of_mem_filter ha.mem) hattempt hid
    rw [hresults.outcome_of_preferred hlt ha, houtcome]
    rfl

/-- All repetitions of a planned cell are recorded with an outcome exactly if all
its jobs are `DONE` with it. -/
theorem CellOf.all_outcomes_iff (hinv : QueueInv db) (hplan : RunPlan manifest db)
    (h : CellOf db manifest.runId key jobs attempts)
    (hresults : AggregatesTo manifest.maxRepetitions
      (attemptsAt manifest.maxRepetitions (jobRepetitionMap jobs) attempts) results)
    (hkey : key ∈ manifest.plannedCells) {outcome : Outcome} (hvalid : outcome ≠ .error) :
    (∀ o ∈ results.map RepetitionResult.outcome, o = .completed outcome) ↔
      ∀ rep : Nat, (rep : Int) < manifest.maxRepetitions →
        ∃ job ∈ jobs, job.repetition = rep ∧ DoneWith outcome attempts job := by
  -- The plan gives each repetition a job, so nothing is missing from the outcomes.
  have hjobAt : ∀ rep : Nat, (rep : Int) < manifest.maxRepetitions →
      ∃ job ∈ jobs, job.repetition = rep := by
    intro rep hrep
    obtain ⟨job, hjob, hrun, hcell, hrepetition⟩ := hplan.covers key hkey rep hrep
    exact ⟨job, (h.members job).mpr ⟨hjob, hrun, hcell⟩, hrepetition⟩
  constructor
  · intro hall rep hrep
    obtain ⟨job, hjob, hrepetition⟩ := hjobAt rep hrep
    obtain ⟨result, hresult⟩ := hresults.getElem?_some hrep
    have hget : (results.map RepetitionResult.outcome)[rep]? = some result.outcome := by
      rw [List.getElem?_map, hresult, Option.map_some]
    rw [hall _ (List.mem_of_getElem? hget)] at hget
    exact ⟨job, hjob, hrepetition,
      (h.outcome_iff hinv hplan hresults hjob hrepetition hrep hvalid).mp hget⟩
  · intro hall o ho
    obtain ⟨rep, hget⟩ := List.mem_iff_getElem?.mp ho
    have hrep : (rep : Int) < manifest.maxRepetitions := by
      have hlt := (List.getElem?_eq_some_iff.mp hget).1
      rw [List.length_map, hresults.length] at hlt
      omega
    obtain ⟨job, hjob, hrepetition, hdone⟩ := hall rep hrep
    have houtcome := (h.outcome_iff hinv hplan hresults hjob hrepetition hrep hvalid).mpr hdone
    rw [hget] at houtcome
    exact Option.some.inj houtcome

/-- The cell can be aggregated, and repetition by repetition it says what the queue says. -/
theorem CellOf.agrees (hinv : QueueInv db) (hplan : RunPlan manifest db)
    (h : CellOf db manifest.runId key jobs attempts) (hkey : key ∈ manifest.plannedCells)
    (hpos : 1 ≤ manifest.maxRepetitions) (header : CellHeader) :
    ∃ cell, aggregateCell header manifest.maxRepetitions attempts (jobRepetitionMap jobs) =
      .ok cell ∧ AgreesWithQueue manifest cell jobs attempts := by
  obtain ⟨cell, hcell⟩ := aggregateCell_succeeds header (h.reduces hinv hplan)
  obtain ⟨results, hresults, rfl⟩ := aggregateCell_ok h.ids hcell
  have hlength : (results.map RepetitionResult.outcome).length = manifest.maxRepetitions.toNat := by
    rw [List.length_map, hresults.length]
  refine ⟨_, hcell, ?_, ?_, ?_⟩
  · intro rep hrep
    obtain ⟨job, hjob, hrun, hjobKey, hrepetition⟩ := hplan.covers key hkey rep hrep
    have hmem := (h.members job).mpr ⟨hjob, hrun, hjobKey⟩
    exact ⟨job, hmem, hrepetition,
      h.repetitionAgrees hinv hplan hresults hmem hrepetition hrep⟩
  · exact (cellVerdict_accept_iff hlength).trans
      (h.all_outcomes_iff hinv hplan hresults hkey (by decide))
  · exact (cellVerdict_reject_iff hlength (by omega)).trans
      (h.all_outcomes_iff hinv hplan hresults hkey (by decide))

end Agreement

/-! ## The queue of a small plan -/

def candidateJob : Job := { plannedJob candidateDigest.text with verifierKey := "candidate" }

theorem expand_small : expand planSha256 smallManifest =
    [candidateJob, plannedJob baselineDigest.text] := by
  decide +kernel

def planDb : Db :=
  { soloDb with jobs := ⟨[candidateJob, plannedJob baselineDigest.text], by decide⟩ }

theorem planDb_fresh : planDb.Fresh where
  jobs := by
    intro job hjob
    rcases List.mem_pair.mp hjob with rfl | rfl
    · exact ⟨rfl, rfl, rfl, rfl, rfl, rfl⟩
    · exact plannedJob_fresh _
  attempts := rfl

theorem planDb_enqueued : Enqueued planSha256 smallManifest planDb where
  jobs := by
    intro job
    rw [expand_small]
    constructor
    · intro hjob
      refine ⟨hjob, ?_⟩
      rcases List.mem_pair.mp hjob with rfl | rfl <;> rfl
    · exact And.left
  coordinates := by
    rw [expand_small]
    decide

def planHandle : Job :=
  { soloHandle with
    jobId := candidateDigest.text
    verifierKey := "candidate" }

def planRun : List Operation :=
  [soloClaim, .complete planHandle (acceptingAttempt "attempt" candidateDigest.text 1) 1000]

def doneJob : Job :=
  { candidateJob with
    state := .done
    fence := 1
    attemptId := some "attempt"
    attemptsStarted := 1
    selectedAttemptId := some "attempt" }

theorem jobs_planRun : (Transition.run Db.call planDb planRun).jobs.rows =
    [doneJob, plannedJob baselineDigest.text] := by
  rfl

theorem attempts_planRun : ∃ row,
    (Transition.run Db.call planDb planRun).evaluationAttempts.rows = [row] ∧
      Represents row (acceptingAttempt "attempt" candidateDigest.text 1) :=
  ⟨_, rfl, rfl, rfl, rfl, rfl, rfl, rfl, rfl⟩

theorem cellOf_planRun : CellOf (Transition.run Db.call planDb planRun) "run"
    ("task", "case", "candidate") [doneJob]
    [acceptingAttempt "attempt" candidateDigest.text 1] where
  members := by
    intro job
    rw [Table.mem_def, jobs_planRun, List.mem_singleton, List.mem_pair]
    constructor
    · rintro rfl
      exact ⟨Or.inl rfl, rfl, rfl⟩
    · rintro ⟨rfl | rfl, _, hkey⟩
      · rfl
      · exact absurd hkey (by decide)
  ids := by decide
  stored := by
    intro attempt hattempt
    obtain rfl := List.mem_singleton.mp hattempt
    obtain ⟨row, hrows, hrep⟩ := attempts_planRun
    refine ⟨row, ?_, hrep, doneJob, List.mem_singleton_self _, hrep.jobId⟩
    rw [Table.mem_def, hrows]
    exact List.mem_singleton_self row
  listed := by
    intro row hrow _
    obtain ⟨stored, hrows, hrep⟩ := attempts_planRun
    rw [Table.mem_def, hrows, List.mem_singleton] at hrow
    exact ⟨_, List.mem_singleton_self _, hrow ▸ hrep⟩

def smallHeader : CellHeader where
  taskKey := "task"
  repositoryId := ""
  caseId := "case"
  verifierKey := "candidate"
  adjudicationId := "unadjudicated"
  label := .unresolved
  role := .challenge

/-! ## Agreement -/

/-- In every reachable state of a queue that holds the jobs of a manifest, the
reducer agrees with the queue on every planned cell. -/
theorem reducer_agrees_with_queue {sha256 : List UInt8 → Digest} {manifest : AuditManifest}
    {db : Db} (hfresh : db.Fresh) (henqueued : Enqueued sha256 manifest db)
    (hpos : 1 ≤ manifest.maxRepetitions) (ops : List Operation)
    {key : String × String × String} (hkey : key ∈ manifest.plannedCells) {jobs : List Job}
    {attempts : List EvaluationAttempt}
    (hcell : CellOf (Transition.run Db.call db ops) manifest.runId key jobs attempts)
    (header : CellHeader) :
    ∃ cell, aggregateCell header manifest.maxRepetitions attempts (jobRepetitionMap jobs) =
      .ok cell ∧ AgreesWithQueue manifest cell jobs attempts := by
  have hinv := QueueInv.of_fresh hfresh
  exact hcell.agrees (run_queueInv hinv ops) ((run_evolves hinv ops).runPlan henqueued.runPlan)
    hkey hpos header

/-- The candidate's job is done with an accepting attempt, and the reducer selects the attempt
the queue has selected. -/
theorem reducer_agrees_with_queue_small :
    ∃ cell, aggregateCell smallHeader 1 [acceptingAttempt "attempt" candidateDigest.text 1]
      (jobRepetitionMap [doneJob]) = .ok cell ∧
        AgreesWithQueue smallManifest cell [doneJob]
          [acceptingAttempt "attempt" candidateDigest.text 1] :=
  reducer_agrees_with_queue planDb_fresh planDb_enqueued (by decide) planRun
    (by decide : ("task", "case", "candidate") ∈ smallManifest.plannedCells) cellOf_planRun
    smallHeader

end VerifierCI
