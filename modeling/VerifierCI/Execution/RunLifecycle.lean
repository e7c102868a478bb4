import Mathlib.Data.List.Dedup
import VerifierCI.Execution.Session

/-! # The life cycle of an audit run

A run is closed by whichever call finishes its last job. Every operation is a
sequence of four kinds of statements; each keeps what is known about a run in
the middle of a transaction, and the one that recomputes the run's state
restores that an open run has an unfinished job.
-/

namespace VerifierCI

open Python Relational Transition

/-! ## Statements -/

/-- One statement of the queue, as far as jobs and runs are concerned. A
finished job is never written, and no job changes its run. -/
inductive Db.Statement : Db → Db → Prop
  | jobs {db : Db} {p : Job → Bool} {f : Job → Job} (hf : ∀ row, (f row).jobId = row.jobId)
      (hrun : ∀ row, (f row).runId = row.runId)
      (hunfinished : ∀ row ∈ db.jobs, p row = true → row.state.isFinished = false) :
      Db.Statement db (db.updateJobs p f hf)
  | attempts {db : Db} (attempts : Table AttemptRow.attemptId) :
      Db.Statement db { db with evaluationAttempts := attempts }
  | settle {db db' : Db} {runId : String} {nowMs : Int}
      (h : updateRunState db runId nowMs = .ok db') : Db.Statement db db'
  | flag {db : Db} (runId : String) :
      Db.Statement db
        (db.updateRun runId cancelledRun cancelledRun_runId)

abbrev Db.Statements : Db → Db → Prop :=
  Relation.ReflTransGen Db.Statement

section Statements

variable {db db' : Db} {nowMs : Int}

theorem unfinished_of_pending {state : JobState} (h : state = .pending) :
    state.isFinished = false := by
  rw [h]
  rfl

theorem unfinished_of_held {state : JobState} (h : state.isHeld = true) :
    state.isFinished = false := by
  cases state <;> simp_all [JobState.isHeld, JobState.isFinished]

theorem unfinished_of_not_terminal {state : JobState} (h : state.isTerminal = false) :
    state.isFinished = false := by
  cases state <;> simp_all [JobState.isTerminal, JobState.isFinished]

theorem failPending_statement (db : Db) (runId : String) :
    Db.Statement db (failPending db runId) := by
  refine .jobs cancelledRow_jobId (fun _ => rfl) ?_
  intro row _ hp
  simp only [Bool.and_eq_true, decide_eq_true_eq] at hp
  exact unfinished_of_pending hp.2

theorem leasedDb_statements {row : Job} {workerId : String} {expires : Int} {draw : Draw}
    {attempts : Table AttemptRow.attemptId} :
    Db.Statements db (leasedDb db row workerId expires draw attempts) := by
  have hjobs : Db.Statement db (db.updateJobs
      (fun job => job.jobId = row.jobId && job.state = .pending)
      (leasedRow row workerId expires draw) (leasedRow_jobId row workerId expires draw)) := by
    refine .jobs _ (fun _ => rfl) ?_
    intro job _ hp
    simp only [Bool.and_eq_true, decide_eq_true_eq] at hp
    exact unfinished_of_pending hp.2
  exact .tail (.single hjobs) (.attempts attempts)

/-- The one job an update by id reaches is the row found under that id. -/
theorem unfinished_of_find? {jobId : String} {row : Job} (hrow : db.jobs.find? jobId = some row)
    (hunfinished : row.state.isFinished = false) :
    ∀ other ∈ db.jobs, decide (other.jobId = jobId) = true → other.state.isFinished = false := by
  intro other hother hp
  have hsame : other = row := Table.eq_of_key_eq hother (Table.mem_of_find? hrow)
    ((of_decide_eq_true hp).trans (Table.key_of_find? hrow).symm)
  exact hsame ▸ hunfinished

theorem reapedDb_statements {row : Job} {outcome : JobState × Option String} {now : Datetime}
    (hrow : db.jobs.find? row.jobId = some row) (hheld : row.state.isHeld = true) :
    Db.Statements db (reapedDb db row outcome now) := by
  have hjobs : Db.Statement db (db.updateJobs (fun job => job.jobId = row.jobId)
      (releasedRow outcome) (releasedRow_jobId outcome)) :=
    .jobs _ (fun _ => rfl) (unfinished_of_find? hrow (unfinished_of_held hheld))
  exact .tail (.single hjobs) (.attempts _)

theorem committedDb_statements {job row : Job} {attempt : EvaluationAttempt} {stored : AttemptRow}
    {finishedAt : Datetime} (hguard : CommitGuard db job attempt nowMs row stored) :
    Db.Statements db (committedDb db job attempt finishedAt) := by
  have hjobs : Db.Statement db (db.updateJobs (fun other => other.jobId = job.jobId)
      (finishedRow attempt) (finishedRow_jobId attempt)) :=
    .jobs _ (fun _ => rfl)
      (unfinished_of_find? hguard.row_eq (unfinished_of_not_terminal hguard.not_terminal))
  exact .tail (.single hjobs) (.attempts _)

theorem runningDb_statements {row job : Job} (hrow : db.jobs.find? job.jobId = some row)
    (hheld : row.state.isHeld = true) : Db.Statements db (runningDb db row job) := by
  unfold runningDb
  split
  · exact .single (.jobs _ (fun _ => rfl) (unfinished_of_find? hrow (unfinished_of_held hheld)))
  · exact .refl

theorem extendedDb_statements {row job : Job} {expires : Int}
    (hrow : db.jobs.find? job.jobId = some row) (hheld : row.state.isHeld = true) :
    Db.Statements db (extendedDb db job expires) :=
  .single (.jobs _ (fun _ => rfl) (unfinished_of_find? hrow (unfinished_of_held hheld)))

end Statements

/-! ## A run in the middle of a transaction -/

/-- What is known of a run and its jobs between any two statements. -/
structure RunCore (run : AuditRunRow) (jobs : List Job) : Prop where
  nonempty : jobs ≠ []
  finishedAt : run.finishedAt.isSome = run.state.isTerminal
  finished : run.state.isTerminal = true → ∀ job ∈ jobs, job.state.isFinished = true
  complete : run.state = .complete → ∀ job ∈ jobs, job.state = .done
  failed : run.state = .failed → ∃ job ∈ jobs, job.state = .failed
  cancelled : run.state = .cancelled → run.cancelRequested = true

/-- What no statement undoes: a run keeps its row, a closed run its state and
finish time, a started run does not become planned again, and jobs stay. -/
structure Progress (db db' : Db) : Prop where
  jobs : ∀ jobId job, db.jobs.find? jobId = some job →
    ∃ job', db'.jobs.find? jobId = some job' ∧ job'.runId = job.runId
  runs : ∀ runId run, db.auditRuns.find? runId = some run →
    ∃ run', db'.auditRuns.find? runId = some run' ∧
      (run.state.isTerminal = true → run'.state = run.state ∧ run'.finishedAt = run.finishedAt) ∧
      (run'.state = .planned → run.state = .planned)

/-- The run is in the middle of a transaction, in a consistent way. -/
def Db.RunIn (db : Db) (runId : String) : Prop :=
  ∃ run, db.auditRuns.find? runId = some run ∧ RunCore run (db.runJobs runId)

def Db.RunClosed (db : Db) (runId : String) : Prop :=
  ∀ run, db.auditRuns.find? runId = some run → db.runJobs runId ≠ [] →
    (∀ job ∈ db.runJobs runId, job.state.isFinished = true) → run.state.isTerminal = true

section Rows

variable {db db' : Db} {runId : String}

theorem runJobs_updateJobs {p : Job → Bool} {f : Job → Job}
    (hf : ∀ row, (f row).jobId = row.jobId) (hrun : ∀ row, (f row).runId = row.runId) :
    (db.updateJobs p f hf).runJobs runId =
      (db.runJobs runId).map fun row => if p row then f row else row := by
  have hselect : (db.jobs.update p f hf).select (fun job => job.runId = runId) =
      (db.runJobs runId).map fun row => if p row then f row else row :=
    Table.select_update _ fun row _ => by rw [hrun row]
  exact hselect

/-- The row of a run after its state has been recomputed. -/
inductive RunUpdate (db : Db) (runId : String) (run : AuditRunRow) : AuditRunRow → Prop
  | kept (hopen : run.state.isTerminal = true ∨ db.runJobs runId = [] ∨
        ∃ job ∈ db.runJobs runId, job.state.isFinished = false)
      (hplanned : run.state ≠ .planned ∨ db.runJobs runId = []) : RunUpdate db runId run run
  | started (hplanned : run.state = .planned)
      (hactive : ∃ job ∈ db.runJobs runId, job.state.isFinished = false) :
      RunUpdate db runId run (startedRun run)
  | closed (now : Datetime) (hopen : run.state.isTerminal = false)
      (hfinished : ∀ job ∈ db.runJobs runId, job.state.isFinished = true) :
      RunUpdate db runId run (closedRun (closedState db runId) now run)

/-- What is read of a run's jobs decides what is written to its row: nothing, its start, or its
end. -/
theorem updateRunState_row {nowMs : Int} {run : AuditRunRow}
    (hrun : db.auditRuns.find? runId = some run)
    (h : updateRunState db runId nowMs = .ok db') :
    ∃ run', db'.auditRuns.find? runId = some run' ∧ RunUpdate db runId run run' := by
  have hid : run.runId = runId := Table.key_of_find? hrun
  rw [updateRunState_eq] at h
  cases hcloses : closesRun db runId with
  | true =>
      rw [hcloses, if_pos rfl] at h
      cases hnow : isoOfMs nowMs with
      | error exc =>
          rw [hnow] at h
          cases h
      | ok now =>
          rw [hnow] at h
          cases h
          simp only [closesRun, hrun, Bool.and_eq_true, Bool.not_eq_true', List.all_eq_true]
            at hcloses
          refine ⟨_, ?_, .closed now hcloses.1.1 hcloses.2⟩
          rw [closedDb, Db.updateRun, Table.find?_update, hrun]
          simp [hid]
  | false =>
      rw [hcloses, if_neg (by simp)] at h
      cases h
      simp only [closesRun, hrun, Bool.and_eq_false_iff, Bool.not_eq_false', List.all_eq_false,
        Bool.not_eq_true, List.isEmpty_iff, or_assoc] at hcloses
      simp only [startedDb, hrun, List.any_eq_true, Bool.not_eq_true']
      split
      next hstarted =>
        refine ⟨_, ?_, .started hstarted.1 hstarted.2⟩
        rw [Db.updateRun, Table.find?_update, hrun]
        simp [hid]
      -- a run that neither closes nor starts is terminal, without jobs or under way
      next hkept =>
        refine ⟨run, hrun, .kept hcloses ?_⟩
        by_contra hnot
        rw [not_or, not_not] at hnot
        obtain ⟨hplanned, hjobs⟩ := hnot
        rcases hcloses with hterminal | hempty | hactive
        · rw [hplanned] at hterminal
          cases hterminal
        · exact hjobs hempty
        · exact hkept ⟨hplanned, hactive⟩

/-- A cancellation request changes a run's flag, if anything. -/
theorem flag_row {other : String} {run : AuditRunRow} (hrun : db.auditRuns.find? runId = some run) :
    ∃ run', (db.updateRun other cancelledRun cancelledRun_runId).auditRuns.find? runId =
        some run' ∧ (run' = run ∨ run' = cancelledRun run) := by
  rw [Db.updateRun, Table.find?_update, hrun]
  refine ⟨_, rfl, ?_⟩
  dsimp only
  split
  · exact Or.inr rfl
  · exact Or.inl rfl

/-- A run is closed in one of the three final states. -/
theorem closedState_terminal (db : Db) (runId : String) :
    (closedState db runId).isTerminal = true := by
  unfold closedState
  split
  · rfl
  · split <;> rfl

theorem closedState_failed (h : closedState db runId = .failed) :
    ∃ job ∈ db.runJobs runId, job.state = .failed := by
  unfold closedState at h
  split at h
  · cases h
  · split at h
    next hfailed => simpa [List.any_eq_true] using hfailed
    · cases h

theorem closedState_complete (h : closedState db runId = .complete) :
    ∀ job ∈ db.runJobs runId, job.state ≠ .failed := by
  unfold closedState at h
  split at h
  · cases h
  · split at h
    · cases h
    next hnone =>
      intro job hjob hfailed
      exact hnone (List.any_eq_true.mpr ⟨job, hjob, decide_eq_true hfailed⟩)

/-- Only the flag makes a closed run a cancelled one. -/
theorem closedState_cancelled (h : closedState db runId = .cancelled) :
    cancelRequested db runId = true := by
  unfold closedState at h
  split at h
  next hcancelled => exact hcancelled
  · split at h <;> cases h

end Rows

/-! ## What every statement keeps -/

section Kept

variable {db db' : Db}

theorem Progress.refl (db : Db) : Progress db db where
  jobs := fun _ job hjob => ⟨job, hjob, rfl⟩
  runs := fun _ run hrun => ⟨run, hrun, fun _ => ⟨rfl, rfl⟩, id⟩

theorem Progress.trans {db'' : Db} (first : Progress db db') (second : Progress db' db'') :
    Progress db db'' where
  jobs := by
    intro jobId job hjob
    obtain ⟨job', hjob', hsame⟩ := first.jobs jobId job hjob
    obtain ⟨job'', hjob'', hsame'⟩ := second.jobs jobId job' hjob'
    exact ⟨job'', hjob'', hsame'.trans hsame⟩
  runs := by
    intro runId run hrun
    obtain ⟨run', hrun', hfrozen, hplanned⟩ := first.runs runId run hrun
    obtain ⟨run'', hrun'', hfrozen', hplanned'⟩ := second.runs runId run' hrun'
    refine ⟨run'', hrun'', ?_, hplanned ∘ hplanned'⟩
    intro hterminal
    obtain ⟨hstate, hfinished⟩ := hfrozen hterminal
    obtain ⟨hstate', hfinished'⟩ := hfrozen' (hstate ▸ hterminal)
    exact ⟨hstate'.trans hstate, hfinished'.trans hfinished⟩

/-- No update reopens a run or takes it back to planned. -/
theorem RunUpdate.progress {runId : String} {run run' : AuditRunRow}
    (h : RunUpdate db runId run run') :
    (run.state.isTerminal = true → run'.state = run.state ∧ run'.finishedAt = run.finishedAt) ∧
      (run'.state = .planned → run.state = .planned) := by
  cases h with
  | kept => exact ⟨fun _ => ⟨rfl, rfl⟩, id⟩
  | started hplanned hactive =>
      exact ⟨fun hterminal => by simp [hplanned, RunState.isTerminal] at hterminal,
        fun _ => hplanned⟩
  | closed now hopen hfinished =>
      refine ⟨fun hterminal => by simp [hopen] at hterminal, fun hplanned => ?_⟩
      have hstate : closedState db runId = .planned := hplanned
      have hterminal := closedState_terminal db runId
      rw [hstate] at hterminal
      cases hterminal

/-- Statement by statement no run goes back. Only two statements write the table of runs: one
settles a state, which goes forward, the other sets the flag. -/
theorem Db.Statement.progress (h : Db.Statement db db') : Progress db db' := by
  cases h with
  | jobs hf hrun hunfinished =>
      refine ⟨?_, fun _ run hfind => ⟨run, hfind, fun _ => ⟨rfl, rfl⟩, id⟩⟩
      intro jobId job hjob
      rw [updateJobs_jobs, Table.find?_update, hjob]
      refine ⟨_, rfl, ?_⟩
      dsimp only
      split
      · exact hrun job
      · rfl
  | attempts => exact ⟨(Progress.refl db).jobs, (Progress.refl db).runs⟩
  | @settle _ runId nowMs h =>
      obtain ⟨runs, rfl, hothers⟩ := updateRunState_ok h
      refine ⟨(Progress.refl db).jobs, ?_⟩
      intro other run hrun
      by_cases hsame : other = runId
      · subst hsame
        obtain ⟨run', hrun', hupdate⟩ := updateRunState_row hrun h
        exact ⟨run', hrun', hupdate.progress⟩
      · exact ⟨run, (hothers other hsame).trans hrun, fun _ => ⟨rfl, rfl⟩, id⟩
  | flag runId =>
      refine ⟨(Progress.refl db).jobs, ?_⟩
      intro other run hrun
      obtain ⟨run', hrun', rfl | rfl⟩ := flag_row hrun
      · exact ⟨_, hrun', fun _ => ⟨rfl, rfl⟩, id⟩
      · exact ⟨_, hrun', fun _ => ⟨rfl, rfl⟩, id⟩

/-- Rewriting unfinished jobs keeps what a closed run rests on. -/
theorem RunCore.jobs {run : AuditRunRow} {jobs : List Job} (h : RunCore run jobs) {p : Job → Bool}
    {f : Job → Job} (hunfinished : ∀ job ∈ jobs, p job = true → job.state.isFinished = false) :
    RunCore run (jobs.map fun job => if p job then f job else job) := by
  have hkept : ∀ job ∈ jobs, job.state.isFinished = true →
      (if p job then f job else job) = job := by
    intro job hjob hfinished
    cases hp : p job with
    | false => rfl
    | true =>
        rw [hunfinished job hjob hp] at hfinished
        cases hfinished
  refine ⟨by simpa using h.nonempty, h.finishedAt, ?_, ?_, ?_, h.cancelled⟩
  · intro hterminal job' hjob'
    obtain ⟨job, hjob, rfl⟩ := List.mem_map.mp hjob'
    have hfinished := h.finished hterminal job hjob
    rwa [hkept job hjob hfinished]
  · intro hcomplete job' hjob'
    obtain ⟨job, hjob, rfl⟩ := List.mem_map.mp hjob'
    have hdone := h.complete hcomplete job hjob
    rwa [hkept job hjob (by rw [hdone]; rfl)]
  · intro hfailed
    obtain ⟨job, hjob, hstate⟩ := h.failed hfailed
    refine ⟨_, List.mem_map.mpr ⟨job, hjob, rfl⟩, ?_⟩
    rwa [hkept job hjob (by rw [hstate]; rfl)]

/-- The row of a run is written from its jobs, so it agrees with them afterwards. -/
theorem RunCore.update {runId : String} {run run' : AuditRunRow}
    (hrun : db.auditRuns.find? runId = some run) (h : RunCore run (db.runJobs runId))
    (hupdate : RunUpdate db runId run run') : RunCore run' (db.runJobs runId) := by
  cases hupdate with
  | kept => exact h
  | started hplanned hactive =>
      refine ⟨h.nonempty, ?_, ?_, ?_, ?_, ?_⟩
      · have hopen := h.finishedAt
        rw [hplanned] at hopen
        exact hopen
      all_goals
        intro hstate
        cases hstate
  | closed now hopen hfinished =>
      refine ⟨h.nonempty, (closedState_terminal db runId).symm, fun _ => hfinished, ?_,
        closedState_failed, ?_⟩
      · intro hcomplete job hjob
        rcases JobState.isFinished_iff.mp (hfinished job hjob) with hdone | hfailed
        · exact hdone
        · exact absurd hfailed (closedState_complete hcomplete job hjob)
      · intro hcancelled
        have hrequested := closedState_cancelled hcancelled
        rw [cancelRequested, hrun] at hrequested
        exact hrequested

/-- In the middle of a transaction a run may wait to be closed, but it is not closed too
early. -/
theorem Db.Statement.runIn (h : Db.Statement db db') {runId : String} (hin : db.RunIn runId) :
    db'.RunIn runId := by
  obtain ⟨run, hrun, hcore⟩ := hin
  cases h with
  | jobs hf hrunId hunfinished =>
      refine ⟨run, hrun, ?_⟩
      rw [runJobs_updateJobs hf hrunId]
      exact hcore.jobs fun job hjob hp => hunfinished job (mem_runJobs.mp hjob).1 hp
  | attempts => exact ⟨run, hrun, hcore⟩
  | @settle _ other nowMs h =>
      obtain ⟨runs, rfl, hothers⟩ := updateRunState_ok h
      by_cases hsame : runId = other
      · subst hsame
        obtain ⟨run', hrun', hupdate⟩ := updateRunState_row hrun h
        have hcore' : RunCore run' (db.runJobs runId) := hcore.update hrun hupdate
        exact ⟨run', hrun', hcore'⟩
      · exact ⟨run, (hothers runId hsame).trans hrun, hcore⟩
  | flag other =>
      obtain ⟨run', hrun', rfl | rfl⟩ := flag_row hrun
      · exact ⟨_, hrun', hcore⟩
      · exact ⟨_, hrun', hcore.nonempty, hcore.finishedAt, hcore.finished, hcore.complete,
          hcore.failed, fun _ => rfl⟩

theorem Db.Statements.progress (h : Db.Statements db db') : Progress db db' := by
  induction h with
  | refl => exact .refl db
  | tail _ hlast ih => exact ih.trans hlast.progress

theorem Db.Statements.runIn (h : Db.Statements db db') {runId : String} (hin : db.RunIn runId) :
    db'.RunIn runId := by
  induction h with
  | refl => exact hin
  | tail _ hlast ih => exact hlast.runIn ih

end Kept

/-! ## Closing runs -/

section Closing

variable {db db' : Db} {runId : String} {nowMs : Int}

/-- An update that leaves the jobs it reaches unfinished finishes no run. -/
theorem Db.RunClosed.jobs (h : db.RunClosed runId) {p : Job → Bool} {f : Job → Job}
    (hf : ∀ row, (f row).jobId = row.jobId) (hrun : ∀ row, (f row).runId = row.runId)
    (hunfinished : ∀ job ∈ db.runJobs runId, p job = true → (f job).state.isFinished = false) :
    (db.updateJobs p f hf).RunClosed runId := by
  intro run hfind hnonempty hfinished
  rw [runJobs_updateJobs hf hrun] at hnonempty hfinished
  refine h run hfind (by simpa using hnonempty) ?_
  intro job hjob
  have hafter := hfinished _ (List.mem_map.mpr ⟨job, hjob, rfl⟩)
  cases hp : p job with
  | false => simpa [hp] using hafter
  | true => simp [hp, hunfinished job hjob hp] at hafter

/-- Recomputing a run's state closes it if its jobs are finished. What is left unsettled has an
unfinished job, or none at all. -/
theorem runClosed_of_settle (h : updateRunState db runId nowMs = .ok db') :
    db'.RunClosed runId := by
  intro run' hrun' hnonempty hfinished
  obtain ⟨runs, rfl, _⟩ := updateRunState_ok h
  cases hrun : db.auditRuns.find? runId with
  | none =>
      rw [updateRunState_eq] at h
      simp only [closesRun, startedDb, hrun, Bool.false_eq_true, ↓reduceIte] at h
      have hruns : db.auditRuns = runs := congrArg Db.auditRuns (Except.ok.inj h)
      have hfind : runs.find? runId = some run' := hrun'
      rw [← hruns, hrun] at hfind
      cases hfind
  | some run =>
      obtain ⟨run'', hrun'', hupdate⟩ := updateRunState_row hrun h
      obtain rfl : run' = run'' := Option.some.inj (hrun'.symm.trans hrun'')
      have hnone : ¬ ∃ job ∈ db.runJobs runId, job.state.isFinished = false := by
        rintro ⟨job, hjob, hunfinished⟩
        rw [hfinished job hjob] at hunfinished
        cases hunfinished
      cases hupdate with
      | kept hopen hplanned =>
          rcases hopen with hterminal | hempty | hactive
          · exact hterminal
          · exact absurd hempty hnonempty
          · exact absurd hactive hnone
      | started hplanned hactive => exact absurd hactive hnone
      | closed now hopen hall => exact closedState_terminal db runId

/-- Recomputing any run's state reopens none. -/
theorem Db.RunClosed.settle (h : db.RunClosed runId) {other : String}
    (hsettle : updateRunState db other nowMs = .ok db') : db'.RunClosed runId := by
  by_cases hsame : other = runId
  · subst hsame
    exact runClosed_of_settle hsettle
  · obtain ⟨runs, rfl, hothers⟩ := updateRunState_ok hsettle
    intro run hfind
    exact h run ((hothers runId (Ne.symm hsame)).symm.trans hfind)

theorem Db.RunClosed.attempts (h : db.RunClosed runId) (attempts : Table AttemptRow.attemptId) :
    Db.RunClosed { db with evaluationAttempts := attempts } runId :=
  h

theorem Db.RunClosed.flag (h : db.RunClosed runId) (other : String) :
    (db.updateRun other cancelledRun cancelledRun_runId).RunClosed runId := by
  intro run' hfind hnonempty hfinished
  rw [Db.updateRun, Table.find?_update, Option.map_eq_some_iff] at hfind
  obtain ⟨run, hrun, rfl⟩ := hfind
  have hterminal := h run hrun hnonempty hfinished
  split
  · exact hterminal
  · exact hterminal

/-- Failing the pending jobs of one run finishes no other. -/
theorem Db.RunClosed.failPending (h : db.RunClosed runId) {other : String} (hne : other ≠ runId) :
    (failPending db other).RunClosed runId := by
  refine h.jobs cancelledRow_jobId (fun _ => rfl) ?_
  intro job hjob hp
  simp only [Bool.and_eq_true, decide_eq_true_eq] at hp
  exact absurd (hp.1.symm.trans (mem_runJobs.mp hjob).2) hne

/-- Failing the pending jobs of a run and recomputing its state. -/
theorem Db.RunClosed.sweep (h : db.RunClosed runId) {other : String}
    (hsettle : updateRunState (VerifierCI.failPending db other) other nowMs = .ok db') :
    db'.RunClosed runId := by
  by_cases hsame : other = runId
  · subst hsame
    exact runClosed_of_settle hsettle
  · exact (h.failPending hsame).settle hsettle

end Closing

/-! ## Operations as statements -/

section Operations

variable {db db' : Db} {runId : String} {nowMs : Int}

/-- A granted lease leaves its run with an unfinished job. -/
theorem leasedDb_runClosed (h : db.RunClosed runId) {row : Job} {workerId : String} {expires : Int}
    {draw : Draw} {attempts : Table AttemptRow.attemptId} :
    (leasedDb db row workerId expires draw attempts).RunClosed runId := by
  have hjobs := h.jobs (leasedRow_jobId row workerId expires draw) (fun _ => rfl)
    (p := fun job => job.jobId = row.jobId && job.state = .pending) fun _ _ _ => rfl
  exact hjobs.attempts attempts

/-- Every turn of the loop is a sequence of statements that ends with the update of the run it
has touched. -/
theorem claimLoop_statements {workerId : String} {only : Option String} {leaseDurationMs : Int}
    {draw : Draw} {fuel : Nat} {result : Option Job}
    (h : claimLoop workerId nowMs only leaseDurationMs draw fuel db = .ok (result, db')) :
    Db.Statements db db' ∧ (db.RunClosed runId → db'.RunClosed runId) := by
  induction fuel generalizing db with
  | zero => cases h
  | succ fuel ih =>
      rcases claimLoop_ok h with ⟨_, _, rfl⟩ | ⟨row, swept, _, _, hswept, hrest⟩ |
        ⟨row, job, _, _, _, hgrant⟩
      · exact ⟨.refl, id⟩
      · obtain ⟨hpath, hclosed⟩ := ih hrest
        refine ⟨?_, fun hbefore => hclosed (hbefore.sweep hswept)⟩
        exact .head (failPending_statement db row.runId) (.head (.settle hswept) hpath)
      · obtain ⟨_, started, attempts, _, hrun⟩ := grant_ok hgrant
        exact ⟨leasedDb_statements.tail (.settle hrun),
          fun hbefore => (leasedDb_runClosed hbefore).settle hrun⟩

/-- While the loop runs, jobs fail without their runs being closed; the runs are settled behind
it. -/
theorem reapRows_statements (runId : String) {rows : List Job} {maxAttempts : Option Int}
    {now : Datetime}
    (hnodup : (rows.map Job.jobId).Nodup)
    (hrows : ∀ row ∈ rows, db.jobs.find? row.jobId = some row ∧ row.state.isHeld = true)
    (h : rows.foldlM (reapRow maxAttempts now) db = .ok db') :
    Db.Statements db db' ∧
      ((∀ row ∈ rows, row.runId ≠ runId) → db.RunClosed runId → db'.RunClosed runId) := by
  induction rows generalizing db with
  | nil =>
      cases h
      exact ⟨.refl, fun _ => id⟩
  | cons row rest ih =>
      rw [List.foldlM_cons, bind_eq_ok] at h
      obtain ⟨middle, hfirst, hrest⟩ := h
      obtain ⟨outcome, _, rfl⟩ := reapRow_ok hfirst
      obtain ⟨hrow, hheld⟩ := hrows row List.mem_cons_self
      rw [List.map_cons, List.nodup_cons] at hnodup
      have hlater : ∀ other ∈ rest, (reapedDb db row outcome now).jobs.find? other.jobId =
          some other ∧ other.state.isHeld = true := by
        intro other hother
        obtain ⟨hfound, hotherHeld⟩ := hrows other (List.mem_cons_of_mem row hother)
        refine ⟨reapedDb_find?_of_ne ?_ hfound, hotherHeld⟩
        intro heq
        exact hnodup.1 (heq ▸ List.mem_map_of_mem hother)
      obtain ⟨hpath, hclosed⟩ := ih hnodup.2 hlater hrest
      refine ⟨(reapedDb_statements hrow hheld).trans hpath, fun hothers hbefore => ?_⟩
      refine hclosed (fun other hother => hothers other (List.mem_cons_of_mem row hother)) ?_
      -- The reaped job is of another run, so the jobs of this one stay closed.
      have hjobs := hbefore.jobs (releasedRow_jobId outcome) (fun _ => rfl)
        (p := fun job => job.jobId = row.jobId) fun job hjob hp => by
          obtain ⟨hmem, hrunId⟩ := mem_runJobs.mp hjob
          have hsame : job = row := Table.eq_of_key_eq hmem (Table.mem_of_find? hrow)
            (of_decide_eq_true hp)
          exact absurd (hsame ▸ hrunId) (hothers row List.mem_cons_self)
      exact hjobs.attempts _

/-- The final loop of a reap closes every run it visits. -/
theorem settleRuns_runClosed {runIds : List String}
    (h : runIds.foldlM (fun db runId => updateRunState db runId nowMs) db = .ok db')
    (hbefore : db.RunClosed runId ∨ runId ∈ runIds) : db'.RunClosed runId := by
  induction runIds generalizing db with
  | nil =>
      cases h
      exact hbefore.resolve_right List.not_mem_nil
  | cons first rest ih =>
      rw [List.foldlM_cons, bind_eq_ok] at h
      obtain ⟨middle, hfirst, hrest⟩ := h
      apply ih hrest
      rcases hbefore with hclosed | hmem
      · exact Or.inl (hclosed.settle hfirst)
      · rcases List.mem_cons.mp hmem with rfl | hlater
        · exact Or.inl (runClosed_of_settle hfirst)
        · exact Or.inr hlater

theorem settleRuns_statements {runIds : List String}
    (h : runIds.foldlM (fun db runId => updateRunState db runId nowMs) db = .ok db') :
    Db.Statements db db' := by
  induction runIds generalizing db with
  | nil =>
      cases h
      exact .refl
  | cons first rest ih =>
      rw [List.foldlM_cons, bind_eq_ok] at h
      obtain ⟨middle, hfirst, hrest⟩ := h
      exact .head (.settle hfirst) (ih hrest)

def Db.HandleOfRun (db : Db) (handle : Job) : Prop :=
  ∃ row, db.jobs.find? handle.jobId = some row ∧ row.runId = handle.runId

/-- The last commit of a run closes it, as the update behind it counts the jobs. -/
theorem committed_runClosed {job row : Job} {attempt : EvaluationAttempt} {stored : AttemptRow}
    {finishedAt : Datetime} (hguard : CommitGuard db job attempt nowMs row stored)
    (hhandle : db.HandleOfRun job) (hbefore : db.RunClosed runId)
    (hrun : updateRunState (committedDb db job attempt finishedAt) job.runId nowMs = .ok db') :
    db'.RunClosed runId := by
  obtain ⟨row', hrow', hrunId⟩ := hhandle
  obtain rfl : row = row' := Option.some.inj (hguard.row_eq.symm.trans hrow')
  by_cases hsame : job.runId = runId
  · subst hsame
    exact runClosed_of_settle hrun
  · have hjobs := hbefore.jobs (finishedRow_jobId attempt) (fun _ => rfl)
      (p := fun other => other.jobId = job.jobId) fun other hother hp => by
        obtain ⟨hmem, hotherRun⟩ := mem_runJobs.mp hother
        have hfound : other = row := Table.eq_of_key_eq hmem (Table.mem_of_find? hrow')
          ((of_decide_eq_true hp).trans (Table.key_of_find? hrow').symm)
        exact absurd (hrunId.symm.trans (hfound ▸ hotherRun)) hsame
    have hcommitted : (committedDb db job attempt finishedAt).RunClosed runId := hjobs.attempts _
    exact hcommitted.settle hrun

/-- Every call is a sequence of statements, and closes each run it finishes,
provided a completion names the run of its job. -/
theorem call_statements (db : Db) (op : Operation) (runId : String) :
    Db.Statements db (db.call op) ∧
      ((∀ job attempt nowMs, op = .complete job attempt nowMs → db.HandleOfRun job) →
        db.RunClosed runId → (db.call op).RunClosed runId) := by
  cases op with
  | claim workerId nowMs only leaseDurationMs draw =>
      rcases claim_cases db workerId nowMs only leaseDurationMs draw with
        ⟨result, db', hloop, heq⟩ | ⟨exc, heq⟩
      · rw [Db.call, heq]
        obtain ⟨hpath, hclosed⟩ := claimLoop_statements hloop
        exact ⟨hpath, fun _ => hclosed⟩
      · rw [Db.call, heq]
        exact ⟨.refl, fun _ => id⟩
  | markRunning job nowMs =>
      rcases markRunning_cases db job nowMs with ⟨row, hrow, hlive, heq⟩ | ⟨exc, _, heq⟩
      · rw [Db.call, heq]
        refine ⟨runningDb_statements hrow hlive.held, fun _ hbefore => ?_⟩
        unfold runningDb
        split
        · exact hbefore.jobs _ (fun _ => rfl) fun _ _ _ => rfl
        · exact hbefore
      · rw [Db.call, heq]
        exact ⟨.refl, fun _ => id⟩
  | heartbeat job nowMs extensionMs =>
      rcases heartbeat_cases db job nowMs extensionMs with
        ⟨row, hrow, hlive, heq⟩ | ⟨row, _, _, heq⟩ | ⟨exc, _, heq⟩
      · rw [Db.call, heq]
        refine ⟨extendedDb_statements hrow hlive.held, fun _ hbefore => ?_⟩
        exact hbefore.jobs _ (fun _ => rfl) fun other hother hp =>
          unfinished_of_find? hrow (unfinished_of_held hlive.held) other
            (mem_runJobs.mp hother).1 hp
      · rw [Db.call, heq]
        exact ⟨.refl, fun _ => id⟩
      · rw [Db.call, heq]
        exact ⟨.refl, fun _ => id⟩
  | complete job attempt nowMs =>
      rcases complete_spec db job attempt nowMs with
        ⟨_, now, _, heq⟩ | ⟨hcommits, finishedAt, db', _, hrun, heq⟩ | ⟨result, heq, _⟩
      · rw [Db.call, heq]
        exact ⟨.single (.attempts _), fun _ hbefore => hbefore.attempts _⟩
      · rw [Db.call, heq]
        obtain ⟨row, stored, hguard⟩ := commits_iff.mp hcommits
        refine ⟨(committedDb_statements hguard).tail (.settle hrun), fun hhandle hbefore => ?_⟩
        exact committed_runClosed hguard (hhandle job attempt nowMs rfl) hbefore hrun
      · rw [Db.call, heq]
        exact ⟨.refl, fun _ => id⟩
  | reapExpired nowMs maxAttempts =>
      rcases reapExpired_cases db nowMs maxAttempts with
        ⟨now, released, db', hreleased, hsettled, heq⟩ | ⟨exc, heq⟩
      · rw [Db.call, heq]
        have hrows : ∀ row ∈ expiredRows db nowMs,
            db.jobs.find? row.jobId = some row ∧ row.state.isHeld = true := by
          intro row hrow
          obtain ⟨hmem, hheld, _, _⟩ := mem_expiredRows.mp hrow
          exact ⟨Table.find?_of_mem hmem, hheld⟩
        obtain ⟨hpath, hclosed⟩ :=
          reapRows_statements runId (expiredRows_nodup db nowMs) hrows hreleased
        refine ⟨hpath.trans (settleRuns_statements hsettled), fun _ hbefore => ?_⟩
        apply settleRuns_runClosed hsettled
        -- A run with an expired row is settled at the end; any other keeps its jobs.
        by_cases hreached : runId ∈ (expiredRows db nowMs).map Job.runId
        · exact Or.inr (List.mem_dedup.mpr hreached)
        · refine Or.inl (hclosed ?_ hbefore)
          intro row hrow hsame
          exact hreached (hsame ▸ List.mem_map_of_mem hrow)
      · rw [Db.call, heq]
        exact ⟨.refl, fun _ => id⟩
  | requestCancel cancelled nowMs =>
      rcases requestCancel_cases db cancelled nowMs with ⟨db', hsettled, heq⟩ | ⟨exc, heq⟩
      · rw [Db.call, heq]
        refine ⟨.head (.flag cancelled) (.head (failPending_statement _ cancelled)
          (.single (.settle hsettled))), fun _ hbefore => ?_⟩
        exact (hbefore.flag cancelled).sweep hsettled
      · rw [Db.call, heq]
        exact ⟨.refl, fun _ => id⟩
  | getJob jobId => exact ⟨.refl, fun _ => id⟩

/-- A run with a granted lease is no longer planned. The claim settles the run right after it
has leased the row, and then one of its jobs is active. -/
theorem grant_not_planned {row job : Job} {workerId : String} {leaseDurationMs : Int} {draw : Draw}
    (hrow : db.jobs.find? row.jobId = some row)
    (h : grant db row workerId nowMs leaseDurationMs draw = .ok (job, db')) :
    db'.HandleOfRun job ∧
      ∀ run, db'.auditRuns.find? job.runId = some run → run.state ≠ .planned := by
  obtain ⟨rfl, started, attempts, _, hrun⟩ := grant_ok h
  obtain ⟨leased, hleased, hleasedRun⟩ : ∃ leased, (leasedDb db row workerId
      (nowMs + leaseDurationMs) draw attempts).jobs.find? row.jobId = some leased ∧
      leased.runId = row.runId := by
    rw [leasedDb, updateJobs_jobs, Table.find?_update, hrow]
    refine ⟨_, rfl, ?_⟩
    dsimp only
    split <;> rfl
  obtain ⟨runs, rfl, _⟩ := updateRunState_ok hrun
  refine ⟨⟨leased, hleased, hleasedRun⟩, ?_⟩
  intro run' hrun' hplanned
  have hprogress := (Db.Statement.settle hrun).progress.runs row.runId
  cases hbefore : (leasedDb db row workerId (nowMs + leaseDurationMs) draw
      attempts).auditRuns.find? row.runId with
  | none =>
      rw [updateRunState_eq] at hrun
      simp only [closesRun, startedDb, hbefore, Bool.false_eq_true, ↓reduceIte] at hrun
      have hruns := congrArg Db.auditRuns (Except.ok.inj hrun)
      have hfind : runs.find? row.runId = some run' := hrun'
      rw [← show _ = runs from hruns, hbefore] at hfind
      cases hfind
  | some run =>
      obtain ⟨run'', hrun'', hupdate⟩ := updateRunState_row hbefore hrun
      obtain rfl : run' = run'' := Option.some.inj (hrun'.symm.trans hrun'')
      -- The leased row is a job of the run, so the update cannot leave it planned.
      cases hupdate with
      | kept _ hnot =>
          rcases hnot with hnot | hempty
          · exact hnot hplanned
          · have hmem := mem_runJobs.mpr ⟨Table.mem_of_find? hleased, hleasedRun⟩
            rw [hempty] at hmem
            cases hmem
      | started => cases hplanned
      | closed =>
          have hstate : closedState (leasedDb db row workerId (nowMs + leaseDurationMs) draw
              attempts) row.runId = .planned := hplanned
          have hterminal := closedState_terminal
            (leasedDb db row workerId (nowMs + leaseDurationMs) draw attempts) row.runId
          rw [hstate] at hterminal
          cases hterminal

theorem claimLoop_not_planned {workerId : String} {only : Option String} {leaseDurationMs : Int}
    {draw : Draw} {fuel : Nat} {job : Job}
    (h : claimLoop workerId nowMs only leaseDurationMs draw fuel db = .ok (some job, db')) :
    db'.HandleOfRun job ∧
      ∀ run, db'.auditRuns.find? job.runId = some run → run.state ≠ .planned := by
  induction fuel generalizing db with
  | zero => cases h
  | succ fuel ih =>
      rcases claimLoop_ok h with ⟨_, hnone, _⟩ | ⟨row, swept, _, _, _, hrest⟩ |
        ⟨row, granted, hnext, _, hsome, hgrant⟩
      · cases hnone
      · exact ih hrest
      · obtain rfl := Option.some.inj hsome
        exact grant_not_planned (nextPending_some hnext).1 hgrant

end Operations

/-! ## Every session -/

/-- Callers use handles the queue has given them. -/
def Session.Holder (s : Session) (op : Operation) : Prop :=
  ∀ handle, op.handle? = some handle → handle ∈ s.handles

/-- The life cycle of one run, with the leases granted so far. -/
structure RunLifecycle (run : AuditRunRow) (jobs : List Job) (granted : List Job) : Prop where
  closed_iff : (run.state = .complete ∨ run.state = .cancelled ∨ run.state = .failed) ↔
    ∀ job ∈ jobs, job.state = .done ∨ job.state = .failed
  finishedAt_iff : run.finishedAt.isSome = true ↔
    (run.state = .complete ∨ run.state = .cancelled ∨ run.state = .failed)
  complete : run.state = .complete → ∀ job ∈ jobs, job.state = .done
  failed : run.state = .failed → ∃ job ∈ jobs, job.state = .failed
  cancelled : run.state = .cancelled → run.cancelRequested = true
  planned : run.state = .planned → ∀ lease ∈ granted, lease.runId ≠ run.runId

theorem RunState.isTerminal_iff {state : RunState} :
    state.isTerminal = true ↔ state = .complete ∨ state = .cancelled ∨ state = .failed := by
  cases state <;> decide

/-- What holds of a run in every session. -/
structure Session.RunInv (runId : String) (s : Session) : Prop where
  core : s.db.RunIn runId
  closed : s.db.RunClosed runId
  handles : ∀ handle ∈ s.handles, s.db.HandleOfRun handle
  planned : ∀ run, s.db.auditRuns.find? runId = some run → run.state = .planned →
    ∀ lease ∈ s.granted, lease.runId ≠ runId

theorem Progress.handleOfRun {db db' : Db} (h : Progress db db') {handle : Job}
    (hhandle : db.HandleOfRun handle) : db'.HandleOfRun handle := by
  obtain ⟨row, hrow, hrun⟩ := hhandle
  obtain ⟨row', hrow', hsame⟩ := h.jobs _ row hrow
  exact ⟨row', hrow', hsame.trans hrun⟩

/-- A call adds to the leases granted and leaves the run consistent between its statements. What
is new among the handles comes from the rows or the leases the call has just read or granted. -/
theorem Session.RunInv.call {runId : String} {s : Session} (h : s.RunInv runId) {op : Operation}
    (hholder : s.Holder op) : (s.call op).RunInv runId := by
  obtain ⟨hpath, hclosed⟩ := call_statements s.db op runId
  have hprogress := hpath.progress
  have hkept : ∀ handle ∈ s.handles, (s.db.call op).HandleOfRun handle :=
    fun handle hhandle => hprogress.handleOfRun (h.handles handle hhandle)
  refine ⟨hpath.runIn h.core, ?_, ?_, ?_⟩
  · refine hclosed ?_ h.closed
    rintro job attempt nowMs rfl
    exact h.handles job (hholder job rfl)
  · intro handle hhandle
    rcases List.mem_append.mp hhandle with hnew | hold
    -- A new handle is a granted lease, a handle that was used again, or a row just read.
    · rcases handle?_cases (Option.mem_toList.mp hnew) with
        hgranted | ⟨used, hused, hid, hrun, _, _⟩ | ⟨jobId, rfl, hfound⟩
      · obtain ⟨_, _, _, _, _, db', _, hloop, heq⟩ := granted?_cases hgranted
        have howned := (claimLoop_not_planned hloop).1
        rwa [← heq] at howned
      · obtain ⟨row, hrow, hrowRun⟩ := hkept used (hholder used hused)
        exact ⟨row, hid ▸ hrow, hrowRun.trans hrun.symm⟩
      · have hid := Table.key_of_find? hfound
        exact ⟨handle, by rw [hid]; exact hfound, rfl⟩
    · exact hkept handle hold
  · intro run' hrun' hplanned lease hlease
    obtain ⟨run, hrun, _⟩ := h.core
    obtain ⟨run'', hrun'', _, hbefore⟩ := hprogress.runs runId run hrun
    obtain rfl : run' = run'' := Option.some.inj (hrun'.symm.trans hrun'')
    rcases List.mem_append.mp hlease with hnew | hold
    · obtain ⟨_, _, _, _, _, db', _, hloop, heq⟩ := granted?_cases (Option.mem_toList.mp hnew)
      have hstarted := (claimLoop_not_planned hloop).2
      rw [← heq] at hstarted
      rintro rfl
      exact hstarted run' hrun' hplanned
    · exact h.planned run hrun (hbefore hplanned) lease hold

/-- The four parts of the life cycle are read off the invariant. -/
theorem Session.RunInv.lifecycle {runId : String} {s : Session} (h : s.RunInv runId) :
    ∃ run, s.db.auditRuns.find? runId = some run ∧
      RunLifecycle run (s.db.runJobs runId) s.granted := by
  obtain ⟨run, hrun, hcore⟩ := h.core
  have hid : run.runId = runId := Table.key_of_find? hrun
  refine ⟨run, hrun, ?_, ?_, hcore.complete, hcore.failed, hcore.cancelled, ?_⟩
  · rw [← RunState.isTerminal_iff]
    simp only [← JobState.isFinished_iff]
    exact ⟨hcore.finished, h.closed run hrun hcore.nonempty⟩
  · rw [hcore.finishedAt, RunState.isTerminal_iff]
  · rw [hid]
    exact h.planned run hrun

/-- A run that has not begun: open, without a finish time, and with all its
jobs pending. -/
structure NotBegun (db : Db) (run : AuditRunRow) : Prop where
  stored : db.auditRuns.find? run.runId = some run
  opened : run.state = .planned ∨ run.state = .running
  unfinished : run.finishedAt = none
  nonempty : db.runJobs run.runId ≠ []
  pending : ∀ job ∈ db.runJobs run.runId, job.state = .pending

/-- A run that has not begun has only pending jobs and no finish time. -/
theorem NotBegun.runInv {db : Db} {run : AuditRunRow} (h : NotBegun db run) :
    (Session.start db).RunInv run.runId := by
  have hopen : run.state.isTerminal = false := by
    rcases h.opened with hstate | hstate <;> rw [hstate] <;> rfl
  refine ⟨⟨run, h.stored, h.nonempty, ?_, ?_, ?_, ?_, ?_⟩, ?_, by simp [Session.start],
    by simp [Session.start]⟩
  · rw [h.unfinished, hopen]
    rfl
  · intro hterminal
    rw [hopen] at hterminal
    cases hterminal
  · intro hstate
    simp [hstate, RunState.isTerminal] at hopen
  · intro hstate
    simp [hstate, RunState.isTerminal] at hopen
  · intro hstate
    simp [hstate, RunState.isTerminal] at hopen
  · intro _ _ hnonempty hfinished
    obtain ⟨job, hjob⟩ := List.exists_mem_of_ne_nil _ hnonempty
    have hjobFinished := hfinished job hjob
    have hpending : job.state = .pending := h.pending job hjob
    rw [hpending] at hjobFinished
    cases hjobFinished

theorem Session.run_progress (s : Session) (ops : List Operation) :
    Progress s.db (run Session.call s ops).db := by
  induction ops generalizing s with
  | nil => exact .refl s.db
  | cons op rest ih => exact (call_statements s.db op "").1.progress.trans (ih (s.call op))

/-- In every session in which callers use the handles they were given, a run
is closed exactly when its jobs are finished, in the state they call for, and
then for good. -/
theorem run_lifecycle {db : Db} {run : AuditRunRow} (hbegin : NotBegun db run)
    {first later : List Operation}
    (hholders : Admits Session.call Session.Holder (.start db) (first ++ later)) :
    ∃ run', (Transition.run Session.call (.start db) first).db.auditRuns.find? run.runId =
        some run' ∧
      RunLifecycle run' ((Transition.run Session.call (.start db) first).db.runJobs run.runId)
        (Transition.run Session.call (.start db) first).granted ∧
      ((run'.state = .complete ∨ run'.state = .cancelled ∨ run'.state = .failed) →
        ∃ run'', (Transition.run Session.call (.start db) (first ++ later)).db.auditRuns.find?
            run.runId = some run'' ∧
          run''.state = run'.state ∧ run''.finishedAt = run'.finishedAt) := by
  obtain ⟨hfirst, _⟩ := hholders.append
  have hinv : (Transition.run Session.call (.start db) first).RunInv run.runId :=
    hfirst.invariant (Session.RunInv run.runId) (fun _ _ h hholder => h.call hholder) hbegin.runInv
  obtain ⟨run', hrun', hlifecycle⟩ := hinv.lifecycle
  refine ⟨run', hrun', hlifecycle, fun hclosed => ?_⟩
  rw [Transition.run_append]
  have hlater := Session.run_progress (Transition.run Session.call (.start db) first) later
  obtain ⟨run'', hrun'', hfrozen, _⟩ := hlater.runs run.runId run' hrun'
  exact ⟨run'', hrun'', hfrozen (RunState.isTerminal_iff.mpr hclosed)⟩

theorem soloDb_notBegun : NotBegun soloDb plannedRun where
  stored := by rfl
  opened := Or.inl rfl
  unfinished := rfl
  nonempty := by decide
  pending := by decide

theorem soloCommit_holders :
    Admits Session.call Session.Holder (.start soloDb)
      (soloCommit ++ [.reapExpired 90000 none]) := by
  refine ⟨?_, ?_, ?_, trivial⟩
  · rintro handle ⟨⟩
  · rintro handle ⟨⟩
    decide
  · rintro handle ⟨⟩

/-- The one job is committed, which closes its run; a reap behind it changes nothing. -/
theorem run_lifecycle_solo :
    ∃ run', (Transition.run Session.call (.start soloDb) soloCommit).db.auditRuns.find? "run" =
        some run' ∧
      RunLifecycle run' ((Transition.run Session.call (.start soloDb) soloCommit).db.runJobs "run")
        (Transition.run Session.call (.start soloDb) soloCommit).granted ∧
      ((run'.state = .complete ∨ run'.state = .cancelled ∨ run'.state = .failed) →
        ∃ run'', (Transition.run Session.call (.start soloDb)
            (soloCommit ++ [.reapExpired 90000 none])).db.auditRuns.find? "run" = some run'' ∧
          run''.state = run'.state ∧ run''.finishedAt = run'.finishedAt) :=
  run_lifecycle soloDb_notBegun soloCommit_holders

end VerifierCI
