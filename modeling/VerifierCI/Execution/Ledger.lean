import VerifierCI.Execution.Jobs

/-! # The lease ledger of one job

The abstract view of the queue: a job together with the evaluation attempts
recorded for it. A job is granted, held, released and finished on its own; no
transition of one ledger mentions another. `Quiet` transitions never select an
attempt, `Commit` selects the current one.
-/

namespace VerifierCI

open Python Relational

/-- A job and its attempt rows, oldest first. -/
structure Ledger where
  job : Job
  attempts : List AttemptRow

def rewriteRows (p : AttemptRow → Bool) (f : AttemptRow → AttemptRow) (rows : List AttemptRow) :
    List AttemptRow :=
  rows.map fun row => if p row then f row else row

section RewriteRows

variable {p : AttemptRow → Bool} {f : AttemptRow → AttemptRow} {rows : List AttemptRow}

theorem mem_rewriteRows {row : AttemptRow} :
    row ∈ rewriteRows p f rows ↔ ∃ old ∈ rows, row = if p old then f old else old := by
  simp only [rewriteRows, List.mem_map]
  exact ⟨fun ⟨old, hold, heq⟩ => ⟨old, hold, heq.symm⟩,
    fun ⟨old, hold, heq⟩ => ⟨old, hold, heq.symm⟩⟩

/-- A row after the rewrite is a rewritten row that met the condition, or an
old row that did not. -/
theorem of_mem_rewriteRows {row : AttemptRow} (hrow : row ∈ rewriteRows p f rows) :
    (∃ old ∈ rows, p old = true ∧ row = f old) ∨ (row ∈ rows ∧ p row = false) := by
  obtain ⟨old, hold, rfl⟩ := mem_rewriteRows.mp hrow
  split
  next hp => exact Or.inl ⟨old, hold, hp, rfl⟩
  next hp => exact Or.inr ⟨hold, by simpa using hp⟩

@[simp] theorem length_rewriteRows : (rewriteRows p f rows).length = rows.length := by
  simp [rewriteRows]

/-- A column the assignment keeps is the same column after the rewrite. -/
theorem map_rewriteRows {α : Type} (column : AttemptRow → α)
    (hcolumn : ∀ row, column (f row) = column row) :
    (rewriteRows p f rows).map column = rows.map column := by
  rw [rewriteRows, List.map_map]
  apply List.map_congr_left
  intro row _
  simp only [Function.comp_apply]
  split
  · exact hcolumn row
  · rfl

theorem rewriteRows_eq_self (hnone : ∀ row ∈ rows, p row = false) :
    rewriteRows p f rows = rows := by
  conv_rhs => rw [← List.map_id rows]
  apply List.map_congr_left
  intro row hrow
  simp [hnone row hrow]

end RewriteRows

/-! ## The identity of an attempt row -/

/-- The columns no statement of the queue ever changes. -/
structure SameIdentity (row row' : AttemptRow) : Prop where
  attemptId : row'.attemptId = row.attemptId
  jobId : row'.jobId = row.jobId
  fence : row'.fence = row.fence
  startedAt : row'.startedAt = row.startedAt

theorem SameIdentity.refl (row : AttemptRow) : SameIdentity row row :=
  ⟨rfl, rfl, rfl, rfl⟩

theorem SameIdentity.trans {row row' row'' : AttemptRow} (first : SameIdentity row row')
    (second : SameIdentity row' row'') : SameIdentity row row'' :=
  ⟨second.attemptId.trans first.attemptId, second.jobId.trans first.jobId,
    second.fence.trans first.fence, second.startedAt.trans first.startedAt⟩

/-- The planned identity of a job: no statement of the queue writes it. -/
structure SamePlan (job job' : Job) : Prop where
  jobId : job'.jobId = job.jobId
  runId : job'.runId = job.runId
  taskKey : job'.taskKey = job.taskKey
  caseId : job'.caseId = job.caseId
  verifierKey : job'.verifierKey = job.verifierKey
  repetition : job'.repetition = job.repetition

theorem SamePlan.refl (job : Job) : SamePlan job job :=
  ⟨rfl, rfl, rfl, rfl, rfl, rfl⟩

theorem SamePlan.trans {job job' job'' : Job} (first : SamePlan job job')
    (second : SamePlan job' job'') : SamePlan job job'' :=
  ⟨second.jobId.trans first.jobId, second.runId.trans first.runId,
    second.taskKey.trans first.taskKey, second.caseId.trans first.caseId,
    second.verifierKey.trans first.verifierKey, second.repetition.trans first.repetition⟩

/-- The row is worthless as a grading decision. -/
structure Discarded (row : AttemptRow) : Prop where
  evaluationValidity : row.evaluationValidity = .invalid
  not_accept : row.outcome ≠ some .accept
  not_reject : row.outcome ≠ some .reject

theorem quarantine_sameIdentity (db : Db) (attempt : EvaluationAttempt) (now : Datetime)
    (row : AttemptRow) : SameIdentity row (quarantine db attempt now row) :=
  ⟨rfl, rfl, rfl, rfl⟩

theorem quarantine_discarded (db : Db) (attempt : EvaluationAttempt) (now : Datetime)
    (row : AttemptRow) : Discarded (quarantine db attempt now row) := by
  refine ⟨rfl, ?_, ?_⟩
  all_goals
    simp only [quarantine]
    split <;> simp

theorem abandonedRow_sameIdentity (now : Datetime) (row : AttemptRow) :
    SameIdentity row (abandonedRow now row) :=
  ⟨rfl, rfl, rfl, rfl⟩

theorem abandonedRow_discarded (now : Datetime) (row : AttemptRow) :
    Discarded (abandonedRow now row) :=
  ⟨rfl, by simp [abandonedRow], by simp [abandonedRow]⟩

theorem terminalOf_state (attempt : EvaluationAttempt) :
    (terminalOf attempt).1 = if attempt.outcome = some .error then .failed else .done := by
  unfold terminalOf
  split <;> rfl

theorem terminalOf_finished (attempt : EvaluationAttempt) :
    (terminalOf attempt).1.isFinished = true := by
  rw [terminalOf_state]
  split <;> rfl

theorem committedRow_sameIdentity (attempt : EvaluationAttempt) (now : Datetime)
    (row : AttemptRow) : SameIdentity row (committedRow attempt now row) :=
  ⟨rfl, rfl, rfl, rfl⟩

/-- Abandoning a row that meets its constraints keeps them. -/
theorem AttemptRow.Check.abandonedRow {row : AttemptRow} (h : row.Check) (now : Datetime) :
    (abandonedRow now row).Check where
  fence := h.fence
  testsPassed := h.testsPassed
  testsFailed := h.testsFailed
  testCollection := h.testCollection
  resources := h.resources
  artifactDigests := h.artifactDigests
  status := Or.inr (Or.inr ⟨rfl, Or.inr ⟨rfl, Or.inl rfl⟩⟩)

theorem activeAttempt_check (jobId : String) {fence : Int} (hfence : 0 < fence) (draw : Draw)
    (now : Datetime) : (activeAttempt jobId fence draw now).Check where
  fence := hfence
  testsPassed := by simp [activeAttempt]
  testsFailed := by simp [activeAttempt]
  testCollection := rfl
  resources := rfl
  artifactDigests := rfl
  status := Or.inl ⟨rfl, rfl, rfl⟩

/-! ## Transitions -/

namespace Ledger

/-- The transitions that do not select an attempt. -/
inductive Quiet : Ledger → Ledger → Prop
  | grant {l : Ledger} (workerId : String) (expires : Int) (draw : Draw) (now : Datetime)
      (hpending : l.job.state = .pending)
      (hfresh : ∀ row ∈ l.attempts, row.attemptId ≠ draw.attemptId) :
      Quiet l ⟨leasedRow l.job workerId expires draw l.job,
        l.attempts ++ [activeAttempt l.job.jobId (l.job.fence + 1) draw now]⟩
  | cancel {l : Ledger} (hpending : l.job.state = .pending) :
      Quiet l ⟨cancelledRow l.job, l.attempts⟩
  | start {l : Ledger} (hclaimed : l.job.state = .claimed) :
      Quiet l ⟨runningRow l.job, l.attempts⟩
  | extend {l : Ledger} (expires : Int) (hheld : l.job.state.isHeld = true) :
      Quiet l ⟨extendedRow expires l.job, l.attempts⟩
  | quarantine {l : Ledger} (p : AttemptRow → Bool) (f : AttemptRow → AttemptRow)
      (hopen : ∀ row, p row = true → row.isOpen = true)
      (hidentity : ∀ row, SameIdentity row (f row))
      (hstale : ∀ row, (f row).disposition = .stale ∧ Discarded (f row))
      (hcheck : ∀ row ∈ l.attempts, p row = true → (f row).Check) :
      Quiet l ⟨l.job, rewriteRows p f l.attempts⟩
  | reap {l : Ledger} (outcome : JobState × Option String) (now : Datetime)
      (hheld : l.job.state.isHeld = true)
      (houtcome : outcome.1 = .pending ∨ outcome.1 = .failed) :
      Quiet l ⟨releasedRow outcome l.job,
        rewriteRows (fun row => l.job.attemptId = some row.attemptId && row.disposition = .active)
          (abandonedRow now) l.attempts⟩

/-- Selecting the current attempt of a held job. -/
inductive Commit (attempt : EvaluationAttempt) : Ledger → Ledger → Prop
  | commit {l : Ledger} (finishedAt : Datetime) (hheld : l.job.state.isHeld = true)
      (hcurrent : l.job.attemptId = some attempt.attemptId)
      (hcheck : ∀ row ∈ l.attempts, row.attemptId = attempt.attemptId →
        (committedRow attempt finishedAt row).Check) :
      Commit attempt l ⟨finishedRow attempt l.job,
        rewriteRows (fun row => row.attemptId = attempt.attemptId)
          (committedRow attempt finishedAt) l.attempts⟩

/-- One transition of a ledger. -/
def Step (l l' : Ledger) : Prop :=
  Quiet l l' ∨ ∃ attempt, Commit attempt l l'

/-! ## The ledger invariant -/

/-- The rows belong to one job and are numbered from one in the order of their
claims, up to the job's current fence. -/
structure Numbered (jobId : String) (fence : Int) (rows : List AttemptRow) : Prop where
  ids : (rows.map AttemptRow.attemptId).Nodup
  ids_ne : ∀ row ∈ rows, row.attemptId ≠ ""
  own : ∀ row ∈ rows, row.jobId = jobId
  length : fence = rows.length
  fences : rows.map AttemptRow.fence = (List.range rows.length).map fun n : Nat => (n : Int) + 1

/-- What every reachable ledger satisfies: the rows are numbered, the lease
columns agree with the state, and the dispositions with the job. -/
structure Inv (l : Ledger) : Prop where
  numbered : Numbered l.job.jobId l.job.fence l.attempts
  checks : ∀ row ∈ l.attempts, row.Check
  not_abandoned : l.job.state ≠ .abandoned
  held : l.job.state.isHeld = true → l.job.leaseToken.isSome = true ∧
    l.job.workerId.isSome = true ∧ l.job.leaseExpiresMs.isSome = true ∧
    ∃ row ∈ l.attempts, l.job.attemptId = some row.attemptId ∧ row.fence = l.job.fence ∧
      (row.disposition = .active ∨ row.disposition = .stale)
  released : l.job.state.isHeld = false →
    l.job.leaseToken = none ∧ l.job.workerId = none ∧ l.job.leaseExpiresMs = none
  active : ∀ row ∈ l.attempts, row.disposition = .active →
    row.evaluationValidity = .pending ∧ row.outcome = none ∧
      l.job.state.isHeld = true ∧ l.job.attemptId = some row.attemptId
  discarded : ∀ row ∈ l.attempts, row.disposition = .stale ∨ row.disposition = .abandoned →
    Discarded row
  selection : ∀ a, l.job.selectedAttemptId = some a → l.job.state.isFinished = true ∧
    ∃ row ∈ l.attempts, row.attemptId = a ∧ row.disposition = .authoritative ∧
      row.fence = l.job.fence
  authority : ∀ row ∈ l.attempts, row.disposition = .authoritative →
    l.job.selectedAttemptId = some row.attemptId ∧
      l.job.state = (if row.outcome = some .error then .failed else .done)

/-- A pending job that was never claimed. -/
structure Fresh (job : Job) : Prop where
  state : job.state = .pending
  fence : job.fence = 0
  leaseToken : job.leaseToken = none
  workerId : job.workerId = none
  leaseExpiresMs : job.leaseExpiresMs = none
  selectedAttemptId : job.selectedAttemptId = none

theorem Inv.of_fresh {job : Job} (h : Fresh job) : Inv ⟨job, []⟩ where
  numbered := ⟨List.nodup_nil, by simp, by simp, by simp [h.fence], rfl⟩
  checks := by simp
  not_abandoned := by simp [h.state]
  held := by simp [h.state, JobState.isHeld]
  released := fun _ => ⟨h.leaseToken, h.workerId, h.leaseExpiresMs⟩
  active := by simp
  discarded := by simp
  selection := by simp [h.selectedAttemptId]
  authority := by simp

/-- Rewriting rows keeps their numbers, since no statement touches job, fence or id. -/
theorem Numbered.rewrite {jobId : String} {fence : Int} {rows : List AttemptRow}
    (h : Numbered jobId fence rows) {p : AttemptRow → Bool} {f : AttemptRow → AttemptRow}
    (hf : ∀ row, SameIdentity row (f row)) : Numbered jobId fence (rewriteRows p f rows) := by
  have hids : (rewriteRows p f rows).map AttemptRow.attemptId = rows.map AttemptRow.attemptId :=
    map_rewriteRows AttemptRow.attemptId fun row => (hf row).attemptId
  have hfences : (rewriteRows p f rows).map AttemptRow.fence = rows.map AttemptRow.fence :=
    map_rewriteRows AttemptRow.fence fun row => (hf row).fence
  refine ⟨hids ▸ h.ids, ?_, ?_, by simpa using h.length, by simpa [hfences] using h.fences⟩
  · intro row hrow
    rcases of_mem_rewriteRows hrow with ⟨old, hold, _, rfl⟩ | ⟨hold, _⟩
    · exact (hf old).attemptId ▸ h.ids_ne old hold
    · exact h.ids_ne row hold
  · intro row hrow
    rcases of_mem_rewriteRows hrow with ⟨old, hold, _, rfl⟩ | ⟨hold, _⟩
    · exact (hf old).jobId.trans (h.own old hold)
    · exact h.own row hold

/-- The attempt of a claim takes the next number; its id is new, as the insertion went
through. -/
theorem Numbered.append {jobId : String} {fence : Int} {rows : List AttemptRow}
    (h : Numbered jobId fence rows) {draw : Draw} (now : Datetime)
    (hfresh : ∀ row ∈ rows, row.attemptId ≠ draw.attemptId) :
    Numbered jobId (fence + 1) (rows ++ [activeAttempt jobId (fence + 1) draw now]) where
  ids := by
    rw [List.map_append, List.nodup_append]
    refine ⟨h.ids, by simp, ?_⟩
    intro a ha b hb
    obtain ⟨row, hrow, rfl⟩ := List.mem_map.mp ha
    have hb' : b = draw.attemptId := by simpa [activeAttempt] using hb
    exact hb' ▸ hfresh row hrow
  ids_ne := by
    intro row hrow
    rcases List.mem_append.mp hrow with hrow | hrow
    · exact h.ids_ne row hrow
    · rw [List.mem_singleton.mp hrow]
      exact draw.attemptId_ne
  own := by
    intro row hrow
    rcases List.mem_append.mp hrow with hrow | hrow
    · exact h.own row hrow
    · rw [List.mem_singleton.mp hrow]
      rfl
  length := by simp [h.length]
  fences := by
    simp only [List.map_append, h.fences, List.length_append, List.length_singleton,
      List.range_succ, List.map_cons, List.map_nil]
    rw [h.length]
    rfl

/-- Two rows of a numbered list with one attempt id are the same row. -/
theorem Numbered.eq_of_id {jobId : String} {fence : Int} {rows : List AttemptRow}
    (h : Numbered jobId fence rows) {row other : AttemptRow} (hrow : row ∈ rows)
    (hother : other ∈ rows) (hid : row.attemptId = other.attemptId) : row = other :=
  List.inj_on_of_nodup_map h.ids hrow hother hid

/-- Fences count the claims from one up to the fence of the job. -/
theorem Numbered.fence_pos {jobId : String} {fence : Int} {rows : List AttemptRow}
    (h : Numbered jobId fence rows) {row : AttemptRow} (hrow : row ∈ rows) :
    0 < row.fence ∧ row.fence ≤ fence := by
  have hmem : row.fence ∈ rows.map AttemptRow.fence := List.mem_map_of_mem hrow
  rw [h.fences] at hmem
  obtain ⟨n, hn, heq⟩ := List.mem_map.mp hmem
  have hlt := List.mem_range.mp hn
  have hlength := h.length
  omega

/-- Two rows of a numbered list with one fence are the same row. -/
theorem Numbered.eq_of_fence {jobId : String} {fence : Int} {rows : List AttemptRow}
    (h : Numbered jobId fence rows) {row other : AttemptRow} (hrow : row ∈ rows)
    (hother : other ∈ rows) (hfence : row.fence = other.fence) : row = other := by
  have hnodup : (rows.map AttemptRow.fence).Nodup := by
    rw [h.fences]
    refine List.Nodup.map ?_ List.nodup_range
    intro a b hab
    exact Int.ofNat_inj.mp (by simpa using hab)
  exact List.inj_on_of_nodup_map hnodup hrow hother hfence

/-! ## Each transition preserves the invariant -/

section Preservation

variable {l : Ledger}

theorem Inv.not_held_of_pending (hpending : l.job.state = .pending) :
    l.job.state.isHeld = false := by
  rw [hpending]
  rfl

/-- A pending job has no active and no authoritative attempt. -/
theorem Inv.dispositions_of_pending (h : Inv l) (hpending : l.job.state = .pending)
    {row : AttemptRow} (hrow : row ∈ l.attempts) :
    row.disposition ≠ .active ∧ row.disposition ≠ .authoritative := by
  constructor
  · intro hactive
    have hheld := (h.active row hrow hactive).2.2.1
    simp [hpending, JobState.isHeld] at hheld
  · intro hauth
    have hstate := (h.authority row hrow hauth).2
    rw [hpending] at hstate
    split at hstate <;> cases hstate

theorem Inv.selected_of_held (h : Inv l) (hheld : l.job.state.isHeld = true) :
    l.job.selectedAttemptId = none := by
  cases hselected : l.job.selectedAttemptId with
  | none => rfl
  | some a =>
      have hfinished := (h.selection a hselected).1
      cases hstate : l.job.state <;> simp [hstate, JobState.isHeld, JobState.isFinished] at *

theorem Inv.selected_of_pending (h : Inv l) (hpending : l.job.state = .pending) :
    l.job.selectedAttemptId = none := by
  cases hselected : l.job.selectedAttemptId with
  | none => rfl
  | some a =>
      have hfinished := (h.selection a hselected).1
      simp [hpending, JobState.isFinished] at hfinished

/-- A held job has no authoritative attempt. -/
theorem Inv.not_authoritative_of_held (h : Inv l) (hheld : l.job.state.isHeld = true)
    {row : AttemptRow} (hrow : row ∈ l.attempts) : row.disposition ≠ .authoritative := by
  intro hauth
  have hselected := (h.authority row hrow hauth).1
  rw [h.selected_of_held hheld] at hselected
  cases hselected

/-- A claim of a pending job starts the next attempt. No earlier one is active any more, since
the job was not held. -/
theorem Inv.grant (h : Inv l) (workerId : String) (expires : Int) (draw : Draw) (now : Datetime)
    (hpending : l.job.state = .pending)
    (hfresh : ∀ row ∈ l.attempts, row.attemptId ≠ draw.attemptId) :
    Inv ⟨leasedRow l.job workerId expires draw l.job,
      l.attempts ++ [activeAttempt l.job.jobId (l.job.fence + 1) draw now]⟩ where
  numbered := h.numbered.append now hfresh
  checks := by
    intro row hrow
    rcases List.mem_append.mp hrow with hrow | hrow
    · exact h.checks row hrow
    · have hlength := h.numbered.length
      rw [List.mem_singleton.mp hrow]
      exact activeAttempt_check _ (by omega) _ _
  not_abandoned := by simp [leasedRow]
  -- the appended row is the current attempt
  held := fun _ => ⟨rfl, rfl, rfl, _, List.mem_append_right _ (List.mem_singleton.mpr rfl),
    rfl, rfl, Or.inl rfl⟩
  released := by simp [leasedRow, JobState.isHeld]
  active := by
    intro row hrow hactive
    rcases List.mem_append.mp hrow with hrow | hrow
    -- While a job is pending, no attempt of it is open.
    · exact absurd hactive (h.dispositions_of_pending hpending hrow).1
    · rw [List.mem_singleton.mp hrow]
      exact ⟨rfl, rfl, rfl, rfl⟩
  discarded := by
    intro row hrow hdisposition
    rcases List.mem_append.mp hrow with hrow | hrow
    · exact h.discarded row hrow hdisposition
    · rw [List.mem_singleton.mp hrow] at hdisposition
      simp [activeAttempt] at hdisposition
  selection := by
    intro a hselected
    have hnone := h.selected_of_pending hpending
    simp only [leasedRow] at hselected
    rw [hnone] at hselected
    cases hselected
  authority := by
    intro row hrow hauth
    rcases List.mem_append.mp hrow with hrow | hrow
    · exact absurd hauth (h.dispositions_of_pending hpending hrow).2
    · rw [List.mem_singleton.mp hrow] at hauth
      simp [activeAttempt] at hauth

/-- A pending job has no lease and no active attempt, so nothing is left hanging when it
fails. -/
theorem Inv.cancel (h : Inv l) (hpending : l.job.state = .pending) :
    Inv ⟨cancelledRow l.job, l.attempts⟩ where
  numbered := h.numbered
  checks := h.checks
  not_abandoned := by simp [cancelledRow]
  held := by simp [cancelledRow, JobState.isHeld]
  released := fun _ => h.released (Inv.not_held_of_pending hpending)
  active := fun row hrow hactive =>
    absurd hactive (h.dispositions_of_pending hpending hrow).1
  discarded := h.discarded
  selection := by
    intro a hselected
    have hnone := h.selected_of_pending hpending
    simp only [cancelledRow] at hselected
    rw [hnone] at hselected
    cases hselected
  authority := fun row hrow hauth =>
    absurd hauth (h.dispositions_of_pending hpending hrow).2

/-- Changing a held job's state among the held ones and its deadline. -/
theorem Inv.hold (h : Inv l) (hheld : l.job.state.isHeld = true) {state : JobState}
    (hstate : state.isHeld = true) {expires : Option Int} (hexpires : expires.isSome = true) :
    Inv ⟨{ l.job with state := state, leaseExpiresMs := expires }, l.attempts⟩ where
  numbered := h.numbered
  checks := h.checks
  not_abandoned := by
    intro habandoned
    simp only at habandoned
    simp [habandoned, JobState.isHeld] at hstate
  held := by
    obtain ⟨htoken, hworker, _, hrow⟩ := h.held hheld
    exact fun _ => ⟨htoken, hworker, hexpires, hrow⟩
  released := fun hnot => by simp [hstate] at hnot
  active := fun row hrow hactive => by
    obtain ⟨hvalidity, houtcome, _, hcurrent⟩ := h.active row hrow hactive
    exact ⟨hvalidity, houtcome, hstate, hcurrent⟩
  discarded := h.discarded
  selection := by
    intro a hselected
    have hnone := h.selected_of_held hheld
    simp only at hselected
    rw [hnone] at hselected
    cases hselected
  authority := fun row hrow hauth =>
    absurd hauth (h.not_authoritative_of_held hheld hrow)

/-- Quarantine rewrites open attempts and discards them. The authoritative attempt, which is not
open, stays. -/
theorem Inv.quarantine (h : Inv l) (p : AttemptRow → Bool) (f : AttemptRow → AttemptRow)
    (hopen : ∀ row, p row = true → row.isOpen = true)
    (hidentity : ∀ row, SameIdentity row (f row))
    (hstale : ∀ row, (f row).disposition = .stale ∧ Discarded (f row))
    (hcheck : ∀ row ∈ l.attempts, p row = true → (f row).Check) :
    Inv ⟨l.job, rewriteRows p f l.attempts⟩ where
  numbered := h.numbered.rewrite hidentity
  checks := by
    intro row hrow
    rcases of_mem_rewriteRows hrow with ⟨old, hold, hp, rfl⟩ | ⟨hold, _⟩
    · exact hcheck old hold hp
    · exact h.checks row hold
  not_abandoned := h.not_abandoned
  held := by
    intro hheld
    obtain ⟨htoken, hworker, hexpires, row, hrow, hcurrent, hfence, hdisposition⟩ := h.held hheld
    refine ⟨htoken, hworker, hexpires, _, mem_rewriteRows.mpr ⟨row, hrow, rfl⟩, ?_⟩
    split
    -- a held job may lose its attempt to the quarantine, but not its identity
    · exact ⟨hcurrent.trans (congrArg some (hidentity row).attemptId.symm),
        (hidentity row).fence.trans hfence, Or.inr (hstale row).1⟩
    · exact ⟨hcurrent, hfence, hdisposition⟩
  released := h.released
  active := by
    intro row hrow hactive
    rcases of_mem_rewriteRows hrow with ⟨old, hold, _, rfl⟩ | ⟨hold, _⟩
    · rw [(hstale old).1] at hactive
      cases hactive
    · exact h.active row hold hactive
  discarded := by
    intro row hrow hdisposition
    rcases of_mem_rewriteRows hrow with ⟨old, _, _, rfl⟩ | ⟨hold, _⟩
    · exact (hstale old).2
    · exact h.discarded row hold hdisposition
  selection := by
    intro a hselected
    obtain ⟨hfinished, row, hrow, hid, hauth, hfence⟩ := h.selection a hselected
    refine ⟨hfinished, row, mem_rewriteRows.mpr ⟨row, hrow, ?_⟩, hid, hauth, hfence⟩
    split
    next hp =>
      -- an authoritative row is not open, so it is never a target
      have hopened := hopen row hp
      simp [AttemptRow.isOpen, hauth] at hopened
    next => rfl
  authority := by
    intro row hrow hauth
    rcases of_mem_rewriteRows hrow with ⟨old, _, _, rfl⟩ | ⟨hold, _⟩
    · rw [(hstale old).1] at hauth
      cases hauth
    · exact h.authority row hold hauth

/-- A reap takes the lease and the active attempt together, so that neither is left without the
other. -/
theorem Inv.reap (h : Inv l) (outcome : JobState × Option String) (now : Datetime)
    (hheld : l.job.state.isHeld = true) (houtcome : outcome.1 = .pending ∨ outcome.1 = .failed) :
    Inv ⟨releasedRow outcome l.job,
      rewriteRows (fun row => l.job.attemptId = some row.attemptId && row.disposition = .active)
        (abandonedRow now) l.attempts⟩ where
  numbered := h.numbered.rewrite (abandonedRow_sameIdentity now)
  checks := by
    intro row hrow
    rcases of_mem_rewriteRows hrow with ⟨old, hold, _, rfl⟩ | ⟨hold, _⟩
    · exact (h.checks old hold).abandonedRow now
    · exact h.checks row hold
  not_abandoned := by
    intro habandoned
    simp only [releasedRow] at habandoned
    simp [habandoned] at houtcome
  held := by
    intro hnot
    simp only [releasedRow] at hnot
    rcases houtcome with hout | hout <;> simp [hout, JobState.isHeld] at hnot
  released := fun _ => ⟨rfl, rfl, rfl⟩
  active := by
    intro row hrow hactive
    rcases of_mem_rewriteRows hrow with ⟨old, _, _, rfl⟩ | ⟨hold, hp⟩
    · cases hactive
    -- The only active row is the current attempt, and that one was abandoned.
    · have hcurrent := (h.active row hold hactive).2.2.2
      simp [hcurrent, hactive] at hp
  discarded := by
    intro row hrow hdisposition
    rcases of_mem_rewriteRows hrow with ⟨old, _, _, rfl⟩ | ⟨hold, _⟩
    · exact abandonedRow_discarded now old
    · exact h.discarded row hold hdisposition
  selection := by
    intro a hselected
    have hnone := h.selected_of_held hheld
    simp only [releasedRow] at hselected
    rw [hnone] at hselected
    cases hselected
  authority := by
    intro row hrow hauth
    rcases of_mem_rewriteRows hrow with ⟨old, _, _, rfl⟩ | ⟨hold, _⟩
    · cases hauth
    · exact absurd hauth (h.not_authoritative_of_held hheld hold)

/-- The commit turns the current attempt into the only authoritative one and finishes the job
with it. -/
theorem Inv.commit (h : Inv l) (attempt : EvaluationAttempt) (finishedAt : Datetime)
    (hheld : l.job.state.isHeld = true) (hcurrent : l.job.attemptId = some attempt.attemptId)
    (hcheck : ∀ row ∈ l.attempts, row.attemptId = attempt.attemptId →
      (committedRow attempt finishedAt row).Check) :
    Inv ⟨finishedRow attempt l.job,
      rewriteRows (fun row => row.attemptId = attempt.attemptId)
        (committedRow attempt finishedAt) l.attempts⟩ where
  numbered := h.numbered.rewrite (committedRow_sameIdentity attempt finishedAt)
  checks := by
    intro row hrow
    rcases of_mem_rewriteRows hrow with ⟨old, hold, hp, rfl⟩ | ⟨hold, _⟩
    · exact hcheck old hold (by simpa using hp)
    · exact h.checks row hold
  not_abandoned := by
    simp only [finishedRow, terminalOf_state]
    split <;> simp
  held := by
    intro hnot
    simp only [finishedRow, terminalOf_state] at hnot
    split at hnot <;> cases hnot
  released := fun _ => ⟨rfl, rfl, rfl⟩
  active := by
    intro row hrow hactive
    rcases of_mem_rewriteRows hrow with ⟨old, _, _, rfl⟩ | ⟨hold, hp⟩
    · cases hactive
    -- An active row is the current attempt, and that one has been committed.
    · have hother := (h.active row hold hactive).2.2.2
      rw [hcurrent] at hother
      simp [Option.some.inj hother] at hp
  discarded := by
    intro row hrow hdisposition
    rcases of_mem_rewriteRows hrow with ⟨old, _, _, rfl⟩ | ⟨hold, _⟩
    · rcases hdisposition with hdisposition | hdisposition <;> cases hdisposition
    · exact h.discarded row hold hdisposition
  selection := by
    intro a hselected
    -- The row of the held lease is the one that is now authoritative.
    obtain ⟨_, _, _, row, hrow, hid, hfence, _⟩ := h.held hheld
    have ha : attempt.attemptId = a := Option.some.inj hselected
    have hrowId : row.attemptId = attempt.attemptId := Option.some.inj (hid.symm.trans hcurrent)
    refine ⟨terminalOf_finished attempt, _, mem_rewriteRows.mpr ⟨row, hrow, rfl⟩, ?_⟩
    rw [if_pos (by simpa using hrowId)]
    exact ⟨hrowId.trans ha, rfl, hfence⟩
  authority := by
    intro row hrow hauth
    rcases of_mem_rewriteRows hrow with ⟨old, _, hp, rfl⟩ | ⟨hold, _⟩
    · have hid : old.attemptId = attempt.attemptId := by simpa using hp
      exact ⟨congrArg some hid.symm, terminalOf_state attempt⟩
    · exact absurd hauth (h.not_authoritative_of_held hheld hold)

theorem Quiet.inv {l l' : Ledger} (hstep : Quiet l l') (h : Inv l) : Inv l' := by
  cases hstep with
  | grant workerId expires draw now hpending hfresh =>
      exact h.grant workerId expires draw now hpending hfresh
  | cancel hpending => exact h.cancel hpending
  | start hclaimed =>
      have hheld : l.job.state.isHeld = true := by
        rw [hclaimed]
        rfl
      exact h.hold hheld rfl (h.held hheld).2.2.1
  | extend expires hheld => exact h.hold hheld hheld rfl
  | quarantine p f hopen hidentity hstale hcheck =>
      exact h.quarantine p f hopen hidentity hstale hcheck
  | reap outcome now hheld houtcome => exact h.reap outcome now hheld houtcome

theorem Commit.inv {attempt : EvaluationAttempt} {l l' : Ledger} (hstep : Commit attempt l l')
    (h : Inv l) : Inv l' := by
  cases hstep with
  | commit finishedAt hheld hcurrent hcheck =>
      exact h.commit attempt finishedAt hheld hcurrent hcheck

theorem Step.inv {l l' : Ledger} (hstep : Step l l') (h : Inv l) : Inv l' := by
  rcases hstep with hquiet | ⟨attempt, hcommit⟩
  · exact hquiet.inv h
  · exact hcommit.inv h

end Preservation

/-! ## What no transition undoes -/

/-- `l'` is a later state of `l`: fences only grow, rows are never deleted, and
a finished job is frozen together with its authoritative attempt. -/
structure Grows (l l' : Ledger) : Prop where
  plan : SamePlan l.job l'.job
  fence : l.job.fence ≤ l'.job.fence
  rows : ∀ row ∈ l.attempts, ∃ row' ∈ l'.attempts, SameIdentity row row'
  frozen : l.job.state.isFinished = true → l'.job = l.job ∧
    ∀ row ∈ l.attempts, row.disposition = .authoritative → row ∈ l'.attempts

theorem Grows.refl (l : Ledger) : Grows l l :=
  ⟨.refl l.job, le_rfl, fun row hrow => ⟨row, hrow, .refl row⟩, fun _ => ⟨rfl, fun _ h _ => h⟩⟩

theorem Grows.trans {l l' l'' : Ledger} (first : Grows l l') (second : Grows l' l'') :
    Grows l l'' where
  plan := first.plan.trans second.plan
  fence := first.fence.trans second.fence
  rows := by
    intro row hrow
    obtain ⟨row', hrow', hsame⟩ := first.rows row hrow
    obtain ⟨row'', hrow'', hsame'⟩ := second.rows row' hrow'
    exact ⟨row'', hrow'', hsame.trans hsame'⟩
  frozen := by
    intro hfinished
    obtain ⟨hjob, hkept⟩ := first.frozen hfinished
    obtain ⟨hjob', hkept'⟩ := second.frozen (hjob ▸ hfinished)
    exact ⟨hjob'.trans hjob, fun row hrow hauth => hkept' row (hkept row hrow hauth) hauth⟩

/-- Rewriting rows keeps each of them under its identity. -/
theorem rewriteRows_identity {p : AttemptRow → Bool} {f : AttemptRow → AttemptRow}
    (hf : ∀ row, SameIdentity row (f row)) {rows : List AttemptRow} {row : AttemptRow}
    (hrow : row ∈ rows) : ∃ row' ∈ rewriteRows p f rows, SameIdentity row row' := by
  refine ⟨_, mem_rewriteRows.mpr ⟨row, hrow, rfl⟩, ?_⟩
  split
  · exact hf row
  · exact .refl row

theorem not_finished_of_pending {state : JobState} (h : state = .pending) :
    state.isFinished ≠ true := by
  rw [h]
  decide

theorem not_finished_of_held {state : JobState} (h : state.isHeld = true) :
    state.isFinished ≠ true := by
  cases state <;> simp_all [JobState.isHeld, JobState.isFinished]

/-- Without a commit the selection stays, and a finished job meets none of the transitions. -/
theorem Quiet.grows {l l' : Ledger} (hstep : Quiet l l') : Grows l l' := by
  have hsame : ∀ row ∈ l.attempts, ∃ row' ∈ l.attempts, SameIdentity row row' :=
    fun row hrow => ⟨row, hrow, .refl row⟩
  cases hstep with
  | grant workerId expires draw now hpending hfresh =>
      refine ⟨⟨rfl, rfl, rfl, rfl, rfl, rfl⟩, ?_, ?_,
        fun h => absurd h (not_finished_of_pending hpending)⟩
      · show l.job.fence ≤ l.job.fence + 1
        omega
      · exact fun row hrow => ⟨row, List.mem_append_left _ hrow, .refl row⟩
  | cancel hpending =>
      exact ⟨⟨rfl, rfl, rfl, rfl, rfl, rfl⟩, le_rfl, hsame,
        fun h => absurd h (not_finished_of_pending hpending)⟩
  | start hclaimed =>
      refine ⟨⟨rfl, rfl, rfl, rfl, rfl, rfl⟩, le_rfl, hsame, fun h => absurd h ?_⟩
      simp [hclaimed, JobState.isFinished]
  | extend expires hheld =>
      exact ⟨⟨rfl, rfl, rfl, rfl, rfl, rfl⟩, le_rfl, hsame,
        fun h => absurd h (not_finished_of_held hheld)⟩
  -- Of all quiet steps this one alone can meet a finished job; it spares what is authoritative.
  | quarantine p f hopen hidentity hstale hcheck =>
      refine ⟨⟨rfl, rfl, rfl, rfl, rfl, rfl⟩, le_rfl,
        fun row hrow => rewriteRows_identity hidentity hrow, ?_⟩
      refine fun _ => ⟨rfl, fun row hrow hauth => mem_rewriteRows.mpr ⟨row, hrow, ?_⟩⟩
      split
      next hp =>
        have hopened := hopen row hp
        simp [AttemptRow.isOpen, hauth] at hopened
      next => rfl
  | reap outcome now hheld houtcome =>
      exact ⟨⟨rfl, rfl, rfl, rfl, rfl, rfl⟩, le_rfl,
        fun row hrow => rewriteRows_identity (abandonedRow_sameIdentity now) hrow,
        fun h => absurd h (not_finished_of_held hheld)⟩

/-- A commit finishes a job that was held, so no finished job is touched. -/
theorem Commit.grows {attempt : EvaluationAttempt} {l l' : Ledger} (hstep : Commit attempt l l') :
    Grows l l' := by
  cases hstep with
  | commit finishedAt hheld hcurrent hcheck =>
      exact ⟨⟨rfl, rfl, rfl, rfl, rfl, rfl⟩, le_rfl,
        fun row hrow => rewriteRows_identity (committedRow_sameIdentity attempt finishedAt) hrow,
        fun h => absurd h (not_finished_of_held hheld)⟩

theorem Step.grows {l l' : Ledger} (hstep : Step l l') : Grows l l' := by
  rcases hstep with hquiet | ⟨attempt, hcommit⟩
  · exact hquiet.grows
  · exact hcommit.grows

/-! ## Where authority comes from -/

/-- A transition that does not select makes no row authoritative. -/
theorem Quiet.authoritative {l l' : Ledger} (hstep : Quiet l l') {row : AttemptRow}
    (hrow : row ∈ l'.attempts) (hauth : row.disposition = .authoritative) : row ∈ l.attempts := by
  cases hstep with
  | grant workerId expires draw now hpending hfresh =>
      rcases List.mem_append.mp hrow with hold | hnew
      · exact hold
      · rw [List.mem_singleton.mp hnew] at hauth
        cases hauth
  | cancel => exact hrow
  | start => exact hrow
  | extend => exact hrow
  | quarantine p f hopen hidentity hstale hcheck =>
      rcases of_mem_rewriteRows hrow with ⟨old, _, _, rfl⟩ | ⟨hold, _⟩
      · rw [(hstale old).1] at hauth
        cases hauth
      · exact hold
  | reap outcome now hheld houtcome =>
      rcases of_mem_rewriteRows hrow with ⟨old, _, _, rfl⟩ | ⟨hold, _⟩
      · cases hauth
      · exact hold

/-- A commit makes no row authoritative but the one it was given. -/
theorem Commit.authoritative {attempt : EvaluationAttempt} {l l' : Ledger}
    (hstep : Commit attempt l l') {row : AttemptRow} (hrow : row ∈ l'.attempts)
    (hother : row.attemptId ≠ attempt.attemptId) : row ∈ l.attempts := by
  cases hstep with
  | commit finishedAt hheld hcurrent hcheck =>
      rcases of_mem_rewriteRows hrow with ⟨old, _, hp, rfl⟩ | ⟨hold, _⟩
      · exact absurd (of_decide_eq_true hp) hother
      · exact hold

/-! ## Counted attempts -/

def Counted (l : Ledger) : Prop :=
  l.job.attemptsStarted = l.job.fence

/-- The counter of attempts and the fence go up together, in a claim. -/
theorem Step.counted {l l' : Ledger} (hstep : Step l l') (h : Counted l) : Counted l' := by
  rcases hstep with hquiet | ⟨attempt, hcommit⟩
  · cases hquiet with
    | grant => exact congrArg (· + 1) h
    | cancel => exact h
    | start => exact h
    | extend => exact h
    | quarantine => exact h
    | reap => exact h
  · cases hcommit with
    | commit => exact h

end Ledger

end VerifierCI
