import VerifierCI.Execution.Operations

/-! # Authority and structure of every reachable queue

The ledger invariant read back as statements about the tables: which attempt a
job has selected and why that never changes, and how counters, lease columns
and dispositions hang together.
-/

namespace VerifierCI

open Python Relational

/-! ## Reading ledgers as table rows -/

section Rows

variable {db : Db}

theorem QueueInv.of_mem (hinv : QueueInv db) {job : Job} (hjob : job ∈ db.jobs) :
    (db.ledgerOf job).Inv :=
  hinv.ledgers _ _ (ledger_of_find? (Table.find?_of_mem hjob))

/-- Every attempt row sits in the ledger of its job. -/
theorem QueueInv.job_of_attempt (hinv : QueueInv db) {row : AttemptRow}
    (hrow : row ∈ db.evaluationAttempts) :
    ∃ job ∈ db.jobs, job.jobId = row.jobId ∧ row ∈ (db.ledgerOf job).attempts := by
  obtain ⟨job, hjob⟩ := Option.isSome_iff_exists.mp (hinv.owned row hrow)
  have hid : job.jobId = row.jobId := Table.key_of_find? hjob
  exact ⟨job, Table.mem_of_find? hjob, hid, mem_attemptsOf.mpr ⟨hrow, hid.symm⟩⟩

theorem mem_ledgerOf {job : Job} {row : AttemptRow} :
    row ∈ (db.ledgerOf job).attempts ↔ row ∈ db.evaluationAttempts ∧ row.jobId = job.jobId :=
  mem_attemptsOf

end Rows

/-! ## Authority -/

/-- A job's selection and its authoritative attempt are the same thing, and
only finished jobs have one. -/
structure SingleAuthority (db : Db) : Prop where
  unique : ∀ row ∈ db.evaluationAttempts, ∀ other ∈ db.evaluationAttempts,
    row.disposition = .authoritative → other.disposition = .authoritative →
    row.jobId = other.jobId → row = other
  selected_iff : ∀ job ∈ db.jobs, ∀ a, job.selectedAttemptId = some a ↔
    ∃ row ∈ db.evaluationAttempts, row.attemptId = a ∧ row.disposition = .authoritative ∧
      row.jobId = job.jobId
  finished : ∀ job ∈ db.jobs, job.selectedAttemptId.isSome = true →
    job.state = .done ∨ job.state = .failed

/-- The finished jobs of `db` are the same rows in `db'`, and so are their
authoritative attempts. -/
structure Settled (db db' : Db) : Prop where
  job : ∀ job ∈ db.jobs, job.state = .done ∨ job.state = .failed →
    db'.jobs.find? job.jobId = some job
  attempt : ∀ job ∈ db.jobs, job.state = .done ∨ job.state = .failed →
    ∀ row ∈ db.evaluationAttempts, row.jobId = job.jobId → row.disposition = .authoritative →
      db'.evaluationAttempts.find? row.attemptId = some row

/-- An authoritative attempt is the selection of its job, and a job has one selection. In its
ledger nothing else carries authority. -/
theorem QueueInv.singleAuthority {db : Db} (hinv : QueueInv db) : SingleAuthority db where
  unique := by
    intro row hrow other hother hauth hauthOther hsame
    obtain ⟨job, hjob, hid, hmem⟩ := hinv.job_of_attempt hrow
    have hmemOther : other ∈ (db.ledgerOf job).attempts :=
      mem_ledgerOf.mpr ⟨hother, hsame.symm.trans hid.symm⟩
    have hledger := hinv.of_mem hjob
    have hselected := (hledger.authority row hmem hauth).1
    have hselectedOther := (hledger.authority other hmemOther hauthOther).1
    exact Table.eq_of_key_eq hrow hother
      (Option.some.inj (hselected.symm.trans hselectedOther))
  selected_iff := by
    intro job hjob a
    have hledger := hinv.of_mem hjob
    constructor
    · intro hselected
      obtain ⟨_, row, hrow, hid, hauth, _⟩ := hledger.selection a hselected
      obtain ⟨hmem, hjobId⟩ := mem_ledgerOf.mp hrow
      exact ⟨row, hmem, hid, hauth, hjobId⟩
    · rintro ⟨row, hrow, rfl, hauth, hjobId⟩
      exact (hledger.authority row (mem_ledgerOf.mpr ⟨hrow, hjobId⟩) hauth).1
  finished := by
    intro job hjob hselected
    obtain ⟨a, ha⟩ := Option.isSome_iff_exists.mp hselected
    exact JobState.isFinished_iff.mp ((hinv.of_mem hjob).selection a ha).1

/-- A finished job is frozen by every transition of its ledger, and its authoritative row with
it. -/
theorem Evolves.settled {db db' : Db} (h : Evolves Ledger.Step db db') : Settled db db' := by
  have hfrozen : ∀ job ∈ db.jobs, job.state = .done ∨ job.state = .failed →
      ∃ l', db'.ledger job.jobId = some l' ∧ l'.job = job ∧
        ∀ row ∈ (db.ledgerOf job).attempts, row.disposition = .authoritative →
          row ∈ l'.attempts := by
    intro job hjob hfinished
    have hl := ledger_of_find? (Table.find?_of_mem hjob)
    obtain ⟨l', hl', _⟩ := h.ledger _ _ hl
    obtain ⟨hsame, hkept⟩ := (h.grows hl hl').frozen (JobState.isFinished_iff.mpr hfinished)
    exact ⟨l', hl', hsame, hkept⟩
  constructor
  · intro job hjob hfinished
    obtain ⟨l', hl', rfl, _⟩ := hfrozen job hjob hfinished
    exact (ledger_eq_some_iff.mp hl').1
  · intro job hjob hfinished row hrow hjobId hauth
    obtain ⟨l', hl', _, hkept⟩ := hfrozen job hjob hfinished
    have hmem := hkept row (mem_ledgerOf.mpr ⟨hrow, hjobId⟩) hauth
    rw [(ledger_eq_some_iff.mp hl').2] at hmem
    exact Table.find?_of_mem (mem_attemptsOf.mp hmem).1

/-- In every run from an unclaimed queue each job has at most one authority,
and once it has finished neither the job nor its authority changes again. -/
theorem authority_single_and_permanent {db : Db} (hfresh : db.Fresh)
    (first later : List Operation) :
    SingleAuthority (Transition.run Db.call db first) ∧
      Settled (Transition.run Db.call db first) (Transition.run Db.call db (first ++ later)) := by
  have hinv := run_queueInv (QueueInv.of_fresh hfresh) first
  rw [Transition.run_append]
  exact ⟨hinv.singleAuthority, (run_evolves hinv later).settled⟩

/-- The job is claimed and its attempt committed; a cancellation and a reap behind it change
nothing. -/
theorem authority_single_and_permanent_solo :
    ((Transition.run Db.call soloDb soloCommit).evaluationAttempts.find? "attempt").map
        AttemptRow.disposition = some .authoritative ∧
      SingleAuthority (Transition.run Db.call soloDb soloCommit) ∧
      Settled (Transition.run Db.call soloDb soloCommit)
        (Transition.run Db.call soloDb
          (soloCommit ++ [.requestCancel "run" 2000, .reapExpired 40000 none])) :=
  ⟨rfl, authority_single_and_permanent soloDb_fresh _ _⟩

/-! ## Structure -/

/-- How the columns of the queue hang together. -/
structure QueueShape (db : Db) : Prop where
  counters : ∀ job ∈ db.jobs, job.attemptsStarted = job.fence ∧
    job.fence = (db.evaluationAttempts.select fun row => row.jobId = job.jobId).length
  fences : ∀ job ∈ db.jobs, ∀ k : Int, 1 ≤ k ∧ k ≤ job.fence ↔
    ∃! row, row ∈ db.evaluationAttempts ∧ row.jobId = job.jobId ∧ row.fence = k
  leased : ∀ job ∈ db.jobs, (job.state = .claimed ∨ job.state = .running) ↔
    (job.leaseToken.isSome = true ∧ job.workerId.isSome = true ∧ job.leaseExpiresMs.isSome = true)
  current : ∀ job ∈ db.jobs, job.state = .claimed ∨ job.state = .running →
    ∃ row ∈ db.evaluationAttempts, row.jobId = job.jobId ∧ row.fence = job.fence ∧
      job.attemptId = some row.attemptId
  active : ∀ row ∈ db.evaluationAttempts, row.disposition = .active →
    row.evaluationValidity = .pending ∧ row.outcome = none ∧
      ∃ job ∈ db.jobs, job.jobId = row.jobId ∧ (job.state = .claimed ∨ job.state = .running) ∧
        job.attemptId = some row.attemptId
  discarded : ∀ row ∈ db.evaluationAttempts,
    row.disposition = .stale ∨ row.disposition = .abandoned →
      row.evaluationValidity = .invalid ∧ row.outcome ≠ some .accept ∧ row.outcome ≠ some .reject
  not_abandoned : ∀ job ∈ db.jobs, job.state ≠ .abandoned

/-- Each number up to the fence is the fence of some row. -/
theorem Ledger.Numbered.exists_fence {jobId : String} {fence : Int} {rows : List AttemptRow}
    (h : Ledger.Numbered jobId fence rows) {k : Int} (hpos : 1 ≤ k) (hle : k ≤ fence) :
    ∃ row ∈ rows, row.fence = k := by
  have hlength := h.length
  have hmem : k ∈ rows.map AttemptRow.fence := by
    rw [h.fences]
    exact List.mem_map.mpr ⟨(k - 1).toNat, List.mem_range.mpr (by omega), by omega⟩
  exact List.mem_map.mp hmem

/-- The shape, clause by clause, is the invariant of the ledgers seen from the tables. Fences
number the attempts of a ledger, so the attempt a held job refers to is found by its fence. -/
theorem QueueInv.shape {db : Db} (hinv : QueueInv db)
    (hcounted : ∀ job ∈ db.jobs, (db.ledgerOf job).Counted) : QueueShape db where
  counters := fun job hjob => ⟨hcounted job hjob, (hinv.of_mem hjob).numbered.length⟩
  fences := by
    intro job hjob k
    have hnumbered := (hinv.of_mem hjob).numbered
    constructor
    · rintro ⟨hpos, hle⟩
      obtain ⟨row, hrow, rfl⟩ := hnumbered.exists_fence hpos hle
      obtain ⟨hmem, hjobId⟩ := mem_ledgerOf.mp hrow
      refine ⟨row, ⟨hmem, hjobId, rfl⟩, ?_⟩
      rintro other ⟨hother, hjobIdOther, hfence⟩
      exact hnumbered.eq_of_fence (mem_ledgerOf.mpr ⟨hother, hjobIdOther⟩) hrow hfence
    · rintro ⟨row, ⟨hmem, hjobId, rfl⟩, _⟩
      have hpos := hnumbered.fence_pos (mem_ledgerOf.mpr ⟨hmem, hjobId⟩)
      exact ⟨by omega, hpos.2⟩
  leased := by
    intro job hjob
    -- A held job carries its lease; every other one has been stripped of it.
    rw [← JobState.isHeld_iff]
    constructor
    · intro hheld
      obtain ⟨htoken, hworker, hexpires, _⟩ := (hinv.of_mem hjob).held hheld
      exact ⟨htoken, hworker, hexpires⟩
    · rintro ⟨htoken, _, _⟩
      by_contra hnot
      rw [Bool.not_eq_true] at hnot
      have hnone : job.leaseToken = none := ((hinv.of_mem hjob).released hnot).1
      simp [hnone] at htoken
  current := by
    intro job hjob hheld
    obtain ⟨_, _, _, row, hrow, hid, hfence, _⟩ :=
      (hinv.of_mem hjob).held (JobState.isHeld_iff.mpr hheld)
    obtain ⟨hmem, hjobId⟩ := mem_ledgerOf.mp hrow
    exact ⟨row, hmem, hjobId, hfence, hid⟩
  active := by
    intro row hrow hactive
    obtain ⟨job, hjob, hid, hmem⟩ := hinv.job_of_attempt hrow
    obtain ⟨hvalidity, houtcome, hheld, hcurrent⟩ := (hinv.of_mem hjob).active row hmem hactive
    exact ⟨hvalidity, houtcome, job, hjob, hid, JobState.isHeld_iff.mp hheld, hcurrent⟩
  discarded := by
    intro row hrow hdisposition
    obtain ⟨job, hjob, _, hmem⟩ := hinv.job_of_attempt hrow
    have h := (hinv.of_mem hjob).discarded row hmem hdisposition
    exact ⟨h.evaluationValidity, h.not_accept, h.not_reject⟩
  not_abandoned := fun job hjob => (hinv.of_mem hjob).not_abandoned

/-- What every transition of a ledger keeps holds of all ledgers of a later state. -/
theorem Evolves.keeps {R : Ledger → Ledger → Prop} {good : Ledger → Prop}
    (hstep : ∀ l l', R l l' → good l → good l') {db db' : Db} (h : Evolves R db db')
    (hgood : ∀ job ∈ db.jobs, good (db.ledgerOf job)) :
    ∀ job ∈ db'.jobs, good (db'.ledgerOf job) := by
  intro job hjob
  have hl' := ledger_of_find? (Table.find?_of_mem hjob)
  obtain ⟨l, hl⟩ := h.origin _ _ hl'
  obtain ⟨l'', hl'', hpath⟩ := h.ledger _ _ hl
  obtain rfl : db'.ledgerOf job = l'' := Option.some.inj (hl'.symm.trans hl'')
  obtain ⟨hfind, hattempts⟩ := ledger_eq_some_iff.mp hl
  have hsame : db.ledgerOf l.job = l := by
    rw [Db.ledgerOf, Table.key_of_find? hfind, ← hattempts]
  exact Evolves.path_induction hstep hpath (hsame ▸ hgood l.job (Table.mem_of_find? hfind))

theorem Evolves.counted {db db' : Db} (h : Evolves Ledger.Step db db')
    (hcounted : ∀ job ∈ db.jobs, (db.ledgerOf job).Counted) :
    ∀ job ∈ db'.jobs, (db'.ledgerOf job).Counted :=
  h.keeps (fun _ _ hstep => hstep.counted) hcounted

/-- Every run from an unclaimed queue with no attempts started keeps the shape of the queue.
Counters, leases and dispositions go together after each call, whatever the calls were. -/
theorem run_queueShape {db : Db} (hfresh : db.Fresh)
    (hstarted : ∀ job ∈ db.jobs, job.attemptsStarted = 0) (ops : List Operation) :
    QueueShape (Transition.run Db.call db ops) := by
  have hinv := QueueInv.of_fresh hfresh
  have hcounted : ∀ job ∈ db.jobs, (db.ledgerOf job).Counted :=
    fun job hjob => (hstarted job hjob).trans (hfresh.jobs job hjob).fence.symm
  exact (run_queueInv hinv ops).shape ((run_evolves hinv ops).counted hcounted)

/-- The job is claimed and its lease reaped. -/
theorem run_queueShape_solo :
    QueueShape (Transition.run Db.call soloDb [soloClaim, .reapExpired 40000 none]) :=
  run_queueShape soloDb_fresh
    (by
      intro job hjob
      obtain rfl : job = plannedJob "job" := List.mem_singleton.mp hjob
      rfl) _

end VerifierCI
