import VerifierCI.Execution.Committing
import VerifierCI.Execution.JobMoves
import VerifierCI.Python.Sorted

/-! # Held or reaped

Four functions compare a lease with the clock. They agree: at a time the
database can write down, a held job is either reaped or can be marked running,
renewed and committed by whoever has its handle, never both and never neither.
-/

namespace VerifierCI

open Python Relational

/-! ## Attempts without evidence -/

structure AttemptRow.Bare (row : AttemptRow) : Prop where
  stdoutHash : row.stdoutHash = none
  stderrHash : row.stderrHash = none
  reportDigest : row.reportDigest = none

/-- An attempt gets its evidence when it is submitted, and is active no longer. -/
def Ledger.ActiveBare (l : Ledger) : Prop :=
  ∀ row ∈ l.attempts, row.disposition = .active → row.Bare

/-- Evidence arrives with the submission that ends an attempt, so what is still active
has none. -/
theorem Ledger.Step.activeBare {l l' : Ledger} (hstep : Ledger.Step l l') (h : l.ActiveBare) :
    l'.ActiveBare := by
  intro row hrow hactive
  rcases hstep with hquiet | ⟨attempt, hcommit⟩
  · cases hquiet with
    | grant workerId expires draw now hpending hfresh =>
        rcases List.mem_append.mp hrow with hold | hnew
        · exact h row hold hactive
        · rw [List.mem_singleton.mp hnew]
          exact ⟨rfl, rfl, rfl⟩
    | cancel => exact h row hrow hactive
    | start => exact h row hrow hactive
    | extend => exact h row hrow hactive
    | quarantine p f hopen hidentity hstale hcheck =>
        rcases of_mem_rewriteRows hrow with ⟨old, _, _, rfl⟩ | ⟨hold, _⟩
        · rw [(hstale old).1] at hactive
          cases hactive
        · exact h row hold hactive
    | reap outcome now hheld houtcome =>
        rcases of_mem_rewriteRows hrow with ⟨old, _, _, rfl⟩ | ⟨hold, _⟩
        · cases hactive
        · exact h row hold hactive
  · cases hcommit with
    | commit finishedAt hheld hcurrent hcheck =>
        rcases of_mem_rewriteRows hrow with ⟨old, _, _, rfl⟩ | ⟨hold, _⟩
        · cases hactive
        · exact h row hold hactive

def Db.ActiveBare (db : Db) : Prop :=
  ∀ row ∈ db.evaluationAttempts, row.disposition = .active → row.Bare

theorem Db.Reachable.activeBare {db : Db} (h : db.Reachable) : db.ActiveBare := by
  have hledgers : ∀ job ∈ db.jobs, (db.ledgerOf job).ActiveBare := by
    induction h with
    | fresh hfresh =>
        intro job _ row hrow
        rw [Db.ledgerOf, attemptsOf_of_fresh hfresh] at hrow
        cases hrow
    | call hdb op ih =>
        exact (call_evolves hdb.queueInv op).keeps (fun _ _ hstep => hstep.activeBare) ih
    | artifacts hdb artifacts ih => exact ih
  intro row hrow hactive
  obtain ⟨job, hjob, _, hmem⟩ := h.queueInv.job_of_attempt hrow
  exact hledgers job hjob row hmem hactive

/-! ## One turn of the reaping loop -/

section Reaping

variable {db : Db} {nowMs : Int} {now : Datetime} {maxAttempts : Option Int}

/-- Does reaping one of the rows abandon the attempt? -/
def AbandonedBy (rows : List Job) (attempt : AttemptRow) : Prop :=
  attempt.disposition = .active ∧ ∃ row ∈ rows, row.attemptId = some attempt.attemptId

instance (rows : List Job) (attempt : AttemptRow) : Decidable (AbandonedBy rows attempt) :=
  inferInstanceAs (Decidable (_ ∧ ∃ row ∈ rows, _))

/-- An active attempt can always be abandoned. It carries no evidence yet, so abandoning it
violates no constraint of its table. -/
theorem reapRow_returns (hinv : QueueInv db) (hbare : db.ActiveBare) (row : Job) :
    reapRow maxAttempts now db row =
      .ok (reapedDb db row (reapedState db row maxAttempts) now) := by
  -- Nothing but the update of the attempt can raise, and the row it writes passes every check.
  have habandoned : ∃ abandoned, abandonAttempt db row.attemptId now = .ok abandoned := by
    unfold abandonAttempt
    split
    · exact ⟨_, rfl⟩
    · exact ⟨_, rfl⟩
    next attemptId _ _ =>
      refine ⟨_, updateAttempts_eq_ok_iff.mpr ⟨⟨?_, ?_⟩, rfl⟩⟩
      · intro attempt hattempt htarget
        simp only [Bool.and_eq_true, decide_eq_true_eq] at htarget
        obtain ⟨job, hjob, _, hmem⟩ := hinv.job_of_attempt hattempt
        have hcheck : attempt.Check := (hinv.of_mem hjob).checks attempt hmem
        obtain ⟨hstdout, hstderr, hreport⟩ := hbare attempt hattempt htarget.2
        refine ⟨?_, hcheck.abandonedRow now, ?_, ?_, ?_⟩
        · rw [htarget.2]
          simp
        · simp [abandonedRow, Db.HasArtifact, hstdout]
        · simp [abandonedRow, Db.HasArtifact, hstderr]
        · simp [abandonedRow, Db.HasArtifact, hreport]
      · have hselect : (db.evaluationAttempts.update (fun other =>
            other.attemptId = attemptId && other.disposition = .active) (abandonedRow now)
              (abandonedRow_attemptId now)).select
              (fun other => other.disposition = .authoritative) =
            db.evaluationAttempts.select fun other => other.disposition = .authoritative := by
          apply Table.select_update_of_not
          intro other _ htarget
          simp only [Bool.and_eq_true, decide_eq_true_eq] at htarget
          simp [htarget.2, abandonedRow]
        rw [AuthorityUnique, hselect]
        exact hinv.authorityUnique
  obtain ⟨abandoned, habandoned⟩ := habandoned
  have hreaped : ∃ reaped, reapRow maxAttempts now db row = .ok reaped :=
    ⟨_, bind_eq_ok.mpr ⟨abandoned, habandoned, rfl⟩⟩
  obtain ⟨reaped, hreaped⟩ := hreaped
  rw [hreaped, reapRow_eq hreaped]

theorem reapedDb_activeBare (hbare : db.ActiveBare) (row : Job)
    (outcome : JobState × Option String) : (reapedDb db row outcome now).ActiveBare := by
  intro attempt hattempt hactive
  have hmem : attempt ∈ db.evaluationAttempts.update (abandonTarget row) (abandonedRow now)
      (abandonedRow_attemptId now) := hattempt
  obtain ⟨old, hold, rfl⟩ := Table.mem_update.mp hmem
  split at hactive
  · cases hactive
  next hkept =>
    rw [if_neg hkept]
    exact hbare old hold hactive

/-! ## The whole loop -/

/-- At a time that can be written down the runs can always be settled. -/
theorem settleRuns_returns (db : Db) (hclock : isoOfMs nowMs = .ok now) (runIds : List String) :
    ∃ db', runIds.foldlM (fun db runId => updateRunState db runId nowMs) db = .ok db' := by
  induction runIds generalizing db with
  | nil => exact ⟨db, rfl⟩
  | cons runId rest ih =>
      obtain ⟨middle, hmiddle⟩ : ∃ middle, updateRunState db runId nowMs = .ok middle :=
        updateRunState_isOk_iff.mpr fun _ => ⟨now, hclock⟩
      obtain ⟨db', hrest⟩ := ih middle
      exact ⟨db', by rw [List.foldlM_cons, bind_eq_ok]; exact ⟨middle, hmiddle, hrest⟩⟩

/-- The row of an attempt after its job, among others, has been reaped. -/
def abandonedBy (rows : List Job) (now : Datetime) (attempt : AttemptRow) : AttemptRow :=
  if AbandonedBy rows attempt then abandonedRow now attempt else attempt

/-- The first row of the loop abandons its attempt, and the others theirs. -/
theorem abandonedBy_cons {row : Job} {rest : List Job} {attempt : AttemptRow}
    (hne : attempt.attemptId ≠ "") : abandonedBy rest now
      (if abandonTarget row attempt then abandonedRow now attempt else attempt) =
        abandonedBy (row :: rest) now attempt := by
  by_cases htarget : abandonTarget row attempt = true
  · simp only [abandonTarget, Bool.and_eq_true, decide_eq_true_eq] at htarget
    have hfirst : AbandonedBy (row :: rest) attempt :=
      ⟨htarget.2, row, List.mem_cons_self, htarget.1.1⟩
    have hrest : ¬ AbandonedBy rest (abandonedRow now attempt) := by
      rintro ⟨hactive, _⟩
      cases hactive
    simp [abandonedBy, abandonTarget, htarget, hfirst, hrest]
  · have hiff : AbandonedBy (row :: rest) attempt ↔ AbandonedBy rest attempt := by
      simp only [abandonTarget, Bool.and_eq_true, decide_eq_true_eq, not_and, and_imp] at htarget
      simp only [AbandonedBy, List.mem_cons, exists_eq_or_imp]
      constructor
      · rintro ⟨hactive, hcurrent | hlater⟩
        · exact absurd hactive (htarget hcurrent hne)
        · exact ⟨hactive, hlater⟩
      · rintro ⟨hactive, hlater⟩
        exact ⟨hactive, Or.inr hlater⟩
    rw [if_neg htarget, abandonedBy, abandonedBy]
    simp only [hiff]

/-- The loop ends, and abandons the active attempts of the rows it releases. -/
theorem reapRows_returns {rows : List Job} (hinv : QueueInv db) (hbare : db.ActiveBare)
    (hnodup : (rows.map Job.jobId).Nodup)
    (hrows : ∀ row ∈ rows, db.jobs.find? row.jobId = some row ∧ row.state.isHeld = true) :
    ∃ released, rows.foldlM (reapRow maxAttempts now) db = .ok released ∧
      released.evaluationAttempts.rows = db.evaluationAttempts.rows.map (abandonedBy rows now) := by
  induction rows generalizing db with
  | nil =>
      refine ⟨db, rfl, ?_⟩
      have hself : ∀ attempt : AttemptRow, abandonedBy [] now attempt = attempt := by
        intro attempt
        simp [abandonedBy, AbandonedBy]
      rw [List.map_congr_left fun attempt _ => hself attempt, List.map_id']
  | cons row rest ih =>
      obtain ⟨hrow, hheld⟩ := hrows row List.mem_cons_self
      rw [List.map_cons, List.nodup_cons] at hnodup
      have hmiddle : QueueInv (reapedDb db row (reapedState db row maxAttempts) now) :=
        (reapedDb_evolves hinv hrow hheld
          (reapedState_cases db row maxAttempts)).step.queueInv hinv
      -- The rows still to come are untouched, so the induction can go on from here.
      have hsame : ∀ other ∈ rest, (reapedDb db row (reapedState db row maxAttempts)
          now).jobs.find? other.jobId = some other ∧ other.state.isHeld = true := by
        intro other hother
        obtain ⟨hfind, hotherHeld⟩ := hrows other (List.mem_cons_of_mem row hother)
        refine ⟨reapedDb_find?_of_ne ?_ hfind, hotherHeld⟩
        intro heq
        exact hnodup.1 (heq ▸ List.mem_map_of_mem hother)
      obtain ⟨released, hreleased, hattempts⟩ :=
        ih hmiddle (reapedDb_activeBare hbare row _) hnodup.2 hsame
      refine ⟨released, ?_, ?_⟩
      · rw [List.foldlM_cons, bind_eq_ok]
        exact ⟨_, reapRow_returns hinv hbare row, hreleased⟩
      · rw [hattempts]
        simp only [reapedDb, Table.update, List.map_map]
        apply List.map_congr_left
        intro attempt hattempt
        obtain ⟨job, hjob, _, hmem⟩ := hinv.job_of_attempt hattempt
        exact abandonedBy_cons ((hinv.of_mem hjob).numbered.ids_ne attempt hmem)

/-- At a time that can be written down a reap returns the expired jobs. -/
theorem reapExpired_returns (maxAttempts : Option Int) (hinv : QueueInv db) (hbare : db.ActiveBare)
    (hclock : isoOfMs nowMs = .ok now) :
    (reapExpired db nowMs maxAttempts).1 = .ok ((expiredRows db nowMs).map Job.jobId) ∧
      (reapExpired db nowMs maxAttempts).2.evaluationAttempts.rows =
        db.evaluationAttempts.rows.map (abandonedBy (expiredRows db nowMs) now) := by
  have hrows : ∀ row ∈ expiredRows db nowMs,
      db.jobs.find? row.jobId = some row ∧ row.state.isHeld = true := by
    intro row hrow
    obtain ⟨hmem, hheld, _⟩ := mem_expiredRows.mp hrow
    exact ⟨Table.find?_of_mem hmem, hheld⟩
  obtain ⟨released, hreleased, hattempts⟩ :=
    reapRows_returns hinv hbare (expiredRows_nodup db nowMs) hrows
  obtain ⟨db', hsettled⟩ := settleRuns_returns released hclock
    ((expiredRows db nowMs).map Job.runId).dedup
  have hreap : reapExpired db nowMs maxAttempts =
      (.ok ((expiredRows db nowMs).map Job.jobId), db') := by
    refine transaction_ok ?_
    refine bind_eq_ok_unit.mpr ⟨bindInteger_of_clock hclock, ?_⟩
    exact bind_eq_ok.mpr ⟨now, hclock, bind_eq_ok.mpr ⟨released, hreleased,
      bind_eq_ok.mpr ⟨db', hsettled, rfl⟩⟩⟩
  rw [hreap]
  refine ⟨rfl, ?_⟩
  obtain ⟨runs, rfl⟩ := settleRuns_ok hsettled
  exact hattempts

/-- The ids a reap returns are those of the held jobs whose lease has lapsed, by the same test
that `mark_running`, `heartbeat` and `complete` make. -/
theorem mem_expiredIds (hinv : QueueInv db) {jobId : String} :
    jobId ∈ (expiredRows db nowMs).map Job.jobId ↔ ∃ row ∈ db.jobs, row.jobId = jobId ∧
      row.state.isHeld = true ∧ leaseExpired row nowMs = true := by
  rw [List.mem_map]
  constructor
  · rintro ⟨row, hrow, hid⟩
    obtain ⟨hmem, hheld, _, hexpired⟩ := mem_expiredRows.mp hrow
    exact ⟨row, hmem, hid, hheld, hexpired⟩
  · rintro ⟨row, hmem, hid, hheld, hexpired⟩
    have hlease := ((hinv.of_mem hmem).held hheld).2.2.1
    exact ⟨row, mem_expiredRows.mpr ⟨hmem, hheld, hlease, hexpired⟩, hid⟩

/-- The SELECT orders by `job_id`, which is a key. -/
theorem expiredIds_increasing (db : Db) (nowMs : Int) :
    ((expiredRows db nowMs).map Job.jobId).Pairwise (· < ·) := by
  have hsorted : ((expiredRows db nowMs).map Job.jobId).Pairwise (· ≤ ·) := by
    rw [List.pairwise_map]
    exact pairwise_sorted (fun _ _ => Iff.rfl) _
  have hboth := hsorted.and (expiredRows_nodup db nowMs)
  exact hboth.imp fun h => lt_of_le_of_ne h.1 h.2

/-- The attempts a reap abandons are the active ones of the jobs it returns. -/
theorem abandonedBy_expired (hinv : QueueInv db) {attempt : AttemptRow}
    (hattempt : attempt ∈ db.evaluationAttempts) :
    AbandonedBy (expiredRows db nowMs) attempt ↔ attempt.disposition = .active ∧
      attempt.jobId ∈ (expiredRows db nowMs).map Job.jobId := by
  refine and_congr_right fun hactive => ?_
  obtain ⟨job, hjob, hid, hmem⟩ := hinv.job_of_attempt hattempt
  have hcurrent : job.attemptId = some attempt.attemptId :=
    ((hinv.of_mem hjob).active attempt hmem hactive).2.2.2
  constructor
  · rintro ⟨row, hrow, hrowAttempt⟩
    obtain ⟨hrowMem, hheld, _, _⟩ := mem_expiredRows.mp hrow
    obtain ⟨_, _, _, stored, hstored, hstoredId, _⟩ := (hinv.of_mem hrowMem).held hheld
    obtain ⟨hstoredMem, hstoredJob⟩ := mem_ledgerOf.mp hstored
    obtain rfl : stored = attempt := Table.eq_of_key_eq hstoredMem hattempt
      (Option.some.inj (hstoredId.symm.trans hrowAttempt))
    exact List.mem_map.mpr ⟨row, hrow, hstoredJob.symm⟩
  · intro hreaped
    obtain ⟨row, hrow, hrowId⟩ := List.mem_map.mp hreaped
    obtain ⟨hrowMem, _⟩ := mem_expiredRows.mp hrow
    obtain rfl := Table.eq_of_key_eq hrowMem hjob (hrowId.trans hid.symm)
    exact ⟨row, hrow, hcurrent⟩

/-- The effect of a reap that returns `ids`: the held jobs whose lease has
lapsed, in order, lose their lease and their active attempt, and every other row
of `jobs` and `evaluation_attempts` stays. -/
structure Reaped (db db' : Db) (nowMs : Int) (now : Datetime) (ids : List String) : Prop where
  increasing : ids.Pairwise (· < ·)
  mem_iff : ∀ jobId, jobId ∈ ids ↔ ∃ row ∈ db.jobs, row.jobId = jobId ∧
    row.state.isHeld = true ∧ leaseExpired row nowMs = true
  released : ∀ row ∈ db.jobs, row.jobId ∈ ids → ∃ outcome : JobState × Option String,
    (outcome.1 = .pending ∨ outcome.1 = .failed) ∧
      db'.jobs.find? row.jobId = some (releasedRow outcome row)
  kept : ∀ row ∈ db.jobs, row.jobId ∉ ids → db'.jobs.find? row.jobId = some row
  added : ∀ row' ∈ db'.jobs, ∃ row ∈ db.jobs, row.jobId = row'.jobId
  attempts : db'.evaluationAttempts.rows = db.evaluationAttempts.rows.map fun attempt =>
    if attempt.disposition = .active ∧ attempt.jobId ∈ ids then abandonedRow now attempt
    else attempt

/-- Each expired row is rewritten once; the attempt that goes with it is the active one of its
job. -/
theorem reapExpired_reaped (hinv : QueueInv db) (hbare : db.ActiveBare)
    (hclock : isoOfMs nowMs = .ok now) :
    Reaped db (reapExpired db nowMs maxAttempts).2 nowMs now
      ((expiredRows db nowMs).map Job.jobId) := by
  obtain ⟨hreturned, hattempts⟩ := reapExpired_returns maxAttempts hinv hbare hclock
  refine ⟨expiredIds_increasing db nowMs, fun _ => mem_expiredIds hinv, ?_, ?_, ?_, ?_⟩
  · intro row hrow hid
    exact ⟨_, reapedState_cases db row maxAttempts, reapExpired_row hreturned hrow hid⟩
  · intro row hrow hid
    exact reapExpired_kept hreturned hrow hid
  · intro row' hrow'
    obtain ⟨row, hrow⟩ := (call_moves db (.reapExpired nowMs maxAttempts)).origin row'.jobId row'
      (Table.find?_of_mem hrow')
    exact ⟨row, Table.mem_of_find? hrow, Table.key_of_find? hrow⟩
  · rw [hattempts]
    apply List.map_congr_left
    intro attempt hattempt
    rw [abandonedBy]
    simp only [abandonedBy_expired hinv hattempt]

end Reaping

/-! ## Held or reaped -/

/-- The handle names the job and carries its current lease. -/
structure CurrentHandle (row handle : Job) : Prop where
  jobId : handle.jobId = row.jobId
  fence : handle.fence = row.fence
  leaseToken : handle.leaseToken = row.leaseToken
  workerId : handle.workerId = row.workerId
  attemptId : handle.attemptId = row.attemptId

/-- With the handle the job can be marked running, renewed for any time that
fits its column, and committed with any result the database accepts. -/
structure HoldsLease (db : Db) (handle : Job) (nowMs : Int) : Prop where
  markRunning : ∃ job, (markRunning db handle nowMs).1 = .ok job
  heartbeat : ∀ extensionMs, minInteger ≤ nowMs + extensionMs → nowMs + extensionMs ≤ maxInteger →
    ∃ job, (heartbeat db handle nowMs extensionMs).1 = .ok job
  complete : ∀ attempt, Submits handle attempt → attempt.Gradable db nowMs →
    (complete db handle attempt nowMs).1 = .ok .committed

section Boundary

variable {db : Db} {row handle : Job} {nowMs : Int}

/-- The current handle holds the lease exactly while it has not lapsed. -/
theorem holdsLease_iff (hinv : QueueInv db) (hrow : row ∈ db.jobs)
    (hheld : row.state.isHeld = true) (hcurrent : CurrentHandle row handle) :
    HoldsLease db handle nowMs ↔ leaseExpired row nowMs = false := by
  have hfind : db.jobs.find? handle.jobId = some row := by
    rw [hcurrent.jobId]
    exact Table.find?_of_mem hrow
  constructor
  · rintro ⟨⟨job, hrunning⟩, _, _⟩
    rcases markRunning_cases db handle nowMs with ⟨row', hrow', hlive, _⟩ | ⟨exc, _, heq⟩
    · obtain rfl := Option.some.inj (hfind.symm.trans hrow')
      exact hlive.expires
    · rw [heq] at hrunning
      cases hrunning
  · intro hexpires
    have hlive : LiveHandle row handle nowMs :=
      ⟨hcurrent.fence.symm, hcurrent.leaseToken.symm, fun _ => hcurrent.workerId.symm,
        fun _ => hcurrent.attemptId.symm, hexpires, hheld⟩
    refine ⟨?_, ?_, fun attempt hsubmits h => complete_of_live hinv hfind hlive hsubmits h⟩
    · rw [markRunning_of_live hfind hlive]
      exact ⟨_, rfl⟩
    · intro extensionMs hmin hmax
      rw [heartbeat_of_live hfind hlive ⟨hmin, hmax⟩]
      exact ⟨_, rfl⟩

/-- In a reachable queue a reap at a time that can be written down returns, and
a held job is reaped or its handle still holds the lease, but not both. -/
theorem held_or_reaped (h : db.Reachable) {now : Datetime} (hclock : isoOfMs nowMs = .ok now)
    (maxAttempts : Option Int) :
    ∃ ids, (reapExpired db nowMs maxAttempts).1 = .ok ids ∧
      Reaped db (reapExpired db nowMs maxAttempts).2 nowMs now ids ∧
      ∀ row ∈ db.jobs, row.state.isHeld = true → ∀ handle, CurrentHandle row handle →
        Xor (row.jobId ∈ ids) (HoldsLease db handle nowMs) := by
  have hinv := h.queueInv
  refine ⟨_, (reapExpired_returns _ hinv h.activeBare hclock).1,
    reapExpired_reaped hinv h.activeBare hclock, ?_⟩
  intro row hrow hheld handle hcurrent
  rw [holdsLease_iff hinv hrow hheld hcurrent, mem_expiredIds hinv]
  cases hexpired : leaseExpired row nowMs with
  | true => exact Or.inl ⟨⟨row, hrow, rfl, hheld, hexpired⟩, nofun⟩
  | false =>
      refine Or.inr ⟨rfl, ?_⟩
      rintro ⟨other, hother, hid, _, hlapsed⟩
      obtain rfl := Table.eq_of_key_eq hother hrow hid
      rw [hexpired] at hlapsed
      cases hlapsed

end Boundary

theorem soloClaimed_reachable : (soloDb.call soloClaim).Reachable :=
  (Db.Reachable.fresh soloDb_fresh).call soloClaim

theorem soloHandle_current : CurrentHandle soloHandle soloHandle :=
  ⟨rfl, rfl, rfl, rfl, rfl⟩

theorem soloHandle_mem : soloHandle ∈ (soloDb.call soloClaim).jobs := by
  have hfind : (soloDb.call soloClaim).jobs.find? "job" = some soloHandle := rfl
  exact Table.mem_of_find? hfind

/-- The lease of the one job ran until 30000; at 40000 it is reaped. -/
theorem held_or_reaped_solo : ∃ now, isoOfMs 40000 = .ok now ∧
    ∃ ids, (reapExpired (soloDb.call soloClaim) 40000 none).1 = .ok ids ∧
      Reaped (soloDb.call soloClaim) (reapExpired (soloDb.call soloClaim) 40000 none).2 40000 now
        ids ∧
      ∀ row ∈ (soloDb.call soloClaim).jobs, row.state.isHeld = true → ∀ handle,
        CurrentHandle row handle →
          Xor (row.jobId ∈ ids) (HoldsLease (soloDb.call soloClaim) handle 40000) :=
  ⟨_, rfl, held_or_reaped soloClaimed_reachable rfl none⟩

/-- At a time that is no date the reap raises, and the lease, which has lapsed,
is not held either. -/
theorem neither_held_nor_reaped : soloHandle ∈ (soloDb.call soloClaim).jobs ∧
    soloHandle.state.isHeld = true ∧ CurrentHandle soloHandle soloHandle ∧
      (reapExpired (soloDb.call soloClaim) 1000000000000000000 none).1 = .error .valueError ∧
      ¬ HoldsLease (soloDb.call soloClaim) soloHandle 1000000000000000000 := by
  refine ⟨soloHandle_mem, rfl, soloHandle_current, rfl, ?_⟩
  rw [holdsLease_iff soloClaimed_reachable.queueInv soloHandle_mem rfl soloHandle_current]
  decide

end VerifierCI
