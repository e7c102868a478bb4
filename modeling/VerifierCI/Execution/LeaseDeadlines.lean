import VerifierCI.Execution.ClaimSearch
import VerifierCI.Execution.LeaseBoundary

/-! # Are leases only ever extended?

A heartbeat computes the new deadline from the clock and the extension it is
given, not from the deadline that is stored. Leases are only ever extended in
the runs in which no successful heartbeat asks for less than it has.
-/

namespace VerifierCI

open Python Relational Transition

/-- The lease of the second row runs at least as long as that of the first. -/
def Job.LeaseLe (row row' : Job) : Prop :=
  ∀ old ∈ row.leaseExpiresMs, ∃ new ∈ row'.leaseExpiresMs, old ≤ new

theorem Job.LeaseLe.of_eq {row row' : Job} (h : row'.leaseExpiresMs = row.leaseExpiresMs) :
    row.LeaseLe row' :=
  fun old hold => ⟨old, h ▸ hold, le_rfl⟩

theorem Job.LeaseLe.trans {row row' row'' : Job} (first : row.LeaseLe row')
    (second : row'.LeaseLe row'') : row.LeaseLe row'' := by
  intro old hold
  obtain ⟨middle, hmiddle, hfirst⟩ := first old hold
  obtain ⟨new, hnew, hsecond⟩ := second middle hmiddle
  exact ⟨new, hnew, hfirst.trans hsecond⟩

/-- The heartbeat shortens no lease: the job's deadline does not move back, and
no job that would not be reaped before it is reaped after it. -/
structure Db.Extends (db : Db) (job : Job) (nowMs extensionMs : Int) : Prop where
  deadline : ∀ row row', db.jobs.find? job.jobId = some row →
    (heartbeat db job nowMs extensionMs).2.jobs.find? job.jobId = some row' → row.LeaseLe row'
  unreaped : ∀ later maxAttempts ids ids', (reapExpired db later maxAttempts).1 = .ok ids →
    (reapExpired (heartbeat db job nowMs extensionMs).2 later maxAttempts).1 = .ok ids' →
      ∀ jobId, jobId ∉ ids → jobId ∉ ids'

/-- A call of `heartbeat` that succeeds shortens no lease. -/
def Db.KeepsLeases (db : Db) : Operation → Prop
  | .heartbeat job nowMs extensionMs =>
      (∃ handle, (heartbeat db job nowMs extensionMs).1 = .ok handle) →
        db.Extends job nowMs extensionMs
  | _ => True

/-- A heartbeat under a live lease asks for no earlier deadline than the stored
one, if the deadline it asks for fits its column. -/
def Db.Renews (db : Db) : Operation → Prop
  | .heartbeat job nowMs extensionMs => ∀ row, db.jobs.find? job.jobId = some row →
      LiveHandle row job nowMs →
        minInteger ≤ nowMs + extensionMs ∧ nowMs + extensionMs ≤ maxInteger →
          ∀ old ∈ row.leaseExpiresMs, old ≤ nowMs + extensionMs
  | _ => True

def Db.Holds (db : Db) (jobId : String) : Prop :=
  ∃ row, db.jobs.find? jobId = some row ∧ row.state.isHeld = true

/-- The job is claimed or running in every state of the run. -/
def HeldThrough (jobId : String) : Db → List Operation → Prop
  | db, [] => db.Holds jobId
  | db, op :: rest => db.Holds jobId ∧ HeldThrough jobId (db.call op) rest

/-- Over a run, heartbeats shorten no lease, and while a job stays claimed or
running its deadline does not decrease. -/
structure LeasesExtended (db : Db) (ops : List Operation) : Prop where
  calls : Admits Db.call Db.KeepsLeases db ops
  deadlines : ∀ first held last, ops = first ++ held ++ last → ∀ jobId,
    HeldThrough jobId (run Db.call db first) held → ∀ row row',
      (run Db.call db first).jobs.find? jobId = some row →
      (run Db.call db (first ++ held)).jobs.find? jobId = some row' → row.LeaseLe row'

/-! ## Calls that renew nothing -/

section Calls

variable {db : Db} {row row' : Job}

theorem not_pending_of_held {state : JobState} (hheld : state.isHeld = true) :
    state ≠ .pending := by
  rintro rfl
  cases hheld

/-- A claim writes to pending jobs only, so the row of a held one stays as it is. -/
theorem claim_keeps_held (hrow : row ∈ db.jobs) (hheld : row.state.isHeld = true)
    (workerId : String) (nowMs : Int) (runId : Option String) (leaseDurationMs : Int)
    (draw : Draw) :
    (claim db workerId nowMs runId leaseDurationMs draw).2.jobs.find? row.jobId = some row := by
  rcases claimEffect_or_unchanged db workerId nowMs runId leaseDurationMs draw with
    ⟨next, heffect⟩ | hsame
  · refine heffect.kept row hrow ?_ ?_
    · intro hnext
      exact not_pending_of_held hheld (heffect.found.claimable row hnext).pending
    · intro hswept
      exact not_pending_of_held hheld hswept.pending
  · rw [hsame]
    exact Table.find?_of_mem hrow

/-- A cancellation fails pending jobs only. -/
theorem requestCancel_keeps_held (hrow : row ∈ db.jobs) (hheld : row.state.isHeld = true)
    (runId : String) (nowMs : Int) :
    (requestCancel db runId nowMs).2.jobs.find? row.jobId = some row := by
  rcases requestCancel_cases db runId nowMs with ⟨db', hclosed, heq⟩ | ⟨exc, heq⟩
  · rw [heq]
    obtain ⟨runs, rfl, _⟩ := updateRunState_ok hclosed
    have hflagged : row ∈ (db.updateRun runId cancelledRun cancelledRun_runId).jobs := hrow
    have hkept := failPending_find? runId hflagged
    rw [if_neg fun h => not_pending_of_held hheld h.2] at hkept
    exact hkept
  · rw [heq]
    exact Table.find?_of_mem hrow

/-- A completion leaves a held job alone, or finishes it. -/
theorem complete_keeps_held (hrow : row ∈ db.jobs) (job : Job) (attempt : EvaluationAttempt)
    (nowMs : Int) (hrow' : (complete db job attempt nowMs).2.jobs.find? row.jobId = some row')
    (hheld' : row'.state.isHeld = true) : row' = row := by
  have hfind := Table.find?_of_mem hrow
  rcases complete_spec db job attempt nowMs with
    ⟨_, now, _, heq⟩ | ⟨hcommits, finishedAt, db', _, hrun, heq⟩ | ⟨result, heq, _⟩
  · rw [heq] at hrow'
    exact Option.some.inj (hrow'.symm.trans hfind)
  · rw [heq] at hrow'
    obtain ⟨runs, rfl, _⟩ := updateRunState_ok hrun
    by_cases hid : row.jobId = job.jobId
    · have hfinished : (committedDb db job attempt finishedAt).jobs.find? row.jobId =
          some (finishedRow attempt row) := by
        rw [committedDb, updateJobs_jobs, Table.find?_update, hfind]
        simp [hid]
      obtain rfl := Option.some.inj (hrow'.symm.trans hfinished)
      have hover := terminalOf_finished attempt
      rcases JobState.isFinished_iff.mp hover with hstate | hstate
      · rw [finishedRow, hstate] at hheld'
        cases hheld'
      · rw [finishedRow, hstate] at hheld'
        cases hheld'
    · have hkept : (committedDb db job attempt finishedAt).jobs.find? row.jobId = some row :=
        committedDb_find?_of_ne hrow hid
      exact Option.some.inj (hrow'.symm.trans hkept)
  · rw [heq] at hrow'
    exact Option.some.inj (hrow'.symm.trans hfind)

/-- A reap leaves a held job alone, or releases it. -/
theorem reapExpired_keeps_held (hrow : row ∈ db.jobs) (nowMs : Int) (maxAttempts : Option Int)
    (hrow' : (reapExpired db nowMs maxAttempts).2.jobs.find? row.jobId = some row')
    (hheld' : row'.state.isHeld = true) : row' = row := by
  cases hreap : (reapExpired db nowMs maxAttempts).1 with
  | error exc =>
      rcases reapExpired_cases db nowMs maxAttempts with ⟨_, _, _, _, _, heq⟩ | ⟨_, heq⟩
      · rw [heq] at hreap
        cases hreap
      · rw [heq] at hrow'
        exact Option.some.inj (hrow'.symm.trans (Table.find?_of_mem hrow))
  | ok ids =>
      by_cases hid : row.jobId ∈ ids
      · obtain rfl := Option.some.inj (hrow'.symm.trans (reapExpired_row hreap hrow hid))
        rcases reapedState_cases db row maxAttempts with hstate | hstate
        · rw [releasedRow, hstate] at hheld'
          cases hheld'
        · rw [releasedRow, hstate] at hheld'
          cases hheld'
      · exact Option.some.inj (hrow'.symm.trans (reapExpired_kept hreap hrow hid))

/-- Putting a job into running keeps its deadline, whoever asks. -/
theorem markRunning_leaseExpiresMs (hrow : row ∈ db.jobs) (job : Job) (nowMs : Int)
    (hrow' : (markRunning db job nowMs).2.jobs.find? row.jobId = some row') :
    row'.leaseExpiresMs = row.leaseExpiresMs := by
  have hfind := Table.find?_of_mem hrow
  rcases markRunning_cases db job nowMs with ⟨target, htarget, _, heq⟩ | ⟨exc, _, heq⟩
  · rw [heq] at hrow'
    by_cases hid : row.jobId = job.jobId
    · have hrunning : (runningDb db target job).jobs.find? row.jobId = some row' := hrow'
      unfold runningDb at hrunning
      split at hrunning
      · rw [updateJobs_jobs, Table.find?_update, hfind] at hrunning
        obtain rfl := Option.some.inj hrunning
        dsimp only
        split <;> rfl
      · rw [hfind] at hrunning
        exact congrArg Job.leaseExpiresMs (Option.some.inj hrunning).symm
    · rw [runningDb_find?_of_ne hrow hid] at hrow'
      exact congrArg Job.leaseExpiresMs (Option.some.inj hrow').symm
  · rw [heq, hfind] at hrow'
    exact congrArg Job.leaseExpiresMs (Option.some.inj hrow').symm

theorem heartbeat_fits {job handle : Job} {nowMs extensionMs : Int}
    (hrow : db.jobs.find? job.jobId = some row) (hlive : LiveHandle row job nowMs)
    (h : (heartbeat db job nowMs extensionMs).1 = .ok handle) :
    minInteger ≤ nowMs + extensionMs ∧ nowMs + extensionMs ≤ maxInteger := by
  by_contra hnot
  have hbind : ¬ ∀ n ∈ some (nowMs + extensionMs), minInteger ≤ n ∧ n ≤ maxInteger :=
    fun hfits => hnot (hfits _ rfl)
  have herror : heartbeat db job nowMs extensionMs = (.error .overflowError, db) := by
    refine transaction_error ?_
    simp only [heldRow_of_live hrow hlive, bindInteger, if_neg hbind]
    rfl
  rw [herror] at h
  cases h

/-- The row of a job after a successful heartbeat. -/
theorem extendedDb_row {job : Job} {expires : Int} (hrow : row ∈ db.jobs) :
    (extendedDb db job expires).jobs.find? row.jobId =
      some (if row.jobId = job.jobId then extendedRow expires row else row) := by
  rw [extendedDb, updateJobs_jobs, Table.find?_update, Table.find?_of_mem hrow]
  simp

/-- A renewing heartbeat shortens no lease. -/
theorem heartbeat_leaseLe {job : Job} {nowMs extensionMs : Int}
    (hrenews : db.Renews (.heartbeat job nowMs extensionMs)) (hrow : row ∈ db.jobs)
    (hrow' : (heartbeat db job nowMs extensionMs).2.jobs.find? row.jobId = some row') :
    row.LeaseLe row' ∧ (row'.state = row.state ∧ row'.jobId = row.jobId) := by
  have hunchanged : db.jobs.find? row.jobId = some row' →
      row.LeaseLe row' ∧ (row'.state = row.state ∧ row'.jobId = row.jobId) := by
    intro hsame
    obtain rfl := Option.some.inj (hsame.symm.trans (Table.find?_of_mem hrow))
    exact ⟨.of_eq rfl, rfl, rfl⟩
  rcases heartbeat_cases db job nowMs extensionMs with
    ⟨target, htarget, hlive, heq⟩ | ⟨_, _, _, heq⟩ | ⟨_, _, heq⟩
  · rw [heq] at hrow'
    obtain rfl := Option.some.inj ((extendedDb_row hrow).symm.trans hrow')
    split
    next hid =>
      obtain rfl := Option.some.inj (htarget.symm.trans (hid ▸ Table.find?_of_mem hrow))
      refine ⟨?_, rfl, rfl⟩
      intro old hold
      have hfits := heartbeat_fits htarget hlive (congrArg Prod.fst heq)
      exact ⟨nowMs + extensionMs, rfl, hrenews target htarget hlive hfits old hold⟩
    next => exact ⟨.of_eq rfl, rfl, rfl⟩
  · rw [heq] at hrow'
    exact hunchanged hrow'
  · rw [heq] at hrow'
    exact hunchanged hrow'

/-- In a call that renews, a job that is held before and after keeps its lease. -/
theorem call_leaseLe {op : Operation} (hrenews : db.Renews op) (hrow : row ∈ db.jobs)
    (hheld : row.state.isHeld = true) (hrow' : (db.call op).jobs.find? row.jobId = some row')
    (hheld' : row'.state.isHeld = true) : row.LeaseLe row' := by
  have hsame : row' = row → row.LeaseLe row' := fun h => .of_eq (congrArg Job.leaseExpiresMs h)
  cases op with
  | claim workerId nowMs runId leaseDurationMs draw =>
      have hkept := claim_keeps_held hrow hheld workerId nowMs runId leaseDurationMs draw
      exact hsame (Option.some.inj (hrow'.symm.trans hkept))
  | markRunning job nowMs => exact .of_eq (markRunning_leaseExpiresMs hrow job nowMs hrow')
  | heartbeat job nowMs extensionMs => exact (heartbeat_leaseLe hrenews hrow hrow').1
  | complete job attempt nowMs =>
      exact hsame (complete_keeps_held hrow job attempt nowMs hrow' hheld')
  | reapExpired nowMs maxAttempts =>
      exact hsame (reapExpired_keeps_held hrow nowMs maxAttempts hrow' hheld')
  | requestCancel runId nowMs =>
      have hkept := requestCancel_keeps_held hrow hheld runId nowMs
      exact hsame (Option.some.inj (hrow'.symm.trans hkept))
  | getJob jobId => exact hsame (Option.some.inj (hrow'.symm.trans (Table.find?_of_mem hrow)))

/-! ## Heartbeats -/

theorem reapExpired_ids {later : Int} {maxAttempts : Option Int} {ids : List String}
    (h : (reapExpired db later maxAttempts).1 = .ok ids) :
    ids = (expiredRows db later).map Job.jobId := by
  rcases reapExpired_cases db later maxAttempts with ⟨_, _, _, _, _, heq⟩ | ⟨_, heq⟩
  · rw [heq] at h
    exact (Except.ok.inj h).symm
  · rw [heq] at h
    cases h

/-- A lease that runs longer lapses later. -/
theorem Job.LeaseLe.leaseExpired (h : row.LeaseLe row') (hlease : row.leaseExpiresMs.isSome = true)
    {later : Int} (hexpired : leaseExpired row' later = true) : leaseExpired row later = true := by
  obtain ⟨old, hold⟩ := Option.isSome_iff_exists.mp hlease
  obtain ⟨new, hnew, hle⟩ := h old hold
  rw [Option.mem_def] at hnew
  simp only [VerifierCI.leaseExpired, hnew, decide_eq_true_eq] at hexpired
  simp only [VerifierCI.leaseExpired, hold, decide_eq_true_eq]
  exact hle.trans hexpired

/-- Where the new deadline is not earlier, the deadline does not move back and no lease lapses
sooner. -/
theorem Db.Renews.extends (hinv : QueueInv db) {job : Job} {nowMs extensionMs : Int}
    (h : db.Renews (.heartbeat job nowMs extensionMs)) : db.Extends job nowMs extensionMs where
  deadline := by
    intro row row' hrow hrow'
    have hid : row.jobId = job.jobId := Table.key_of_find? hrow
    exact (heartbeat_leaseLe h (Table.mem_of_find? hrow) (hid ▸ hrow')).1
  unreaped := by
    intro later maxAttempts ids ids' hreap hreap' jobId hnot hmem
    have hinv' : QueueInv (heartbeat db job nowMs extensionMs).2 :=
      call_queueInv hinv (.heartbeat job nowMs extensionMs)
    rw [reapExpired_ids hreap', mem_expiredIds hinv'] at hmem
    obtain ⟨row', hrow', rfl, hheld', hexpired⟩ := hmem
    obtain ⟨row, hfind⟩ := (call_moves db (.heartbeat job nowMs extensionMs)).origin row'.jobId
      row' (Table.find?_of_mem hrow')
    have hid : row.jobId = row'.jobId := Table.key_of_find? hfind
    have hrow := Table.mem_of_find? hfind
    obtain ⟨hle, hstate, _⟩ := heartbeat_leaseLe h hrow (hid ▸ Table.find?_of_mem hrow')
    have hheld : row.state.isHeld = true := hstate ▸ hheld'
    refine hnot ?_
    rw [reapExpired_ids hreap, mem_expiredIds hinv]
    exact ⟨row, hrow, hid, hheld, hle.leaseExpired ((hinv.of_mem hrow).held hheld).2.2.1 hexpired⟩

/-- A heartbeat that went through and shortened nothing asked for no earlier deadline, as the
row shows. -/
theorem Db.Extends.renews {job : Job} {nowMs extensionMs : Int}
    (h : (∃ handle, (heartbeat db job nowMs extensionMs).1 = .ok handle) →
      db.Extends job nowMs extensionMs) : db.Renews (.heartbeat job nowMs extensionMs) := by
  intro row hrow hlive hfits old hold
  have hok := heartbeat_of_live hrow hlive hfits
  have hid : row.jobId = job.jobId := Table.key_of_find? hrow
  have hextended : (heartbeat db job nowMs extensionMs).2.jobs.find? job.jobId =
      some (extendedRow (nowMs + extensionMs) row) := by
    rw [hok, ← hid, extendedDb_row (Table.mem_of_find? hrow), if_pos hid]
  obtain ⟨new, hnew, hle⟩ :=
    (h ⟨_, congrArg Prod.fst hok⟩).deadline row _ hrow hextended old hold
  obtain rfl := Option.some.inj hnew
  exact hle

theorem keepsLeases_iff (hinv : QueueInv db) (op : Operation) :
    db.KeepsLeases op ↔ db.Renews op := by
  cases op with
  | heartbeat job nowMs extensionMs =>
      exact ⟨Db.Extends.renews, fun h _ => Db.Renews.extends hinv h⟩
  | _ => exact Iff.rfl

end Calls

/-! ## Runs -/

theorem HeldThrough.holds {db : Db} {jobId : String} {ops : List Operation}
    (h : HeldThrough jobId db ops) : db.Holds jobId := by
  cases ops with
  | nil => exact h
  | cons op rest => exact h.1

/-- While a job is held, a run that renews does not shorten its lease. -/
theorem run_leaseLe {db : Db} {jobId : String} {ops : List Operation} {row row' : Job}
    (hrenews : Admits Db.call Db.Renews db ops) (hheld : HeldThrough jobId db ops)
    (hrow : db.jobs.find? jobId = some row)
    (hrow' : (run Db.call db ops).jobs.find? jobId = some row') : row.LeaseLe row' := by
  induction ops generalizing db row with
  | nil =>
      obtain rfl := Option.some.inj (hrow.symm.trans hrow')
      exact .of_eq rfl
  | cons op rest ih =>
      obtain ⟨⟨held, hfind, hstate⟩, hrest⟩ := hheld
      obtain rfl := Option.some.inj (hrow.symm.trans hfind)
      obtain ⟨middle, hmiddle, hmiddleHeld⟩ := hrest.holds
      have hid : row.jobId = jobId := Table.key_of_find? hrow
      have hfirst : row.LeaseLe middle := call_leaseLe hrenews.1 (Table.mem_of_find? hrow) hstate
        (hid ▸ hmiddle) hmiddleHeld
      exact hfirst.trans (ih hrenews.2 hrest hmiddle hrow')

/-- In a run of a reachable queue leases are only ever extended exactly if every
heartbeat under a live lease asks for no less than is stored. -/
theorem leasesExtended_iff {db : Db} (h : db.Reachable) (ops : List Operation) :
    LeasesExtended db ops ↔ Admits Db.call Db.Renews db ops := by
  have hcalls : Admits Db.call Db.KeepsLeases db ops ↔ Admits Db.call Db.Renews db ops :=
    Admits.congr (fun s => QueueInv s) (fun _ op hinv => call_queueInv hinv op)
      (fun _ op hinv => keepsLeases_iff hinv op) h.queueInv ops
  constructor
  · intro hextended
    exact hcalls.mp hextended.calls
  · intro hrenews
    refine ⟨hcalls.mpr hrenews, ?_⟩
    rintro first held last rfl jobId hheld row row' hrow hrow'
    rw [run_append] at hrow'
    exact run_leaseLe hrenews.append.1.append.2 hheld hrow hrow'

/-- A heartbeat at once after the claim that asks for one millisecond. -/
def shortHeartbeat : List Operation :=
  [soloClaim, .heartbeat soloHandle 0 1]

/-- The only heartbeat asks for an earlier deadline than the claim has set. -/
theorem leasesExtended_iff_solo : LeasesExtended soloDb shortHeartbeat ↔
    Admits Db.call Db.Renews soloDb shortHeartbeat :=
  leasesExtended_iff (.fresh soloDb_fresh) shortHeartbeat

/-- The short heartbeat succeeds and takes the deadline from 30000 to 1, so that a reap finds
the lease lapsed which it would have spared before. -/
theorem lease_shortened : ¬ LeasesExtended soloDb shortHeartbeat := by
  intro h
  obtain ⟨_, hkeeps, _⟩ := h.calls
  have hextends : (soloDb.call soloClaim).Extends soloHandle 0 1 := hkeeps ⟨_, rfl⟩
  obtain ⟨new, hnew, hle⟩ :=
    hextends.deadline soloHandle (extendedRow 1 soloHandle) rfl rfl 30000 rfl
  obtain rfl := Option.some.inj hnew
  exact absurd hle (by decide)

end VerifierCI
