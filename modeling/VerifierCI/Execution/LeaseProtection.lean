import VerifierCI.Execution.LeaseDeadlines

/-! # A lease protects its holder

Until its deadline the holder of a lease keeps the job, whatever other callers
do in the meantime: nobody else is granted the job, and what the holder hands
in is committed.
-/

namespace VerifierCI

open Python Relational Transition

/-- The clock reading a call is made with. -/
def Operation.nowMs? : Operation → Option Int
  | .claim _ nowMs _ _ _ => some nowMs
  | .markRunning _ nowMs => some nowMs
  | .heartbeat _ nowMs _ => some nowMs
  | .complete _ _ nowMs => some nowMs
  | .reapExpired nowMs _ => some nowMs
  | .requestCancel _ nowMs => some nowMs
  | .getJob _ => none

/-- The call is made before the deadline, asks for no shorter lease than there
is, and does not complete the job under the fence of its holder. -/
structure Db.Spares (holder : Job) (deadline : Int) (db : Db) (op : Operation) : Prop where
  early : ∀ nowMs ∈ op.nowMs?, nowMs < deadline
  renews : db.Renews op
  others : ∀ job attempt nowMs, op = .complete job attempt nowMs →
    job.jobId = holder.jobId → job.fence ≠ holder.fence

/-- The job is still held under the lease of its holder, until the deadline at least. -/
structure StillHeld (holder : Job) (deadline : Int) (row : Job) : Prop where
  jobId : row.jobId = holder.jobId
  held : row.state.isHeld = true
  fence : row.fence = holder.fence
  leaseToken : row.leaseToken = holder.leaseToken
  workerId : row.workerId = holder.workerId
  attemptId : row.attemptId = holder.attemptId
  deadline : ∃ expires ∈ row.leaseExpiresMs, deadline ≤ expires

section Calls

variable {db : Db} {holder row : Job} {deadline nowMs : Int}

theorem StillHeld.not_expired (h : StillHeld holder deadline row) (hearly : nowMs < deadline) :
    leaseExpired row nowMs = false := by
  obtain ⟨expires, hexpires, hle⟩ := h.deadline
  rw [Option.mem_def] at hexpires
  simp only [leaseExpired, hexpires, decide_eq_false_iff_not]
  omega

/-- The columns of the lease decide; the state may go from claimed to running. -/
theorem StillHeld.of_row {row' : Job} (h : StillHeld holder deadline row)
    (hid : row'.jobId = row.jobId) (hheld : row'.state.isHeld = true)
    (hfence : row'.fence = row.fence) (htoken : row'.leaseToken = row.leaseToken)
    (hworker : row'.workerId = row.workerId) (hattempt : row'.attemptId = row.attemptId)
    (hlease : row.LeaseLe row') : StillHeld holder deadline row' where
  jobId := hid.trans h.jobId
  held := hheld
  fence := hfence.trans h.fence
  leaseToken := htoken.trans h.leaseToken
  workerId := hworker.trans h.workerId
  attemptId := hattempt.trans h.attemptId
  deadline := by
    obtain ⟨expires, hexpires, hle⟩ := h.deadline
    obtain ⟨later, hlater, hlonger⟩ := hlease expires hexpires
    exact ⟨later, hlater, hle.trans hlonger⟩

/-- Only the holder can put the job into running, and the lease stays. -/
theorem markRunning_stillHeld (h : StillHeld holder deadline row) (hrow : row ∈ db.jobs) (job : Job)
    (nowMs : Int) : ∃ row', (markRunning db job nowMs).2.jobs.find? row.jobId = some row' ∧
      StillHeld holder deadline row' := by
  have hfind := Table.find?_of_mem hrow
  rcases markRunning_cases db job nowMs with ⟨target, htarget, _, heq⟩ | ⟨exc, _, heq⟩
  · rw [heq]
    by_cases hid : row.jobId = job.jobId
    · rw [← hid, hfind] at htarget
      obtain rfl := Option.some.inj htarget
      unfold runningDb
      split
      next hclaimed =>
        refine ⟨runningRow row, ?_, ?_⟩
        · rw [updateJobs_jobs, Table.find?_update, hfind]
          simp [hid]
        · -- only the state changes, from claimed to running
          apply h.of_row
          case hlease => exact .of_eq rfl
          all_goals simp [runningRow, JobState.isHeld]
      next => exact ⟨row, hfind, h⟩
    · exact ⟨row, runningDb_find?_of_ne hrow hid, h⟩
  · rw [heq]
    exact ⟨row, hfind, h⟩

/-- The lease can be renewed under its own token only, and the calls considered do not shorten
it. -/
theorem heartbeat_stillHeld (h : StillHeld holder deadline row) (hrow : row ∈ db.jobs) {job : Job}
    {nowMs extensionMs : Int} (hrenews : db.Renews (.heartbeat job nowMs extensionMs)) :
    ∃ row', (heartbeat db job nowMs extensionMs).2.jobs.find? row.jobId = some row' ∧
      StillHeld holder deadline row' := by
  have hfind := Table.find?_of_mem hrow
  rcases heartbeat_cases db job nowMs extensionMs with
    ⟨target, _, _, heq⟩ | ⟨_, _, _, heq⟩ | ⟨exc, _, heq⟩
  · have hextended : (extendedDb db job (nowMs + extensionMs)).jobs.find? row.jobId =
        some (if row.jobId = job.jobId then extendedRow (nowMs + extensionMs) row else row) :=
      extendedDb_row hrow
    have hcall : (heartbeat db job nowMs extensionMs).2.jobs.find? row.jobId =
        some (if row.jobId = job.jobId then extendedRow (nowMs + extensionMs) row else row) := by
      rw [heq]
      exact hextended
    obtain ⟨hlease, _, _⟩ := heartbeat_leaseLe hrenews hrow hcall
    refine ⟨_, hcall, ?_⟩
    split at hlease
    next hid =>
      rw [if_pos hid]
      exact h.of_row rfl h.held rfl rfl rfl rfl hlease
    next hid =>
      rw [if_neg hid]
      exact h
  · rw [heq]
    exact ⟨row, hfind, h⟩
  · rw [heq]
    exact ⟨row, hfind, h⟩

/-- A completion under another fence leaves the holder's job alone. -/
theorem complete_stillHeld (h : StillHeld holder deadline row) (hrow : row ∈ db.jobs) {job : Job}
    {attempt : EvaluationAttempt} {nowMs : Int}
    (hother : job.jobId = holder.jobId → job.fence ≠ holder.fence) :
    (complete db job attempt nowMs).2.jobs.find? row.jobId = some row := by
  have hfind := Table.find?_of_mem hrow
  rcases complete_spec db job attempt nowMs with
    ⟨_, now, _, heq⟩ | ⟨hcommits, finishedAt, db', _, hrun, heq⟩ | ⟨result, heq, _⟩
  · rw [heq]
    exact hfind
  · obtain ⟨own, stored, hguard⟩ := commits_iff.mp hcommits
    obtain ⟨runs, rfl, _⟩ := updateRunState_ok hrun
    -- the guard of a commit compares the fence with the one of the stored row
    have hne : row.jobId ≠ job.jobId := by
      intro hid
      have hown := hguard.row_eq
      rw [← hid, hfind] at hown
      obtain rfl := Option.some.inj hown
      exact hother (hid.symm.trans h.jobId) (hguard.fence.symm.trans h.fence)
    have hkept : (committedDb db job attempt finishedAt).jobs.find? row.jobId = some row :=
      committedDb_find?_of_ne hrow hne
    rw [heq]
    exact hkept
  · rw [heq]
    exact hfind

/-- A reap before the deadline leaves the holder's job alone. -/
theorem reapExpired_stillHeld (h : StillHeld holder deadline row) (hrow : row ∈ db.jobs)
    (hearly : nowMs < deadline) (maxAttempts : Option Int) :
    (reapExpired db nowMs maxAttempts).2.jobs.find? row.jobId = some row := by
  cases hreap : (reapExpired db nowMs maxAttempts).1 with
  | error exc =>
      rcases reapExpired_cases db nowMs maxAttempts with ⟨_, _, _, _, _, heq⟩ | ⟨_, heq⟩
      · rw [heq] at hreap
        cases hreap
      · rw [heq]
        exact Table.find?_of_mem hrow
  | ok ids =>
      apply reapExpired_kept hreap hrow
      intro hmem
      rw [reapExpired_ids hreap] at hmem
      obtain ⟨expired, hexpired, hid⟩ := List.mem_map.mp hmem
      obtain ⟨hexpiredMem, _, _, hlapsed⟩ := mem_expiredRows.mp hexpired
      obtain rfl := Table.eq_of_key_eq hexpiredMem hrow hid
      rw [h.not_expired hearly] at hlapsed
      cases hlapsed

/-- No call that spares the lease takes the job from its holder. -/
theorem call_stillHeld (h : StillHeld holder deadline row) (hrow : row ∈ db.jobs) {op : Operation}
    (hspares : db.Spares holder deadline op) :
    ∃ row', (db.call op).jobs.find? row.jobId = some row' ∧ StillHeld holder deadline row' := by
  cases op with
  | claim workerId nowMs runId leaseDurationMs draw =>
      exact ⟨row, claim_keeps_held hrow h.held workerId nowMs runId leaseDurationMs draw, h⟩
  | markRunning job nowMs => exact markRunning_stillHeld h hrow job nowMs
  | heartbeat job nowMs extensionMs => exact heartbeat_stillHeld h hrow hspares.renews
  | complete job attempt nowMs =>
      exact ⟨row, complete_stillHeld h hrow (hspares.others job attempt nowMs rfl), h⟩
  | reapExpired nowMs maxAttempts =>
      exact ⟨row, reapExpired_stillHeld h hrow (hspares.early nowMs rfl) maxAttempts, h⟩
  | requestCancel runId nowMs => exact ⟨row, requestCancel_keeps_held hrow h.held runId nowMs, h⟩
  | getJob jobId => exact ⟨row, Table.find?_of_mem hrow, h⟩

end Calls

/-! ## Runs -/

/-- By induction over the calls, of which none completes the job and none comes after the
deadline. -/
theorem run_stillHeld {holder : Job} {deadline : Int} {db : Db} {ops : List Operation}
    (hspares : Admits Db.call (Db.Spares holder deadline) db ops)
    (h : ∃ row, db.jobs.find? holder.jobId = some row ∧ StillHeld holder deadline row) :
    ∃ row, (run Db.call db ops).jobs.find? holder.jobId = some row ∧
      StillHeld holder deadline row :=
  hspares.invariant
    (fun db => ∃ row, db.jobs.find? holder.jobId = some row ∧ StillHeld holder deadline row)
    (by
      rintro state op ⟨row, hrow, hstill⟩ hop
      obtain ⟨row', hrow', hstill'⟩ := call_stillHeld hstill (Table.mem_of_find? hrow) hop
      rw [hstill.jobId] at hrow'
      exact ⟨row', hrow', hstill'⟩)
    h

/-- A worker that holds a lease can mark its job running, renew the lease and
commit a result at every time before the deadline, after any calls of others
made before the deadline, reaps, claims and cancellations included. -/
theorem lease_protects_holder {db : Db} (h : db.Reachable) {holder : Job}
    (hholder : holder ∈ db.jobs)
    (hheld : holder.state.isHeld = true) {deadline : Int}
    (hdeadline : holder.leaseExpiresMs = some deadline) {handle : Job}
    (hcurrent : CurrentHandle holder handle) {ops : List Operation}
    (hspares : Admits Db.call (Db.Spares holder deadline) db ops) {nowMs : Int}
    (hearly : nowMs < deadline) : HoldsLease (run Db.call db ops) handle nowMs := by
  have hstart : StillHeld holder deadline holder :=
    ⟨rfl, hheld, rfl, rfl, rfl, rfl, deadline, hdeadline, le_rfl⟩
  obtain ⟨row, hrow, hstill⟩ := run_stillHeld hspares ⟨holder, Table.find?_of_mem hholder, hstart⟩
  have hqueue := (h.run ops).queueInv
  have hsame : CurrentHandle row handle :=
    { jobId := hcurrent.jobId.trans hstill.jobId.symm
      fence := hcurrent.fence.trans hstill.fence.symm
      leaseToken := hcurrent.leaseToken.trans hstill.leaseToken.symm
      workerId := hcurrent.workerId.trans hstill.workerId.symm
      attemptId := hcurrent.attemptId.trans hstill.attemptId.symm }
  exact (holdsLease_iff hqueue (Table.mem_of_find? hrow) hstill.held hsame).mpr
    (hstill.not_expired hearly)

theorem retry_ne : "retry" ≠ "" := by decide

/-- A reap, another claim and a cancellation before the deadline. -/
def busyCallers : List Operation :=
  [.reapExpired 29999 none,
    .claim "other" 29999 none defaultLeaseMs ⟨"retry", "retry-token", retry_ne⟩,
    .requestCancel "run" 100]

theorem busyCallers_spare :
    Admits Db.call (Db.Spares soloHandle 30000) (soloDb.call soloClaim) busyCallers := by
  rw [admits_iff_forall]
  intro first op last hsplit
  have hop : op ∈ busyCallers := by simp [hsplit]
  simp only [busyCallers, List.mem_cons, List.not_mem_nil, or_false] at hop
  rcases hop with rfl | rfl | rfl
  all_goals
    constructor
    · simp [Operation.nowMs?]
    · exact trivial
    · simp

/-- Between the claim and the deadline others reap, claim and cancel the run. -/
theorem lease_protects_holder_solo :
    HoldsLease (run Db.call (soloDb.call soloClaim) busyCallers) soloHandle 29999 :=
  lease_protects_holder soloClaimed_reachable soloHandle_mem rfl rfl soloHandle_current
    busyCallers_spare (by decide)

end VerifierCI
