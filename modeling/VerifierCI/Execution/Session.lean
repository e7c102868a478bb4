import VerifierCI.Execution.Operations

/-! # Sessions

A session is a run in which the handles the queue gives out are remembered, so
that a caller can be required to use handles it was given.
-/

namespace VerifierCI

/-- The queue together with every handle it has given out, and the handles
among them that were granted by a claim. -/
structure Session where
  db : Db
  handles : List Job
  granted : List Job

def Session.start (db : Db) : Session where
  db := db
  handles := []
  granted := []

def Session.call (s : Session) (op : Operation) : Session where
  db := s.db.call op
  handles := (s.db.handle? op).toList ++ s.handles
  granted := (s.db.granted? op).toList ++ s.granted

/-! ## Where handles come from -/

/-- A granted lease is the result of the claim loop that was run. -/
theorem granted?_cases {db : Db} {op : Operation} {handle : Job}
    (h : db.granted? op = some handle) :
    ∃ workerId nowMs runId leaseDurationMs draw db',
      op = .claim workerId nowMs runId leaseDurationMs draw ∧
      claimLoop workerId nowMs runId leaseDurationMs draw (db.jobs.rows.length + 1) db =
        .ok (some handle, db') ∧ db.call op = db' := by
  cases op with
  | claim workerId nowMs runId leaseDurationMs draw =>
      rcases claim_cases db workerId nowMs runId leaseDurationMs draw with
        ⟨result, db', hloop, heq⟩ | ⟨exc, heq⟩
      · simp only [Db.granted?, heq] at h
        obtain rfl : result = some handle := h
        exact ⟨workerId, nowMs, runId, leaseDurationMs, draw, db', rfl, hloop, by rw [Db.call, heq]⟩
      · simp only [Db.granted?, heq] at h
        cases h
  | _ => cases h

/-- A handle is a granted lease, a renewal of the handle the call was made
with, or a job that was looked up. -/
theorem handle?_cases {db : Db} {op : Operation} {handle : Job} (h : db.handle? op = some handle) :
    db.granted? op = some handle ∨
    (∃ used, op.handle? = some used ∧ handle.jobId = used.jobId ∧ handle.runId = used.runId ∧
      handle.attemptId = used.attemptId ∧ handle.fence = used.fence) ∨
    ∃ jobId, op = .getJob jobId ∧ db.jobs.find? jobId = some handle := by
  cases op with
  | claim => exact Or.inl h
  | markRunning job nowMs =>
      rcases markRunning_cases db job nowMs with ⟨row, _, _, heq⟩ | ⟨exc, _, heq⟩
      · simp only [Db.handle?, heq] at h
        obtain rfl := Option.some.inj h
        exact Or.inr (Or.inl ⟨job, rfl, rfl, rfl, rfl, rfl⟩)
      · simp only [Db.handle?, heq] at h
        cases h
  | heartbeat job nowMs extensionMs =>
      rcases heartbeat_cases db job nowMs extensionMs with
        ⟨row, _, _, heq⟩ | ⟨row, _, _, heq⟩ | ⟨exc, _, heq⟩
      · simp only [Db.handle?, heq] at h
        obtain rfl := Option.some.inj h
        exact Or.inr (Or.inl ⟨job, rfl, rfl, rfl, rfl, rfl⟩)
      · simp only [Db.handle?, heq] at h
        cases h
      · simp only [Db.handle?, heq] at h
        cases h
  | getJob jobId => exact Or.inr (Or.inr ⟨jobId, rfl, h⟩)
  | complete => cases h
  | reapExpired => cases h
  | requestCancel => cases h

end VerifierCI
