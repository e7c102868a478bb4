import VerifierCI.Execution.QueueScripts
import VerifierCI.Storage.Transactions

/-! # The queue behind the write lock

Workers and controllers call the queue through connections of their own, whose
statements interleave. The database is nevertheless the one that the calls
leave when each is made in one step, and each answer is the one the call gets
at its place.
-/

namespace VerifierCI

open Python Relational Transition

/-! ## Calls and answers -/

/-- A call that runs in a transaction. -/
inductive QueueCall where
  | claim (workerId : String) (nowMs : Int) (runId : Option String) (leaseDurationMs : Int)
      (draw : Draw)
  | markRunning (job : Job) (nowMs : Int)
  | heartbeat (job : Job) (nowMs extensionMs : Int)
  | complete (job : Job) (attempt : EvaluationAttempt) (nowMs : Int)
  | reapExpired (nowMs : Int) (maxAttempts : Option Int)
  | requestCancel (runId : String) (nowMs : Int)

/-- What a call returns. -/
inductive QueueAnswer where
  | claimed (job : Option Job)
  | renewed (job : Job)
  | completed (status : CompletionStatus)
  | reaped (jobIds : List String)
  | cancelled

def QueueCall.operation : QueueCall → Operation
  | .claim workerId nowMs runId leaseDurationMs draw =>
      .claim workerId nowMs runId leaseDurationMs draw
  | .markRunning job nowMs => .markRunning job nowMs
  | .heartbeat job nowMs extensionMs => .heartbeat job nowMs extensionMs
  | .complete job attempt nowMs => .complete job attempt nowMs
  | .reapExpired nowMs maxAttempts => .reapExpired nowMs maxAttempts
  | .requestCancel runId nowMs => .requestCancel runId nowMs

/-- What that step returns or raises. -/
def Db.answer (db : Db) : QueueCall → Except Exc QueueAnswer
  | .claim workerId nowMs runId leaseDurationMs draw =>
      (claim db workerId nowMs runId leaseDurationMs draw).1.map .claimed
  | .markRunning job nowMs => (markRunning db job nowMs).1.map .renewed
  | .heartbeat job nowMs extensionMs => (heartbeat db job nowMs extensionMs).1.map .renewed
  | .complete job attempt nowMs => (complete db job attempt nowMs).1.map .completed
  | .reapExpired nowMs maxAttempts => (reapExpired db nowMs maxAttempts).1.map .reaped
  | .requestCancel runId nowMs => (requestCancel db runId nowMs).1.map fun _ => .cancelled

/-- The block of a call. What it sees first bounds the turns of the claim loop. -/
def QueueCall.script : QueueCall → Db → Script Db Exc QueueAnswer
  | .claim workerId nowMs runId leaseDurationMs draw, db => .claimed <$>
      claimScript workerId nowMs runId leaseDurationMs draw (db.jobs.rows.length + 1)
  | .markRunning job nowMs, _ => .renewed <$> markRunningScript job nowMs
  | .heartbeat job nowMs extensionMs, _ => .renewed <$> heartbeatScript job nowMs extensionMs
  | .complete job attempt nowMs, _ => .completed <$> completeScript job attempt nowMs
  | .reapExpired nowMs maxAttempts, _ => .reaped <$> reapExpiredScript nowMs maxAttempts
  | .requestCancel runId nowMs, _ => (fun _ => .cancelled) <$> requestCancelScript runId nowMs

/-! ## A call alone -/

theorem atomically_map {α β : Type} (f : α → β) (script : Script Db Exc α) (db : Db) :
    atomically (f <$> script) db =
      ((transaction db script.run).1.map f, (transaction db script.run).2) := by
  rw [atomically, Script.run_map, transaction]
  cases script.run db <;> rfl

/-- With no other around it, a block does what the call does in one step. So what is proved of
the calls carries over to the blocks. -/
theorem callAlone_script (call : QueueCall) (db : Db) :
    callAlone QueueCall.script call db = (db.answer call, db.call call.operation) := by
  -- One equation per script; those of claim and complete run inside a transaction of their own.
  cases call with
  | claim workerId nowMs runId leaseDurationMs draw =>
      have hbody : transaction db (claimScript workerId nowMs runId leaseDurationMs draw
          (db.jobs.rows.length + 1)).run = claim db workerId nowMs runId leaseDurationMs draw := by
        rw [claim, transaction, transaction, claimScript_run]
      rw [callAlone, QueueCall.script, atomically_map, hbody]
      rfl
  | markRunning job nowMs =>
      rw [callAlone, QueueCall.script, atomically_map, markRunningScript_run]
      rfl
  | heartbeat job nowMs extensionMs =>
      rw [callAlone, QueueCall.script, atomically_map, heartbeatScript_run]
      rfl
  | complete job attempt nowMs =>
      have hbody : transaction db (completeScript job attempt nowMs).run =
          complete db job attempt nowMs := by
        rw [complete, transaction, transaction, completeScript_run]
      rw [callAlone, QueueCall.script, atomically_map, hbody]
      rfl
  | reapExpired nowMs maxAttempts =>
      rw [callAlone, QueueCall.script, atomically_map, reapExpiredScript_run]
      rfl
  | requestCancel runId nowMs =>
      rw [callAlone, QueueCall.script, atomically_map, requestCancelScript_run]
      rfl

/-! ## Calls of several connections -/

section Connections

variable {ι : Type}

/-- The state of the queue once these calls are made, each in one step. -/
def queueAfter (db : Db) (answers : List (DbAnswer ι QueueCall QueueAnswer)) : Db :=
  run Db.call db (answers.map fun answer => answer.call.operation)

/-- Run one behind the other, the scripts leave what the atomic calls leave. -/
theorem leftBy_script (db : Db) (answers : List (DbAnswer ι QueueCall QueueAnswer)) :
    leftBy QueueCall.script db answers = queueAfter db answers := by
  induction answers generalizing db with
  | nil => rfl
  | cons answer rest ih =>
      have hcall : (callAlone QueueCall.script answer.call db).2 =
          db.call answer.call.operation := by rw [callAlone_script]
      calc
        leftBy QueueCall.script db (answer :: rest) =
            leftBy QueueCall.script (callAlone QueueCall.script answer.call db).2 rest := rfl
        _ = queueAfter (db.call answer.call.operation) rest := by rw [hcall, ih]

variable [DecidableEq ι]

/-- What the connections have come to. -/
def queueClients (db : Db) (events : List (ι × DbAction QueueCall)) :
    DbClients ι Db QueueCall QueueAnswer :=
  run (DbClients.step QueueCall.script) (DbClients.start ι QueueCall QueueAnswer db) events

/-- The calls that were answered, in the order of their answers. -/
def queueAnswers (db : Db) (events : List (ι × DbAction QueueCall)) :
    List (DbAnswer ι QueueCall QueueAnswer) :=
  seen (DbClients.step QueueCall.script) DbClients.answer?
    (DbClients.start ι QueueCall QueueAnswer db) events

/-- The calls of a queue that several connections share. -/
structure QueueSerialized (db : Db) (events : List (ι × DbAction QueueCall)) : Prop where
  committed : (queueClients db events).shared.committed =
    queueAfter db (queueAnswers db events)
  results : ∀ before answer after, queueAnswers db events = before ++ answer :: after →
    answer.result = (queueAfter db before).answer answer.call
  told : ∀ i call result, ((queueClients db events).thread i).told? = some (call, result) →
    lastAnswer? i (queueAnswers db events) = some ⟨i, call, result⟩ ∨ Refused result

/-- However the statements of the connections interleave, the queue takes its calls one by one,
in the order in which they are answered, and a call that is refused leaves no trace. -/
theorem queue_calls_serialized (db : Db) (events : List (ι × DbAction QueueCall)) :
    QueueSerialized db events := by
  obtain ⟨⟨hstate, hresults⟩, htold⟩ := connections_serialized QueueCall.script db events
  refine ⟨?_, ?_, htold⟩
  · rw [← leftBy_script]
    exact hstate
  · intro before answer after hsplit
    rw [hresults before answer after hsplit, callAlone_script, leftBy_script]

end Connections

end VerifierCI
