import VerifierCI.Execution.Turns

/-! # Classified attempts can be committed

Whatever a capture is classified as, the attempt that is built from it passes
the constraints of its table, and a live lease commits it.
-/

namespace VerifierCI

open Python Relational

/-! ## What was collected -/

section Collection

variable {sha256 : List UInt8 → Digest} {now : Datetime} {store store' : ArtifactStore}
  {manifest : Option VerifierManifest} {files : AttemptFiles} {collected : Collected}

structure Collects (store store' : ArtifactStore) (collected : Collected) : Prop where
  stores : Stores store store'
  registered : collected.Registered store'.db
  reportBytes : ∀ bytes ∈ collected.reportBytes, bytes.length ≤ maxArtifactBytes

/-- A collection stores the two logs and the report in turn; each digest it gives is that of an
artifact it registered. -/
theorem collect_ok (h : collect sha256 now store manifest files = (.ok collected, store')) :
    Collects store store' collected := by
  obtain ⟨last, hstores, ⟨_, hcollect, hregistered⟩ | ⟨_, exc, hcollect⟩⟩ :=
    collect_cases sha256 now store manifest files
  · obtain ⟨hresult, rfl⟩ := Prod.mk.inj (h.symm.trans hcollect)
    obtain rfl := Except.ok.inj hresult
    refine ⟨hstores, hregistered, ?_⟩
    intro bytes hbytes
    obtain ⟨content, _, rfl⟩ := Option.map_eq_some_iff.mp hbytes
    exact List.length_take_le _ _
  · cases (Prod.mk.inj (h.symm.trans hcollect)).1

end Collection

/-! ## Commits -/

section Commits

variable {db : Db} {job row : Job} {attempt : EvaluationAttempt} {nowMs : Int}

/-- The job is failed by an error and done by everything else. -/
def endState (attempt : EvaluationAttempt) : JobState :=
  if attempt.outcome = some .error then .failed else .done

theorem terminalOf_fst (attempt : EvaluationAttempt) :
    (terminalOf attempt).1 = endState attempt := by
  unfold terminalOf endState
  split_ifs <;> rfl

/-- The call answers `committed`, and the job ends as the outcome says. -/
structure CommittedAs (db : Db) (job : Job) (attempt : EvaluationAttempt) (nowMs : Int) : Prop where
  committed : (complete db job attempt nowMs).1 = .ok .committed
  ended : ∃ row, (complete db job attempt nowMs).2.jobs.find? job.jobId = some row ∧
    (row.state = .failed ↔ attempt.outcome = some .error) ∧
    (row.state = .done ↔ attempt.outcome ≠ some .error)

/-- The row of the job follows the outcome alone: an error fails it and everything else
is done. -/
theorem finishedRow_ended (attempt : EvaluationAttempt) (row : Job) :
    ((finishedRow attempt row).state = .failed ↔ attempt.outcome = some .error) ∧
      ((finishedRow attempt row).state = .done ↔ attempt.outcome ≠ some .error) := by
  have hstate : (finishedRow attempt row).state = endState attempt := terminalOf_fst attempt
  rw [hstate, endState]
  split_ifs with herror <;> simp [herror]

/-- A gradable attempt is committed by its live lease. -/
theorem EvaluationAttempt.Gradable.committedAs (h : attempt.Gradable db nowMs) (hinv : QueueInv db)
    (hrow : db.jobs.find? job.jobId = some row) (hlive : LiveHandle row job nowMs)
    (hsubmits : Submits job attempt) : CommittedAs db job attempt nowMs := by
  have hcommitted := complete_of_live hinv hrow hlive hsubmits h
  refine ⟨hcommitted, ?_⟩
  obtain ⟨hcommits, finishedAt, hcommittable⟩ := complete_committed_iff.mp hcommitted
  rcases complete_of_commits hcommits with ⟨finishedAt', db', _, hrun, heq⟩ | ⟨hrefused, _⟩
  · refine ⟨finishedRow attempt row, ?_, finishedRow_ended attempt row⟩
    obtain ⟨runs, rfl, _⟩ := updateRunState_ok hrun
    have hid : row.jobId = job.jobId := Table.key_of_find? hrow
    simp [heq, committedDb, Table.find?_update, hrow, hid]
  · exact absurd hcommittable (hrefused finishedAt)

end Commits

/-! ## Classified attempts -/

section Classified

variable {sha256 : List UInt8 → Digest} {maxNesting : Nat} {turn : Turn} {attemptId : String}
  {store store' : ArtifactStore} {manifest : Option VerifierManifest} {files : AttemptFiles}
  {capture evidence : ExecutionCapture} {collected : Collected} {parsed : ParsedOutcome}
  {lease : Lease}

/-- The attempt fits the table, its digests are registered, and a live lease commits it
whatever happens to the queue in between. -/
structure CommittableEverywhere (db : Db) (job : Job) (attempt : EvaluationAttempt) : Prop where
  check : ∀ finishedAt stored, stored.Check → (committedRow attempt finishedAt stored).Check
  stdoutHash : db.HasArtifact attempt.stdoutHash
  stderrHash : db.HasArtifact attempt.stderrHash
  reportDigest : db.HasArtifact attempt.reportDigest
  committed : ∀ ops nowMs row, (Datetime.fromTimestampMs? nowMs).isSome = true →
    (Transition.run Db.call db ops).jobs.find? job.jobId = some row → LiveHandle row job nowMs →
      CommittedAs (Transition.run Db.call db ops) job attempt nowMs

/-- Every attempt that is built from a capture with finite measurements can be
committed. Without a manifest the capture is that of a failed preparation,
which has no evidence. -/
theorem classified_committable (hstore : store.db.Reachable)
    (hcollect : collect sha256 turn.collectedAt store manifest files = (.ok collected, store'))
    (hclassify : classify maxNesting manifest capture collected = .ok (evidence, parsed))
    (hrecordable : capture.Recordable)
    (hunresolved : manifest = none → capture.stdoutHash = none ∧ capture.stderrHash = none ∧
      capture.reportDigest = none)
    (hlease : lease.job.attemptId = some attemptId) :
    CommittableEverywhere store'.db lease.job
      (turn.attempt attemptId lease evidence parsed collected) := by
  have hcollects := collect_ok hcollect
  have hreachable : store'.db.Reachable := hcollects.stores.reachable hstore
  have hgradable : ∀ {db : Db} {nowMs : Int}, collected.Registered db →
      (Datetime.fromTimestampMs? nowMs).isSome = true →
      (turn.attempt attemptId lease evidence parsed collected).Gradable db nowMs :=
    fun hregistered hclock => attempt_gradable hclassify hrecordable hunresolved hregistered
      hcollects.reportBytes hclock
  have hzero : (turn.attempt attemptId lease evidence parsed collected).Gradable store'.db 0 :=
    hgradable hcollects.registered rfl
  refine ⟨fun finishedAt stored hstored => hzero.check finishedAt hstored, hzero.stdoutHash,
    hzero.stderrHash, hzero.reportDigest, ?_⟩
  intro ops nowMs row hclock hrow hlive
  have hregistered := hcollects.registered.run hreachable.queueInv ops
  exact (hgradable hregistered hclock).committedAs (hreachable.run ops).queueInv hrow hlive
    ⟨rfl, hlease, rfl⟩

end Classified

def claimedStore : ArtifactStore :=
  { soloStore with db := soloDb.call soloClaim }

theorem claimedStore_reachable : claimedStore.db.Reachable :=
  (Db.Reachable.fresh soloDb_fresh).call soloClaim

def silentTurn : Turn :=
  plainTurn (.ok (plainManifest [] ["pytest"])) quietProcess quietProcess

def claimedLease : Lease where
  db := claimedStore.db
  job := soloHandle
  lost := false
  beating := false

/-- A verification that ends without a word is classified for its missing report. -/
theorem classified_committable_quiet :
    ∃ evidence parsed, classify 1000 (some (plainManifest [] ["pytest"]))
        (quietProcess.capture (fun _ => xDigest) "attempt" none) ⟨none, none, none, none⟩ =
          .ok (evidence, parsed) ∧
      CommittedAs claimedStore.db soloHandle (silentTurn.attempt "attempt" claimedLease evidence
        parsed ⟨none, none, none, none⟩) 0 := by
  have hclassify : ∃ result, classify 1000 (some (plainManifest [] ["pytest"]))
      (quietProcess.capture (fun _ => xDigest) "attempt" none) ⟨none, none, none, none⟩ =
        .ok result := by
    rw [classify_isOk_iff]
    rintro ⟨_, _, _, hunreadable⟩
    exact not_unreadable_none hunreadable
  obtain ⟨⟨evidence, parsed⟩, hclassify⟩ := hclassify
  have hcollect : collect (fun _ => xDigest) silentTurn.collectedAt claimedStore
      (some (plainManifest [] ["pytest"])) silentTurn.freshFiles =
        (.ok ⟨none, none, none, none⟩, claimedStore) := rfl
  have hcommittable : CommittableEverywhere claimedStore.db claimedLease.job
      (silentTurn.attempt "attempt" claimedLease evidence parsed ⟨none, none, none, none⟩) :=
    classified_committable claimedStore_reachable hcollect hclassify
      (quietProcess.capture_recordable _ _) nofun rfl
  exact ⟨evidence, parsed, hclassify,
    hcommittable.committed [] 0 soloHandle rfl rfl soloHandle_live⟩

def longDeadline : Int := 2000000000000000000

/-- A claim whose lease outlasts the calendar. -/
def longClaim : Operation :=
  .claim "worker" 0 none longDeadline ⟨"attempt", "token", attempt_ne⟩

def longHandle : Job :=
  { soloHandle with leaseExpiresMs := some longDeadline }

def longLease : Lease where
  db := soloDb.call longClaim
  job := longHandle
  lost := false
  beating := false

/-- The lease is live and the attempt is one that was classified, but the time it is
completed at is no date, and the completion that closes the run reads it. -/
theorem classified_uncommittable_undated :
    ∃ evidence parsed, classify 1000 (some (plainManifest [] ["pytest"]))
        (quietProcess.capture (fun _ => xDigest) "attempt" none) ⟨none, none, none, none⟩ =
          .ok (evidence, parsed) ∧
      longLease.db.jobs.find? longHandle.jobId = some longHandle ∧
      LiveHandle longHandle longHandle 1000000000000000000 ∧
      (complete longLease.db longHandle (silentTurn.attempt "attempt" longLease evidence parsed
        ⟨none, none, none, none⟩) 1000000000000000000).1 = .error .valueError := by
  have hlive : LiveHandle longHandle longHandle 1000000000000000000 :=
    ⟨rfl, rfl, fun _ => rfl, fun _ => rfl, rfl, rfl⟩
  exact ⟨_, _, rfl, rfl, hlive, rfl⟩

end VerifierCI
