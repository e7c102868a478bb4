import VerifierCI.Execution.Turns

/-! # Failures of the infrastructure

A failure travels as a text. It is classified as an error when the text gets
to the classification, is not empty and does not speak of a patch.
-/

namespace VerifierCI

open Python

/-- The classification of an infrastructure failure. -/
structure ParsedOutcome.IsError (parsed : ParsedOutcome) : Prop where
  outcome : parsed.outcome = .error
  validity : parsed.evaluationValidity = .invalid
  errorCode : ∃ code, parsed.errorCode = some code ∧ code ≠ ""

/-- An attempt that says the infrastructure failed. -/
structure EvaluationAttempt.IsError (attempt : EvaluationAttempt) : Prop where
  outcome : attempt.outcome = some .error
  validity : attempt.evaluationValidity = .invalid
  errorCode : ∃ code, attempt.errorCode = some code ∧ code ≠ ""

/-! ## Which classifications are errors -/

section Classes

variable {maxNesting : Nat} {capture : ExecutionCapture} {collected : Collected}
  {reportBytes : Option (List UInt8)}

theorem runtimeOutcome_isError_iff {runtimeError : String} {evidenceDigests : List String}
    (hne : runtimeError ≠ "") :
    (runtimeOutcome runtimeError evidenceDigests).IsError ↔ isPatchError runtimeError = false := by
  unfold runtimeOutcome
  cases hpatch : isPatchError runtimeError with
  | true =>
      apply iff_of_false
      · intro h
        cases h.outcome
      · exact Bool.noConfusion
  | false => exact iff_of_true ⟨rfl, rfl, runtimeError, rfl, hne⟩ rfl

/-- A report is never an error of the infrastructure. -/
theorem parse_outcome {manifest : VerifierManifest} {parsed : ParsedOutcome}
    (h : parse maxNesting reportBytes manifest capture = .ok parsed) : parsed.outcome ≠ .error := by
  obtain ⟨reading, _, h⟩ := bind_eq_ok.mp h
  rcases reading with _ | _ | ⟨results, _ | _⟩
  · obtain rfl := Except.ok.inj h
    exact Outcome.noConfusion
  · obtain rfl := Except.ok.inj h
    exact Outcome.noConfusion
  · obtain rfl := Except.ok.inj h
    unfold judge decision
    dsimp only
    repeat' split
    all_goals exact Outcome.noConfusion
  · obtain rfl := Except.ok.inj h
    exact Outcome.noConfusion

/-- A capture is classified as an error for its runtime error only. Without one the capture is
classified by its exit code or its report, and neither is called an error. -/
theorem parseCapture_isError_iff {manifest : VerifierManifest} {parsed : ParsedOutcome}
    (h : parseCapture maxNesting capture manifest reportBytes = .ok parsed) :
    parsed.IsError ↔
      ∃ runtimeError, capture.runtimeError? = some runtimeError ∧
        isPatchError runtimeError = false := by
  unfold parseCapture at h
  dsimp only at h
  split at h
  next runtimeError hruntime =>
    obtain rfl := Except.ok.inj h
    have hne : runtimeError ≠ "" := by
      simpa using (Option.filter_eq_some_iff.mp hruntime).2
    rw [runtimeOutcome_isError_iff hne]
    simp [hruntime]
  next hruntime =>
    -- Whatever the report says, no parser calls it an error.
    have hcalm : parsed.outcome ≠ .error := by
      split at h
      · obtain rfl := Except.ok.inj h
        exact Outcome.noConfusion
      · split at h
        · obtain ⟨result, hresult, h⟩ := bind_eq_ok.mp h
          obtain rfl := Except.ok.inj h
          have houtcome := parse_outcome hresult
          split <;> exact houtcome
        · obtain rfl := Except.ok.inj h
          exact Outcome.noConfusion
    apply iff_of_false
    · exact fun herror => hcalm herror.outcome
    · rintro ⟨_, hsome, _⟩
      rw [hruntime] at hsome
      cases hsome

def classifiedText? (manifest : Option VerifierManifest) (capture : ExecutionCapture) :
    Option String :=
  match manifest with
  | some _ => capture.runtimeError?
  | none => some (capture.runtimeError?.getD ErrorCode.infrastructureError.text)

theorem classify_isError_iff {manifest : Option VerifierManifest} {capture' : ExecutionCapture}
    {parsed : ParsedOutcome}
    (h : classify maxNesting manifest capture collected = .ok (capture', parsed)) :
    parsed.IsError ↔ ∃ text, classifiedText? manifest capture = some text ∧
      isPatchError text = false := by
  cases manifest with
  | none =>
      obtain ⟨_, rfl⟩ := Prod.mk.inj (Except.ok.inj h)
      have hne : capture.runtimeError?.getD ErrorCode.infrastructureError.text ≠ "" := by
        cases hruntime : capture.runtimeError? with
        | none => decide
        | some runtimeError => simpa using (Option.filter_eq_some_iff.mp hruntime).2
      rw [runtimeOutcome_isError_iff hne]
      simp [classifiedText?]
  | some manifest =>
      obtain ⟨result, hresult, h⟩ := bind_eq_ok.mp h
      obtain ⟨_, rfl⟩ := Prod.mk.inj (Except.ok.inj h)
      rw [parseCapture_isError_iff hresult]
      exact Iff.rfl

end Classes

/-! ## Failures of an attempt -/

/-- How the infrastructure fails an attempt. -/
inductive InfrastructureFailure where
  /-- Preparation ends in an exception that is not the repository's own. -/
  | preparation (resolved : Bool) (message : String)
  | buildLaunch (message : String)
  | verificationLaunch (message : String)
deriving DecidableEq, Repr

section Failures

variable (worker : Worker) (turn : Turn) (attemptId : String)

/-- The attempt of a turn fails this way. -/
def FailsWith : InfrastructureFailure → Prop
  | .preparation resolved message => ∃ manifest,
      turn.preparation = .failed manifest (.other message) ∧ resolved = manifest.isSome
  | .buildLaunch message => ∃ manifest, turn.preparation = .ready manifest ∧
      manifest.buildCommand ≠ [] ∧
      (buildProcess worker turn attemptId manifest).launchError = some message
  | .verificationLaunch message => ∃ manifest, turn.preparation = .ready manifest ∧
      ¬ BuildFails worker turn attemptId manifest ∧
      (verificationProcess worker turn attemptId manifest).launchError = some message

/-- The text of the failure is there and does not speak of a patch. -/
def InfrastructureFailure.Recognised : InfrastructureFailure → Prop
  | .preparation resolved message =>
      isPatchError message = false ∧ (resolved = true → message ≠ "")
  | .buildLaunch _ => False
  | .verificationLaunch message => isPatchError ("Subprocess launch failed: " ++ message) = false

variable {worker turn attemptId} {sha256 : List UInt8 → Digest}

theorem launchText_ne_empty (message : String) : "Subprocess launch failed: " ++ message ≠ "" := by
  intro h
  have hlength := congrArg String.length h
  simp at hlength

theorem filtered_text_iff {message : String} :
    (∃ text, (some message).filter (· ≠ "") = some text ∧ isPatchError text = false) ↔
      isPatchError message = false ∧ message ≠ "" := by
  constructor
  · rintro ⟨text, htext, hpatch⟩
    obtain ⟨hsome, hne⟩ := Option.filter_eq_some_iff.mp htext
    obtain rfl := Option.some.inj hsome
    exact ⟨hpatch, of_decide_eq_true hne⟩
  · rintro ⟨hpatch, hne⟩
    exact ⟨message, Option.filter_eq_some_iff.mpr ⟨rfl, decide_eq_true hne⟩, hpatch⟩

/-- An unresolved failure without a text is given one. -/
theorem unresolved_text_iff {message : String} :
    isPatchError (((some message).filter (· ≠ "")).getD ErrorCode.infrastructureError.text) =
      false ↔
      isPatchError message = false := by
  by_cases hne : message = ""
  · subst hne
    apply iff_of_true <;> decide
  · have hkept : (some message).filter (· ≠ "") = some message := by
      simp [hne]
    rw [hkept, Option.getD_some]

theorem classifiedText_iff {failure : InfrastructureFailure}
    (hfails : FailsWith worker turn attemptId failure) :
    (∃ text, classifiedText? (executed sha256 worker turn attemptId).1
        (executed sha256 worker turn attemptId).2.1 = some text ∧ isPatchError text = false) ↔
      failure.Recognised := by
  cases failure with
  | preparation resolved message =>
      obtain ⟨manifest, hpreparation, rfl⟩ := hfails
      rw [executed_of_failed hpreparation]
      cases manifest with
      | none =>
          constructor
          · rintro ⟨text, htext, hpatch⟩
            obtain rfl := Option.some.inj htext
            exact ⟨unresolved_text_iff.mp hpatch, Bool.noConfusion⟩
          · rintro ⟨hpatch, _⟩
            exact ⟨_, rfl, unresolved_text_iff.mpr hpatch⟩
      | some manifest =>
          constructor
          · intro h
            obtain ⟨hpatch, hne⟩ := filtered_text_iff.mp h
            exact ⟨hpatch, fun _ => hne⟩
          · rintro ⟨hpatch, hne⟩
            exact filtered_text_iff.mpr ⟨hpatch, hne rfl⟩
  -- What a build could not launch is never classified: its capture is cut to the code 125.
  | buildLaunch message =>
      obtain ⟨manifest, hpreparation, hbuild, hlaunch⟩ := hfails
      have hfails : BuildFails worker turn attemptId manifest := by
        refine ⟨hbuild, ?_⟩
        simp [Process.exitCode, hlaunch]
      rw [executed_of_ready hpreparation, finalCapture, if_pos hfails]
      apply iff_of_false
      · rintro ⟨text, htext, _⟩
        cases htext
      · exact id
  | verificationLaunch message =>
      obtain ⟨manifest, hpreparation, hbuilt, hlaunch⟩ := hfails
      rw [executed_of_ready hpreparation, finalCapture, if_neg hbuilt]
      simp only [classifiedText?, ExecutionCapture.runtimeError?, Process.capture, hlaunch,
        Option.map_some]
      rw [filtered_text_iff]
      exact and_iff_left (launchText_ne_empty message)

end Failures

/-! ## What is submitted -/

section Submitted

variable {sha256 : List UInt8 → Digest} {maxNesting : Nat} {worker : Worker}
  {runId : Option String} {turn : Turn} {store : ArtifactStore} {job : Job}
  {attempt : EvaluationAttempt}

theorem turnAttempt_isError_iff {attemptId : String} {lease : Lease} {parsed : ParsedOutcome} :
    (turnAttempt sha256 worker turn attemptId lease parsed).IsError ↔ parsed.IsError :=
  ⟨fun h => ⟨Option.some.inj h.outcome, h.validity, h.errorCode⟩,
    fun h => ⟨congrArg some h.outcome, h.validity, h.errorCode⟩⟩

/-- A submitted attempt is an error when the text that is classified is no patch error. -/
theorem Submitted.isError_iff
    (hsubmitted : Submitted sha256 maxNesting worker runId turn store job attempt) :
    attempt.IsError ↔ ∃ text, classifiedText? (executed sha256 worker turn (turn.attemptId job)).1
      (executed sha256 worker turn (turn.attemptId job)).2.1 = some text ∧
        isPatchError text = false := by
  obtain ⟨lease, parsed, hclassified, rfl⟩ := hsubmitted.attempt
  rw [turnAttempt_isError_iff]
  exact classify_isError_iff hclassified

/-- The attempt that is submitted for an infrastructure failure is an error
exactly when the failure is recognised. -/
theorem submitted_isError_iff
    (hsubmitted : Submitted sha256 maxNesting worker runId turn store job attempt)
    {failure : InfrastructureFailure}
    (hfails : FailsWith worker turn (turn.attemptId job) failure) :
    attempt.IsError ↔ failure.Recognised := by
  rw [hsubmitted.isError_iff]
  exact classifiedText_iff hfails

end Submitted

/-- The manifest cannot be read. -/
def unreadableTurn : Turn :=
  plainTurn (.error (.other "disk I/O error")) quietProcess quietProcess

theorem unreadableTurn_fails :
    FailsWith plainWorker unreadableTurn (unreadableTurn.attemptId soloHandle)
      (.preparation false "disk I/O error") :=
  ⟨none, rfl, rfl⟩

/-- The manifest cannot be read, and the text of the error does not speak of a patch. -/
theorem submitted_isError_iff_unreadable :
    ∃ attempt, Submitted (fun _ => xDigest) 1000 plainWorker none unreadableTurn soloStore
      soloHandle
        attempt ∧
      (attempt.IsError ↔
      (InfrastructureFailure.preparation false "disk I/O error").Recognised) := by
  obtain ⟨attempt, hsubmitted⟩ : ∃ attempt, Submitted (fun _ => xDigest) 1000 plainWorker none
      unreadableTurn soloStore soloHandle attempt :=
    plainTurn_submitted plainTurn_survives_unresolved
  exact ⟨attempt, hsubmitted, submitted_isError_iff hsubmitted unreadableTurn_fails⟩

def missingTool : Process :=
  { quietProcess with launchError := some "[Errno 2] No such file or directory: 'make'" }

def missingToolTurn : Turn :=
  plainTurn (.ok (plainManifest ["make"] ["pytest"])) missingTool quietProcess

theorem missingToolTurn_fails :
    FailsWith plainWorker missingToolTurn (missingToolTurn.attemptId soloHandle)
      (.buildLaunch "[Errno 2] No such file or directory: 'make'") :=
  ⟨plainManifest ["make"] ["pytest"], plainTurn_ready, by decide, rfl⟩

/-- A build command that cannot be launched is no infrastructure error to the worker. -/
theorem missing_build_tool_not_error :
    ∃ attempt, Submitted (fun _ => xDigest) 1000 plainWorker none missingToolTurn soloStore
      soloHandle
        attempt ∧
      FailsWith plainWorker missingToolTurn (missingToolTurn.attemptId soloHandle)
        (.buildLaunch "[Errno 2] No such file or directory: 'make'") ∧ ¬ attempt.IsError := by
  obtain ⟨attempt, hsubmitted⟩ : ∃ attempt, Submitted (fun _ => xDigest) 1000 plainWorker none
      missingToolTurn soloStore soloHandle attempt :=
    plainTurn_submitted (plainTurn_survives (by decide) (by decide) rfl rfl)
  refine ⟨attempt, hsubmitted, missingToolTurn_fails, ?_⟩
  rw [hsubmitted.isError_iff, classifiedText_iff missingToolTurn_fails]
  exact id

end VerifierCI
