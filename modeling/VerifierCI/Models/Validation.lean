import VerifierCI.Errors
import VerifierCI.Models.Protocol
import VerifierCI.Models.Task
import VerifierCI.Models.Verifier

/-! # Record validators

The checks a record passes before it is trusted. Checks that a type makes
superfluous are left out: an attempt cannot be `flaky` and has one of three
validities, a task one of three eligibilities, a verifier one of two modes.
-/

namespace VerifierCI

/-- `str(outcome)` of an optional outcome. -/
def strOfOutcome : Option Outcome → String
  | none => "None"
  | some outcome => outcome.text

def validateAttempt (attempt : EvaluationAttempt) : Except Exc Unit :=
  if attempt.fence ≤ 0 then
    raiseWith .validationError
      ("Evaluation attempt fence must be positive, got " ++ toString attempt.fence ++ ".")
  else
    match attempt.evaluationValidity with
    | .pending =>
        if attempt.outcome ≠ none ∨ attempt.disposition ≠ .active then
          raiseWith .validationError
            ("Pending evaluation attempt must have outcome=None and disposition='active', " ++
              "got outcome=" ++ strOfOutcome attempt.outcome ++ ", disposition=" ++
              attempt.disposition.text ++ ".")
        else .ok ()
    | .valid =>
        if attempt.outcome ≠ some .accept ∧ attempt.outcome ≠ some .reject then
          raiseWith .validationError
            ("Valid evaluation attempt must have outcome 'accept' or 'reject', got '" ++
              strOfOutcome attempt.outcome ++ "'.")
        else .ok ()
    | .invalid =>
        if (attempt.outcome = some .invalidEvaluation ∨ attempt.outcome = some .error) ∨
            attempt.outcome = none ∧
              (attempt.disposition = .abandoned ∨ attempt.disposition = .stale) then .ok ()
        else
          raiseWith .validationError
            ("Invalid evaluation attempt must have outcome in ('invalid_evaluation','error') " ++
              "or (outcome=None and disposition in ('abandoned','stale')); got outcome=" ++
              strOfOutcome attempt.outcome ++ ", disposition=" ++ attempt.disposition.text ++ ".")

/-- The pairs of outcome and validity the validator lets through. -/
inductive Coherent (attempt : EvaluationAttempt) : Prop
  | pending (hvalidity : attempt.evaluationValidity = .pending) (houtcome : attempt.outcome = none)
      (hdisposition : attempt.disposition = .active)
  | valid (hvalidity : attempt.evaluationValidity = .valid)
      (houtcome : attempt.outcome = some .accept ∨ attempt.outcome = some .reject)
  | invalid (hvalidity : attempt.evaluationValidity = .invalid)
      (houtcome : attempt.outcome = some .invalidEvaluation ∨ attempt.outcome = some .error)
  | lost (hvalidity : attempt.evaluationValidity = .invalid) (houtcome : attempt.outcome = none)
      (hdisposition : attempt.disposition = .abandoned ∨ attempt.disposition = .stale)

theorem raiseWith_ne_ok {cls : ErrorClass} {message : String} {value : Unit} :
    raiseWith cls message ≠ .ok value := by
  intro h
  cases h

/-- The chain of checks, read in its order. -/
theorem validateAttempt_ok_iff {attempt : EvaluationAttempt} :
    validateAttempt attempt = .ok () ↔ 0 < attempt.fence ∧ Coherent attempt := by
  unfold validateAttempt
  by_cases hfence : attempt.fence ≤ 0
  · rw [if_pos hfence]
    constructor
    · exact fun h => absurd h raiseWith_ne_ok
    · rintro ⟨hpos, _⟩
      omega
  · have hpos : 0 < attempt.fence := by omega
    rw [if_neg hfence]
    simp only [hpos, true_and]
    cases hvalidity : attempt.evaluationValidity with
    | pending =>
        dsimp only
        split_ifs with hbad
        · refine ⟨fun h => absurd h raiseWith_ne_ok, ?_⟩
          rintro (⟨_, houtcome, hdisposition⟩ | ⟨h, _⟩ | ⟨h, _⟩ | ⟨h, _⟩)
          · exact (hbad.elim (· houtcome) (· hdisposition)).elim
          all_goals cases hvalidity.symm.trans h
        · rw [not_or, not_ne_iff, not_ne_iff] at hbad
          exact ⟨fun _ => .pending hvalidity hbad.1 hbad.2, fun _ => rfl⟩
    | valid =>
        dsimp only
        split_ifs with hbad
        · refine ⟨fun h => absurd h raiseWith_ne_ok, ?_⟩
          rintro (⟨h, _⟩ | ⟨_, houtcome⟩ | ⟨h, _⟩ | ⟨h, _⟩)
          · cases hvalidity.symm.trans h
          · exact (houtcome.elim hbad.1 hbad.2).elim
          all_goals cases hvalidity.symm.trans h
        · rw [not_and_or, not_ne_iff, not_ne_iff] at hbad
          exact ⟨fun _ => .valid hvalidity hbad, fun _ => rfl⟩
    | invalid =>
        dsimp only
        split_ifs with hgood
        · refine ⟨fun _ => ?_, fun _ => rfl⟩
          rcases hgood with houtcome | ⟨houtcome, hdisposition⟩
          · exact .invalid hvalidity houtcome
          · exact .lost hvalidity houtcome hdisposition
        · refine ⟨fun h => absurd h raiseWith_ne_ok, ?_⟩
          rintro (⟨h, _⟩ | ⟨h, _⟩ | ⟨_, houtcome⟩ | ⟨_, houtcome, hdisposition⟩)
          · cases hvalidity.symm.trans h
          · cases hvalidity.symm.trans h
          · exact (hgood (Or.inl houtcome)).elim
          · exact (hgood (Or.inr ⟨houtcome, hdisposition⟩)).elim

/-- A grading outcome makes a coherent attempt valid. -/
theorem Coherent.valid_of_decided {attempt : EvaluationAttempt} (h : Coherent attempt)
    (houtcome : attempt.outcome = some .accept ∨ attempt.outcome = some .reject) :
    attempt.evaluationValidity = .valid := by
  cases h with
  | valid hvalidity _ => exact hvalidity
  | pending _ hnone _ => simp [hnone] at houtcome
  | invalid _ hinvalid =>
      rcases hinvalid with hinvalid | hinvalid <;> simp [hinvalid] at houtcome
  | lost _ hnone _ => simp [hnone] at houtcome

/-! ## Tasks and verifiers -/

section Records

variable (sha256 : List UInt8 → Digest)

/-- `re.compile(r"^[0-9a-f]{64}$").match(val)`; `$` also stands before a final newline. -/
def isHex64 (val : String) : Bool :=
  let digits := if val.toList.getLast? = some '\n' then val.toList.dropLast else val.toList
  decide (digits.length = 64) && digits.all fun c => "0123456789abcdef".toList.contains c

/-- Validate task integrity and contract linkage. -/
def validateTask (task : Task) (contract : Contract) : Except Exc Unit :=
  if task.taskKey ≠ task.taskId ++ "@" ++ task.version then
    raiseWith .validationError ("task_key '" ++ task.taskKey ++ "' does not match expected '" ++
      task.taskId ++ "@" ++ task.version ++ "'.")
  else if task.taskId ≠ contract.taskId then
    raiseWith .validationError ("task.task_id '" ++ task.taskId ++
      "' does not match contract.task_id '" ++ contract.taskId ++ "'.")
  else if contract.contractHash ≠ contractHash sha256 contract then
    raiseWith .validationError ("contract.contract_hash '" ++ contract.contractHash ++
      "' does not match computed '" ++ contractHash sha256 contract ++ "'.")
  else if task.contractHash ≠ contract.contractHash then
    raiseWith .validationError ("task.contract_hash '" ++ task.contractHash ++
      "' does not match contract.contract_hash '" ++ contract.contractHash ++ "'.")
  else if isHex64 task.contractHash = false then
    raiseWith .validationError ("task.contract_hash '" ++ task.contractHash ++
      "' is not a valid 64-character lowercase hex digest.")
  else if isHex64 task.snapshotDigest = false then
    raiseWith .validationError ("task.snapshot_digest '" ++ task.snapshotDigest ++
      "' is not a valid 64-character lowercase hex digest.")
  else if task.createdAt.utcoffset ≠ some 0 then
    raiseWith .validationError "task.created_at must be a timezone-aware UTC datetime."
  else .ok ()

/-- Validate verifier version and manifest integrity. -/
def validateVerifier (version : VerifierVersion) (manifest : VerifierManifest) :
    Except Exc Unit :=
  if version.verifierKey ≠ version.verifierId ++ "@" ++ version.version then
    raiseWith .validationError ("verifier_key '" ++ version.verifierKey ++
      "' does not match expected '" ++ version.verifierId ++ "@" ++ version.version ++ "'.")
  else do
    let computed ← manifestHash sha256 manifest
    if manifest.manifestHash ≠ computed then
      raiseWith .validationError ("manifest.manifest_hash '" ++ manifest.manifestHash ++
        "' does not match computed '" ++ computed ++ "'.")
    else if version.manifestHash ≠ computed then
      raiseWith .validationError ("version.manifest_hash '" ++ version.manifestHash ++
        "' does not match manifest '" ++ manifest.manifestHash ++ "'.")
    else if version.payloadDigest ≠ manifest.payloadDigest then
      raiseWith .validationError ("version.payload_digest '" ++ version.payloadDigest ++
        "' does not match manifest.payload_digest '" ++ manifest.payloadDigest ++ "'.")
    else if manifest.timeoutSeconds ≤ 0 then
      raiseWith .validationError ("Verifier manifest timeout must be positive, got " ++
        toString manifest.timeoutSeconds ++ ".")
    else if manifest.command = [] then
      raiseWith .validationError "Verifier manifest command cannot be empty."
    else .ok ()

structure VerifierLinked (version : VerifierVersion) (manifest : VerifierManifest) : Prop where
  key : version.verifierKey = version.verifierId ++ "@" ++ version.version
  hash : manifestHash sha256 manifest = .ok manifest.manifestHash
  linked : version.manifestHash = manifest.manifestHash
  payload : version.payloadDigest = manifest.payloadDigest

/-- A linked verifier is valid as long as it has a command and time to run it. -/
theorem validateVerifier_ok_iff {version : VerifierVersion} {manifest : VerifierManifest} :
    validateVerifier sha256 version manifest = .ok () ↔
      VerifierLinked sha256 version manifest ∧ 0 < manifest.timeoutSeconds ∧
        manifest.command ≠ [] := by
  unfold validateVerifier
  constructor
  · intro h
    split at h
    next => exact absurd h raiseWith_ne_ok
    next hkey =>
      obtain ⟨computed, hcomputed, h⟩ := bind_eq_ok.mp h
      split at h
      next => exact absurd h raiseWith_ne_ok
      next hhash =>
        split at h
        next => exact absurd h raiseWith_ne_ok
        next hlinked =>
          split at h
          next => exact absurd h raiseWith_ne_ok
          next hpayload =>
            split at h
            next => exact absurd h raiseWith_ne_ok
            next htimeout =>
              split at h
              next => exact absurd h raiseWith_ne_ok
              next hcommand =>
                rw [not_not] at hkey hhash hlinked hpayload
                exact ⟨⟨hkey, hhash ▸ hcomputed, hlinked.trans hhash.symm, hpayload⟩,
                  not_le.mp htimeout, hcommand⟩
  · rintro ⟨⟨hkey, hhash, hlinked, hpayload⟩, htimeout, hcommand⟩
    rw [if_neg (not_not.mpr hkey), hhash]
    simp [bind, Except.bind, hlinked, hpayload, not_le.mpr htimeout, hcommand]

end Records

end VerifierCI
