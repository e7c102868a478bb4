import Mathlib.Data.List.Nodup
import Mathlib.Tactic.Common

/-! # The declarations of the record classes

The annotated types of the fields of the dataclasses, with the classes they refer to
written out. `get_type_hints` resolves every one of them.
-/

namespace VerifierCI

/-- A resolved type hint. Every union of the declarations is with `None`, every tuple is
homogeneous and the keys of every mapping are strings. -/
inductive TypeHint where
  | any
  | bool
  | int
  | float
  | str
  | datetime
  | literal (values : List String)
  | optional (alternative : TypeHint)
  | tuple (item : TypeHint)
  | mapping (value : TypeHint)
  | dataclass (name : String) (fields : List (String × TypeHint))
deriving Repr

namespace TypeHint

/-- What holds of a type hint whenever it holds of its parts holds of every one. -/
@[elab_as_elim]
theorem ind {P : TypeHint → Prop} (any : P .any) (bool : P .bool) (int : P .int)
    (float : P .float) (str : P .str) (datetime : P .datetime)
    (literal : ∀ values, P (.literal values))
    (optional : ∀ alternative, P alternative → P (.optional alternative))
    (tuple : ∀ item, P item → P (.tuple item)) (mapping : ∀ value, P value → P (.mapping value))
    (dataclass : ∀ name fields, (∀ field ∈ fields, P field.2) → P (.dataclass name fields)) :
    ∀ hint, P hint :=
  @ TypeHint.rec P (fun fields => ∀ field ∈ fields, P field.2) (fun field => P field.2)
    any bool int float str datetime literal optional tuple mapping dataclass
    (fun _ h => nomatch h) (fun _ _ hhead htail => List.forall_mem_cons.mpr ⟨hhead, htail⟩)
    (fun _ _ h => h)

mutual

/-- Is the type declared throughout, without `Any`? -/
def typed : TypeHint → Bool
  | .any => false
  | .optional alternative => alternative.typed
  | .tuple item => item.typed
  | .mapping value => value.typed
  | .dataclass _ fields => fieldsTyped fields
  | _ => true

def fieldsTyped : List (String × TypeHint) → Bool
  | [] => true
  | (_, hint) :: rest => hint.typed && fieldsTyped rest

end

mutual

/-- The levels of arrays and objects in the text of a value without `Any`. -/
def nesting : TypeHint → Nat
  | .optional alternative => alternative.nesting
  | .tuple item => item.nesting + 1
  | .mapping value => value.nesting + 1
  | .dataclass _ fields => fieldsNesting fields + 1
  | _ => 0

def fieldsNesting : List (String × TypeHint) → Nat
  | [] => 0
  | (_, hint) :: rest => max hint.nesting (fieldsNesting rest)

end

mutual

/-- Does no dataclass declare a field twice? -/
def distinct : TypeHint → Bool
  | .optional alternative => alternative.distinct
  | .tuple item => item.distinct
  | .mapping value => value.distinct
  | .dataclass _ fields => decide (fields.map Prod.fst).Nodup && fieldsDistinct fields
  | _ => true

def fieldsDistinct : List (String × TypeHint) → Bool
  | [] => true
  | (_, hint) :: rest => hint.distinct && fieldsDistinct rest

end

def isStr : TypeHint → Bool
  | .str => true
  | _ => false

mutual

/-- Is every schema version a string? -/
def versioned : TypeHint → Bool
  | .optional alternative => alternative.versioned
  | .tuple item => item.versioned
  | .mapping value => value.versioned
  | .dataclass _ fields => fieldsVersioned fields
  | _ => true

def fieldsVersioned : List (String × TypeHint) → Bool
  | [] => true
  | (name, hint) :: rest =>
      (name != "schema_version" || hint.isStr) && hint.versioned &&
        fieldsVersioned rest

end

section Fields

variable {fields : List (String × TypeHint)}

theorem fieldsTyped_iff :
    fieldsTyped fields = true ↔ ∀ field ∈ fields, field.2.typed = true := by
  induction fields with
  | nil => simp [fieldsTyped]
  | cons field rest ih => rw [fieldsTyped, Bool.and_eq_true, ih, List.forall_mem_cons]

theorem fieldsNesting_le {n : Nat} :
    fieldsNesting fields ≤ n ↔ ∀ field ∈ fields, field.2.nesting ≤ n := by
  induction fields with
  | nil => simp [fieldsNesting]
  | cons field rest ih => rw [fieldsNesting, Nat.max_le, ih, List.forall_mem_cons]

theorem distinct_dataclass {name : String} :
    (dataclass name fields).distinct = true ↔
      (fields.map Prod.fst).Nodup ∧ ∀ field ∈ fields, field.2.distinct = true := by
  have hfields : fieldsDistinct fields = true ↔ ∀ field ∈ fields, field.2.distinct = true := by
    induction fields with
    | nil => simp [fieldsDistinct]
    | cons field rest ih => rw [fieldsDistinct, Bool.and_eq_true, ih, List.forall_mem_cons]
  rw [distinct, Bool.and_eq_true, decide_eq_true_eq, hfields]

theorem fieldsVersioned_iff :
    fieldsVersioned fields = true ↔ ∀ field ∈ fields,
      (field.1 = "schema_version" → field.2 = .str) ∧ field.2.versioned = true := by
  induction fields with
  | nil => simp [fieldsVersioned]
  | cons field rest ih =>
      obtain ⟨name, hint⟩ := field
      rw [fieldsVersioned, Bool.and_eq_true, Bool.and_eq_true, ih, List.forall_mem_cons]
      have hstr : (name != "schema_version" || hint.isStr) = true ↔
          (name = "schema_version" → hint = .str) := by
        rw [Bool.or_eq_true, bne_iff_ne, imp_iff_not_or]
        cases hint <;> simp [isStr]
      rw [hstr]

end Fields

/-! ## The classes -/

def reviewVote : TypeHint :=
  .dataclass "ReviewVote" [
    ("reviewer_id", .str), ("label", .literal ["valid", "invalid", "unresolved"]),
    ("rationale", .str), ("minutes", .optional .float), ("blinded_to_verifier", .bool),
    ("independent_of_author", .bool), ("recorded_at", .datetime)]

def taskPin : TypeHint :=
  .dataclass "TaskPin" [
    ("task_key", .str), ("task_version", .str), ("contract_hash", .str),
    ("repository_snapshot_digest", .str), ("environment_id", .str),
    ("environment_image_digest", .optional .str), ("verifier_baseline_version", .str),
    ("verifier_candidate_version", .str), ("baseline_manifest_hash", .str),
    ("candidate_manifest_hash", .str), ("case_ids", .tuple .str)]

def resourceUsage : TypeHint :=
  .dataclass "ResourceUsage" [
    ("duration", .optional .float), ("allocated_cpu", .optional .float),
    ("cpu_seconds", .optional .float), ("peak_memory", .optional .int),
    ("model_usage", .optional (.mapping .int)), ("estimated_cost", .optional .str),
    ("pricing_version", .optional .str), ("bytes_written", .optional .int)]

def job : TypeHint :=
  .dataclass "Job" [
    ("job_id", .str), ("run_id", .str), ("task_key", .str), ("case_id", .str),
    ("verifier_key", .str), ("repetition", .int),
    ("state", .literal ["PENDING", "CLAIMED", "RUNNING", "DONE", "FAILED", "ABANDONED"]),
    ("fence", .int), ("attempt_id", .optional .str), ("lease_token", .optional .str),
    ("worker_id", .optional .str), ("lease_expires_ms", .optional .int),
    ("attempts_started", .int), ("selected_attempt_id", .optional .str),
    ("terminal_reason", .optional .str)]

def acceptanceCell : TypeHint :=
  .dataclass "AcceptanceCell" [
    ("task_key", .str), ("repository_id", .str), ("case_id", .str), ("verifier_key", .str),
    ("adjudication_id", .str), ("label", .literal ["valid", "invalid", "unresolved"]),
    ("role", .literal ["challenge", "reference", "noop"]),
    ("outcome", .literal ["accept", "reject", "invalid_evaluation", "flaky", "error"]),
    ("evaluation_validity", .literal ["valid", "invalid"]), ("planned_repetitions", .int),
    ("selected_attempt_ids", .tuple .str), ("excluded_attempt_ids", .tuple .str),
    ("repetition_outcomes", .tuple .str), ("diagnostic_codes", .tuple .str)]

def metricTerm : TypeHint :=
  .dataclass "MetricTerm" [
    ("task_key", .str), ("numerator", .int), ("denominator", .int), ("excluded", .mapping .int)]

def gateEvidence : TypeHint :=
  .dataclass "GateEvidence" [
    ("rule_id", .str), ("case_id", .str), ("adjudication_id", .str), ("contract_hash", .str),
    ("baseline_outcome", .str), ("candidate_outcome", .str), ("witness_ids", .tuple .str),
    ("artifact_digests", .tuple .str), ("explanation", .str)]

def importRequest : TypeHint :=
  .dataclass "ImportRequest" [
    ("adapter", .str), ("instance", .str), ("source", .str), ("source_revision", .str),
    ("environment_manifest", .optional .str), ("output_dir", .str), ("dry_run", .bool)]

def artifact : TypeHint :=
  .dataclass "Artifact" [
    ("digest", .str), ("kind", .str), ("size_bytes", .int), ("storage_uri", .str),
    ("media_type", .str), ("access_policy", .literal ["public", "restricted", "sealed"]),
    ("retention_until", .optional .datetime), ("available", .bool), ("created_at", .datetime)]

def contract : TypeHint :=
  .dataclass "Contract" [
    ("contract_hash", .str), ("task_id", .str), ("version", .str),
    ("requirement_hashes", .tuple .str), ("allowed_variation", .str),
    ("unresolved_questions", .tuple .str), ("evidence_digests", .tuple .str),
    ("created_at", .datetime)]

def environment : TypeHint :=
  .dataclass "Environment" [
    ("environment_id", .str), ("backend", .literal ["fixture", "docker"]),
    ("image_digest", .optional .str), ("platform", .str), ("recipe_digest", .str),
    ("lock_digests", .tuple .str), ("service_manifests", .tuple .str),
    ("resource_policy_hash", .str), ("runtime_fingerprint", .str), ("mirror_uris", .tuple .str)]

def patchCase : TypeHint :=
  .dataclass "PatchCase" [
    ("case_id", .str), ("task_key", .str), ("diff_digest", .str), ("base_snapshot_digest", .str),
    ("source", .literal ["human", "agent", "mutation", "reference", "noop"]),
    ("source_run_id", .optional .str), ("parent_case_ids", .tuple .str), ("family_id", .str),
    ("role", .literal ["challenge", "reference", "noop"]), ("provenance_digest", .str),
    ("licence", .str), ("created_at", .datetime)]

def repositorySnapshot : TypeHint :=
  .dataclass "RepositorySnapshot" [
    ("snapshot_digest", .str), ("repository_id", .str), ("commit_oid", .str),
    ("archive_uri", .str), ("tree_digest", .str), ("submodule_digests", .tuple .str),
    ("lock_digests", .tuple .str), ("licence", .str), ("created_at", .datetime)]

def requirement : TypeHint :=
  .dataclass "Requirement" [
    ("requirement_hash", .str), ("requirement_id", .str), ("text", .str),
    ("source_kind", .literal ["explicit", "repository", "clarification"]),
    ("evidence_digests", .tuple .str), ("source_locator", .str), ("allowed_variation", .str)]

def task : TypeHint :=
  .dataclass "Task" [
    ("task_key", .str), ("task_id", .str), ("version", .str), ("statement", .str),
    ("adapter", .str), ("contract_hash", .str), ("snapshot_digest", .str),
    ("environment_id", .str), ("licence", .str), ("provenance", .str),
    ("eligibility", .literal ["eligible", "excluded", "pending"]), ("notes", .str),
    ("created_at", .datetime)]

def verifierManifest : TypeHint :=
  .dataclass "VerifierManifest" [
    ("manifest_hash", .str), ("mode", .literal ["compatibility", "blackbox"]),
    ("command", .tuple .str), ("build_command", .tuple .str),
    ("expected_collection", .tuple .str), ("parser_id", .str), ("report_path", .str),
    ("payload_digest", .str), ("allowed_edit_paths", .tuple .str),
    ("required_pass_ids", .tuple .str), ("permitted_skips", .tuple .str),
    ("timeout_seconds", .int)]

def verifierVersion : TypeHint :=
  .dataclass "VerifierVersion" [
    ("verifier_key", .str), ("verifier_id", .str), ("version", .str),
    ("parent_key", .optional .str), ("manifest_hash", .str), ("payload_digest", .str),
    ("compatible_contract_hashes", .tuple .str), ("created_at", .datetime)]

def importBundle : TypeHint :=
  .dataclass "ImportBundle" [
    ("task", task), ("contract", contract), ("requirements", .tuple requirement),
    ("snapshot", repositorySnapshot), ("environment", environment),
    ("verifier", verifierVersion), ("verifier_manifest", verifierManifest),
    ("controls", .tuple patchCase), ("upstream_artifact", artifact),
    ("diagnostics", .tuple .str)]

def localImportManifest : TypeHint :=
  .dataclass "LocalImportManifest" [
    ("schema_version", .str), ("task", task), ("contract_file", .str), ("snapshot_file", .str),
    ("environment_file", .str), ("requirement_files", .tuple .str), ("verifier_file", .str),
    ("control_files", .tuple .str)]

def sandboxPolicy : TypeHint :=
  .dataclass "SandboxPolicy" [
    ("policy_hash", .str), ("cpus", .float), ("memory_bytes", .int), ("pids", .int),
    ("wall_seconds", .int), ("cleanup_grace_seconds", .int), ("workspace_bytes", .int),
    ("workspace_inodes", .int), ("tmp_bytes", .int), ("artifact_bytes", .int),
    ("stream_bytes", .int), ("artifact_files", .int), ("network", .literal ["none"]),
    ("seccomp_digest", .str), ("max_jobs", .int), ("max_concurrency", .int)]

def gatePolicy : TypeHint :=
  .dataclass "GatePolicy" [
    ("policy_hash", .str), ("scope", .literal ["diagnostic", "panel_release", "research"]),
    ("max_flaky_rate", .float), ("max_invalid_evaluation_rate", .float),
    ("max_error_rate", .float), ("min_valid_per_task", .int), ("min_invalid_per_task", .int),
    ("min_paired_tasks", .int), ("min_pair_coverage", .float), ("min_caught_invalid", .int),
    ("min_iar_improvement", .float), ("max_vrr_increase", .float),
    ("require_independent_review", .bool), ("require_no_new_invalid_acceptance", .bool),
    ("require_controls_match", .bool)]

def analysisPlan : TypeHint :=
  .dataclass "AnalysisPlan" [
    ("plan_hash", .str), ("registered_at", .datetime), ("cohort_digest", .str),
    ("verifier_candidates", .tuple .str), ("primary_outcomes", .tuple .str),
    ("min_iar_improvement", .float), ("vrr_noninferiority_margin", .float), ("alpha", .float),
    ("bootstrap_draws", .int), ("seed", .int), ("budgets", .mapping .float),
    ("exclusions", .tuple .str), ("secondary_hypotheses", .tuple .str), ("stopping_rule", .str)]

def testResult : TypeHint :=
  .dataclass "TestResult" [
    ("test_id", .str), ("status", .literal ["passed", "failed", "skipped", "error"]),
    ("duration", .optional .float), ("failure_digest", .optional .str)]

def testReport : TypeHint :=
  .dataclass "TestReport" [
    ("schema_version", .str), ("collected_ids", .tuple .str), ("results", .tuple testResult),
    ("completed", .bool), ("runner_error", .optional .str)]

def executionCapture : TypeHint :=
  .dataclass "ExecutionCapture" [
    ("attempt_id", .str), ("exit_code", .optional .int), ("timed_out", .bool),
    ("oom_killed", .optional .bool), ("cancelled", .bool), ("build_exit_code", .optional .int),
    ("stdout_hash", .optional .str), ("stderr_hash", .optional .str),
    ("report_digest", .optional .str), ("truncated", .bool), ("resources", resourceUsage),
    ("runtime_error", .optional .str)]

def parsedOutcome : TypeHint :=
  .dataclass "ParsedOutcome" [
    ("outcome", .literal ["accept", "reject", "invalid_evaluation", "error"]),
    ("evaluation_validity", .literal ["valid", "invalid"]), ("error_code", .optional .str),
    ("report", .optional testReport), ("evidence_digests", .tuple .str)]

def commandSpec : TypeHint :=
  .dataclass "CommandSpec" [
    ("argv", .tuple .str), ("cwd", .str), ("env", .mapping .str),
    ("stdin_digest", .optional .str), ("timeout_seconds", .int)]

def auditOptions : TypeHint :=
  .dataclass "AuditOptions" [
    ("task_files", .tuple .str), ("benchmark_file", .optional .str), ("panel_file", .str),
    ("baseline_file", .str), ("candidate_file", .str), ("repetitions", .int),
    ("backend", .literal ["fixture", "docker"]), ("trusted_fixture", .bool),
    ("sandbox_policy_file", .str), ("max_attempts", .int), ("offline", .bool),
    ("output_dir", .optional .str), ("dry_run", .bool), ("resume_run_id", .optional .str),
    ("parent_run_id", .optional .str), ("policy_file", .str),
    ("analysis_plan_file", .optional .str), ("max_jobs", .int), ("concurrency", .int),
    ("timeout_seconds", .int), ("seed", .optional .int), ("collect_only", .bool),
    ("diagnostic", .bool)]

def acceptanceMatrix : TypeHint :=
  .dataclass "AcceptanceMatrix" [
    ("matrix_id", .str), ("run_id", .str), ("reducer_version", .str),
    ("cells", .tuple acceptanceCell), ("complete", .bool), ("source_attempts_digest", .str),
    ("created_at", .datetime)]

def gateDecision : TypeHint :=
  .dataclass "GateDecision" [
    ("decision_id", .str), ("run_id", .str), ("matrix_id", .optional .str),
    ("policy_hash", .str),
    ("state", .literal ["PASSED", "BLOCKED", "INCONCLUSIVE", "INSUFFICIENT_EVIDENCE",
      "INFRASTRUCTURE_ERROR"]),
    ("exit_code", .int), ("reasons", .tuple .str), ("evidence", .tuple gateEvidence),
    ("reliability_flags", .tuple .str), ("created_at", .datetime)]

def metricResult : TypeHint :=
  .dataclass "MetricResult" [
    ("metric_id", .str), ("matrix_id", .str), ("name", .str), ("definition_version", .str),
    ("verifier_key", .optional .str), ("cohort", .literal ["challenge", "controls", "all"]),
    ("value", .optional .float), ("numerator", .optional .int), ("denominator", .optional .int),
    ("task_terms", .tuple metricTerm), ("ci_low", .optional .float),
    ("ci_high", .optional .float), ("analysis_plan_hash", .optional .str),
    ("coverage", .mapping .int)]

def auditResult : TypeHint :=
  .dataclass "AuditResult" [
    ("manifest", .any), ("matrix", .optional acceptanceMatrix), ("metrics", .tuple metricResult),
    ("gate", .optional gateDecision), ("diagnostics", .tuple .str),
    ("artifacts", .tuple artifact)]

def telemetryEvent : TypeHint :=
  .dataclass "TelemetryEvent" [
    ("run_id", .str), ("attempt_id", .str), ("task_id", .str), ("patch_digest", .str),
    ("verifier_version", .str), ("action_type", .str), ("duration", .optional .float),
    ("exit_code", .optional .int), ("stdout_hash", .optional .str),
    ("stderr_hash", .optional .str), ("test_collection", .tuple .str),
    ("tests_passed", .optional .int), ("tests_failed", .optional .int),
    ("allocated_cpu", .optional .float), ("cpu_seconds", .optional .float),
    ("peak_memory", .optional .int), ("model_usage", .optional (.mapping .int)),
    ("estimated_cost", .optional .str), ("pricing_version", .optional .str)]

def bootstrapResult : TypeHint :=
  .dataclass "BootstrapResult" [
    ("estimate", .optional .float), ("low", .optional .float), ("high", .optional .float),
    ("seed", .int), ("valid_draws", .int), ("total_draws", .int), ("method", .str),
    ("warnings", .tuple .str)]

def reviewAgreement : TypeHint :=
  .dataclass "ReviewAgreement" [
    ("paired_cases", .int), ("raw_agreement", .optional .float),
    ("cohens_kappa", .optional .float), ("unresolved_cases", .int), ("warnings", .tuple .str)]

def trainingExample : TypeHint :=
  .dataclass "TrainingExample" [
    ("case_id", .str), ("task_key", .str), ("contract_hash", .str),
    ("label", .literal ["valid", "invalid"]), ("adjudication_id", .str), ("patch_digest", .str),
    ("witness_ids", .tuple .str), ("family_id", .str), ("parent_case_ids", .tuple .str),
    ("agent_run_id", .optional .str), ("licence", .str), ("exposure_digest", .str),
    ("source_panel_key", .str)]

def benchmarkVersion : TypeHint :=
  .dataclass "BenchmarkVersion" [
    ("benchmark_key", .str), ("task_keys", .tuple .str), ("panel_keys", .tuple .str),
    ("analysis_plan_hash", .optional .str), ("release_digest", .str), ("created_at", .datetime)]

def witness : TypeHint :=
  .dataclass "Witness" [
    ("witness_id", .str), ("case_id", .str), ("contract_hash", .str),
    ("requirement_hashes", .tuple .str), ("input_digest", .str), ("expected_digest", .str),
    ("observed_digest", .str), ("reproducer_command", .tuple .str), ("environment_id", .str),
    ("reviewed_by", .tuple .str), ("reproduced_at", .optional .datetime)]

def adjudication : TypeHint :=
  .dataclass "Adjudication" [
    ("adjudication_id", .str), ("case_id", .str), ("contract_hash", .str), ("version", .int),
    ("label", .literal ["valid", "invalid", "unresolved"]),
    ("review_status", .literal ["provisional", "independent", "disputed"]),
    ("votes", .tuple reviewVote), ("rationale", .str), ("requirement_hashes", .tuple .str),
    ("witness_ids", .tuple .str), ("uncertainty", .str), ("supersedes_id", .optional .str),
    ("created_at", .datetime)]

def patchPanel : TypeHint :=
  .dataclass "PatchPanel" [
    ("panel_key", .str), ("panel_id", .str), ("version", .str),
    ("split", .literal ["development", "assessment", "train"]), ("membership_digest", .str),
    ("sampling_policy", .str), ("exposed_at", .optional .datetime),
    ("development_used_at", .optional .datetime), ("sealed_at", .optional .datetime),
    ("retired_at", .optional .datetime), ("parent_panel_key", .optional .str)]

def patchPanelMembership : TypeHint :=
  .dataclass "PatchPanelMembership" [
    ("panel_key", .str), ("case_id", .str), ("adjudication_id", .str), ("ordinal", .int),
    ("expected_control_outcomes", .mapping .str)]

def agentRun : TypeHint :=
  .dataclass "AgentRun" [
    ("agent_run_id", .str), ("agent_version", .str), ("model_identifier", .str),
    ("prompt_digest", .str), ("config_hash", .str), ("budget", .mapping (.optional .float)),
    ("patch_digest", .str), ("trajectory_digest", .optional .str),
    ("model_usage", .optional (.mapping .int)), ("exposure_record_digest", .str),
    ("created_at", .datetime)]

def evaluationAttempt : TypeHint :=
  .dataclass "EvaluationAttempt" [
    ("attempt_id", .str), ("job_id", .str), ("fence", .int),
    ("outcome", .optional (.literal ["accept", "reject", "invalid_evaluation", "error"])),
    ("evaluation_validity", .literal ["pending", "valid", "invalid"]),
    ("error_code", .optional .str),
    ("disposition", .literal ["active", "authoritative", "stale", "abandoned"]),
    ("started_at", .datetime), ("finished_at", .optional .datetime),
    ("exit_code", .optional .int), ("stdout_hash", .optional .str),
    ("stderr_hash", .optional .str), ("report_digest", .optional .str),
    ("test_collection", .tuple .str), ("tests_passed", .optional .int),
    ("tests_failed", .optional .int), ("resources", resourceUsage),
    ("artifact_digests", .tuple .str), ("capture_truncated", .bool)]

def auditManifest : TypeHint :=
  .dataclass "AuditManifest" [
    ("manifest_hash", .str), ("run_id", .str), ("benchmark_version", .str),
    ("task_pins", .tuple taskPin), ("panel_key", .str), ("adjudication_version", .str),
    ("evaluation_harness_version", .str), ("config_hash", .str), ("policy_hash", .str),
    ("analysis_plan_hash", .optional .str), ("timestamp", .datetime), ("host_fingerprint", .str),
    ("seed", .optional .int), ("agent_version", .optional .str),
    ("model_identifier", .optional .str), ("max_repetitions", .int),
    ("max_attempts_per_job", .int), ("timeout_seconds", .int), ("resource_policy", .str),
    ("expansion_digest", .str), ("parent_run_id", .optional .str)]

def auditRun : TypeHint :=
  .dataclass "AuditRun" [
    ("run_id", .str), ("manifest_hash", .str),
    ("state", .literal ["PLANNED", "RUNNING", "COMPLETE", "CANCELLED", "FAILED"]),
    ("cancel_requested", .bool), ("created_at", .datetime), ("finished_at", .optional .datetime),
    ("diagnostic_code", .optional .str)]

/-- `_KIND_REGISTRY`. -/
def kindRegistry : List (String × TypeHint) := [
  ("ReviewVote", reviewVote), ("TaskPin", taskPin), ("ResourceUsage", resourceUsage),
  ("Job", job), ("AcceptanceCell", acceptanceCell), ("MetricTerm", metricTerm),
  ("GateEvidence", gateEvidence), ("ImportRequest", importRequest),
  ("ImportBundle", importBundle), ("LocalImportManifest", localImportManifest),
  ("SandboxPolicy", sandboxPolicy), ("GatePolicy", gatePolicy), ("AnalysisPlan", analysisPlan),
  ("TestResult", testResult), ("TestReport", testReport), ("ExecutionCapture", executionCapture),
  ("ParsedOutcome", parsedOutcome), ("CommandSpec", commandSpec), ("AuditOptions", auditOptions),
  ("AuditResult", auditResult), ("TelemetryEvent", telemetryEvent),
  ("BootstrapResult", bootstrapResult), ("ReviewAgreement", reviewAgreement),
  ("TrainingExample", trainingExample), ("BenchmarkVersion", benchmarkVersion), ("Task", task),
  ("Requirement", requirement), ("Contract", contract),
  ("RepositorySnapshot", repositorySnapshot), ("Environment", environment),
  ("PatchCase", patchCase), ("Witness", witness), ("Adjudication", adjudication),
  ("PatchPanel", patchPanel), ("PatchPanelMembership", patchPanelMembership),
  ("AgentRun", agentRun), ("VerifierVersion", verifierVersion),
  ("VerifierManifest", verifierManifest), ("EvaluationAttempt", evaluationAttempt),
  ("AcceptanceMatrix", acceptanceMatrix), ("MetricResult", metricResult),
  ("GateDecision", gateDecision), ("Artifact", artifact), ("AuditManifest", auditManifest),
  ("AuditRun", auditRun)]

def envelopeNames : List String := ["schema_version", "kind", "data"]

structure Declared (kind : String) (fields : List (String × TypeHint)) : Prop where
  distinct : (dataclass kind fields).distinct = true
  nesting : (dataclass kind fields).nesting ≤ 6
  /-- No class has the fields of an envelope. -/
  not_envelope : ∃ name ∈ envelopeNames, name ∉ fields.map Prod.fst

def declaredCheck (entry : String × TypeHint) : Bool :=
  match entry.2 with
  | .dataclass name fields =>
      name == entry.1 && entry.2.distinct && decide (entry.2.nesting ≤ 6) &&
        envelopeNames.any fun name => !(fields.map Prod.fst).contains name
  | _ => false

/-- The check that is evaluated over the registry proves of every kind what the declarations
have in common. -/
theorem declared_of_check {kind : String} {hint : TypeHint}
    (h : declaredCheck (kind, hint) = true) :
    ∃ fields, hint = .dataclass kind fields ∧ Declared kind fields := by
  unfold declaredCheck at h
  cases hint with
  | dataclass name fields =>
      simp only [Bool.and_eq_true, beq_iff_eq, decide_eq_true_eq, List.any_eq_true,
        Bool.not_eq_true', List.contains_eq_mem, decide_eq_false_iff_not] at h
      obtain ⟨⟨⟨rfl, hdistinct⟩, hnesting⟩, henvelope⟩ := h
      exact ⟨fields, rfl, hdistinct, hnesting, henvelope⟩
  | _ => cases h

/-- Every kind is a dataclass of its name. -/
theorem declared_of_mem {kind : String} {hint : TypeHint}
    (h : (kind, hint) ∈ kindRegistry) :
    ∃ fields, hint = .dataclass kind fields ∧ Declared kind fields := by
  have hall : kindRegistry.all declaredCheck = true := by decide +kernel
  exact declared_of_check (List.all_eq_true.mp hall _ h)

/-- Every schema version is declared as a string. -/
theorem versioned_of_mem {kind : String} {hint : TypeHint}
    (h : (kind, hint) ∈ kindRegistry) : hint.versioned = true := by
  have hall : kindRegistry.all (fun entry => entry.2.versioned) = true := by decide +kernel
  exact List.all_eq_true.mp hall _ h

/-- `Any` occurs in one class only. -/
theorem typed_of_mem {kind : String} {hint : TypeHint}
    (h : (kind, hint) ∈ kindRegistry) (hkind : kind ≠ "AuditResult") :
    hint.typed = true := by
  have hall : kindRegistry.all (fun entry => entry.1 == "AuditResult" || entry.2.typed) = true := by
    decide +kernel
  have hentry := List.all_eq_true.mp hall _ h
  simpa [hkind] using hentry

end TypeHint

end VerifierCI
