import VerifierCI.Errors
import VerifierCI.Models.Canonical
import VerifierCI.Models.Protocol
import VerifierCI.Python.IsoFormat
import VerifierCI.Python.Utf8

/-! # Planning

An audit manifest pins cases and two verifiers for each task; its expansion is
the cross product with the repetition indices. The fallback to the memberships
of a panel never fires, since a `PatchPanel` has none.
-/

namespace VerifierCI

open Python

/-- The cell a job contributes to: task, case and verifier. -/
def Job.cellKey (job : Job) : String × String × String :=
  (job.taskKey, job.caseId, job.verifierKey)

/-- What the table of jobs keeps unique besides the job id. -/
def Job.coordinates (job : Job) : String × String × String × String × Int :=
  (job.runId, job.taskKey, job.caseId, job.verifierKey, job.repetition)

/-- The order of the expansion. -/
def Job.CoordinateLe (a b : Job) : Prop :=
  a.taskKey < b.taskKey ∨ a.taskKey = b.taskKey ∧
    (a.caseId < b.caseId ∨ a.caseId = b.caseId ∧
      (a.verifierKey < b.verifierKey ∨ a.verifierKey = b.verifierKey ∧
        a.repetition ≤ b.repetition))

instance (a b : Job) : Decidable (a.CoordinateLe b) :=
  inferInstanceAs (Decidable (_ ∨ _ ∧ (_ ∨ _ ∧ (_ ∨ _ ∧ _))))

def coordinateBytes (runId taskKey caseId verifierKey : String) (repetition : Int) : List UInt8 :=
  canonicalBytes (.arr [.str runId, .str taskKey, .str caseId, .str verifierKey, .int repetition])

/-- The verifiers of a pin, baseline first. -/
def TaskPin.verifiers (pin : TaskPin) : List String :=
  [pin.verifierBaselineVersion, pin.verifierCandidateVersion]

/-- `range(manifest.max_repetitions)`. -/
def AuditManifest.repetitions (manifest : AuditManifest) : List Nat :=
  List.range manifest.maxRepetitions.toNat

section Planner

variable (sha256 : List UInt8 → Digest)

/-- Compute a deterministic job identifier from execution coordinates. -/
def jobIdOf (runId taskKey caseId verifierKey : String) (repetition : Int) : String :=
  (sha256 (coordinateBytes runId taskKey caseId verifierKey repetition)).text

def pendingJob (runId taskKey caseId verifierKey : String) (repetition : Int) : Job where
  jobId := jobIdOf sha256 runId taskKey caseId verifierKey repetition
  runId := runId
  taskKey := taskKey
  caseId := caseId
  verifierKey := verifierKey
  repetition := repetition
  state := .pending
  fence := 0
  attemptId := none
  leaseToken := none
  workerId := none
  leaseExpiresMs := none
  attemptsStarted := 0
  selectedAttemptId := none
  terminalReason := none

def expanded (manifest : AuditManifest) : List Job :=
  manifest.taskPins.flatMap fun pin =>
    pin.caseIds.flatMap fun caseId =>
      pin.verifiers.flatMap fun verifierKey =>
        manifest.repetitions.map fun rep : Nat =>
          pendingJob sha256 manifest.runId pin.taskKey caseId verifierKey rep

/-- Expand an audit manifest into its planned execution job sequence. -/
def expand (manifest : AuditManifest) : List Job :=
  (expanded sha256 manifest).insertionSort Job.CoordinateLe

/-! ## Manifests -/

/-- Compute deterministic digest of sorted job identities. The ids are hex
digests, so nothing in them is escaped. -/
def computeExpansionDigest (jobs : List Job) : Digest :=
  let ids := (jobs.map Job.jobId).insertionSort (· ≤ ·)
  let quoted := ids.map fun id => '"' :: (id.toList ++ ['"'])
  let text := String.ofList ('[' :: ((quoted.intersperse [',', ' ']).flatten ++ [']']))
  sha256 text.toByteArray.data.toList

/-- The arguments of `build_manifest` with their defaults. -/
structure ManifestRequest where
  options : Option AuditOptions := none
  pins : List TaskPin := []
  panel : Option PatchPanel := none
  runId : Option String := none
  taskPins : List TaskPin := []
  panelKey : Option String := none
  adjudicationVersion : Option String := none
  policyHash : Option String := none
  repetitions : Option Int := none
  benchmarkVersion : String := "local-1.0.0"
  timeoutSeconds : Int := 120
  maxAttempts : Int := 3
  resourcePolicy : Option String := none
  seed : Option Int := none

/-- `value or default` on an optional string. -/
def orDefault (value : Option String) (fallback : String) : String :=
  match value with
  | none => fallback
  | some text => if text = "" then fallback else text

/-- `value or 3` on an optional integer. -/
def orRepetitions (value : Option Int) (fallback : Int) : Int :=
  match value with
  | none => fallback
  | some n => if n = 0 then fallback else n

namespace ManifestRequest

variable (request : ManifestRequest)

/-- `task_pins or pins`. -/
def effectivePins : List TaskPin :=
  if request.taskPins.isEmpty then request.pins else request.taskPins

def effectiveRepetitions : Int :=
  match request.options with
  | some options => options.repetitions
  | none => orRepetitions request.repetitions 3

end ManifestRequest

def draftManifest (uuid : String) (now : Datetime) (request : ManifestRequest) : AuditManifest where
  manifestHash := "temp"
  runId := orDefault request.runId uuid
  benchmarkVersion :=
    match request.options with
    | none => request.benchmarkVersion
    | some options => orDefault options.benchmarkFile request.benchmarkVersion
  taskPins := request.effectivePins
  panelKey :=
    match request.panel with
    | some panel => panel.panelKey
    | none => orDefault request.panelKey "panel-1"
  adjudicationVersion :=
    match request.panel with
    | some panel => panel.membershipDigest
    | none => orDefault request.adjudicationVersion "adj-1"
  evaluationHarnessVersion := "verifierci-0.1.0"
  configHash := (sha256 (ascii "default_config")).text
  policyHash := orDefault request.policyHash (sha256 (ascii "default_policy")).text
  analysisPlanHash := none
  timestamp := now
  hostFingerprint := "local-runner"
  seed :=
    match request.options with
    | some options => options.seed
    | none => request.seed
  agentVersion := none
  modelIdentifier := none
  maxRepetitions := request.effectiveRepetitions
  maxAttemptsPerJob :=
    match request.options with
    | some options => options.maxAttempts
    | none => request.maxAttempts
  timeoutSeconds :=
    match request.options with
    | some options => options.timeoutSeconds
    | none => request.timeoutSeconds
  resourcePolicy := orDefault request.resourcePolicy (sha256 (ascii "sandbox_policy")).text
  expansionDigest := "temp"
  parentRunId := request.options.bind AuditOptions.parentRunId

def TaskPin.toJson (pin : TaskPin) : Json :=
  .obj [
    ("task_key", .str pin.taskKey),
    ("task_version", .str pin.taskVersion),
    ("contract_hash", .str pin.contractHash),
    ("repository_snapshot_digest", .str pin.repositorySnapshotDigest),
    ("environment_id", .str pin.environmentId),
    ("environment_image_digest", Json.ofOption .str pin.environmentImageDigest),
    ("verifier_baseline_version", .str pin.verifierBaselineVersion),
    ("verifier_candidate_version", .str pin.verifierCandidateVersion),
    ("baseline_manifest_hash", .str pin.baselineManifestHash),
    ("candidate_manifest_hash", .str pin.candidateManifestHash),
    ("case_ids", Json.ofStrings pin.caseIds)]

/-- Everything in a manifest but its own hash, as the hash is computed from it. -/
def manifestDict (manifest : AuditManifest) : Json :=
  .obj [
    ("run_id", .str manifest.runId),
    ("benchmark_version", .str manifest.benchmarkVersion),
    ("task_pins", .arr (manifest.taskPins.map TaskPin.toJson)),
    ("panel_key", .str manifest.panelKey),
    ("adjudication_version", .str manifest.adjudicationVersion),
    ("evaluation_harness_version", .str manifest.evaluationHarnessVersion),
    ("config_hash", .str manifest.configHash),
    ("policy_hash", .str manifest.policyHash),
    ("analysis_plan_hash", Json.ofOption .str manifest.analysisPlanHash),
    ("timestamp", .str (String.ofList manifest.timestamp.isoformat)),
    ("host_fingerprint", .str manifest.hostFingerprint),
    ("seed", Json.ofOption .int manifest.seed),
    ("agent_version", Json.ofOption .str manifest.agentVersion),
    ("model_identifier", Json.ofOption .str manifest.modelIdentifier),
    ("max_repetitions", .int manifest.maxRepetitions),
    ("max_attempts_per_job", .int manifest.maxAttemptsPerJob),
    ("timeout_seconds", .int manifest.timeoutSeconds),
    ("resource_policy", .str manifest.resourcePolicy),
    ("expansion_digest", .str manifest.expansionDigest),
    ("parent_run_id", Json.ofOption .str manifest.parentRunId)]

/-- The ceiling on planned jobs, if the options set one. -/
def checkMaxJobs (options : Option AuditOptions) (planned : Nat) : Except Exc Unit :=
  match options with
  | none => .ok ()
  | some options =>
      if options.maxJobs ≠ 0 ∧ options.maxJobs < planned then
        .error (.verifierCI .validationError
          ("Planned job count (" ++ toString planned ++ ") exceeds max_jobs ceiling (" ++
            toString options.maxJobs ++ ").") .resourceExhausted)
      else .ok ()

/-- Construct and hash an immutable manifest. The run id falls back to a fresh
`uuid`, and `now` is the planning time. -/
def buildManifest (uuid : String) (now : Datetime) (request : ManifestRequest) :
    Except Exc AuditManifest := do
  let draft := draftManifest sha256 uuid now request
  if draft.taskPins.isEmpty then
    raiseWith .validationError "Audit manifest requires at least one TaskPin."
  else do
    let planned := expand sha256 draft
    checkMaxJobs request.options planned.length
    let hashed := { draft with expansionDigest := (computeExpansionDigest sha256 planned).text }
    .ok { hashed with manifestHash := (sha256 (canonicalBytes (manifestDict hashed))).text }

end Planner

/-! ## What the expansion contains -/

def TaskPin.cells (pin : TaskPin) : List (String × String × String) :=
  pin.caseIds.flatMap fun caseId =>
    pin.verifiers.map fun verifierKey => (pin.taskKey, caseId, verifierKey)

/-- The cells a manifest plans, in the order of its pins. -/
def AuditManifest.plannedCells (manifest : AuditManifest) : List (String × String × String) :=
  manifest.taskPins.flatMap TaskPin.cells

/-- The repetitions of one planned cell. -/
def cellJobs (sha256 : List UInt8 → Digest) (manifest : AuditManifest)
    (key : String × String × String) : List Job :=
  manifest.repetitions.map fun rep : Nat =>
    pendingJob sha256 manifest.runId key.1 key.2.1 key.2.2 rep

variable {sha256 : List UInt8 → Digest} {manifest : AuditManifest}

theorem expanded_eq :
    expanded sha256 manifest = manifest.plannedCells.flatMap (cellJobs sha256 manifest) := by
  simp only [expanded, AuditManifest.plannedCells, TaskPin.cells, cellJobs, List.flatMap_assoc,
    List.flatMap_map]

theorem expand_perm : (expand sha256 manifest).Perm (expanded sha256 manifest) :=
  List.perm_insertionSort _ _

theorem mem_repetitions {rep : Nat} :
    rep ∈ manifest.repetitions ↔ (rep : Int) < manifest.maxRepetitions := by
  rw [AuditManifest.repetitions, List.mem_range]
  omega

/-- The planned jobs are the repetitions of the planned cells. -/
theorem mem_expand {job : Job} :
    job ∈ expand sha256 manifest ↔ ∃ key ∈ manifest.plannedCells, ∃ rep : Nat,
      (rep : Int) < manifest.maxRepetitions ∧
        job = pendingJob sha256 manifest.runId key.1 key.2.1 key.2.2 rep := by
  rw [expand_perm.mem_iff, expanded_eq, List.mem_flatMap]
  constructor
  · rintro ⟨key, hkey, hjob⟩
    obtain ⟨rep, hrep, rfl⟩ := List.mem_map.mp hjob
    exact ⟨key, hkey, rep, mem_repetitions.mp hrep, rfl⟩
  · rintro ⟨key, hkey, rep, hrep, rfl⟩
    exact ⟨key, hkey, List.mem_map.mpr ⟨rep, mem_repetitions.mpr hrep, rfl⟩⟩

/-! ## A small plan -/

/-- SHA-256 on the inputs of a table and one more, whose digest is `last`. -/
def knownSha256 (table : List (List UInt8 × Digest)) (last : Digest) (bytes : List UInt8) :
    Digest :=
  ((table.find? fun entry => entry.1 = bytes).map Prod.snd).getD last

/-- The digest of the bytes `default_config`. -/
def configDigest : Digest where
  text := "dfd1b9e06c70b476445de1287296cacd79bc099ac7d5e7129870cd64f374a6f7"
  length_eq := String.length_ofList
  hex := hex_ofList rfl

/-- The digests of the coordinates of the small plan. -/
def baselineDigest : Digest where
  text := "75a7c986c13341b859e3146d90db68de5309963fb58cfe1b3e02ba50a91269f7"
  length_eq := String.length_ofList
  hex := hex_ofList rfl

def candidateDigest : Digest where
  text := "5b455a051fe87e8b18d2c9235b606103d65f0c42ee70098dfb1b0827a774f8fd"
  length_eq := String.length_ofList
  hex := hex_ofList rfl

/-- The digests of its job ids and of its manifest. -/
def smallExpansionDigest : Digest where
  text := "0e571ed72d907b2fac129d37d28823b187ef4a5695cc12467030d37b07e3de17"
  length_eq := String.length_ofList
  hex := hex_ofList rfl

def smallManifestDigest : Digest where
  text := "d8671bffcffe5eb5f8c403efa57d0001cf7cefbab6d55d8d0ea983ca8bcdecfc"
  length_eq := String.length_ofList
  hex := hex_ofList rfl

def smallPin : TaskPin where
  taskKey := "task"
  taskVersion := "1"
  contractHash := "contract"
  repositorySnapshotDigest := "snapshot"
  environmentId := "environment"
  environmentImageDigest := none
  verifierBaselineVersion := "verifier"
  verifierCandidateVersion := "candidate"
  baselineManifestHash := "baseline-manifest"
  candidateManifestHash := "candidate-manifest"
  caseIds := ["case"]

def smallRequest : ManifestRequest where
  pins := [smallPin]
  runId := some "run"
  policyHash := some "policy"
  repetitions := some 1
  resourcePolicy := some "sandbox"

def smallManifest : AuditManifest where
  manifestHash := smallManifestDigest.text
  runId := "run"
  benchmarkVersion := "local-1.0.0"
  taskPins := [smallPin]
  panelKey := "panel-1"
  adjudicationVersion := "adj-1"
  evaluationHarnessVersion := "verifierci-0.1.0"
  configHash := configDigest.text
  policyHash := "policy"
  analysisPlanHash := none
  timestamp :=
    { micros := 0
      utcoffset := some 0
      micros_mem := Datetime.zero_mem
      utcoffset_mem := Datetime.utc_mem }
  hostFingerprint := "local-runner"
  seed := none
  agentVersion := none
  modelIdentifier := none
  maxRepetitions := 1
  maxAttemptsPerJob := 3
  timeoutSeconds := 120
  resourcePolicy := "sandbox"
  expansionDigest := smallExpansionDigest.text
  parentRunId := none

/-- SHA-256 on what planning the small request hashes. The last of it is the
manifest. -/
def planSha256 : List UInt8 → Digest :=
  knownSha256 [
    (ascii "default_config", configDigest),
    (ascii "[\"run\",\"task\",\"case\",\"verifier\",0]", baselineDigest),
    (ascii "[\"run\",\"task\",\"case\",\"candidate\",0]", candidateDigest),
    (ascii ("[\"" ++ candidateDigest.text ++ "\", \"" ++ baselineDigest.text ++ "\"]"),
      smallExpansionDigest)] smallManifestDigest

theorem buildManifest_small :
    buildManifest planSha256 "uuid" smallManifest.timestamp smallRequest = .ok smallManifest := by
  unfold buildManifest
  simp only [canonicalBytes_eq]
  decide +kernel

end VerifierCI
