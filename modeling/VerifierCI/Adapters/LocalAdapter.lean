import Mathlib.Data.List.Lex
import Mathlib.Data.String.Basic
import VerifierCI.Models.Validation
import VerifierCI.Python.Paths
import VerifierCI.Python.Yaml

/-! # Importing native tasks

The adapter reads a manifest and the files it names, fills every field that is
missing and computes all hashes and keys itself. The YAML loader, the file
system, the hash and the clock are parameters; files do not change while they
are read.
-/

namespace VerifierCI

open Python

/-! ## Records -/

inductive Backend where
  | fixture
  | docker
deriving DecidableEq, Repr

/-- Immutable execution environment manifest. The image digest and the platform
are taken over as the file has them. -/
structure Environment where
  environmentId : String
  backend : Backend
  imageDigest : Yaml
  platform : Yaml
  recipeDigest : String
  lockDigests : List String
  serviceManifests : List String
  resourcePolicyHash : String
  runtimeFingerprint : String
  mirrorUris : List String

structure LocalImportManifest where
  schemaVersion : String
  task : Task
  contractFile : String
  snapshotFile : String
  environmentFile : String
  requirementFiles : List String
  verifierFile : String
  controlFiles : List String

/-- In-memory normalized bundle returned by a task adapter. -/
structure ImportBundle where
  task : Task
  contract : Contract
  requirements : List Requirement
  snapshot : RepositorySnapshot
  environment : Environment
  verifier : VerifierVersion
  verifierManifest : VerifierManifest
  controls : List PatchCase
  upstreamArtifact : Artifact
  diagnostics : List String

def SourceKind.ofText? : String → Option SourceKind
  | "explicit" => some .explicit
  | "repository" => some .repository
  | "clarification" => some .clarification
  | _ => none

def Eligibility.ofText? : String → Option Eligibility
  | "eligible" => some .eligible
  | "excluded" => some .excluded
  | "pending" => some .pending
  | _ => none

def Backend.ofText? : String → Option Backend
  | "fixture" => some .fixture
  | "docker" => some .docker
  | _ => none

def VerifierMode.ofText? : String → Option VerifierMode
  | "compatibility" => some .compatibility
  | "blackbox" => some .blackbox
  | _ => none

/-- How loading a YAML text fails. -/
inductive YamlFailure where
  | yamlError (text : String)
  /-- An alias or a nesting that is too deep, which the loader refuses itself, or a scalar no
  value can be built from. -/
  | raised (exc : Exc)

structure ImportEnv where
  fs : FileSystem
  sha256 : List UInt8 → Digest
  /-- `yaml.load(content, Loader=RestrictedSafeLoader)`. -/
  loadYaml : List Char → Except YamlFailure Yaml
  repr : Yaml → Except Exc String
  /-- The readings of `datetime.now(UTC)`, one behind the other. -/
  now : Nat → { value : Datetime // value.utcoffset = some 0 }

def maxManifestBytes : Nat := 2 * 1024 * 1024

def supportedLocalVersions : List String := ["1.0", "1.0.0"]

variable (env : ImportEnv)

def ImportEnv.str (value : Yaml) : Except Exc String :=
  value.toStr env.repr

def ImportEnv.strs (value : Yaml) : Except Exc (List String) :=
  value.toStrs env.repr

def ImportEnv.readBytes (path : PyPath) : Except Exc (List UInt8) :=
  match env.fs.readBytes? path with
  | none => .error .osError
  | some data => .ok data

/-- `path.resolve()`. -/
def ImportEnv.resolve (path : PyPath) : Except Exc PyPath :=
  match env.fs.resolve path with
  | .error _ => .error .valueError
  | .ok resolved => .ok resolved

/-! ## Files -/

/-- Load and validate a YAML file with security constraints. -/
def safeLoadYaml (path : PyPath) : Except Exc (List (Yaml × Yaml)) := do
  let symlink ← answered (env.fs.isSymlink? path)
  if symlink then
    raiseWith .protectionError ("Symlink rejected in local manifest loading: " ++ path.text)
  else do
    let file ← answered (env.fs.isFile? path)
    if file = false then
      raiseWith .validationError ("Manifest file not found: " ++ path.text)
    else if maxManifestBytes < env.fs.size path then
      .error (.verifierCI .validationError
        s!"Manifest size {env.fs.size path} exceeds limit of {maxManifestBytes} bytes."
        .artifactLimit)
    else do
      let data ← env.readBytes path
      match readText? data with
      | none => .error .unicodeDecodeError
      | some content =>
          match env.loadYaml content with
          | .error (.yamlError text) =>
              raiseWith .validationError
                ("Failed to parse YAML manifest " ++ path.text ++ ": " ++ text)
          | .error (.raised exc) => .error exc
          | .ok (.dict members) => .ok members
          | .ok value =>
              raiseWith .validationError ("Root of manifest " ++ path.text ++
                " must be a mapping, got " ++ value.typeName ++ ".")

/-- Resolve a relative path, rejecting symlinks and directory traversal. -/
def resolveRelativePath (root : PyPath) (relative : String) : Except Exc PyPath :=
  let path := root.join relative
  if (split '/' (relative.toList.map fun c => if c = '\\' then '/' else c)).contains ['.', '.'] then
    raiseWith .protectionError ("Directory traversal detected in path: " ++ relative)
  else do
    let symlink ← answered (env.fs.isSymlink? path)
    if symlink then
      raiseWith .protectionError ("Symlinks are prohibited in task imports: " ++ relative)
    else
      match env.fs.resolve path, env.fs.resolve root with
      | .error text, _ | .ok _, .error text =>
          raiseWith .protectionError ("Invalid path " ++ relative ++ ": " ++ text)
      | .ok resolved, .ok resolvedRoot =>
          if resolved.isRelativeTo resolvedRoot then .ok path
          else raiseWith .protectionError ("Directory traversal detected in path: " ++ relative)

/-! ## The manifest -/

/-- A field of the task: first of its own mapping, then of the manifest. -/
def taskField (data : List (Yaml × Yaml)) (name : String) (default : Yaml) : Yaml :=
  match Yaml.get data "task" (.dict []) with
  | .dict task =>
      if task.isEmpty then Yaml.get data name default
      else Yaml.get task name (Yaml.get data name default)
  | _ => Yaml.get data name default

/-- Sixty-four zeros: a digest that is not computed yet. -/
def pendingDigest : String := "0000000000000000000000000000000000000000000000000000000000000000"

/-- `read_local_manifest(path, manifest_data)`. -/
def readLocalManifest (path : PyPath) (data : List (Yaml × Yaml)) :
    Except Exc LocalImportManifest :=
  if (Yaml.get? data "task_id").isNone ∧ (Yaml.get? data "task").isNone then
    raiseWith .validationError "Missing required task definition in manifest."
  else do
    let root := path.parent
    let schemaVersion ← env.str
      (Yaml.get data "schema_version" (Yaml.get data "version" (.str "1.0.0")))
    let taskId ← env.str (taskField data "task_id" (.str path.stem))
    let version ← env.str (taskField data "version" (.str "1.0.0"))
    let statement ← env.str (taskField data "statement" (.str ""))
    let licence ← env.str (taskField data "licence" (.str "Apache-2.0"))
    let provenance ← env.str (taskField data "provenance" (.str path.text))
    let eligibility := taskField data "eligibility" (.str "eligible")
    let notes ← env.str (taskField data "notes" (.str ""))
    let adapter ← env.str (Yaml.get data "adapter" (.str "local"))
    let contractFile ← env.str
      (Yaml.get data "contract_file" (Yaml.get data "contract" (.str "contract.yaml")))
    let _ ← resolveRelativePath env root contractFile
    let snapshotFile ← env.str
      (Yaml.get data "snapshot_file" (Yaml.get data "snapshot" (.str "source/")))
    let _ ← resolveRelativePath env root snapshotFile
    let environmentFile :=
      (Yaml.get data "environment_file" (Yaml.get data "environment" (.dict []))).str?.getD
        "environment.yaml"
    let _ ← resolveRelativePath env root environmentFile
    let requirementFiles ← env.strs (Yaml.get data "requirement_files" (.tuple []))
    let _ ← requirementFiles.mapM (resolveRelativePath env root)
    let verifierFile ← env.str
      (Yaml.get data "verifier_file" (Yaml.get data "verifier" (.str "v1.yaml")))
    let _ ← resolveRelativePath env root verifierFile
    let controlFiles ← env.strs (Yaml.get data "control_files" (.tuple []))
    let _ ← controlFiles.mapM (resolveRelativePath env root)
    .ok {
      schemaVersion := schemaVersion
      task := {
        taskKey := taskId ++ "@" ++ version
        taskId := taskId
        version := version
        statement := statement
        adapter := adapter
        contractHash := pendingDigest
        snapshotDigest := pendingDigest
        environmentId := taskId ++ "-env"
        licence := licence
        provenance := provenance
        eligibility := (eligibility.str?.bind Eligibility.ofText?).getD .eligible
        notes := notes
        createdAt := env.now 1 }
      contractFile := contractFile
      snapshotFile := snapshotFile
      environmentFile := environmentFile
      requirementFiles := requirementFiles
      verifierFile := verifierFile
      controlFiles := controlFiles }

/-! ## The stages of an import -/

def importRequirement : Yaml → Except Exc Requirement
  | .dict entry => do
      let requirementId ← env.str (Yaml.get entry "requirement_id" (.str "REQ"))
      let text ← env.str (Yaml.get entry "text" (.str ""))
      let sourceKind := Yaml.get entry "source_kind" (.str "explicit")
      let sourceLocator ← env.str (Yaml.get entry "source_locator" (.str "contract.yaml"))
      let allowedVariation ← env.str (Yaml.get entry "allowed_variation" (.str "None"))
      let evidenceDigests ← env.strs (Yaml.get entry "evidence_digests" (.tuple []))
      let requirement : Requirement := {
        requirementHash := "temp"
        requirementId := requirementId
        text := String.ofList (strip text.toList)
        sourceKind := (sourceKind.str?.bind SourceKind.ofText?).getD .explicit
        evidenceDigests := evidenceDigests
        sourceLocator := sourceLocator
        allowedVariation := allowedVariation }
      .ok { requirement with requirementHash := requirementHash env.sha256 requirement }
  | _ => raiseWith .validationError "Each requirement entry must be a mapping"

def importContract (manifest : LocalImportManifest) (data : List (Yaml × Yaml)) :
    Except Exc (Contract × List Requirement) :=
  match Yaml.get data "requirements" (.list []) with
  | .list entries => do
      let requirements ← entries.mapM (importRequirement env)
      let allowedVariation ← env.str (Yaml.get data "allowed_variation" (.str "None"))
      let unresolvedQuestions ← env.strs (Yaml.get data "unresolved_questions" (.tuple []))
      let contract : Contract := {
        contractHash := "temp"
        taskId := manifest.task.taskId
        version := manifest.task.version
        requirementHashes := requirements.map Requirement.requirementHash
        allowedVariation := allowedVariation
        unresolvedQuestions := unresolvedQuestions
        evidenceDigests := []
        createdAt := env.now 2 }
      .ok ({ contract with
        contractHash := contractHash env.sha256 contract
        createdAt := env.now 3 }, requirements)
  | _ => raiseWith .validationError "contract 'requirements' must be a list"

def importEnvironment (root : PyPath) (manifest : LocalImportManifest)
    (data : List (Yaml × Yaml)) : Except Exc Environment := do
  let embedded :=
    match Yaml.get? data "environment" with
    | some (.dict members) => members
    | _ => []
  let raw ←
    if embedded.isEmpty = true ∧ manifest.environmentFile ≠ "" then do
      let path ← resolveRelativePath env root manifest.environmentFile
      safeLoadYaml env path
    else .ok embedded
  let declared := Yaml.get raw "backend" (.str "fixture")
  let backend ←
    match declared.str?.bind Backend.ofText? with
    | some backend => .ok backend
    | none => do
        let shown ← env.str declared
        raiseWith .validationError ("Unsupported environment backend: '" ++ shown ++ "'.")
  let runtimeFingerprint ← env.str (Yaml.get raw "runtime_fingerprint" (.str "cpython-3.12"))
  .ok {
    environmentId := manifest.task.taskId ++ "-env"
    backend := backend
    imageDigest := Yaml.get raw "image_digest" .null
    platform := Yaml.get raw "platform" (.str "linux/arm64")
    recipeDigest := (env.sha256 (encodeUtf8 "fixture-recipe")).text
    lockDigests := []
    serviceManifests := []
    resourcePolicyHash := (env.sha256 (encodeUtf8 "default-policy")).text
    runtimeFingerprint := runtimeFingerprint
    mirrorUris := [] }

/-- What the hasher is fed of one child: of a file that is no link, its path and content. -/
def snapshotEntry (directory child : PyPath) : Except Exc (List UInt8) := do
  let regular ← answered (env.fs.isRegular? child)
  if regular then do
    let content ← env.readBytes child
    .ok (encodeUtf8 (child.relativePosix directory ++ "\x00") ++ content)
  else .ok []

/-- The digest of the directory content, with relative POSIX paths. -/
def snapshotDigest (directory : PyPath) : Except Exc String := do
  let listing ← answered (env.fs.rglob? directory)
  let children := listing.insertionSort fun a b => a.parts ≤ b.parts
  let entries ← children.mapM (snapshotEntry env directory)
  .ok (env.sha256 entries.flatten).text

def importSnapshot (root : PyPath) (manifest : LocalImportManifest) :
    Except Exc RepositorySnapshot := do
  let directory := root.join manifest.snapshotFile
  let isDir ← answered (env.fs.isDir? directory)
  if isDir = false then
    raiseWith .validationError
      ("Snapshot directory not found or not a directory: " ++ directory.text)
  else do
    let digest ← snapshotDigest env directory
    .ok {
      snapshotDigest := digest
      repositoryId := manifest.task.taskId
      commitOid := "HEAD"
      archiveUri := directory.text
      treeDigest := digest
      submoduleDigests := []
      lockDigests := []
      licence := manifest.task.licence
      createdAt := env.now 4 }

def importVerifier (path : PyPath) (manifest : LocalImportManifest) (contractHash : String)
    (data : List (Yaml × Yaml)) : Except Exc (VerifierVersion × VerifierManifest) := do
  let command ← env.strs (Yaml.get data "command" (.list [.str "pytest", .str "tests/"]))
  let buildCommand ← env.strs (Yaml.get data "build_command" (.list []))
  let expectedCollection ← env.strs (Yaml.get data "expected_collection" (.list []))
  let requiredPassIds ← env.strs (Yaml.get data "required_pass_ids" (.list []))
  let permittedSkips ← env.strs (Yaml.get data "permitted_skips" (.list []))
  let allowedEditPaths ← env.strs (Yaml.get data "allowed_edit_paths" (.list [.str "src/"]))
  let timeoutSeconds ← (Yaml.get data "timeout_seconds" (.int 60)).toInt
  let parserId ← env.str (Yaml.get data "parser_id" (.str "pytest-report-v1"))
  let reportPath ← env.str (Yaml.get data "report_path" (.str "report.json"))
  let mode := Yaml.get data "mode" (.str "compatibility")
  let payload ← env.readBytes path
  let payloadDigest := (env.sha256 payload).text
  let verifierManifest : VerifierManifest := {
    manifestHash := "temp"
    mode := (mode.str?.bind VerifierMode.ofText?).getD .compatibility
    command := command
    buildCommand := buildCommand
    expectedCollection := expectedCollection
    parserId := parserId
    reportPath := reportPath
    payloadDigest := payloadDigest
    allowedEditPaths := allowedEditPaths
    requiredPassIds := requiredPassIds
    permittedSkips := permittedSkips
    timeoutSeconds := timeoutSeconds }
  let hash ← manifestHash env.sha256 verifierManifest
  let verifierId ← env.str (Yaml.get data "verifier_id" (.str (manifest.task.taskId ++ "-v1")))
  let version ← env.str (Yaml.get data "version" (.str "1.0.0"))
  .ok ({
      verifierKey := verifierId ++ "@" ++ version
      verifierId := verifierId
      version := version
      parentKey := none
      manifestHash := hash
      payloadDigest := payloadDigest
      compatibleContractHashes := [contractHash]
      createdAt := env.now 5 },
    { verifierManifest with manifestHash := hash })

def controlCase (task : Task) (snapshotDigest : String) (path : PyPath) (content : List UInt8)
    (reading : Nat) : PatchCase where
  caseId := task.taskId ++ "-ctrl-" ++ path.stem
  taskKey := task.taskKey
  diffDigest := (env.sha256 content).text
  baseSnapshotDigest := snapshotDigest
  source := .reference
  sourceRunId := none
  parentCaseIds := []
  familyId := "reference-family"
  role := .reference
  provenanceDigest := (env.sha256 (encodeUtf8 path.text)).text
  licence := task.licence
  createdAt := env.now reading

/-- The loop over `control_files`; `reading` counts the readings of the clock. -/
def importControls (root : PyPath) (task : Task) (snapshotDigest : String) :
    Nat → List String → Except Exc (List PatchCase)
  | _, [] => .ok []
  | reading, file :: rest => do
      let path ← resolveRelativePath env root file
      let isFile ← answered (env.fs.isFile? path)
      if isFile then
        let content ← env.readBytes path
        let cases ← importControls root task snapshotDigest (reading + 1) rest
        .ok (controlCase env task snapshotDigest path content reading :: cases)
      else importControls root task snapshotDigest reading rest

def validateEnvironment (environment : Environment) : Except Exc Unit :=
  if environment.backend = .docker then do
    let pinned ←
      if environment.imageDigest.truthy then environment.imageDigest.contains "@sha256:"
      else .ok false
    if pinned then .ok ()
    else do
      let shown ← env.str environment.imageDigest
      raiseWith .validationError
        ("Docker environment requires '@sha256:' image_digest, got " ++ shown)
  else .ok ()

/-- Import a native task from its local manifest path. -/
def importTask (source : String) : Except Exc ImportBundle := do
  let path := PyPath.parse source
  let root := path.parent
  let isFile ← answered (env.fs.isFile? path)
  if isFile = false then
    raiseWith .validationError ("Local task manifest not found: " ++ source)
  else if maxManifestBytes < env.fs.size path then
    raiseWith .validationError
      s!"File exceeds maximum allowed size of {maxManifestBytes} bytes"
  else do
    let raw ← env.readBytes path
    let resolved ← env.resolve path
    let data ← safeLoadYaml env path
    let manifest ← readLocalManifest env path data
    if manifest.schemaVersion ∉ supportedLocalVersions then
      raiseWith .validationError
        ("Unsupported local manifest schema version: " ++ manifest.schemaVersion)
    else do
      let contractPath ← resolveRelativePath env root manifest.contractFile
      let contractData ← safeLoadYaml env contractPath
      let (contract, requirements) ← importContract env manifest contractData
      let environment ← importEnvironment env root manifest data
      let snapshot ← importSnapshot env root manifest
      let verifierPath ← resolveRelativePath env root manifest.verifierFile
      let verifierData ← safeLoadYaml env verifierPath
      let (verifier, verifierManifest) ←
        importVerifier env verifierPath manifest contract.contractHash verifierData
      let task : Task := { manifest.task with
        adapter := "local"
        contractHash := contract.contractHash
        snapshotDigest := snapshot.snapshotDigest
        environmentId := environment.environmentId
        createdAt := env.now 6 }
      validateTask env.sha256 task contract
      let controls ←
        importControls env root task snapshot.snapshotDigest 7 manifest.controlFiles
      validateEnvironment env environment
      .ok {
        task := task
        contract := contract
        requirements := requirements
        snapshot := snapshot
        environment := environment
        verifier := verifier
        verifierManifest := verifierManifest
        controls := controls
        upstreamArtifact := {
          digest := env.sha256 raw
          kind := "manifest"
          sizeBytes := raw.length
          storageUri := resolved.text
          mediaType := "application/yaml"
          accessPolicy := .public
          retentionUntil := none
          available := true
          createdAt := env.now 0 }
        diagnostics := [] }

end VerifierCI
