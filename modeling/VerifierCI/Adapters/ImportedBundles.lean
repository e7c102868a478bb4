import VerifierCI.Adapters.LocalAdapter

/-! # Imported bundles

A bundle is linked as it should be: hashes and keys are the importer's own work
and the task is checked before the bundle is built. What the importer takes over
unchecked is the command and the timeout of the verifier, and the names of the
control files, which become the identifiers of the cases.
-/

namespace VerifierCI

open Python

/-- The records of a bundle fit together. -/
structure ImportBundle.InternallyValid (sha256 : List UInt8 → Digest) (bundle : ImportBundle) :
    Prop where
  task : validateTask sha256 bundle.task bundle.contract = .ok ()
  verifier : validateVerifier sha256 bundle.verifier bundle.verifierManifest = .ok ()
  requirements : bundle.contract.requirementHashes =
    bundle.requirements.map (requirementHash sha256)
  controls : ∀ case ∈ bundle.controls, case.taskKey = bundle.task.taskKey ∧
    case.baseSnapshotDigest = bundle.snapshot.snapshotDigest
  caseIds : (bundle.controls.map PatchCase.caseId).Nodup

variable (env : ImportEnv)

/-! ## What an import reads -/

def importSources (source : String) : Except Exc (LocalImportManifest × List (Yaml × Yaml)) := do
  let path := PyPath.parse source
  let data ← safeLoadYaml env path
  let manifest ← readLocalManifest env path data
  let verifierPath ← resolveRelativePath env path.parent manifest.verifierFile
  let verifierData ← safeLoadYaml env verifierPath
  .ok (manifest, verifierData)

def controlPaths (root : PyPath) (files : List String) : List PyPath :=
  (files.map root.join).filter fun path => env.fs.isFile? path = some true

/-- The verifier file has a command and a positive timeout, and no two control
files share a stem. -/
structure SoundSources (root : PyPath) (manifest : LocalImportManifest)
    (verifierData : List (Yaml × Yaml)) : Prop where
  timeout : ∀ n, (Yaml.get verifierData "timeout_seconds" (.int 60)).toInt = .ok n → 0 < n
  command : (Yaml.get verifierData "command" (.list [.str "pytest", .str "tests/"])).iterate ≠
    .ok []
  stems : ((controlPaths env root manifest.controlFiles).map PyPath.stem).Nodup

/-! ## The stages -/

section Stages

variable {env} {root path : PyPath} {manifest : LocalImportManifest}

/-- A requirement is hashed with its hash left open, and the hash does not depend on what stands
there. -/
theorem importRequirement_hash {entry : Yaml} {requirement : Requirement}
    (h : importRequirement env entry = .ok requirement) :
    requirement.requirementHash = requirementHash env.sha256 requirement := by
  cases entry with
  | dict members =>
      simp only [importRequirement] at h
      obtain ⟨requirementId, _, h⟩ := bind_eq_ok.mp h
      obtain ⟨text, _, h⟩ := bind_eq_ok.mp h
      obtain ⟨sourceLocator, _, h⟩ := bind_eq_ok.mp h
      obtain ⟨allowedVariation, _, h⟩ := bind_eq_ok.mp h
      obtain ⟨evidenceDigests, _, h⟩ := bind_eq_ok.mp h
      cases h
      rfl
  | _ => cases h

/-- The contract lists the hashes of its requirements in the order of the file. -/
theorem importContract_hashes {data : List (Yaml × Yaml)} {contract : Contract}
    {requirements : List Requirement}
    (h : importContract env manifest data = .ok (contract, requirements)) :
    contract.requirementHashes = requirements.map (requirementHash env.sha256) := by
  unfold importContract at h
  split at h
  next entries _ =>
    obtain ⟨imported, himported, h⟩ := bind_eq_ok.mp h
    obtain ⟨allowedVariation, _, h⟩ := bind_eq_ok.mp h
    obtain ⟨unresolvedQuestions, _, h⟩ := bind_eq_ok.mp h
    cases h
    apply List.map_congr_left
    intro requirement hrequirement
    obtain ⟨entry, _, hentry⟩ := exists_of_mem_mapM himported hrequirement
    exact importRequirement_hash hentry
  next => cases h

/-- A verifier is linked by construction; its command and timeout are the file's. -/
theorem importVerifier_ok {contractHash : String} {data : List (Yaml × Yaml)}
    {verifier : VerifierVersion} {verifierManifest : VerifierManifest}
    (h : importVerifier env path manifest contractHash data = .ok (verifier, verifierManifest)) :
    VerifierLinked env.sha256 verifier verifierManifest ∧
      env.strs (Yaml.get data "command" (.list [.str "pytest", .str "tests/"])) =
        .ok verifierManifest.command ∧
      (Yaml.get data "timeout_seconds" (.int 60)).toInt = .ok verifierManifest.timeoutSeconds := by
  simp only [importVerifier] at h
  obtain ⟨command, hcommand, h⟩ := bind_eq_ok.mp h
  obtain ⟨buildCommand, _, h⟩ := bind_eq_ok.mp h
  obtain ⟨expectedCollection, _, h⟩ := bind_eq_ok.mp h
  obtain ⟨requiredPassIds, _, h⟩ := bind_eq_ok.mp h
  obtain ⟨permittedSkips, _, h⟩ := bind_eq_ok.mp h
  obtain ⟨allowedEditPaths, _, h⟩ := bind_eq_ok.mp h
  obtain ⟨timeoutSeconds, htimeout, h⟩ := bind_eq_ok.mp h
  obtain ⟨parserId, _, h⟩ := bind_eq_ok.mp h
  obtain ⟨reportPath, _, h⟩ := bind_eq_ok.mp h
  obtain ⟨payload, _, h⟩ := bind_eq_ok.mp h
  obtain ⟨hash, hhash, h⟩ := bind_eq_ok.mp h
  obtain ⟨verifierId, _, h⟩ := bind_eq_ok.mp h
  obtain ⟨version, _, h⟩ := bind_eq_ok.mp h
  cases h
  exact ⟨⟨rfl, hhash, rfl, rfl⟩, hcommand, htimeout⟩

/-- A path that is not refused is the one that was asked for, joined to the root and not
replaced by its resolution. -/
theorem resolveRelativePath_ok {relative : String}
    (h : resolveRelativePath env root relative = .ok path) : path = root.join relative := by
  simp only [resolveRelativePath] at h
  split at h
  next => cases h
  next =>
    obtain ⟨symlink, _, h⟩ := bind_eq_ok.mp h
    split at h
    next => cases h
    next =>
      split at h
      next => cases h
      next => cases h
      next =>
        split at h
        next =>
          cases h
          rfl
        next => cases h

/-- The cases are those of the control files that exist, in order. By induction on the files
named: one that is missing is passed over, any other one becomes a case of the task. -/
theorem importControls_ok {task : Task} {snapshotDigest : String} {reading : Nat}
    {files : List String} {cases : List PatchCase}
    (h : importControls env root task snapshotDigest reading files = .ok cases) :
    cases.map PatchCase.caseId = (controlPaths env root files).map
        (fun path => task.taskId ++ "-ctrl-" ++ path.stem) ∧
      ∀ case ∈ cases, case.taskKey = task.taskKey ∧ case.baseSnapshotDigest = snapshotDigest := by
  induction files generalizing reading cases with
  | nil =>
      cases h
      exact ⟨rfl, by simp⟩
  | cons file rest ih =>
      simp only [importControls] at h
      obtain ⟨path, hpath, h⟩ := bind_eq_ok.mp h
      obtain rfl := resolveRelativePath_ok hpath
      obtain ⟨isFile, hanswer, h⟩ := bind_eq_ok.mp h
      have hanswer := answered_eq_ok hanswer
      split at h
      next hfile =>
        -- a file that is there becomes a case of the task
        obtain ⟨content, _, h⟩ := bind_eq_ok.mp h
        obtain ⟨others, hothers, h⟩ := bind_eq_ok.mp h
        cases h
        obtain ⟨hids, hrefer⟩ := ih hothers
        refine ⟨?_, List.forall_mem_cons.mpr ⟨⟨rfl, rfl⟩, hrefer⟩⟩
        have hkept : controlPaths env root (file :: rest) =
            root.join file :: controlPaths env root rest := by
          simp [controlPaths, hanswer, hfile]
        rw [hkept, List.map_cons, List.map_cons]
        exact congrArg (_ :: ·) hids
      next hfile =>
        obtain ⟨hids, hrefer⟩ := ih h
        refine ⟨?_, hrefer⟩
        have hdropped : controlPaths env root (file :: rest) = controlPaths env root rest := by
          simp [controlPaths, hanswer, hfile]
        -- a missing file is passed over, without an error
        rw [hdropped]
        exact hids

end Stages

/-! ## The bundle -/

section Bundle

variable {env} {source : String} {bundle : ImportBundle}

/-- What an import that returns has read and built. -/
structure Imported (env : ImportEnv) (source : String) (manifest : LocalImportManifest)
    (verifierData : List (Yaml × Yaml)) (bundle : ImportBundle) : Prop where
  sources : importSources env source = .ok (manifest, verifierData)
  task : validateTask env.sha256 bundle.task bundle.contract = .ok ()
  requirements : bundle.contract.requirementHashes =
    bundle.requirements.map (requirementHash env.sha256)
  linked : VerifierLinked env.sha256 bundle.verifier bundle.verifierManifest
  command : env.strs (Yaml.get verifierData "command" (.list [.str "pytest", .str "tests/"])) =
    .ok bundle.verifierManifest.command
  timeout : (Yaml.get verifierData "timeout_seconds" (.int 60)).toInt =
    .ok bundle.verifierManifest.timeoutSeconds
  caseIds : bundle.controls.map PatchCase.caseId =
    (controlPaths env (PyPath.parse source).parent manifest.controlFiles).map
      fun path => bundle.task.taskId ++ "-ctrl-" ++ path.stem
  controls : ∀ case ∈ bundle.controls, case.taskKey = bundle.task.taskKey ∧
    case.baseSnapshotDigest = bundle.snapshot.snapshotDigest

/-- An import that returns has gone through all its stages, and the bundle holds what each of
them gave. -/
theorem importTask_ok (h : importTask env source = .ok bundle) :
    ∃ manifest verifierData, Imported env source manifest verifierData bundle := by
  simp only [importTask] at h
  obtain ⟨isFile, _, h⟩ := bind_eq_ok.mp h
  split at h
  next => cases h
  next =>
    split at h
    next => cases h
    next =>
      -- The stages of the import, one bind each: whatever raises ends it.
      obtain ⟨raw, _, h⟩ := bind_eq_ok.mp h
      obtain ⟨resolved, _, h⟩ := bind_eq_ok.mp h
      obtain ⟨data, hdata, h⟩ := bind_eq_ok.mp h
      obtain ⟨manifest, hmanifest, h⟩ := bind_eq_ok.mp h
      split at h
      next => cases h
      next =>
        obtain ⟨contractPath, _, h⟩ := bind_eq_ok.mp h
        obtain ⟨contractData, _, h⟩ := bind_eq_ok.mp h
        obtain ⟨⟨contract, requirements⟩, hcontract, h⟩ := bind_eq_ok.mp h
        obtain ⟨environment, _, h⟩ := bind_eq_ok.mp h
        obtain ⟨snapshot, _, h⟩ := bind_eq_ok.mp h
        obtain ⟨verifierPath, hpath, h⟩ := bind_eq_ok.mp h
        obtain ⟨verifierData, hverifierData, h⟩ := bind_eq_ok.mp h
        obtain ⟨⟨verifier, verifierManifest⟩, hverifier, h⟩ := bind_eq_ok.mp h
        obtain ⟨htask, h⟩ := bind_eq_ok_unit.mp h
        obtain ⟨controls, hcontrols, h⟩ := bind_eq_ok.mp h
        obtain ⟨_, h⟩ := bind_eq_ok_unit.mp h
        cases h
        -- The bundle is complete; what is left is what its parts were checked for.
        obtain ⟨hlinked, hcommand, htimeout⟩ := importVerifier_ok hverifier
        obtain ⟨hids, hrefer⟩ := importControls_ok hcontrols
        have hsources : importSources env source = .ok (manifest, verifierData) :=
          bind_eq_ok.mpr ⟨data, hdata, bind_eq_ok.mpr ⟨manifest, hmanifest, bind_eq_ok.mpr
            ⟨verifierPath, hpath, bind_eq_ok.mpr ⟨verifierData, hverifierData, rfl⟩⟩⟩⟩
        exact ⟨manifest, verifierData, hsources, htask, importContract_hashes hcontract, hlinked,
          hcommand, htimeout, hids, hrefer⟩

theorem strs_eq_nil_iff {value : Yaml} {texts : List String} (h : env.strs value = .ok texts) :
    texts = [] ↔ value.iterate = .ok [] := by
  obtain ⟨items, hitems, h⟩ := bind_eq_ok.mp h
  have hlength := (mapM_eq_ok.mp h).length_eq
  rw [hitems, Except.ok.injEq, ← List.length_eq_zero_iff, ← List.length_eq_zero_iff, hlength]

/-- The identifiers of the cases are apart when the stems are. -/
theorem nodup_caseIds_iff {taskId : String} {paths : List PyPath} :
    (paths.map fun path => taskId ++ "-ctrl-" ++ path.stem).Nodup ↔
      (paths.map PyPath.stem).Nodup := by
  have hinj : Function.Injective fun stem : String => taskId ++ "-ctrl-" ++ stem := by
    intro stem other heq
    exact String.append_right_inj _ |>.mp heq
  rw [← List.nodup_map_iff (l := paths.map PyPath.stem) hinj, List.map_map]
  rfl

/-- An imported bundle is valid exactly when its sources are sound. Digests and hashes are right
by construction; what the files say about the command, the timeout and the controls is taken
over unchecked. -/
theorem internallyValid_iff (himport : importTask env source = .ok bundle) :
    bundle.InternallyValid env.sha256 ↔
      ∃ manifest verifierData, importSources env source = .ok (manifest, verifierData) ∧
        SoundSources env (PyPath.parse source).parent manifest verifierData := by
  obtain ⟨manifest, verifierData, himported⟩ := importTask_ok himport
  have hstems : ((controlPaths env (PyPath.parse source).parent manifest.controlFiles).map
      fun path => bundle.task.taskId ++ "-ctrl-" ++ path.stem).Nodup ↔
      ((controlPaths env (PyPath.parse source).parent manifest.controlFiles).map
        PyPath.stem).Nodup := nodup_caseIds_iff
  constructor
  · intro hvalid
    obtain ⟨_, htimeout, hcommand⟩ := (validateVerifier_ok_iff env.sha256).mp hvalid.verifier
    refine ⟨manifest, verifierData, himported.sources, ?_, ?_, ?_⟩
    · intro n hn
      rw [himported.timeout] at hn
      cases hn
      exact htimeout
    · intro hempty
      exact hcommand ((strs_eq_nil_iff himported.command).mpr hempty)
    · exact hstems.mp (himported.caseIds ▸ hvalid.caseIds)
  · rintro ⟨manifest', verifierData', hsources, hsound⟩
    rw [himported.sources] at hsources
    cases hsources
    refine ⟨himported.task, ?_, himported.requirements, himported.controls, ?_⟩
    · apply (validateVerifier_ok_iff env.sha256).mpr
      refine ⟨himported.linked, hsound.timeout _ himported.timeout, ?_⟩
      intro hempty
      exact hsound.command ((strs_eq_nil_iff himported.command).mp hempty)
    · rw [himported.caseIds]
      exact hstems.mpr hsound.stems

end Bundle

/-! ## A small task -/

def smallTask : String :=
  "task_id: retry\nenvironment: \x7bbackend: fixture\x7d\ncontrol_files: [fix.patch]\n"

def smallContract : String := "requirements: [\x7btext: Retry three times\x7d]\n"

/-- SHA-256 on what importing the small task hashes. These inputs differ in
length, or in the first byte. -/
def importSha256 (bytes : List UInt8) : Digest :=
  match bytes.length with
  -- the control file and its path
  | 0 => hexdigest 0xe3b0c44298fc1c149afbf4c8996fb92427ae41e4649b934ca495991b7852b855
  | 9 => hexdigest 0x593fe641aa792559047a1f81a261ab3840be98e0232ce5038b6e7034575c58d4
  -- the snapshot
  | 13 => hexdigest 0xdd2a89cf5df3e6d649397ef6c2b43862a880465a1721ad72f167f5b62046eeca
  -- `default-policy` and `fixture-recipe`
  | 14 =>
      if bytes.head? = some 100 then
        hexdigest 0x9b65ceff8e84ad5cbfd63b62f3b4330ab40005e218d9ae8dae2e9b9e1d9f16e6
      else
        hexdigest 0x0c24bb052da1381a6716daad8015ea50114b9b59dfe22d7b11940a36ad7f3a7e
  -- the verifier file with a timeout of 0 and of 60
  | 19 => hexdigest 0xd2f6b756492ae7ebdc9bae68a6806265636372ce45a4b52369a59419f131c7bc
  | 20 => hexdigest 0xb1cbb5759c739a0395dc36fb1af8c5fb586cc59adbc8be121b87a06df5b86ee5
  -- the manifest, the requirement and the contract
  | 74 => hexdigest 0xd1595f4a22e736639d10f1dd6668b19397ed2b421c385e87c0035dab63578be9
  | 158 => hexdigest 0xe9e0342f353f3992ee6b0bcffb796996f0feaaa166f09d4c60d03c08b9a67a7b
  | 202 => hexdigest 0x10f3688973ba01d477f8874266c5b3065bde20a2d718ca8ceb0f376bdb71e3e2
  -- the manifest of the verifier with a timeout of 0 and of 60
  | 335 => hexdigest 0x2707d86e55133f562946a7a991b606f4abc4b84666432de2dd27ca9bf5362404
  | _ => hexdigest 0x4a75ec29ff462a370d1eb804bbbbda79c3b4628919d2fb6661cef48ffd9fd75d

/-- The files of the small task, with the timeout of its verifier. -/
def smallFiles (timeout : Int) : List (List String × List UInt8) :=
  [(["task.yaml"], ascii smallTask), (["contract.yaml"], ascii smallContract),
    (["v1.yaml"], ascii ("timeout_seconds: " ++ toString timeout ++ "\n")),
    (["fix.patch"], []), (["source", "main.py"], ascii "pass\n")]

def smallFileSystem (timeout : Int) : FileSystem where
  isFile? path := some ((smallFiles timeout).lookup path.parts).isSome
  isDir? path := some (decide (path.parts = ["source"]))
  isSymlink? _ := some false
  size path := (((smallFiles timeout).lookup path.parts).getD []).length
  readBytes? path := (smallFiles timeout).lookup path.parts
  resolve path := .ok ⟨"/", "work" :: path.parts⟩
  rglob? path := some [⟨path.root, path.parts ++ ["main.py"]⟩]

def smallEnv (timeout : Int) : ImportEnv where
  fs := smallFileSystem timeout
  sha256 := importSha256
  loadYaml content :=
    if content = smallTask.toList then
      .ok (.dict [(.str "task_id", .str "retry"),
        (.str "environment", .dict [(.str "backend", .str "fixture")]),
        (.str "control_files", .list [.str "fix.patch"])])
    else if content = smallContract.toList then
      .ok (.dict [(.str "requirements", .list [.dict [(.str "text", .str "Retry three times")]])])
    else .ok (.dict [(.str "timeout_seconds", .int timeout)])
  repr _ := .error .typeError
  now _ := ⟨⟨0, some 0, Datetime.zero_mem, Datetime.utc_mem⟩, rfl⟩

/-- What the small task is judged by. -/
def ImportBundle.judged (bundle : ImportBundle) : Int × List String × List String :=
  (bundle.verifierManifest.timeoutSeconds, bundle.verifierManifest.command,
    bundle.controls.map PatchCase.caseId)

theorem importTask_small : (importTask (smallEnv 60) "task.yaml").toOption.map ImportBundle.judged =
    some (60, ["pytest", "tests/"], ["retry-ctrl-fix"]) := by
  decide +kernel

theorem importTask_timeless :
    (importTask (smallEnv 0) "task.yaml").toOption.map ImportBundle.judged =
      some (0, ["pytest", "tests/"], ["retry-ctrl-fix"]) := by
  decide +kernel

/-- What a bundle is judged by is enough to know that the import returned. -/
theorem exists_of_judged {result : Except Exc ImportBundle}
    {judged : Int × List String × List String}
    (h : result.toOption.map ImportBundle.judged = some judged) :
    ∃ bundle, result = .ok bundle ∧ bundle.judged = judged := by
  cases result with
  | error exc => cases h
  | ok bundle => exact ⟨bundle, rfl, Option.some.inj h⟩

/-- The small task has a command, a timeout of a minute and one control file. -/
theorem internallyValid_small :
    ∃ bundle, importTask (smallEnv 60) "task.yaml" = .ok bundle ∧
      bundle.InternallyValid importSha256 := by
  obtain ⟨bundle, himport, hjudged⟩ := exists_of_judged importTask_small
  obtain ⟨htimeout, hrest⟩ := Prod.mk.inj hjudged
  obtain ⟨hcommand, hids⟩ := Prod.mk.inj hrest
  obtain ⟨manifest, verifierData, himported⟩ := importTask_ok himport
  refine ⟨bundle, himport, ?_⟩
  apply (internallyValid_iff himport).mpr
  refine ⟨manifest, verifierData, himported.sources, ?_, ?_, ?_⟩
  · intro n hn
    rw [himported.timeout] at hn
    cases hn
    rw [htimeout]
    decide
  · intro hempty
    have hnil := (strs_eq_nil_iff himported.command).mpr hempty
    rw [hcommand] at hnil
    cases hnil
  · have happart : (bundle.controls.map PatchCase.caseId).Nodup := by
      rw [hids]
      decide
    exact nodup_caseIds_iff.mp (himported.caseIds ▸ happart)

/-- A verifier without a timeout is imported, although the validation of a verifier
refuses it. -/
theorem timeless_verifier_imported :
    ∃ bundle, importTask (smallEnv 0) "task.yaml" = .ok bundle ∧
      ¬ bundle.InternallyValid importSha256 := by
  obtain ⟨bundle, himport, hjudged⟩ := exists_of_judged importTask_timeless
  refine ⟨bundle, himport, ?_⟩
  intro hvalid
  have hpositive := ((validateVerifier_ok_iff importSha256).mp hvalid.verifier).2.1
  rw [(Prod.mk.inj hjudged).1] at hpositive
  exact absurd hpositive (by decide)

end VerifierCI
