import VerifierCI.Execution.Committing
import VerifierCI.Execution.Worker
import VerifierCI.Storage.Retention

/-! # The steps of a turn

One lemma for each step of the worker: when it does not raise, and what it
comes to then. Later proofs cite these and unfold no step again.
-/

namespace VerifierCI

open Python Relational

/-! ## Commands -/

section Commands

variable {sha256 : List UInt8 → Digest} {worker : Worker} {turn : Turn} {attemptId : String}
  {manifest : VerifierManifest}

theorem Worker.covers (worker : Worker) (attemptId : String) : Covers (worker.paths attemptId) := by
  intro token htoken
  simp only [allowedPlaceholders, List.mem_cons, List.not_mem_nil, or_false] at htoken
  rcases htoken with rfl | rfl | rfl | rfl <;> rfl

def Worker.argv (worker : Worker) (attemptId : String) (template : List String) : List String :=
  template.map (substitute (worker.paths attemptId))

/-- A template is refused only for a token that has braces and is no whole placeholder. -/
theorem Worker.resolve_eq_ok_iff {template : List String} {timeoutSeconds : Int}
    {spec : CommandSpec} :
    worker.resolve attemptId template timeoutSeconds = .ok spec ↔
      (∀ token ∈ template, WellPlaced token) ∧ spec =
        { argv := worker.argv attemptId template
          cwd := worker.sourceDir attemptId
          env := []
          stdinDigest := none
          timeoutSeconds := timeoutSeconds } :=
  resolveCommand_eq_ok_iff (worker.covers attemptId)

variable (worker turn attemptId manifest)

def buildProcess : Process :=
  turn.build (worker.argv attemptId manifest.buildCommand)

def verificationProcess : Process :=
  turn.verification (worker.argv attemptId manifest.command)

def builtFiles : AttemptFiles :=
  if manifest.buildCommand = [] then turn.freshFiles
  else turn.freshFiles.after (buildProcess worker turn attemptId manifest)

/-- There is a build and it fails, or cannot be launched. -/
def BuildFails : Prop :=
  manifest.buildCommand ≠ [] ∧ (buildProcess worker turn attemptId manifest).exitCode ≠ 0

instance : Decidable (BuildFails worker turn attemptId manifest) :=
  inferInstanceAs (Decidable (_ ∧ _))

def finalFiles : AttemptFiles :=
  if BuildFails worker turn attemptId manifest then builtFiles worker turn attemptId manifest
  else (builtFiles worker turn attemptId manifest).after
    (verificationProcess worker turn attemptId manifest)

/-- What the report path holds after the last command. -/
def finalReport : Found :=
  (finalFiles worker turn attemptId manifest).report manifest.reportPath

/-- The directories as the outputs are collected from them. -/
def leftFiles : AttemptFiles :=
  (finalFiles worker turn attemptId manifest).change turn.lingering

def finalCapture (sha256 : List UInt8 → Digest) : ExecutionCapture :=
  if BuildFails worker turn attemptId manifest then
    buildFailedCapture attemptId (buildProcess worker turn attemptId manifest).exitCode
  else
    (verificationProcess worker turn attemptId manifest).capture sha256 attemptId
      (finalReport worker turn attemptId manifest).bytes?

/-- The commands of an attempt raise nothing: their templates are well placed, their
streams can be kept, and the reports they leave can be looked up. -/
structure CommandsRun : Prop where
  build : ∀ token ∈ manifest.buildCommand, WellPlaced token
  buildKeeps : manifest.buildCommand ≠ [] →
    turn.freshFiles.Keeps (buildProcess worker turn attemptId manifest)
  buildLookup : manifest.buildCommand ≠ [] →
    (builtFiles worker turn attemptId manifest).report "report.json" ≠ .refused
  command : ¬ BuildFails worker turn attemptId manifest →
    ∀ token ∈ manifest.command, WellPlaced token
  keeps : ¬ BuildFails worker turn attemptId manifest →
    (builtFiles worker turn attemptId manifest).Keeps
      (verificationProcess worker turn attemptId manifest)
  lookup : ¬ BuildFails worker turn attemptId manifest →
    finalReport worker turn attemptId manifest ≠ .refused

variable {worker turn attemptId manifest}

/-- A build raises only over its template, over a log it cannot keep and over a report it cannot
look up. -/
theorem runBuild_eq_ok_iff {code : Option Int} {files : AttemptFiles} :
    runBuild sha256 worker turn attemptId manifest = .ok (code, files) ↔
      (∀ token ∈ manifest.buildCommand, WellPlaced token) ∧
      (manifest.buildCommand ≠ [] →
        turn.freshFiles.Keeps (buildProcess worker turn attemptId manifest)) ∧
      (manifest.buildCommand ≠ [] →
        (builtFiles worker turn attemptId manifest).report "report.json" ≠ .refused) ∧
      files = builtFiles worker turn attemptId manifest ∧
      code = if manifest.buildCommand = [] then none
        else some (buildProcess worker turn attemptId manifest).exitCode := by
  unfold runBuild builtFiles
  by_cases hbuild : manifest.buildCommand = []
  -- without a build command nothing is run and no code is returned
  · simp only [hbuild, if_true]
    constructor
    · intro h
      obtain ⟨rfl, rfl⟩ := Prod.mk.inj (Except.ok.inj h)
      exact ⟨by simp, fun h => absurd rfl h, fun h => absurd rfl h, rfl, rfl⟩
    · rintro ⟨_, _, _, rfl, rfl⟩
      rfl
  · simp only [if_neg hbuild]
    constructor
    · intro h
      obtain ⟨spec, hspec, h⟩ := bind_eq_ok.mp h
      obtain ⟨hplaced, rfl⟩ := Worker.resolve_eq_ok_iff.mp hspec
      obtain ⟨⟨capture, left⟩, hexecute, h⟩ := bind_eq_ok.mp h
      obtain ⟨hkeeps, hlookup, rfl, rfl⟩ := execute_eq_ok_iff.mp hexecute
      obtain ⟨rfl, rfl⟩ := Prod.mk.inj (Except.ok.inj h)
      exact ⟨hplaced, fun _ => hkeeps, fun _ => hlookup, rfl, rfl⟩
    · rintro ⟨hplaced, hkeeps, hlookup, rfl, rfl⟩
      refine bind_eq_ok.mpr ⟨_, Worker.resolve_eq_ok_iff.mpr ⟨hplaced, rfl⟩, ?_⟩
      exact bind_eq_ok.mpr ⟨_, execute_eq_ok_iff.mpr ⟨hkeeps hbuild, hlookup hbuild, rfl, rfl⟩,
        rfl⟩

/-- The verification raises on the same grounds, in the directories the build has left. -/
theorem runVerification_eq_ok_iff {capture : ExecutionCapture} {files files' : AttemptFiles} :
    runVerification sha256 worker turn attemptId manifest files = .ok (capture, files') ↔
      (∀ token ∈ manifest.command, WellPlaced token) ∧
      files.Keeps (verificationProcess worker turn attemptId manifest) ∧
      (files.after (verificationProcess worker turn attemptId manifest)).report
        manifest.reportPath ≠ .refused ∧
      files' = files.after (verificationProcess worker turn attemptId manifest) ∧
      capture = (verificationProcess worker turn attemptId manifest).capture sha256 attemptId
        ((files.after (verificationProcess worker turn attemptId manifest)).report
          manifest.reportPath).bytes? := by
  rw [runVerification, bind_eq_ok]
  constructor
  · rintro ⟨spec, hspec, h⟩
    obtain ⟨hplaced, rfl⟩ := Worker.resolve_eq_ok_iff.mp hspec
    exact ⟨hplaced, execute_eq_ok_iff.mp h⟩
  · rintro ⟨hplaced, h⟩
    exact ⟨_, Worker.resolve_eq_ok_iff.mpr ⟨hplaced, rfl⟩, execute_eq_ok_iff.mpr h⟩

/-- The commands come to the final capture and the final files, if they raise nothing. The
verification is run unless there is a build and it fails. -/
theorem runCommands_eq_ok_iff {capture : ExecutionCapture} {files : AttemptFiles} :
    runCommands sha256 worker turn attemptId manifest = .ok (capture, files) ↔
      CommandsRun worker turn attemptId manifest ∧
      files = finalFiles worker turn attemptId manifest ∧
      capture = finalCapture worker turn attemptId manifest sha256 := by
  -- The code that counts is a failure; zero and no build are the same to the caller.
  have hcode : ∀ code : Option Int,
      (code = if manifest.buildCommand = [] then none
        else some (buildProcess worker turn attemptId manifest).exitCode) →
      code.filter (· ≠ 0) = if BuildFails worker turn attemptId manifest then
        some (buildProcess worker turn attemptId manifest).exitCode else none := by
    rintro code rfl
    unfold BuildFails
    by_cases hbuild : manifest.buildCommand = []
    · simp [hbuild]
    · by_cases hexit : (buildProcess worker turn attemptId manifest).exitCode = 0 <;>
        simp [hbuild, hexit]
  rw [runCommands, bind_eq_ok]
  by_cases hfails : BuildFails worker turn attemptId manifest
  · constructor
    · rintro ⟨⟨code, built⟩, hbuilt, h⟩
      obtain ⟨hplaced, hkeeps, hlookup, rfl, hexit⟩ := runBuild_eq_ok_iff.mp hbuilt
      simp only [hcode code hexit, if_pos hfails] at h
      obtain ⟨rfl, rfl⟩ := Prod.mk.inj (Except.ok.inj h)
      refine ⟨⟨hplaced, hkeeps, hlookup, fun hnot => absurd hfails hnot,
        fun hnot => absurd hfails hnot, fun hnot => absurd hfails hnot⟩, ?_, ?_⟩
      · rw [finalFiles, if_pos hfails]
      · rw [finalCapture, if_pos hfails]
    · rintro ⟨hrun, rfl, rfl⟩
      refine ⟨_, runBuild_eq_ok_iff.mpr ⟨hrun.build, hrun.buildKeeps, hrun.buildLookup, rfl, rfl⟩,
        ?_⟩
      simp only [hcode _ rfl, if_pos hfails]
      rw [finalFiles, finalCapture, if_pos hfails, if_pos hfails]
  · have hfinal : finalFiles worker turn attemptId manifest =
        (builtFiles worker turn attemptId manifest).after
          (verificationProcess worker turn attemptId manifest) := if_neg hfails
    constructor
    · rintro ⟨⟨code, built⟩, hbuilt, h⟩
      obtain ⟨hplaced, hkeeps, hlookup, rfl, hexit⟩ := runBuild_eq_ok_iff.mp hbuilt
      simp only [hcode code hexit, if_neg hfails] at h
      obtain ⟨hcommand, hkept, hreport, rfl, rfl⟩ := runVerification_eq_ok_iff.mp h
      refine ⟨⟨hplaced, hkeeps, hlookup, fun _ => hcommand, fun _ => hkept, fun _ => ?_⟩,
        hfinal.symm, ?_⟩
      · rw [finalReport, hfinal]
        exact hreport
      · rw [finalCapture, if_neg hfails, finalReport, hfinal]
    · rintro ⟨hrun, rfl, rfl⟩
      refine ⟨_, runBuild_eq_ok_iff.mpr ⟨hrun.build, hrun.buildKeeps, hrun.buildLookup, rfl, rfl⟩,
        ?_⟩
      simp only [hcode _ rfl, if_neg hfails]
      refine runVerification_eq_ok_iff.mpr ⟨hrun.command hfails, hrun.keeps hfails, ?_, hfinal, ?_⟩
      · have hreport := hrun.lookup hfails
        rwa [finalReport, hfinal] at hreport
      · rw [finalCapture, if_neg hfails, finalReport, hfinal]

variable (sha256 worker turn attemptId)

/-- An attempt comes to an end: its commands, if it gets to them, raise nothing. -/
def AttemptRuns : Prop :=
  match turn.preparation with
  | .failed _ _ => True
  | .ready manifest => CommandsRun worker turn attemptId manifest

def executed : Option VerifierManifest × ExecutionCapture × AttemptFiles :=
  match turn.preparation with
  | .failed manifest raised =>
      (manifest, failedCapture attemptId raised.runtimeError, turn.freshFiles)
  | .ready manifest =>
      (some manifest, finalCapture worker turn attemptId manifest sha256,
        leftFiles worker turn attemptId manifest)

variable {sha256 worker turn attemptId}

theorem executed_of_failed {manifest : Option VerifierManifest} {raised : Raised}
    (h : turn.preparation = .failed manifest raised) :
    executed sha256 worker turn attemptId =
      (manifest, failedCapture attemptId raised.runtimeError, turn.freshFiles) := by
  rw [executed, h]

theorem executed_of_ready (h : turn.preparation = .ready manifest) :
    executed sha256 worker turn attemptId = (some manifest,
      finalCapture worker turn attemptId manifest sha256,
      leftFiles worker turn attemptId manifest) := by
  rw [executed, h]

/-- What fails in the preparation is captured and does not raise; beyond it the commands
decide. -/
theorem executeAttempt_eq_ok_iff
    {result : Option VerifierManifest × ExecutionCapture × AttemptFiles} :
    executeAttempt sha256 worker turn attemptId = .ok result ↔
      AttemptRuns worker turn attemptId ∧ result = executed sha256 worker turn attemptId := by
  unfold executeAttempt AttemptRuns executed
  cases turn.preparation with
  | failed manifest raised =>
      constructor
      · intro h
        exact ⟨trivial, (Except.ok.inj h).symm⟩
      · rintro ⟨_, rfl⟩
        rfl
  | ready manifest =>
      constructor
      · intro h
        obtain ⟨⟨capture, files⟩, hcommands, h⟩ := bind_eq_ok.mp h
        obtain ⟨hrun, rfl, rfl⟩ := runCommands_eq_ok_iff.mp hcommands
        exact ⟨hrun, (Except.ok.inj h).symm⟩
      · rintro ⟨hrun, rfl⟩
        exact bind_eq_ok.mpr ⟨_, runCommands_eq_ok_iff.mpr ⟨hrun, rfl, rfl⟩, rfl⟩

end Commands

/-! ## Outputs -/

section Outputs

variable {sha256 : List UInt8 → Digest} {now : Datetime} {store : ArtifactStore}

structure Stores (store store' : ArtifactStore) : Prop where
  queue : store'.db = { store.db with artifacts := store'.db.artifacts }
  rows : store.db.KeepsRows store'.db

theorem Stores.refl (store : ArtifactStore) : Stores store store :=
  ⟨rfl, .refl _⟩

theorem Stores.trans {store store' store'' : ArtifactStore} (first : Stores store store')
    (second : Stores store' store'') : Stores store store'' := by
  refine ⟨?_, first.rows.trans second.rows⟩
  rw [second.queue, first.queue]

theorem Stores.hasArtifact {store store' : ArtifactStore} (h : Stores store store')
    {digest : Digest} (hdigest : store.db.HasArtifact (some digest.text)) :
    store'.db.HasArtifact (some digest.text) := by
  obtain ⟨row, hrow⟩ := Option.isSome_iff_exists.mp (hdigest digest.text rfl)
  obtain ⟨available, hrow'⟩ := h.rows digest row hrow
  intro other hother
  obtain rfl := Option.some.inj hother
  rw [hrow']
  rfl

/-- Reading bytes chunk by chunk gives them all back, as long as they stay below the limit. By
induction on the fuel, of which each chunk takes one. -/
theorem readStream_bytesIoReads {maxBytes : Int} {fuel : Nat} {data : List UInt8}
    (content : List UInt8) (totalBytes : Int) (hfuel : data.length < fuel)
    (hfits : totalBytes + data.length ≤ maxBytes) :
    readStream maxBytes content totalBytes (bytesIoReads fuel data) =
      .ok (content ++ data, totalBytes + data.length) := by
  induction fuel generalizing data content totalBytes with
  | zero => omega
  | succ fuel ih =>
      by_cases hdata : data = []
      · subst hdata
        simp [bytesIoReads, readStream]
      · have hchunk : data.take chunkSize ≠ [] := by
          simp [hdata, chunkSize]
        have hsize : ((data.take chunkSize).length : Int) + (data.drop chunkSize).length =
            data.length := by
          rw [List.length_take, List.length_drop]
          omega
        have hshorter : (data.drop chunkSize).length < fuel := by
          have hpos := List.length_pos_of_ne_nil hdata
          rw [List.length_drop]
          unfold chunkSize
          omega
        -- One read takes a chunk off the front and counts it.
        have hread : readStream maxBytes content totalBytes (bytesIoReads (fuel + 1) data) =
            readStream maxBytes (content ++ data.take chunkSize)
              (totalBytes + (data.take chunkSize).length)
              (bytesIoReads fuel (data.drop chunkSize)) := by
          rw [bytesIoReads, readStream]
          · exact if_neg (by omega)
          · exact hchunk
        rw [hread, ih _ _ hshorter (by omega), List.append_assoc, List.take_append_drop]
        congr 2
        omega

/-- An artifact whose size fits its column is registered. -/
theorem registerArtifact_accepts (db : Db) {artifact : Artifact} (hsize : 0 ≤ artifact.sizeBytes)
    (hmax : artifact.sizeBytes ≤ maxInteger) :
    ∃ db', registerArtifact db artifact = .ok db' ∧
      db' = { db with artifacts := db'.artifacts } := by
  have hbind : bindInteger (some artifact.sizeBytes) = .ok () := by
    apply bindInteger_eq_ok
    intro n hn
    obtain rfl := Option.some.inj hn
    exact ⟨minInteger_le hsize, hmax⟩
  unfold registerArtifact
  simp only [hbind]
  cases hinsert : db.artifacts.insert? artifact.toRow with
  | none =>
      refine ⟨db.setAvailable artifact.digest true, ?_, rfl⟩
      exact bind_eq_ok_unit.mpr ⟨rfl, if_neg (Int.not_lt.mpr hsize)⟩
  | some artifacts =>
      refine ⟨{ db with artifacts := artifacts }, ?_, rfl⟩
      exact bind_eq_ok_unit.mpr ⟨rfl, if_neg (Int.not_lt.mpr hsize)⟩

variable (sha256 now store)

/-- Bytes within the limit are stored under their digest. They are streamed back in chunks,
which cannot exceed a limit they keep as a whole. -/
theorem putBytes_ok (options : PutOptions) {data : List UInt8}
    (hmax : options.maxBytes ≤ maxInteger) (hfits : data.length ≤ options.maxBytes) :
    ∃ artifact store', putBytes sha256 store data options now = (.ok artifact, store') ∧
      artifact.digest = sha256 data ∧ Stores store store' ∧
      store'.db.HasArtifact (some (sha256 data).text) := by
  -- the bytes are streamed back as they are, in chunks
  have hread : readStream options.maxBytes [] 0 (bytesIoReads (data.length + 1) data) =
      .ok (data, (data.length : Int)) := by
    have h : readStream options.maxBytes [] 0 (bytesIoReads (data.length + 1) data) =
        .ok ([] ++ data, 0 + (data.length : Int)) :=
      readStream_bytesIoReads [] 0 (Nat.lt_succ_self data.length) (by omega)
    simpa using h
  unfold putBytes putStream
  rw [if_neg (Int.not_lt.mpr hfits), hread]
  dsimp only
  let artifact : Artifact :=
    { digest := sha256 data
      kind := options.kind
      sizeBytes := data.length
      storageUri := (store.writeFile (sha256 data) data).targetPath (sha256 data)
      mediaType := options.mediaType
      accessPolicy := options.accessPolicy
      retentionUntil := options.retentionUntil
      available := true
      createdAt := now }
  have hsize : 0 ≤ artifact.sizeBytes := Int.natCast_nonneg _
  obtain ⟨db', hregister, hqueue⟩ :=
    registerArtifact_accepts store.db hsize (hfits.trans hmax)
  have hdb : (store.writeFile (sha256 data) data).db = store.db := rfl
  rw [hdb, hregister]
  refine ⟨_, _, rfl, rfl, ⟨hqueue, registerArtifact_keepsRows hregister⟩, ?_⟩
  intro digest hdigest
  obtain rfl := Option.some.inj hdigest
  rw [(registerArtifact_ok hregister).1]
  rfl

def outputDigest (sha256 : List UInt8 → Digest) (content : Option (List UInt8)) : Option String :=
  content.map fun bytes => (sha256 bytes).text

theorem maxArtifactBytes_le : (maxArtifactBytes : Int) ≤ maxInteger := by
  decide

/-- Storing an output raises only when it is larger than the cap of the artifacts. -/
theorem storeOutput_ok {content : Option (List UInt8)}
    (hfits : ∀ bytes ∈ content, bytes.length ≤ maxArtifactBytes) (kind mediaType : String) :
    ∃ store', storeOutput sha256 now store content kind mediaType =
        (.ok (outputDigest sha256 content), store') ∧ Stores store store' ∧
      store'.db.HasArtifact (outputDigest sha256 content) := by
  cases content with
  | none =>
      refine ⟨store, rfl, .refl store, ?_⟩
      intro digest hdigest
      cases hdigest
  | some bytes =>
      obtain ⟨artifact, store', hput, hdigest, hstores, hregistered⟩ :=
        putBytes_ok sha256 now store (outputOptions kind mediaType) maxArtifactBytes_le
          (Int.ofNat_le.mpr (hfits bytes rfl))
      refine ⟨store', ?_, hstores, hregistered⟩
      simp only [storeOutput, hput, hdigest]
      rfl

variable {sha256 now store}

/-- What is found under the report path, if the manifest says where to look. -/
def reportLookup (manifest : Option VerifierManifest) (files : AttemptFiles) : Found :=
  match manifest with
  | none => .missing
  | some manifest => files.report manifest.reportPath

def reportBytesOf (manifest : Option VerifierManifest) (files : AttemptFiles) :
    Option (List UInt8) :=
  (reportLookup manifest files).bytes?.map fun content => content.take maxArtifactBytes

theorem Found.content?_eq (found : Found) :
    found.content? = if found = .refused then .error .osError else .ok found.bytes? := by
  cases found <;> rfl

theorem readReportFile_eq (manifest : Option VerifierManifest) (files : AttemptFiles) :
    readReportFile manifest files = if reportLookup manifest files = .refused then .error .osError
      else .ok (reportBytesOf manifest files) := by
  unfold readReportFile reportBytesOf reportLookup
  cases manifest with
  | none => rfl
  | some manifest =>
      dsimp only
      rw [Found.content?_eq]
      split <;> rfl

def logBytesOf (files : AttemptFiles) (log : Log) : Option (List UInt8) :=
  (files.log log).bytes?.filter (· ≠ [])

def collectedOf (sha256 : List UInt8 → Digest) (manifest : Option VerifierManifest)
    (files : AttemptFiles) : Collected where
  stdoutHash := outputDigest sha256 (logBytesOf files .stdout)
  stderrHash := outputDigest sha256 (logBytesOf files .stderr)
  reportDigest := outputDigest sha256 (reportBytesOf manifest files)
  reportBytes := reportBytesOf manifest files

/-- The outputs can be collected: the logs can be read and fit into the artifact store, and
the report can be looked up. -/
structure Collectable (manifest : Option VerifierManifest) (files : AttemptFiles) : Prop where
  logs : ∀ log, files.log log ≠ .refused
  fits : ∀ log, ∀ bytes ∈ logBytesOf files log, bytes.length ≤ maxArtifactBytes
  report : reportLookup manifest files ≠ .refused

structure Collected.Registered (collected : Collected) (db : Db) : Prop where
  stdoutHash : db.HasArtifact collected.stdoutHash
  stderrHash : db.HasArtifact collected.stderrHash
  reportDigest : db.HasArtifact collected.reportDigest

theorem Stores.outputDigest {store store' : ArtifactStore} (h : Stores store store')
    {content : Option (List UInt8)}
    (hregistered : store.db.HasArtifact (outputDigest sha256 content)) :
    store'.db.HasArtifact (outputDigest sha256 content) := by
  cases content with
  | none =>
      intro digest hdigest
      cases hdigest
  | some bytes => exact h.hasArtifact hregistered

/-- The store takes nothing that is too large. -/
theorem storeOutput_large {content : Option (List UInt8)} {kind mediaType : String}
    (h : ¬ ∀ bytes ∈ content, bytes.length ≤ maxArtifactBytes) (store : ArtifactStore) :
    ∃ exc, storeOutput sha256 now store content kind mediaType = (.error exc, store) := by
  push Not at h
  obtain ⟨bytes, hbytes, hlarge⟩ := h
  obtain rfl : content = some bytes := hbytes
  have hrefused : (outputOptions kind mediaType).maxBytes < (bytes.length : Int) :=
    Int.ofNat_lt.mpr hlarge
  simp only [storeOutput, putBytes, if_pos hrefused]
  exact ⟨_, rfl⟩

/-- A log is stored, or it cannot be read or stored and nothing happens. -/
theorem collectLog_cases (sha256 : List UInt8 → Digest) (now : Datetime) (store : ArtifactStore)
    (files : AttemptFiles) (log : Log) (kind : String) :
    (files.log log ≠ .refused ∧
      (∀ bytes ∈ logBytesOf files log, bytes.length ≤ maxArtifactBytes) ∧
      ∃ store', collectLog sha256 now store (files.log log) kind =
          (.ok (outputDigest sha256 (logBytesOf files log)), store') ∧ Stores store store' ∧
        store'.db.HasArtifact (outputDigest sha256 (logBytesOf files log))) ∨
    ((files.log log = .refused ∨
        ¬ ∀ bytes ∈ logBytesOf files log, bytes.length ≤ maxArtifactBytes) ∧
      ∃ exc, collectLog sha256 now store (files.log log) kind = (.error exc, store)) := by
  unfold collectLog
  rw [Found.content?_eq]
  by_cases hrefused : files.log log = .refused
  · exact Or.inr ⟨Or.inl hrefused, .osError, by rw [if_pos hrefused]⟩
  · rw [if_neg hrefused]
    by_cases hfits : ∀ bytes ∈ logBytesOf files log, bytes.length ≤ maxArtifactBytes
    · exact Or.inl ⟨hrefused, hfits, storeOutput_ok sha256 now store hfits kind _⟩
    · exact Or.inr ⟨Or.inr hfits, storeOutput_large hfits store⟩

variable (sha256 now) in
/-- Collecting comes to the digests of the outputs, all registered, or raises. Each output is
put on its own, and the first one that is refused ends the call. -/
theorem collect_cases (store : ArtifactStore) (manifest : Option VerifierManifest)
    (files : AttemptFiles) :
    ∃ store', Stores store store' ∧
      ((Collectable manifest files ∧
        collect sha256 now store manifest files =
          (.ok (collectedOf sha256 manifest files), store') ∧
        (collectedOf sha256 manifest files).Registered store'.db) ∨
      (¬ Collectable manifest files ∧
        ∃ exc, collect sha256 now store manifest files = (.error exc, store'))) := by
  unfold collect
  -- Two logs and the report, in this order; whatever was stored before a failure stays.
  rcases collectLog_cases sha256 now store files .stdout "stdout" with
    ⟨hstdout, hstdoutFits, first, hfirst, hstores₁, hregistered₁⟩ | ⟨hnot, exc, hraises⟩
  swap
  · refine ⟨store, .refl store, Or.inr ⟨fun h => ?_, exc, by simp only [hraises]⟩⟩
    exact hnot.elim (h.logs .stdout) fun hlarge => hlarge (h.fits .stdout)
  rcases collectLog_cases sha256 now first files .stderr "stderr" with
    ⟨hstderr, hstderrFits, second, hsecond, hstores₂, hregistered₂⟩ | ⟨hnot, exc, hraises⟩
  swap
  · refine ⟨first, hstores₁, Or.inr ⟨fun h => ?_, exc, by simp only [hfirst, hraises]⟩⟩
    exact hnot.elim (h.logs .stderr) fun hlarge => hlarge (h.fits .stderr)
  by_cases hrefused : reportLookup manifest files = .refused
  · refine ⟨second, hstores₁.trans hstores₂, Or.inr ⟨fun h => h.report hrefused, .osError, ?_⟩⟩
    simp only [hfirst, hsecond, readReportFile_eq, if_pos hrefused]
  -- the report is read up to the limit, so the store does not refuse it for its size
  · have hreport : ∀ bytes ∈ reportBytesOf manifest files, bytes.length ≤ maxArtifactBytes := by
      intro bytes hbytes
      obtain ⟨content, _, rfl⟩ := Option.map_eq_some_iff.mp hbytes
      exact List.length_take_le _ _
    obtain ⟨third, hthird, hstores₃, hregistered₃⟩ := storeOutput_ok sha256 now
      second hreport "report" "application/json"
    refine ⟨third, (hstores₁.trans hstores₂).trans hstores₃, Or.inl ⟨⟨?_, ?_, hrefused⟩, ?_, ?_⟩⟩
    · rintro (_ | _)
      · exact hstdout
      · exact hstderr
    · rintro (_ | _)
      · exact hstdoutFits
      · exact hstderrFits
    · simp only [hfirst, hsecond, readReportFile_eq, if_neg hrefused, hthird]
      rfl
    · exact ⟨(hstores₂.trans hstores₃).outputDigest hregistered₁,
        hstores₃.outputDigest hregistered₂, hregistered₃⟩

end Outputs

/-! ## Captures -/

section Captures

variable {sha256 : List UInt8 → Digest} {worker : Worker} {turn : Turn} {attemptId : String}

theorem Process.exitCode_mem (process : Process) :
    -128 ≤ process.exitCode ∧ process.exitCode ≤ 255 := by
  unfold Process.exitCode
  split
  · decide
  · exact process.exitStatus_mem

/-- What a capture says of itself fits the columns of an attempt. -/
structure ExecutionCapture.Recordable (capture : ExecutionCapture) : Prop where
  exitCode : ∀ n ∈ capture.exitCode, minInteger ≤ n ∧ n ≤ maxInteger
  resources : capture.resources.toJson.isValid = true
  spellable : capture.resources.toJson.isSpellable = true

theorem exitCode_fits (process : Process) : ∀ n ∈ some process.exitCode,
    minInteger ≤ n ∧ n ≤ maxInteger := by
  intro n hn
  obtain rfl := Option.some.inj hn
  have h := process.exitCode_mem
  unfold minInteger maxInteger
  omega

theorem failedCapture_recordable (attemptId runtimeError : String) :
    (failedCapture attemptId runtimeError).Recordable where
  exitCode := by
    intro n hn
    obtain rfl := Option.some.inj hn
    decide
  resources := by rfl
  spellable := by rfl

theorem buildFailedCapture_recordable (attemptId : String) (process : Process) :
    (buildFailedCapture attemptId process.exitCode).Recordable where
  exitCode := exitCode_fits process
  resources := by rfl
  spellable := by rfl

theorem Process.capture_recordable (process : Process) (attemptId : String)
    (report : Option (List UInt8)) : (process.capture sha256 attemptId report).Recordable where
  exitCode := exitCode_fits process
  resources := by
    have hone : floatOne.isFinite = true := by rfl
    simp [Process.capture, ResourceUsage.toJson, Json.isValid, Json.areMembersValid, Json.ofOption,
      process.elapsed_finite, hone]
  spellable := by
    have hlength := captured_length_le process
    have hwritten : (process.stdoutBytes.length + process.stderrBytes.length : Int).natAbs <
        10 ^ 8 := by
      unfold defaultMaxCaptureBytes at hlength
      omega
    have hdigits := (Nat.length_toDigits_le_iff (by decide) (by decide)).mpr hwritten
    have hspelled := hdigits.trans (by decide : 8 ≤ Json.maxDigits)
    simp [Process.capture, ResourceUsage.toJson, Json.isSpellable, Json.areMembersSpellable,
      Json.ofOption, hspelled]

variable (sha256 worker turn attemptId)

/-- What every attempt comes to can be recorded. -/
theorem executed_recordable : (executed sha256 worker turn attemptId).2.1.Recordable := by
  unfold executed
  cases turn.preparation with
  | failed manifest raised => exact failedCapture_recordable attemptId raised.runtimeError
  | ready manifest =>
      dsimp only
      unfold finalCapture
      split
      · exact buildFailedCapture_recordable _ _
      · exact Process.capture_recordable _ _ _

/-- Without a manifest there is no evidence. -/
theorem executed_unresolved (hnone : (executed sha256 worker turn attemptId).1 = none) :
    (executed sha256 worker turn attemptId).2.1.stdoutHash = none ∧
      (executed sha256 worker turn attemptId).2.1.stderrHash = none ∧
      (executed sha256 worker turn attemptId).2.1.reportDigest = none := by
  unfold executed at hnone ⊢
  cases hpreparation : turn.preparation with
  | failed manifest raised => exact ⟨rfl, rfl, rfl⟩
  | ready manifest =>
      rw [hpreparation] at hnone
      cases hnone

end Captures

/-! ## Classification -/

section Classification

variable {maxNesting : Nat} {manifest : Option VerifierManifest} {capture : ExecutionCapture}
  {collected : Collected}

def evidenced (manifest : Option VerifierManifest) (capture : ExecutionCapture)
    (collected : Collected) : ExecutionCapture :=
  match manifest with
  | none => capture
  | some _ =>
      { capture with
        stdoutHash := collected.stdoutHash
        stderrHash := collected.stderrHash
        reportDigest := collected.reportDigest }

theorem evidenced_exitCode :
    (evidenced manifest capture collected).exitCode = capture.exitCode := by
  cases manifest <;> rfl

theorem evidenced_resources :
    (evidenced manifest capture collected).resources = capture.resources := by
  cases manifest <;> rfl

/-- The report decides and cannot be read. -/
def ReportRaises (maxNesting : Nat) (manifest : Option VerifierManifest)
    (capture : ExecutionCapture) (reportBytes : Option (List UInt8)) : Prop :=
  ∃ resolved, manifest = some resolved ∧ Parses capture resolved ∧
    Unreadable maxNesting reportBytes

/-- Classification raises only where the parser does, on the report it gets to see. -/
theorem classify_isOk_iff :
    (∃ result, classify maxNesting manifest capture collected = .ok result) ↔
    ¬ ReportRaises maxNesting manifest capture collected.reportBytes := by
  cases manifest with
  | none =>
      apply iff_of_true ⟨_, rfl⟩
      rintro ⟨resolved, h, _⟩
      cases h
  | some resolved =>
      have hparses : Parses (evidenced (some resolved) capture collected) resolved ↔
          Parses capture resolved :=
        ⟨fun h => ⟨h.runtimeError, h.limit, h.parser⟩, fun h => ⟨h.runtimeError, h.limit, h.parser⟩⟩
      have hraises : ReportRaises maxNesting (some resolved) capture collected.reportBytes ↔
          Parses (evidenced (some resolved) capture collected) resolved ∧
            Unreadable maxNesting collected.reportBytes := by
        rw [hparses]
        constructor
        · rintro ⟨other, hother, h⟩
          obtain rfl := Option.some.inj hother
          exact h
        · exact fun h => ⟨resolved, rfl, h⟩
      rw [hraises, ← parseCapture_isOk_iff]
      constructor
      · rintro ⟨result, h⟩
        obtain ⟨parsed, hparsed, _⟩ := bind_eq_ok.mp h
        exact ⟨parsed, hparsed⟩
      · rintro ⟨parsed, hparsed⟩
        exact ⟨_, bind_eq_ok.mpr ⟨parsed, hparsed, rfl⟩⟩

/-- What is classified has its evidence attached, and is a decision only if nothing went wrong
before the report. -/
theorem classify_ok {capture' : ExecutionCapture} {parsed : ParsedOutcome}
    (h : classify maxNesting manifest capture collected = .ok (capture', parsed)) :
    capture' = evidenced manifest capture collected ∧
      Parsed maxNesting collected.reportBytes parsed ∧
      (parsed.evaluationValidity = .valid → ∃ resolved, manifest = some resolved ∧
        Parses capture resolved) := by
  cases manifest with
  | none =>
      obtain ⟨rfl, rfl⟩ := Prod.mk.inj (Except.ok.inj h)
      refine ⟨rfl, runtimeOutcome_parsed _ _, ?_⟩
      intro hvalid
      unfold runtimeOutcome at hvalid
      split at hvalid <;> cases hvalid
  | some resolved =>
      obtain ⟨parsed', hparsed, h⟩ := bind_eq_ok.mp h
      obtain ⟨rfl, rfl⟩ := Prod.mk.inj (Except.ok.inj h)
      refine ⟨rfl, parseCapture_parsed hparsed, fun hvalid => ⟨resolved, rfl, ?_⟩⟩
      have hparses := parseCapture_valid hparsed hvalid
      exact ⟨hparses.runtimeError, hparses.limit, hparses.parser⟩

end Classification

end VerifierCI
