import VerifierCI.Execution.Turns

/-! # Whose evidence is judged

Build and verification share their directories, a log is written only with
output, and a link may lead it anywhere. One turn submits what its verification
wrote exactly when the verification replaces what was there: nothing of the
build is left where it is silent, and what it says arrives in files of its own.
Two such turns of one verification come to one judgement.
-/

namespace VerifierCI

open Python Relational

/-- What is captured of the stream of a log. -/
def Process.output (process : Process) : Log → List UInt8
  | .stdout => process.stdoutBytes
  | .stderr => process.stderrBytes

/-- The bytes a process itself leaves under a path below `out`. -/
def Process.wrote (process : Process) (path : String) : Option (List UInt8) :=
  (process.writes.entry (.out path)).bind fun entry => entry.found.bytes?

/-- The evidence is what this process wrote, as far as the caps let it through: these are the
bytes that are collected from its files, and their digests are submitted. -/
structure EvidenceOf (sha256 : List UInt8 → Digest) (files : AttemptFiles)
    (attempt : EvaluationAttempt) (process : Process) (reportPath : String) : Prop where
  logs : ∀ log, logBytesOf files log = some (process.output log) ∨
    logBytesOf files log = none ∧ process.output log = []
  report : (files.report reportPath).bytes?.map (fun content => content.take maxArtifactBytes) =
    (process.wrote reportPath).map fun content => content.take maxArtifactBytes
  stdoutHash : attempt.stdoutHash = hashUnlessEmpty sha256 process.stdoutBytes
  stderrHash : attempt.stderrHash = hashUnlessEmpty sha256 process.stderrBytes
  reportDigest : attempt.reportDigest = outputDigest sha256
    ((process.wrote reportPath).map fun content => content.take maxArtifactBytes)

/-- Whatever was there before, the process replaces it. The directories are those it leaves
when it ends, before its streams are kept. -/
structure Replaces (left : AttemptFiles) (process : Process) (reportPath : String) : Prop where
  /-- Output goes to an ordinary file of the capture directory. -/
  kept : ∀ log, process.output log ≠ [] →
    left.captureDir = .present ∧ (left.entry (left.place log)).isPlain = true
  /-- The log of a silent stream shows nothing. -/
  silent : ∀ log, process.output log = [] → logBytesOf left log = none
  /-- The logs are two files, unless both streams say the same. -/
  shared : left.place .stdout = left.place .stderr → process.stdoutBytes = process.stderrBytes
  /-- Where the process leaves no report, there is none. -/
  report : process.writes.entry (.out reportPath) = none →
    (left.report reportPath).bytes? = none
  /-- No log leads to the report, unless that is what the report says. -/
  spared : ∀ log, process.output log ≠ [] → left.place log = .out reportPath →
    process.wrote reportPath = some (process.output log)

/-- The digests and the judgement of two attempts agree. -/
structure SameJudgement (attempt attempt' : EvaluationAttempt) : Prop where
  stdoutHash : attempt'.stdoutHash = attempt.stdoutHash
  stderrHash : attempt'.stderrHash = attempt.stderrHash
  reportDigest : attempt'.reportDigest = attempt.reportDigest
  outcome : attempt'.outcome = attempt.outcome
  errorCode : attempt'.errorCode = attempt.errorCode

/-- The build of a turn succeeds, if there is one, and this is its verification. -/
structure Verifies (worker : Worker) (turn : Turn) (attemptId : String)
    (manifest : VerifierManifest) (process : Process) : Prop where
  ready : turn.preparation = .ready manifest
  built : ¬ BuildFails worker turn attemptId manifest
  verification : verificationProcess worker turn attemptId manifest = process

/-- Whatever still runs when the streams have been kept, it leaves alone what is collected: the
capture directory, the files its logs lead to, and the report. -/
structure Changes.Spares (changes : Changes) (left : AttemptFiles) (reportPath : String) :
    Prop where
  captureDir : changes.captureDir = none
  place : ∀ log, changes.place log = none
  log : ∀ log, changes.entry (left.place log) = none
  report : changes.entry (.out reportPath) = none

theorem Changes.untouched_spares (left : AttemptFiles) (reportPath : String) :
    Changes.untouched.Spares left reportPath :=
  ⟨rfl, fun _ => rfl, fun _ => rfl, rfl⟩

/-! ## Files of one turn -/

section Files

variable {files : AttemptFiles} {process : Process} {reportPath : String}

theorem Process.output_length_le (process : Process) (log : Log) :
    (process.output log).length ≤ defaultMaxCaptureBytes := by
  cases log with
  | stdout => exact (captured_length_le process).1
  | stderr => exact (captured_length_le process).2

/-- A stream that is kept stands in the file its log leads to, unless the other one is
written there after it. -/
theorem after_entry (hpresent : (files.left process).captureDir = .present) (path : AttemptPath) :
    (∃ log, process.output log ≠ [] ∧ (files.left process).place log = path ∧
      (files.after process).entry path =
        ((files.left process).entry path).written (process.output log)) ∨
    ((∀ log, process.output log ≠ [] → (files.left process).place log ≠ path) ∧
      (files.after process).entry path = (files.left process).entry path) := by
  unfold AttemptFiles.after
  rw [AttemptFiles.withLogs_entry hpresent]
  by_cases hstderr : process.stderrBytes ≠ [] ∧ (files.left process).place .stderr = path
  · exact Or.inl ⟨.stderr, hstderr.1, hstderr.2, if_pos hstderr⟩
  · rw [if_neg hstderr]
    by_cases hstdout : process.stdoutBytes ≠ [] ∧ (files.left process).place .stdout = path
    · exact Or.inl ⟨.stdout, hstdout.1, hstdout.2, if_pos hstdout⟩
    · refine Or.inr ⟨?_, if_neg hstdout⟩
      rintro (_ | _) houtput hplace
      · exact hstdout ⟨houtput, hplace⟩
      · exact hstderr ⟨houtput, hplace⟩

theorem after_entry_of_absent (habsent : (files.left process).captureDir ≠ .present) :
    files.after process = files.left process :=
  if_neg habsent

/-- The bytes of a log that is kept. -/
theorem logBytesOf_present {files : AttemptFiles} (hpresent : files.captureDir = .present)
    (log : Log) : logBytesOf files log =
      (files.entry (files.place log)).found.bytes?.filter (· ≠ []) := by
  rw [logBytesOf, AttemptFiles.log, hpresent]

theorem logBytesOf_absent {files : AttemptFiles} (habsent : files.captureDir ≠ .present)
    (log : Log) : logBytesOf files log = none := by
  rw [logBytesOf, AttemptFiles.log]
  cases hdir : files.captureDir with
  | present => exact absurd hdir habsent
  | absent => rfl
  | refused => rfl

theorem after_captureDir : (files.after process).captureDir = (files.left process).captureDir :=
  AttemptFiles.withLogs_captureDir

theorem after_place : (files.after process).place = (files.left process).place :=
  AttemptFiles.withLogs_place

/-- A file that is written over shows what was written, if it is an ordinary one. -/
theorem written_bytes?_of_plain {entry : Entry} (hplain : entry.isPlain = true)
    (bytes : List UInt8) : (entry.written bytes).found.bytes? = some bytes := by
  have haccepts : entry.isRefusing = false := by
    cases entry with
    | missing => rfl
    | file content => rfl
    | refusing found => cases hplain
    | swallowing refuses => cases hplain
  rw [Entry.written_bytes? haccepts, if_pos hplain]

theorem Changes.Spares.logBytesOf_eq {changes : Changes}
    (h : changes.Spares (files.left process) reportPath) (log : Log) :
    logBytesOf ((files.after process).change changes) log =
      logBytesOf (files.after process) log := by
  have hentry : ((files.after process).change changes).entry ((files.left process).place log) =
      (files.after process).entry ((files.left process).place log) := by
    simp only [AttemptFiles.change, h.log log, Option.getD_none]
  have hplace : ((files.after process).change changes).place log =
      (files.left process).place log := by
    simp only [AttemptFiles.change, h.place log, Option.getD_none, after_place]
  have hdir : ((files.after process).change changes).captureDir =
      (files.after process).captureDir := by
    simp only [AttemptFiles.change, h.captureDir, Option.getD_none]
  rw [logBytesOf, logBytesOf, AttemptFiles.log, AttemptFiles.log, hdir, hplace, hentry, after_place]

theorem Changes.Spares.report_eq {changes : Changes}
    (h : changes.Spares (files.left process) reportPath) :
    ((files.after process).change changes).report reportPath =
      (files.after process).report reportPath := by
  simp only [AttemptFiles.report, AttemptFiles.change, h.report, Option.getD_none]

theorem AttemptFiles.Keeps.accepts (h : files.Keeps process)
    (hpresent : (files.left process).captureDir = .present) {log : Log}
    (houtput : process.output log ≠ []) :
    ((files.left process).entry ((files.left process).place log)).isRefusing = false := by
  cases log with
  | stdout => exact h.stdout hpresent houtput
  | stderr => exact h.stderr hpresent houtput

namespace Replaces

variable (h : Replaces (files.left process) process reportPath)

include h

/-- Two logs that lead to one file say the same. -/
theorem output_eq {log other : Log}
    (hplace : (files.left process).place log = (files.left process).place other) :
    process.output log = process.output other := by
  cases log with
  | stdout =>
      cases other with
      | stdout => rfl
      | stderr => exact h.shared hplace
  | stderr =>
      cases other with
      | stdout => exact (h.shared hplace.symm).symm
      | stderr => rfl

/-- Each log is collected as the process wrote it. -/
theorem logs (log : Log) : logBytesOf (files.after process) log = some (process.output log) ∨
    logBytesOf (files.after process) log = none ∧ process.output log = [] := by
  by_cases houtput : process.output log = []
  · refine Or.inr ⟨?_, houtput⟩
    have hsilent := h.silent log houtput
    by_cases hpresent : (files.left process).captureDir = .present
    · rw [logBytesOf_present hpresent] at hsilent
      rw [logBytesOf_present (after_captureDir.trans hpresent), after_place]
      rcases after_entry hpresent ((files.left process).place log) with
        ⟨other, hother, hplace, _⟩ | ⟨_, hkept⟩
      · exact absurd ((h.output_eq hplace).trans houtput) hother
      · rw [hkept]
        exact hsilent
    · exact logBytesOf_absent (by rwa [after_captureDir]) log
  · obtain ⟨hpresent, hplain⟩ := h.kept log houtput
    refine Or.inl ?_
    rw [logBytesOf_present (after_captureDir.trans hpresent), after_place]
    rcases after_entry hpresent ((files.left process).place log) with
      ⟨other, _, hplace, hwritten⟩ | ⟨hnone, _⟩
    · rw [hwritten, written_bytes?_of_plain hplain, h.output_eq hplace]
      exact Option.filter_some_pos (decide_eq_true houtput)
    · exact absurd rfl (hnone log houtput)

/-- The report is what the process wrote. -/
theorem reportBytes :
    ((files.after process).report reportPath).bytes? = process.wrote reportPath := by
  have hleft : ((files.left process).report reportPath).bytes? = process.wrote reportPath := by
    by_cases huntouched : process.writes.entry (.out reportPath) = none
    · rw [h.report huntouched, Process.wrote, huntouched, Option.bind_none]
    · obtain ⟨entry, hentry⟩ := Option.ne_none_iff_exists'.mp huntouched
      simp only [AttemptFiles.report, AttemptFiles.left, AttemptFiles.change, Process.wrote, hentry,
        Option.getD_some, Option.bind_some]
  by_cases hpresent : (files.left process).captureDir = .present
  · rcases after_entry hpresent (.out reportPath) with
      ⟨log, houtput, hplace, hwritten⟩ | ⟨_, hkept⟩
    · have hplain := (h.kept log houtput).2
      rw [hplace] at hplain
      rw [AttemptFiles.report, hwritten, written_bytes?_of_plain hplain,
        h.spared log houtput hplace]
    · rw [AttemptFiles.report, hkept]
      exact hleft
  · rw [after_entry_of_absent hpresent]
    exact hleft

end Replaces

section OwnOutput

variable (hlogs : ∀ log, logBytesOf (files.after process) log = some (process.output log) ∨
  logBytesOf (files.after process) log = none ∧ process.output log = [])

include hlogs

/-- Output is collected only where there is a capture directory. -/
theorem captureDir_of_own {log : Log} (houtput : process.output log ≠ []) :
    (files.left process).captureDir = .present := by
  by_contra habsent
  have hbytes := (hlogs log).resolve_right fun h => houtput h.2
  rw [logBytesOf_absent (by rwa [after_captureDir])] at hbytes
  cases hbytes

/-- The file a log with output leads to shows that output in the end. -/
theorem shown_of_own {log : Log} (houtput : process.output log ≠ []) :
    ((files.after process).entry ((files.left process).place log)).found.bytes? =
      some (process.output log) := by
  have hbytes := (hlogs log).resolve_right fun h => houtput h.2
  have hpresent := captureDir_of_own hlogs houtput
  rw [logBytesOf_present (after_captureDir.trans hpresent), after_place] at hbytes
  exact (Option.filter_eq_some_iff.mp hbytes).1

/-- That file is an ordinary one: it took what was written to it. -/
theorem plain_of_own (hkeeps : files.Keeps process) {log : Log}
    (houtput : process.output log ≠ []) :
    ((files.left process).entry ((files.left process).place log)).isPlain = true := by
  have hpresent := captureDir_of_own hlogs houtput
  have hbytes := shown_of_own hlogs houtput
  rcases after_entry hpresent ((files.left process).place log) with
    ⟨other, _, _, hwritten⟩ | ⟨hnone, _⟩
  · rw [hwritten, Entry.written_bytes? (hkeeps.accepts hpresent houtput)] at hbytes
    split at hbytes
    next hplain => exact hplain
    · cases hbytes
  · exact absurd rfl (hnone log houtput)

/-- Two logs that lead to one file are collected alike, so the streams say the same. -/
theorem output_eq_of_own {log other : Log}
    (hplace : (files.left process).place log = (files.left process).place other) :
    process.output log = process.output other := by
  have hsame : logBytesOf (files.after process) log = logBytesOf (files.after process) other := by
    rw [logBytesOf, logBytesOf, AttemptFiles.log, AttemptFiles.log, after_place, hplace]
  rcases hlogs log with hlog | ⟨hlog, hsilent⟩ <;>
    rcases hlogs other with hother | ⟨hother, hsilentToo⟩
  · exact Option.some.inj (hlog.symm.trans (hsame.trans hother))
  · cases hlog.symm.trans (hsame.trans hother)
  · cases hlog.symm.trans (hsame.trans hother)
  · exact hsilent.trans hsilentToo.symm

/-- Where a stream is silent nothing is collected in its place, and nothing was there before. -/
theorem silent_of_own {log : Log} (hsilent : process.output log = []) :
    logBytesOf (files.left process) log = none := by
  by_cases hdir : (files.left process).captureDir = .present
  · have hnone : logBytesOf (files.after process) log = none := by
      rcases hlogs log with hbytes | ⟨hbytes, _⟩
      · rw [hsilent] at hbytes
        have hne := (Option.filter_eq_some_iff.mp hbytes).2
        simp at hne
      · exact hbytes
    rw [logBytesOf_present (after_captureDir.trans hdir), after_place] at hnone
    rw [logBytesOf_present hdir]
    rcases after_entry hdir ((files.left process).place log) with
      ⟨other, hother, hplace, _⟩ | ⟨_, hkept⟩
    · exact absurd ((output_eq_of_own hlogs hplace).trans hsilent) hother
    · rw [← hkept]
      exact hnone
  · exact logBytesOf_absent hdir log

variable (hreport : ((files.after process).report reportPath).bytes?.map
    (fun content => content.take maxArtifactBytes) =
  (process.wrote reportPath).map fun content => content.take maxArtifactBytes)

include hreport

/-- A log that leads to the report leaves in it what the process wrote there itself. An output
is below the cap of artifacts, so nothing of it was cut off. -/
theorem wrote_of_own {log : Log} (houtput : process.output log ≠ [])
    (hplace : (files.left process).place log = .out reportPath) :
    process.wrote reportPath = some (process.output log) := by
  have hcap : defaultMaxCaptureBytes < maxArtifactBytes := by decide
  have hlength := process.output_length_le log
  have hbytes := shown_of_own hlogs houtput
  rw [hplace] at hbytes
  rw [AttemptFiles.report, hbytes, Option.map_some, List.take_of_length_le (by omega)] at hreport
  obtain ⟨content, hcontent, htake⟩ := Option.map_eq_some_iff.mp hreport.symm
  have hwhole : content.take maxArtifactBytes = content := by
    apply List.take_of_length_le
    have htakeLength := congrArg List.length htake
    rw [List.length_take] at htakeLength
    omega
  rw [hcontent, ← htake, hwhole]

/-- A process that leaves the report alone finds none there. -/
theorem report_of_own (huntouched : process.writes.entry (.out reportPath) = none) :
    ((files.left process).report reportPath).bytes? = none := by
  have hwrote : process.wrote reportPath = none := by
    rw [Process.wrote, huntouched, Option.bind_none]
  have hnone := hreport
  rw [hwrote, Option.map_none, Option.map_eq_none_iff] at hnone
  by_cases hdir : (files.left process).captureDir = .present
  · rcases after_entry hdir (.out reportPath) with ⟨log, houtput, hplace, _⟩ | ⟨_, hkept⟩
    -- a log that led there would have left its output
    · rw [wrote_of_own hlogs hreport houtput hplace] at hwrote
      cases hwrote
    · rw [AttemptFiles.report, hkept] at hnone
      exact hnone
  · rwa [after_entry_of_absent hdir] at hnone

/-- Where everything that is collected is the process's own, it has replaced what was there. -/
theorem replaces_of_collected (hkeeps : files.Keeps process) :
    Replaces (files.left process) process reportPath where
  kept := fun _ houtput => ⟨captureDir_of_own hlogs houtput, plain_of_own hlogs hkeeps houtput⟩
  silent := fun _ hsilent => silent_of_own hlogs hsilent
  shared := fun hplace => output_eq_of_own hlogs hplace
  report := report_of_own hlogs hreport
  spared := fun _ houtput hplace => wrote_of_own hlogs hreport houtput hplace

end OwnOutput

/-- The digest of a log that is collected as its stream was written. -/
theorem outputDigest_of_log {sha256 : List UInt8 → Digest} {log : Log}
    (h : logBytesOf files log = some (process.output log) ∨
      logBytesOf files log = none ∧ process.output log = []) :
    outputDigest sha256 (logBytesOf files log) = hashUnlessEmpty sha256 (process.output log) := by
  rcases h with hbytes | ⟨hbytes, hsilent⟩
  · have hne := (Option.filter_eq_some_iff.mp hbytes).2
    rw [hbytes, hashUnlessEmpty, if_neg (of_decide_eq_true hne)]
    rfl
  · rw [hbytes, hsilent]
    rfl

end Files

/-! ## One turn -/

section Turn

variable {sha256 : List UInt8 → Digest} {maxNesting : Nat} {worker : Worker}
  {runId : Option String} {turn : Turn} {store : ArtifactStore} {job : Job}
  {attempt : EvaluationAttempt} {manifest : VerifierManifest} {process : Process}

theorem Verifies.finalFiles_eq {attemptId : String}
    (h : Verifies worker turn attemptId manifest process) :
    finalFiles worker turn attemptId manifest =
      (builtFiles worker turn attemptId manifest).after process := by
  rw [finalFiles, if_neg h.built, h.verification]

theorem Verifies.leftFiles_eq {attemptId : String}
    (h : Verifies worker turn attemptId manifest process) :
    leftFiles worker turn attemptId manifest =
      ((builtFiles worker turn attemptId manifest).after process).change turn.lingering := by
  rw [leftFiles, h.finalFiles_eq]

theorem Verifies.executed {attemptId : String}
    (h : Verifies worker turn attemptId manifest process) :
    executed sha256 worker turn attemptId = (some manifest,
      process.capture sha256 attemptId (((builtFiles worker turn attemptId manifest).after
        process).report manifest.reportPath).bytes?,
      ((builtFiles worker turn attemptId manifest).after process).change turn.lingering) := by
  rw [executed_of_ready h.ready, finalCapture, if_neg h.built, finalReport, h.leftFiles_eq,
    h.finalFiles_eq, h.verification]

/-- What is collected is what was there when the streams of the verification had been kept. -/
theorem Verifies.collected {attemptId : String}
    (h : Verifies worker turn attemptId manifest process)
    (hspared : turn.lingering.Spares ((builtFiles worker turn attemptId manifest).left process)
      manifest.reportPath) (sha256 : List UInt8 → Digest) :
    turnCollected sha256 worker turn attemptId = collectedOf sha256 (some manifest)
      ((builtFiles worker turn attemptId manifest).after process) := by
  rw [turnCollected, h.executed]
  simp only [collectedOf, reportBytesOf, reportLookup, hspared.logBytesOf_eq, hspared.report_eq]

theorem Verifies.keeps {attemptId : String} (h : Verifies worker turn attemptId manifest process)
    (hsurvives : Survives sha256 maxNesting worker turn attemptId) :
    (builtFiles worker turn attemptId manifest).Keeps process := by
  have hruns := hsurvives.commands
  rw [AttemptRuns, h.ready] at hruns
  have hkeeps := hruns.keeps h.built
  rwa [h.verification] at hkeeps

/-- The digests of an attempt are those of the files its verification leaves. -/
theorem Submitted.digests
    (hsubmitted : Submitted sha256 maxNesting worker runId turn store job attempt)
    (h : Verifies worker turn (turn.attemptId job) manifest process)
    (hspared : turn.lingering.Spares
      ((builtFiles worker turn (turn.attemptId job) manifest).left process) manifest.reportPath) :
    attempt.stdoutHash = outputDigest sha256 (logBytesOf
        ((builtFiles worker turn (turn.attemptId job) manifest).after process) .stdout) ∧
      attempt.stderrHash = outputDigest sha256 (logBytesOf
        ((builtFiles worker turn (turn.attemptId job) manifest).after process) .stderr) ∧
      attempt.reportDigest = outputDigest sha256 (reportBytesOf (some manifest)
        ((builtFiles worker turn (turn.attemptId job) manifest).after process)) := by
  obtain ⟨lease, parsed, _, rfl⟩ := hsubmitted.attempt
  have hcapture : (turnAttempt sha256 worker turn (turn.attemptId job) lease parsed).stdoutHash =
        (turnCollected sha256 worker turn (turn.attemptId job)).stdoutHash ∧
      (turnAttempt sha256 worker turn (turn.attemptId job) lease parsed).stderrHash =
        (turnCollected sha256 worker turn (turn.attemptId job)).stderrHash ∧
      (turnAttempt sha256 worker turn (turn.attemptId job) lease parsed).reportDigest =
        (turnCollected sha256 worker turn (turn.attemptId job)).reportDigest := by
    simp only [turnAttempt, Turn.attempt, turnCapture, h.executed, evidenced, and_self]
  rw [h.collected hspared sha256] at hcapture
  exact hcapture

/-- A verification's own evidence is what is submitted, if it replaces what was there. What is
collected depends on the files as the verification leaves them, and what still runs does not
touch the files that are collected. -/
theorem Submitted.evidenceOf_iff
    (hsubmitted : Submitted sha256 maxNesting worker runId turn store job attempt)
    (h : Verifies worker turn (turn.attemptId job) manifest process)
    (hspared : turn.lingering.Spares
      ((builtFiles worker turn (turn.attemptId job) manifest).left process) manifest.reportPath) :
    EvidenceOf sha256 (leftFiles worker turn (turn.attemptId job) manifest) attempt process
        manifest.reportPath ↔
      Replaces ((builtFiles worker turn (turn.attemptId job) manifest).left process) process
        manifest.reportPath := by
  have hkeeps := h.keeps hsubmitted.survives
  obtain ⟨hstdout, hstderr, hreport⟩ := hsubmitted.digests h hspared
  have hlogs : ∀ log, logBytesOf (leftFiles worker turn (turn.attemptId job) manifest) log =
      logBytesOf ((builtFiles worker turn (turn.attemptId job) manifest).after process) log := by
    intro log
    rw [h.leftFiles_eq, hspared.logBytesOf_eq]
  have hfound : (leftFiles worker turn (turn.attemptId job) manifest).report manifest.reportPath =
      ((builtFiles worker turn (turn.attemptId job) manifest).after process).report
        manifest.reportPath := by
    rw [h.leftFiles_eq, hspared.report_eq]
  constructor
  · intro hevidence
    refine replaces_of_collected ?_ ?_ hkeeps
    · intro log
      rw [← hlogs]
      exact hevidence.logs log
    · rw [← hfound]
      exact hevidence.report
  · intro hreplaces
    have hbytes := congrArg (Option.map fun content => content.take maxArtifactBytes)
      hreplaces.reportBytes
    exact {
      logs := by
        intro log
        rw [hlogs]
        exact hreplaces.logs log
      report := by
        rw [hfound]
        exact hbytes
      stdoutHash := hstdout.trans (outputDigest_of_log (hreplaces.logs .stdout))
      stderrHash := hstderr.trans (outputDigest_of_log (hreplaces.logs .stderr))
      reportDigest := hreport.trans (congrArg (outputDigest sha256) hbytes) }

def ownCapture (sha256 : List UInt8 → Digest) (process : Process) (attemptId reportPath : String) :
    ExecutionCapture :=
  { process.capture sha256 attemptId (process.wrote reportPath) with
    stdoutHash := hashUnlessEmpty sha256 process.stdoutBytes
    stderrHash := hashUnlessEmpty sha256 process.stderrBytes
    reportDigest := outputDigest sha256
      ((process.wrote reportPath).map fun content => content.take maxArtifactBytes) }

/-- A turn judges its verification alone where that replaces what the build left. -/
theorem Verifies.judgesOwn {attemptId : String} {parsed : ParsedOutcome}
    (h : Verifies worker turn attemptId manifest process)
    (hspared : turn.lingering.Spares ((builtFiles worker turn attemptId manifest).left process)
      manifest.reportPath)
    (hreplaces : Replaces ((builtFiles worker turn attemptId manifest).left process) process
      manifest.reportPath)
    (hclassified : TurnClassified sha256 maxNesting worker turn attemptId parsed) :
    parseCapture maxNesting (ownCapture sha256 process attemptId manifest.reportPath) manifest
      ((process.wrote manifest.reportPath).map fun content => content.take maxArtifactBytes) =
        .ok parsed := by
  rw [TurnClassified, h.collected hspared, h.executed] at hclassified
  obtain ⟨result, hparsed, hresult⟩ := bind_eq_ok.mp hclassified
  obtain ⟨_, rfl⟩ := Prod.mk.inj (Except.ok.inj hresult)
  have hreport : reportBytesOf (some manifest)
      ((builtFiles worker turn attemptId manifest).after process) =
        (process.wrote manifest.reportPath).map fun content => content.take maxArtifactBytes :=
    congrArg _ hreplaces.reportBytes
  simp only [collectedOf, hreport, hreplaces.reportBytes,
    outputDigest_of_log (hreplaces.logs .stdout), outputDigest_of_log (hreplaces.logs .stderr)]
    at hparsed
  exact hparsed

/-- The classification does not look at the name of the attempt. -/
theorem parseCapture_ownCapture (id id' : String) {reportPath : String}
    {reportBytes : Option (List UInt8)} :
    parseCapture maxNesting (ownCapture sha256 process id' reportPath) manifest reportBytes =
      parseCapture maxNesting (ownCapture sha256 process id reportPath) manifest reportBytes :=
  rfl

end Turn

/-! ## Two turns -/

section Turns

variable {sha256 : List UInt8 → Digest} {maxNesting : Nat} {worker : Worker}
  {runId : Option String} {turn turn' : Turn} {store store' : ArtifactStore} {job job' : Job}
  {attempt attempt' : EvaluationAttempt} {manifest : VerifierManifest} {process : Process}

theorem sameJudgement_of_replaces
    (hfirst : Submitted sha256 maxNesting worker runId turn store job attempt)
    (hsecond : Submitted sha256 maxNesting worker runId turn' store' job' attempt')
    (hverifies : Verifies worker turn (turn.attemptId job) manifest process)
    (hverifies' : Verifies worker turn' (turn'.attemptId job') manifest process)
    (hspared : turn.lingering.Spares
      ((builtFiles worker turn (turn.attemptId job) manifest).left process) manifest.reportPath)
    (hspared' : turn'.lingering.Spares
      ((builtFiles worker turn' (turn'.attemptId job') manifest).left process) manifest.reportPath)
    (hreplaces : Replaces ((builtFiles worker turn (turn.attemptId job) manifest).left process)
      process manifest.reportPath)
    (hreplaces' : Replaces ((builtFiles worker turn' (turn'.attemptId job') manifest).left process)
      process manifest.reportPath) : SameJudgement attempt attempt' := by
  have hown := (hfirst.evidenceOf_iff hverifies hspared).mpr hreplaces
  have hown' := (hsecond.evidenceOf_iff hverifies' hspared').mpr hreplaces'
  obtain ⟨lease, parsed, hclassified, rfl⟩ := hfirst.attempt
  obtain ⟨lease', parsed', hclassified', rfl⟩ := hsecond.attempt
  have hparsed := hverifies.judgesOwn hspared hreplaces hclassified
  have hparsed' := hverifies'.judgesOwn hspared' hreplaces' hclassified'
  rw [parseCapture_ownCapture (turn.attemptId job), hparsed] at hparsed'
  obtain rfl := Except.ok.inj hparsed'
  exact {
    stdoutHash := hown'.stdoutHash.trans hown.stdoutHash.symm
    stderrHash := hown'.stderrHash.trans hown.stderrHash.symm
    reportDigest := hown'.reportDigest.trans hown.reportDigest.symm
    outcome := rfl
    errorCode := rfl }

end Turns

def talkingBuild : Process :=
  { quietProcess with stdout := .closed [[120]] }

/-- A build before a verification that says nothing. -/
def builtTurn (build : Process) : Turn :=
  plainTurn (.ok (plainManifest ["make"] ["pytest"])) build quietProcess

theorem builtTurn_submitted {build : Process} (huntouched : build.writes = .untouched) :
    ∃ attempt, Submitted (fun _ => xDigest) 1000 plainWorker none (builtTurn build) soloStore
      soloHandle attempt :=
  plainTurn_submitted (plainTurn_survives (by decide) (by decide) huntouched rfl)

theorem builtTurn_verifies {build : Process} (hexit : build.exitCode = 0) :
    Verifies plainWorker (builtTurn build) ((builtTurn build).attemptId soloHandle)
      (plainManifest ["make"] ["pytest"]) quietProcess :=
  ⟨plainTurn_ready, fun hfails => hfails.2 hexit, rfl⟩

/-- The directories of such a turn when its verification has ended. -/
def builtLeft (build : Process) : AttemptFiles :=
  (builtFiles plainWorker (builtTurn build) ((builtTurn build).attemptId soloHandle)
    (plainManifest ["make"] ["pytest"])).left quietProcess

/-- The directories of such a turn as they are collected. -/
def builtCollected (build : Process) : AttemptFiles :=
  leftFiles plainWorker (builtTurn build) ((builtTurn build).attemptId soloHandle)
    (plainManifest ["make"] ["pytest"])

theorem quietProcess_output : quietProcess.stdoutBytes = [] ∧ quietProcess.stderrBytes = [] :=
  ⟨rfl, rfl⟩

theorem talkingBuild_output : talkingBuild.stdoutBytes = [120] ∧ talkingBuild.stderrBytes = [] :=
  ⟨rfl, rfl⟩

/-- A silent verification leaves the log of the build as it is. -/
theorem builtFiles_after (build : Process) :
    (builtFiles plainWorker (builtTurn build) "attempt" (plainManifest ["make"] ["pytest"])).after
      quietProcess = (builtTurn build).freshFiles.after build := by
  have hbuilt : builtFiles plainWorker (builtTurn build) "attempt"
      (plainManifest ["make"] ["pytest"]) = (builtTurn build).freshFiles.after build :=
    if_neg (List.cons_ne_nil _ _)
  obtain ⟨hstdout, hstderr⟩ := quietProcess_output
  rw [hbuilt, AttemptFiles.after, hstdout, hstderr, AttemptFiles.withLogs_nil]
  rfl

/-- So what it submits is the output of the build. The verification says nothing and so writes
no log, and the one of the build is still there. -/
theorem builtTurn_stdoutHash {build : Process} {attempt : EvaluationAttempt}
    (hsubmitted : Submitted (fun _ => xDigest) 1000 plainWorker none (builtTurn build) soloStore
      soloHandle attempt) (hexit : build.exitCode = 0) (huntouched : build.writes = .untouched) :
    attempt.stdoutHash = hashUnlessEmpty (fun _ => xDigest) build.stdoutBytes := by
  have hattempt : (builtTurn build).attemptId soloHandle = "attempt" := rfl
  have hstdout := (hsubmitted.digests (builtTurn_verifies hexit)
    (Changes.untouched_spares _ _)).1
  rw [hattempt, builtFiles_after] at hstdout
  have hfresh : ((builtTurn build).freshFiles.left build) = (builtTurn build).freshFiles := by
    rw [AttemptFiles.left, huntouched, AttemptFiles.change_untouched]
  have hlog : ((builtTurn build).freshFiles.after build).entry (.log .stdout) =
      if build.stdoutBytes ≠ [] then .file build.stdoutBytes else .missing := by
    rw [AttemptFiles.after, hfresh, AttemptFiles.withLogs_entry rfl, if_neg (by rintro ⟨_, ⟨⟩⟩)]
    by_cases hsilent : build.stdoutBytes = []
    · rw [if_neg (fun h => h.1 hsilent), if_neg (fun h => h hsilent)]
      rfl
    · rw [if_pos ⟨hsilent, rfl⟩, if_pos hsilent]
      rfl
  rw [hstdout, logBytesOf_present (after_captureDir.trans (by rw [hfresh]; rfl)), after_place,
    hfresh]
  have hplace : (builtTurn build).freshFiles.place .stdout = .log .stdout := rfl
  rw [hplace, hlog]
  by_cases hsilent : build.stdoutBytes = []
  · rw [hsilent]
    rfl
  · have hshown : (Entry.file build.stdoutBytes).found.bytes?.filter (· ≠ []) =
        some build.stdoutBytes := Option.filter_some_pos (decide_eq_true hsilent)
    rw [if_pos hsilent, hshown, hashUnlessEmpty, if_neg hsilent]
    rfl

end VerifierCI
