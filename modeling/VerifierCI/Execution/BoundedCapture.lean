import VerifierCI.Execution.Acceptance
import VerifierCI.Execution.Supervision

/-! # Captures under any cap

The cap of a capture is an argument of `execute`. Two reader threads and the digest
loop of the report keep partial sums against it, with reads of different sizes. The
loops are exact; but the supervisor waits for a reader no longer than five seconds, and
a stream that a child of the command keeps open has more to say after that.
-/

namespace VerifierCI

open Python

/-! ## The report -/

/-- The digest loop of a report: what was hashed so far, and what is left of the file.
A read asks for no more than the cap leaves. -/
def digestLoop (maxCaptureBytes : Nat) (hashed content : List UInt8) : List UInt8 :=
  let chunk := content.take (min 8192 (maxCaptureBytes - hashed.length))
  if chunk = [] then hashed
  else if maxCaptureBytes ≤ (hashed ++ chunk).length then hashed ++ chunk
  else digestLoop maxCaptureBytes (hashed ++ chunk) (content.drop chunk.length)
termination_by content.length
decreasing_by
  rename_i hchunk _
  have hpos : 0 < (content.take (min 8192 (maxCaptureBytes - hashed.length))).length :=
    List.length_pos_of_ne_nil hchunk
  have hle := (List.take_prefix (min 8192 (maxCaptureBytes - hashed.length)) content).length_le
  rw [List.length_drop]
  omega

/-- The loop ends with the first bytes up to the cap. -/
theorem digestLoop_eq {maxCaptureBytes : Nat} {hashed : List UInt8}
    (hhashed : hashed.length ≤ maxCaptureBytes) (content : List UInt8) :
    digestLoop maxCaptureBytes hashed content = (hashed ++ content).take maxCaptureBytes := by
  induction hashed, content using digestLoop.induct maxCaptureBytes with
  | case1 hashed content chunk hchunk =>
      rw [digestLoop, if_pos hchunk]
      rcases List.take_eq_nil_iff.mp hchunk with hsize | hcontent
      · rw [List.take_append_of_le_length (by omega), List.take_of_length_le hhashed]
      · rw [hcontent, List.append_nil, List.take_of_length_le hhashed]
  | case2 hashed content chunk hchunk hfull =>
      -- the read that reaches the cap asked for what was left of it
      have hlength : (hashed ++ chunk).length = maxCaptureBytes := by
        have hsize : chunk.length ≤ min 8192 (maxCaptureBytes - hashed.length) :=
          List.length_take_le _ _
        rw [List.length_append] at hfull ⊢
        omega
      have hsplit : hashed ++ content = hashed ++ chunk ++ content.drop chunk.length := by
        rw [List.append_assoc, List.prefix_iff_eq_append.mp (List.take_prefix _ _)]
      rw [digestLoop, if_neg hchunk, if_pos hfull, hsplit,
        List.take_append_of_le_length hlength.ge, List.take_of_length_le hlength.le]
  | case3 hashed content chunk hchunk hfull ih =>
      rw [digestLoop, if_neg hchunk, if_neg hfull, ih (by omega), List.append_assoc,
        List.prefix_iff_eq_append.mp (List.take_prefix _ _)]

/-! ## The supervised process -/

/-- The buffers of the reader threads, and the flag they share. -/
structure Streams where
  stdout : List UInt8
  stderr : List UInt8
  truncated : Bool

section Execute

variable (sha256 : List UInt8 → Digest) (maxCaptureBytes : Nat)

def capStream (bytes : List UInt8) (truncated : Bool) : List UInt8 × Bool :=
  if maxCaptureBytes < bytes.length then (bytes.take maxCaptureBytes, true) else (bytes, truncated)

/-- What is captured of the streams: the buffers as they are in time, and the flag as it is
when the capture is built. A process that did not start has no readers. -/
def Process.streams (process : Process) : Streams :=
  if process.launchError.isSome then { stdout := [], stderr := [], truncated := false }
  else
    let stdout := readCapped maxCaptureBytes [] false process.stdout.inTime
    let stderr := readCapped maxCaptureBytes [] false process.stderr.inTime
    let truncated := (readCapped maxCaptureBytes [] false process.stdout.flagged).2 ||
      (readCapped maxCaptureBytes [] false process.stderr.flagged).2
    let stdout := capStream maxCaptureBytes stdout.1 truncated
    let stderr := capStream maxCaptureBytes stderr.1 stdout.2
    { stdout := stdout.1, stderr := stderr.1, truncated := stderr.2 }

/-- The capture of a process whose report has these bytes. -/
def Process.captureWithin (process : Process) (attemptId : String) (report : Option (List UInt8)) :
    ExecutionCapture :=
  let streams := process.streams maxCaptureBytes
  { attemptId := attemptId
    exitCode := some process.exitCode
    timedOut := process.launchError.isNone && process.timedOut
    oomKilled := some false
    cancelled := false
    buildExitCode := none
    stdoutHash := hashUnlessEmpty sha256 streams.stdout
    stderrHash := hashUnlessEmpty sha256 streams.stderr
    reportDigest := report.map fun content =>
      (sha256 (digestLoop maxCaptureBytes [] content)).text
    truncated := streams.truncated || report.any fun content => maxCaptureBytes < content.length
    resources :=
      { duration := some process.elapsed
        allocatedCpu := some floatOne
        cpuSeconds := some process.elapsed
        peakMemory := none
        modelUsage := none
        estimatedCost := none
        pricingVersion := none
        bytesWritten := some (streams.stdout.length + streams.stderr.length) }
    runtimeError := process.launchError.map ("Subprocess launch failed: " ++ ·) }

/-- The directories after a process supervised with a cap. -/
def AttemptFiles.afterWithin (files : AttemptFiles) (process : Process) : AttemptFiles :=
  (files.left process).withLogs (process.streams maxCaptureBytes).stdout
    (process.streams maxCaptureBytes).stderr

/-- `execute(..., max_capture_bytes=max_capture_bytes)`. -/
def executeWithin (attemptId : String) (process : Process) (files : AttemptFiles)
    (reportPath : String) : Except Exc (ExecutionCapture × AttemptFiles) := do
  let files ← (files.left process).keepLogs (process.streams maxCaptureBytes).stdout
    (process.streams maxCaptureBytes).stderr
  let report ← (files.report reportPath).content?
  .ok (process.captureWithin sha256 maxCaptureBytes attemptId report, files)

end Execute

/-! ## What a cap leaves -/

section Exact

variable {sha256 : List UInt8 → Digest} {maxCaptureBytes : Nat}

/-- The second cap finds nothing to cut. -/
theorem capStream_take (bytes : List UInt8) (truncated : Bool) :
    capStream maxCaptureBytes (bytes.take maxCaptureBytes) truncated =
      (bytes.take maxCaptureBytes, truncated) :=
  if_neg (Nat.not_lt.mpr (List.length_take_le _ _))

theorem readCapped_nil (chunks : List (List UInt8)) :
    readCapped maxCaptureBytes [] false chunks = ((streamBytes chunks).take maxCaptureBytes,
      decide (maxCaptureBytes < (streamBytes chunks).length)) := by
  rw [readCapped_eq (Nat.zero_le _), List.nil_append, Bool.false_or]

/-- What these reads of a stream give: nothing, if the process did not start. -/
def Process.given (process : Process) (reads : List (List UInt8)) : List UInt8 :=
  if process.launchError.isSome then [] else streamBytes reads

/-- The buffers hold what was read in time up to the cap, and the flag tells whether a stream
had more by the time it is looked at. -/
theorem Process.streams_eq (process : Process) : process.streams maxCaptureBytes =
    { stdout := (process.given process.stdout.inTime).take maxCaptureBytes
      stderr := (process.given process.stderr.inTime).take maxCaptureBytes
      truncated := decide (maxCaptureBytes < (process.given process.stdout.flagged).length) ||
        decide (maxCaptureBytes < (process.given process.stderr.flagged).length) } := by
  unfold streams given
  split
  · simp
  · simp only [readCapped_nil, capStream_take]

/-- Under the default cap this is the supervision of the worker. -/
theorem executeWithin_default (attemptId : String) (process : Process) (files : AttemptFiles)
    (reportPath : String) :
    executeWithin sha256 defaultMaxCaptureBytes attemptId process files reportPath =
      execute sha256 attemptId process files reportPath := by
  have hstdout : process.stdoutBytes =
      (process.given process.stdout.inTime).take defaultMaxCaptureBytes := by
    unfold Process.stdoutBytes Process.given
    split <;> simp [captureStream_eq]
  have hstderr : process.stderrBytes =
      (process.given process.stderr.inTime).take defaultMaxCaptureBytes := by
    unfold Process.stderrBytes Process.given
    split <;> simp [captureStream_eq]
  have htruncated : process.streamsTruncated =
      (decide (defaultMaxCaptureBytes < (process.given process.stdout.flagged).length) ||
        decide (defaultMaxCaptureBytes < (process.given process.stderr.flagged).length)) := by
    unfold Process.streamsTruncated Process.given
    cases process.launchError <;> simp [captureStream_eq]
  have hreport (content : List UInt8) :
      (sha256 (digestLoop defaultMaxCaptureBytes [] content)).text =
        reportDigest sha256 content := by
    rw [digestLoop_eq (Nat.zero_le _), List.nil_append, reportDigest]
  simp only [executeWithin, execute, Process.captureWithin, Process.capture, process.streams_eq,
    hstdout, hstderr, htruncated, funext hreport]

/-- One of the streams or the report is larger than the cap. -/
def Process.Exceeds (process : Process) (maxCaptureBytes : Nat) (report : Option (List UInt8)) :
    Prop :=
  maxCaptureBytes < (process.given process.stdout.reads).length ∨
    maxCaptureBytes < (process.given process.stderr.reads).length ∨
      ∃ content, report = some content ∧ maxCaptureBytes < content.length

/-- Both buffers and the digest have the first bytes of everything up to the cap, the flag
says whether that is not all, and then nothing is decided. -/
structure CapturesExactly (sha256 : List UInt8 → Digest) (maxCaptureBytes : Nat)
    (process : Process) (report : Option (List UInt8)) (capture : ExecutionCapture) : Prop where
  stdout : (process.streams maxCaptureBytes).stdout =
    (process.given process.stdout.reads).take maxCaptureBytes
  stderr : (process.streams maxCaptureBytes).stderr =
    (process.given process.stderr.reads).take maxCaptureBytes
  stdoutHash : capture.stdoutHash =
    hashUnlessEmpty sha256 ((process.given process.stdout.reads).take maxCaptureBytes)
  stderrHash : capture.stderrHash =
    hashUnlessEmpty sha256 ((process.given process.stderr.reads).take maxCaptureBytes)
  digest : capture.reportDigest =
    report.map fun content => (sha256 (content.take maxCaptureBytes)).text
  truncated : capture.truncated = true ↔ process.Exceeds maxCaptureBytes report
  undecided : process.Exceeds maxCaptureBytes report →
    ∀ maxNesting manifest reportBytes parsed,
      parseCapture maxNesting capture manifest reportBytes = .ok parsed →
        parsed.outcome ≠ .accept ∧ parsed.outcome ≠ .reject

/-- What is read in time reaches the end of the stream, or the cap. -/
def Process.Reaches (process : Process) (maxCaptureBytes : Nat) (stream : Stream) : Prop :=
  maxCaptureBytes ≤ (process.given stream.inTime).length ∨
    process.given stream.inTime = process.given stream.reads

/-- The supervisor does not look away too early: it has the streams up to the cap when it
takes the buffers, and has seen a byte too many, if there is one, when it looks at the flag. -/
structure Process.InTime (process : Process) (maxCaptureBytes : Nat)
    (report : Option (List UInt8)) : Prop where
  stdout : process.Reaches maxCaptureBytes process.stdout
  stderr : process.Reaches maxCaptureBytes process.stderr
  flagged : process.Exceeds maxCaptureBytes report →
    maxCaptureBytes < (process.given process.stdout.flagged).length ∨
      maxCaptureBytes < (process.given process.stderr.flagged).length ∨
        ∃ content, report = some content ∧ maxCaptureBytes < content.length

/-- An empty read ends a stream, whatever is said to follow. -/
theorem streamBytes_append (reads others : List (List UInt8)) :
    ∃ rest, streamBytes (reads ++ others) = streamBytes reads ++ rest := by
  induction reads with
  | nil => exact ⟨_, rfl⟩
  | cons chunk reads ih =>
      by_cases hchunk : chunk = []
      · subst hchunk
        exact ⟨[], by simp [streamBytes]⟩
      · obtain ⟨rest, hrest⟩ := ih
        refine ⟨rest, ?_⟩
        rw [List.cons_append, streamBytes_cons hchunk, streamBytes_cons hchunk, hrest,
          List.append_assoc]

/-- Later reads only add bytes. -/
theorem Process.given_append (process : Process) (reads others : List (List UInt8)) :
    ∃ rest, process.given (reads ++ others) = process.given reads ++ rest := by
  unfold given
  split
  · exact ⟨[], rfl⟩
  · exact streamBytes_append reads others

/-- A buffer is right up to the cap when its reads reach the end or the cap. -/
theorem Process.take_given_iff (process : Process) (stream : Stream) :
    (process.given stream.inTime).take maxCaptureBytes =
        (process.given stream.reads).take maxCaptureBytes ↔
      process.Reaches maxCaptureBytes stream := by
  obtain ⟨rest, hrest⟩ := process.given_append stream.inTime (stream.raced ++ stream.late)
  have hreads : process.given stream.reads = process.given stream.inTime ++ rest := by
    rw [Stream.reads, List.append_assoc, hrest]
  unfold Reaches
  rw [hreads]
  constructor
  · intro htake
    by_cases hreached : maxCaptureBytes ≤ (process.given stream.inTime).length
    · exact Or.inl hreached
    · -- a buffer below the cap holds all that is to come
      have hlength := congrArg List.length htake
      simp only [List.length_take, List.length_append] at hlength
      have hnone : rest = [] := List.length_eq_zero_iff.mp (by omega)
      exact Or.inr (by rw [hnone, List.append_nil])
  · rintro (hreached | hend)
    · exact (List.take_append_of_le_length hreached).symm
    · exact congrArg _ hend

theorem Process.length_flagged_le (process : Process) (stream : Stream) :
    (process.given stream.flagged).length ≤ (process.given stream.reads).length := by
  obtain ⟨rest, hrest⟩ := process.given_append stream.flagged stream.late
  have hreads : process.given stream.reads = process.given stream.flagged ++ rest := hrest
  rw [hreads, List.length_append]
  omega

/-- A truncated capture decides nothing. -/
theorem undecided_of_truncated {maxNesting : Nat} {capture : ExecutionCapture}
    {manifest : VerifierManifest} {reportBytes : Option (List UInt8)} {parsed : ParsedOutcome}
    (htruncated : capture.truncated = true)
    (h : parseCapture maxNesting capture manifest reportBytes = .ok parsed) :
    parsed.outcome ≠ .accept ∧ parsed.outcome ≠ .reject := by
  have hundecided : ¬ (parsed.outcome = .accept ∨ parsed.outcome = .reject) := by
    intro hdecided
    have hvalid := (parseCapture_parsed h).consistent.valid hdecided
    have hlimit := (parseCapture_valid h hvalid).limit
    unfold limitError? at hlimit
    rw [if_pos htruncated] at hlimit
    split_ifs at hlimit
  exact not_or.mp hundecided

/-- The flag tells of the reads made before it is looked at, not of the streams as they are in
the end. -/
theorem captureWithin_truncated (process : Process) (attemptId : String)
    (report : Option (List UInt8)) :
    (process.captureWithin sha256 maxCaptureBytes attemptId report).truncated = true ↔
      maxCaptureBytes < (process.given process.stdout.flagged).length ∨
        maxCaptureBytes < (process.given process.stderr.flagged).length ∨
          ∃ content, report = some content ∧ maxCaptureBytes < content.length := by
  simp only [Process.captureWithin, process.streams_eq, Bool.or_eq_true, decide_eq_true_eq,
    Option.any_eq_true, or_assoc]

/-- A capture is exact when its streams are read in time, and only then. What a pipe gives after
the deadline of its reader is neither kept nor counted. -/
theorem captureWithin_exact_iff (process : Process) (attemptId : String)
    (report : Option (List UInt8)) :
    CapturesExactly sha256 maxCaptureBytes process report
        (process.captureWithin sha256 maxCaptureBytes attemptId report) ↔
      process.InTime maxCaptureBytes report := by
  have hstreams := @Process.streams_eq maxCaptureBytes process
  constructor
  · intro h
    -- The buffers are what the readers had in time; exactness says that this was enough.
    have hstdout := h.stdout
    have hstderr := h.stderr
    rw [hstreams] at hstdout hstderr
    exact {
      stdout := (process.take_given_iff _).mp hstdout
      stderr := (process.take_given_iff _).mp hstderr
      flagged := fun hexceeds =>
        (captureWithin_truncated process attemptId report).mp (h.truncated.mpr hexceeds) }
  · intro h
    have hstdout := (process.take_given_iff _).mpr h.stdout
    have hstderr := (process.take_given_iff _).mpr h.stderr
    have htruncated : (process.captureWithin sha256 maxCaptureBytes attemptId report).truncated =
        true ↔ process.Exceeds maxCaptureBytes report := by
      -- The flag never tells of more than there is, as the reads it tells of are among all reads.
      rw [captureWithin_truncated]
      constructor
      · rintro (hmore | hmore | hmore)
        · exact Or.inl (hmore.trans_le (process.length_flagged_le _))
        · exact Or.inr (Or.inl (hmore.trans_le (process.length_flagged_le _)))
        · exact Or.inr (Or.inr hmore)
      · exact h.flagged
    have hloop (content : List UInt8) :
        digestLoop maxCaptureBytes [] content = content.take maxCaptureBytes :=
      digestLoop_eq (Nat.zero_le _) content
    exact {
      stdout := by rw [hstreams, hstdout]
      stderr := by rw [hstreams, hstderr]
      stdoutHash := by rw [Process.captureWithin, hstreams, hstdout]
      stderrHash := by rw [Process.captureWithin, hstreams, hstderr]
      digest := by simp only [Process.captureWithin, hloop]
      truncated := htruncated
      undecided := fun hexceeds _ _ _ _ hparsed =>
        undecided_of_truncated (htruncated.mpr hexceeds) hparsed }

/-- Where the logs can be written and the report be looked up, the directories and the capture
are determined by the process. -/
theorem executeWithin_ok {attemptId reportPath : String} {process : Process}
    {files files' : AttemptFiles} {capture : ExecutionCapture}
    (h : executeWithin sha256 maxCaptureBytes attemptId process files reportPath =
      .ok (capture, files')) :
    files' = files.afterWithin maxCaptureBytes process ∧
      capture = process.captureWithin sha256 maxCaptureBytes attemptId
        ((files.afterWithin maxCaptureBytes process).report reportPath).bytes? := by
  obtain ⟨kept, hkept, h⟩ := bind_eq_ok.mp h
  obtain ⟨_, rfl⟩ := AttemptFiles.keepLogs_eq_ok_iff.mp hkept
  obtain ⟨content, hcontent, hresult⟩ := bind_eq_ok.mp h
  obtain ⟨_, rfl⟩ := Found.content?_eq_ok_iff.mp hcontent
  obtain ⟨rfl, rfl⟩ := Prod.mk.inj (Except.ok.inj hresult)
  exact ⟨rfl, rfl⟩

end Exact

/-! ### Output that comes too late -/

/-- The text of the SHA-256 digest of the bytes `abc`. -/
def keptText : String := "ba7816bf8f01cfea414140de5dae2223b00361a396177a9cb410ff61f20015ad"

theorem keptText_length : keptText.length = 64 := String.length_ofList

theorem keptText_hex :
    (keptText.toList.all fun c => "0123456789abcdef".toList.contains c) = true :=
  hex_ofList rfl

def keptDigest : Digest where
  text := keptText
  length_eq := keptText_length
  hex := keptText_hex

/-- A command that leaves this report and succeeds. -/
def reportingProcess (stdout : Stream) (report : List UInt8) : Process where
  launchError := none
  timedOut := false
  exitStatus := 0
  exitStatus_mem := exitStatus_zero_mem
  stdout := stdout
  stderr := .closed []
  writes :=
    { Changes.untouched with
      entry := fun path => if path = .out "report.json" then some (.file report) else none }
  elapsed := floatZero
  elapsed_finite := floatZero_finite

def emptyFiles : AttemptFiles where
  captureDir := .present
  place := .log
  entry := fun _ => .missing

/-- A child of the command prints so many bytes after the supervisor has stopped waiting. -/
def outlivedProcess (size : Nat) : Process :=
  reportingProcess { inTime := [], raced := [], late := [List.replicate size 0] } passedReport

theorem outlivedProcess_given {size : Nat} (hpos : 0 < size) :
    ((outlivedProcess size).given (outlivedProcess size).stdout.reads).length = size := by
  have hne : List.replicate size (0 : UInt8) ≠ [] := by
    simpa using hpos.ne'
  have hreads : (outlivedProcess size).stdout.reads = [List.replicate size 0] := rfl
  have hgiven : (outlivedProcess size).given [List.replicate size 0] =
      streamBytes [List.replicate size 0] := rfl
  rw [hreads, hgiven, streamBytes_cons hne]
  simp [streamBytes]

end VerifierCI
