import VerifierCI.Execution.AttemptFiles
import VerifierCI.Models.Capture

/-! # Supervised processes

A process is what it does under supervision: what its two streams yield and
when, what it leaves in the directories of its attempt, and how it ends. The
supervisor writes the streams that are not empty to the capture directory.
-/

namespace VerifierCI

open Python

def defaultMaxCaptureBytes : Nat := 10 * 1024 * 1024

/-- What successive reads of a stream return; an empty read ends it. A stream that is inherited
may outlive the process, and the supervisor waits for its reader no longer than five seconds. -/
structure Stream where
  /-- The reads before the supervisor takes what has been read. -/
  inTime : List (List UInt8)
  /-- The reads after that and before it looks at the flag. -/
  raced : List (List UInt8)
  /-- All later reads. -/
  late : List (List UInt8)

namespace Stream

def flagged (stream : Stream) : List (List UInt8) :=
  stream.inTime ++ stream.raced

def reads (stream : Stream) : List (List UInt8) :=
  stream.inTime ++ stream.raced ++ stream.late

def closed (chunks : List (List UInt8)) : Stream where
  inTime := chunks ++ [[]]
  raced := []
  late := []

end Stream

/-- The behaviour of one process under supervision. -/
structure Process where
  /-- The text of the exception that starting or awaiting it raises. -/
  launchError : Option String
  timedOut : Bool
  exitStatus : Int
  exitStatus_mem : -128 ≤ exitStatus ∧ exitStatus ≤ 255
  stdout : Stream
  stderr : Stream
  /-- What it leaves in the directories of the attempt. -/
  writes : Changes
  elapsed : PyFloat
  elapsed_finite : elapsed.isFinite = true

/-- The loop of a reader thread: the bytes kept so far, and whether some were
dropped. -/
def readCapped (maxBytes : Nat) (buf : List UInt8) (truncated : Bool) :
    List (List UInt8) → List UInt8 × Bool
  | [] => (buf, truncated)
  | [] :: _ => (buf, truncated)
  | chunk :: rest =>
      let remaining := maxBytes - buf.length
      if 0 < remaining then
        readCapped maxBytes (buf ++ chunk.take remaining)
          (truncated || decide (remaining < chunk.length)) rest
      else readCapped maxBytes buf true rest

def captureStream (chunks : List (List UInt8)) : List UInt8 × Bool :=
  readCapped defaultMaxCaptureBytes [] false chunks

namespace Process

variable (process : Process)

/-- Nothing is captured of a process that did not start. -/
def stdoutBytes : List UInt8 :=
  if process.launchError.isSome then [] else (captureStream process.stdout.inTime).1

def stderrBytes : List UInt8 :=
  if process.launchError.isSome then [] else (captureStream process.stderr.inTime).1

/-- The readers set the flag as long as they run. -/
def streamsTruncated : Bool :=
  process.launchError.isNone &&
    ((captureStream process.stdout.flagged).2 || (captureStream process.stderr.flagged).2)

def exitCode : Int :=
  if process.launchError.isSome || process.timedOut then -1 else process.exitStatus

end Process

/-- 0.0 and 1.0. -/
def floatZero : PyFloat := ⟨0⟩

theorem floatZero_finite : floatZero.isFinite = true := rfl

theorem exitStatus_zero_mem : (-128 : Int) ≤ 0 ∧ (0 : Int) ≤ 255 := by decide

def floatOne : PyFloat := ⟨0x3ff0000000000000⟩

section Execute

variable (sha256 : List UInt8 → Digest)

/-- `sha256(data).hexdigest() if data else None`. -/
def hashUnlessEmpty (data : List UInt8) : Option String :=
  if data = [] then none else some (sha256 data).text

/-- The digest of at most so many bytes, as far as the supervisor reads them. -/
def reportDigest (content : List UInt8) : String :=
  (sha256 (content.take defaultMaxCaptureBytes)).text

/-- The capture of a process whose report has these bytes. -/
def Process.capture (process : Process) (attemptId : String) (report : Option (List UInt8)) :
    ExecutionCapture where
  attemptId := attemptId
  exitCode := some process.exitCode
  timedOut := process.launchError.isNone && process.timedOut
  oomKilled := some false
  cancelled := false
  buildExitCode := none
  stdoutHash := hashUnlessEmpty sha256 process.stdoutBytes
  stderrHash := hashUnlessEmpty sha256 process.stderrBytes
  reportDigest := report.map (reportDigest sha256)
  truncated := process.streamsTruncated ||
    report.any fun content => defaultMaxCaptureBytes < content.length
  resources :=
    { duration := some process.elapsed
      allocatedCpu := some floatOne
      cpuSeconds := some process.elapsed
      peakMemory := none
      modelUsage := none
      estimatedCost := none
      pricingVersion := none
      bytesWritten := some (process.stdoutBytes.length + process.stderrBytes.length) }
  runtimeError := process.launchError.map ("Subprocess launch failed: " ++ ·)

/-- The directories when a process has ended. -/
def AttemptFiles.left (files : AttemptFiles) (process : Process) : AttemptFiles :=
  files.change process.writes

/-- The directories after a supervised process, with its streams kept. -/
def AttemptFiles.after (files : AttemptFiles) (process : Process) : AttemptFiles :=
  (files.left process).withLogs process.stdoutBytes process.stderrBytes

/-- Nothing stands in the way of the streams of the process when it has ended. -/
def AttemptFiles.Keeps (files : AttemptFiles) (process : Process) : Prop :=
  (files.left process).TakesLogs process.stdoutBytes process.stderrBytes

/-- Supervise a process within the attempt workspace. -/
def execute (attemptId : String) (process : Process) (files : AttemptFiles) (reportPath : String) :
    Except Exc (ExecutionCapture × AttemptFiles) := do
  let files ← (files.left process).keepLogs process.stdoutBytes process.stderrBytes
  let report ← (files.report reportPath).content?
  .ok (process.capture sha256 attemptId report, files)

end Execute

/-! ## What is captured -/

/-- What a stream yields until it ends. -/
def streamBytes (chunks : List (List UInt8)) : List UInt8 :=
  (chunks.takeWhile (· ≠ [])).flatten

theorem streamBytes_cons {chunk : List UInt8} (hne : chunk ≠ []) (rest : List (List UInt8)) :
    streamBytes (chunk :: rest) = chunk ++ streamBytes rest := by
  simp [streamBytes, hne]

theorem capped_at_end {maxBytes : Nat} {buf : List UInt8} (hbuf : buf.length ≤ maxBytes)
    (truncated : Bool) : (buf, truncated) = ((buf ++ []).take maxBytes,
      truncated || decide (maxBytes < (buf ++ []).length)) := by
  rw [List.append_nil, List.take_of_length_le hbuf, decide_eq_false (Nat.not_lt.mpr hbuf),
    Bool.or_false]

/-- The reader keeps the first bytes up to the cap and knows whether there were more. By
induction on the chunks: the cap lies behind the next one, falls into it, or has been
reached. -/
theorem readCapped_eq {maxBytes : Nat} {buf : List UInt8} (hbuf : buf.length ≤ maxBytes)
    (truncated : Bool) (chunks : List (List UInt8)) :
    readCapped maxBytes buf truncated chunks = ((buf ++ streamBytes chunks).take maxBytes,
      truncated || decide (maxBytes < (buf ++ streamBytes chunks).length)) := by
  induction chunks generalizing buf truncated with
  | nil => exact capped_at_end hbuf truncated
  | cons chunk rest ih =>
      -- An empty chunk is the end of the stream, whatever is listed behind it.
      by_cases hchunk : chunk = []
      · subst hchunk
        exact capped_at_end hbuf truncated
      · have hstep : readCapped maxBytes buf truncated (chunk :: rest) =
            if 0 < maxBytes - buf.length then
              readCapped maxBytes (buf ++ chunk.take (maxBytes - buf.length))
                (truncated || decide (maxBytes - buf.length < chunk.length)) rest
            else readCapped maxBytes buf true rest := by
          rw [readCapped]
          exact hchunk
        have hpos : 0 < chunk.length := List.length_pos_of_ne_nil hchunk
        rw [hstep, streamBytes_cons hchunk]
        split
        next hremaining =>
          have hkept : (buf ++ chunk.take (maxBytes - buf.length)).length ≤ maxBytes := by
            rw [List.length_append, List.length_take]
            omega
          rw [ih hkept]
          by_cases hfits : chunk.length ≤ maxBytes - buf.length
          · rw [List.take_of_length_le hfits, decide_eq_false (Nat.not_lt.mpr hfits),
              Bool.or_false, List.append_assoc]
          · -- the cap falls into this chunk, whatever follows
            have hfull : (buf ++ chunk.take (maxBytes - buf.length)).length = maxBytes := by
              rw [List.length_append, List.length_take]
              omega
            have hmore : maxBytes < (buf ++ (chunk ++ streamBytes rest)).length := by
              simp only [List.length_append]
              omega
            rw [List.take_append_of_le_length hfull.ge, List.take_of_length_le hfull.le,
              decide_eq_true hmore, decide_eq_true (Nat.lt_of_not_le hfits), Bool.or_true,
              Bool.true_or]
            rw [← List.append_assoc, List.take_append_of_le_length (by simp; omega),
              List.take_append]
            simp [List.take_of_length_le hbuf]
        -- the buffer is full: what follows is read and dropped
        next hfull =>
          have hlength : buf.length = maxBytes := by omega
          have hmore : maxBytes < (buf ++ (chunk ++ streamBytes rest)).length := by
            simp only [List.length_append]
            omega
          rw [ih hbuf, decide_eq_true hmore, Bool.or_true, Bool.true_or,
            List.take_append_of_le_length hlength.ge, List.take_append_of_le_length hlength.ge]

theorem captureStream_eq (chunks : List (List UInt8)) :
    captureStream chunks = ((streamBytes chunks).take defaultMaxCaptureBytes,
      decide (defaultMaxCaptureBytes < (streamBytes chunks).length)) := by
  rw [captureStream, readCapped_eq (Nat.zero_le _), List.nil_append, Bool.false_or]

/-- Supervision raises only when a log cannot be kept or the report cannot be looked up. -/
theorem execute_eq_ok_iff {sha256 : List UInt8 → Digest} {attemptId reportPath : String}
    {process : Process} {files files' : AttemptFiles} {capture : ExecutionCapture} :
    execute sha256 attemptId process files reportPath = .ok (capture, files') ↔
      files.Keeps process ∧ (files.after process).report reportPath ≠ .refused ∧
        files' = files.after process ∧ capture = process.capture sha256 attemptId
          ((files.after process).report reportPath).bytes? := by
  rw [execute, bind_eq_ok]
  constructor
  · rintro ⟨kept, hkept, h⟩
    obtain ⟨htakes, rfl⟩ := AttemptFiles.keepLogs_eq_ok_iff.mp hkept
    obtain ⟨content, hcontent, h⟩ := bind_eq_ok.mp h
    obtain ⟨hfound, rfl⟩ := Found.content?_eq_ok_iff.mp hcontent
    obtain ⟨rfl, rfl⟩ := Prod.mk.inj (Except.ok.inj h)
    exact ⟨htakes, hfound, rfl, rfl⟩
  · rintro ⟨htakes, hfound, rfl, rfl⟩
    refine ⟨_, AttemptFiles.keepLogs_eq_ok_iff.mpr ⟨htakes, rfl⟩, ?_⟩
    exact bind_eq_ok.mpr ⟨_, Found.content?_eq_ok_iff.mpr ⟨hfound, rfl⟩, rfl⟩

theorem captured_length_le (process : Process) :
    process.stdoutBytes.length ≤ defaultMaxCaptureBytes ∧
      process.stderrBytes.length ≤ defaultMaxCaptureBytes := by
  unfold Process.stdoutBytes Process.stderrBytes
  split
  · exact ⟨Nat.zero_le _, Nat.zero_le _⟩
  · simp only [captureStream_eq, List.length_take]
    exact ⟨Nat.min_le_left _ _, Nat.min_le_left _ _⟩

end VerifierCI
